import QueryBench.Decimal.Text

/-!
# Ticks of an axis

The values marked on an axis are multiples of a step of one, two or five times a
power of ten, the smallest step that gives at most a wanted number of marks.
-/

namespace QueryBench
namespace Ticks

/-- Differences below this count as none. -/
def tolerance : Float := 2.220446049250313e-16

/-- What is left of `a` after whole steps of `b`. -/
def remainder (a b : Float) : Float :=
  let r := if 0.0 < b then a - (a / b).floor * b else a - (a / b).ceil * b
  if (r - b).abs < tolerance then 0.0 else r

/-- The first multiple of a step that is not below `low`. -/
def firstMultiple (low step : Float) : Float :=
  let left := low - remainder low step
  if left < low then left + step else left

/-- The last multiple of a step that is not above `high`. -/
def lastMultiple (high step : Float) : Float := high - remainder high step

/-- A size rounded to a count. -/
def roundedCount (x : Float) : Nat :=
  ((FloatClass.ofFloat x).clampedInt Binary.nearest 0 (UInt64.size - 1)).toNat

/-- A size rounded down to a count. -/
def floorCount (x : Float) : Nat :=
  ((FloatClass.ofFloat x).clampedInt Binary.integerPart 0 (UInt64.size - 1)).toNat

/-- A step, and the grain that marks are rounded to. -/
structure Scale where
  step : Float
  grain : Float

/-- Whether the marks at a part of a step are too many. -/
def tooMany (low high : Float) (most : Nat) (step part : Float) : Bool :=
  let marks := 1.0 + (lastMultiple high (step / part) - firstMultiple low (step / part)) /
    step * part
  decide (most < roundedCount marks)

/-- The finest of some parts of a step before one that gives too many marks, and
whether there is such a one. -/
def refine (low high : Float) (most : Nat) (step : Float) (finest : Float) :
    List Float → Float × Bool
  | [] => (finest, false)
  | part :: rest =>
      if tooMany low high most step part then (finest, true)
      else refine low high most step (step / part) rest

/-- Refines the step while the marks are not too many, at most `n` times. -/
def refineAll (low high : Float) (most : Nat) : Nat → Scale → Scale
  | 0, s => s
  | n + 1, s =>
      match refine low high most s.step s.step [2.0, 5.0, 10.0] with
      | (finest, true) => { s with step := finest }
      | (_, false) => refineAll low high most n ⟨s.step / 10.0, s.grain / 10.0⟩

/-- The power of ten that does not exceed the length of the range, or the next one
where that gives too many marks. -/
def coarse (low high : Float) (most : Nat) : Scale :=
  let step := Float.pow 10.0 (Float.log (high - low) / Float.log 10.0).floor
  if most < 1 + floorCount ((high - low) / step).floor then ⟨step * 10.0, step / 10.0 * 10.0⟩
  else ⟨step, step / 10.0⟩

/-- Marks from one on, at most `n`, relative to a base. -/
def marksFrom (s : Scale) (base right : Float) : Nat → Float → List Float
  | 0, _ => []
  | n + 1, offset =>
      if -tolerance ≤ right - offset - base then
        let rounded := (offset / s.grain).round * s.grain
        let offset := if rounded < 0.0 then offset + s.grain else offset
        (offset + base) :: marksFrom s base right n (offset + s.step)
      else []

/-- A number of steps that leads from one value beyond another.  Offsets are taken off
with rounding, so that it takes some last places more than the values are apart. -/
def Scale.stepsBeyond (s : Scale) (left right : Float) : Nat :=
  let slack := 4.0 * tolerance * (1.0 + left.abs + right.abs)
  floorCount ((right - left + slack) / s.step) + 8

/-- A step is refined at most this often; it has then left the range of numbers. -/
def refinements : Nat := 700

/-- The marks of a range: about `most` of them or fewer, but many where its ends differ
in their last places only. -/
def marks (low high : Float) (most : Nat) : List Float :=
  if (low - high).abs < tolerance then [low]
  else
    let s := refineAll low high most refinements (coarse low high most)
    let left := firstMultiple low s.step
    let right := lastMultiple high s.step
    let base := (left / s.grain).floor * s.grain
    marksFrom s base right (s.stepsBeyond left right) (left - base)

/-- The text at a mark: fewer places for larger values. -/
def latencyText (x : Float) : String :=
  if x == 0.0 then "0"
  else if x.abs ≥ 10.0 then Decimal.fixedText 0 x
  else if x.abs ≥ 1.0 then Decimal.fixedText 1 x
  else Decimal.fixedText 2 x

end Ticks
end QueryBench
