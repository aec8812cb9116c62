import QueryBench.Decimal.Text
import QueryBench.Scalar

/-!
# Broken axes

One tall bar can flatten all others of a panel.  A broken axis keeps small values
at full size, squeezes the band between `lower` and `upper` into a gap, and goes
on above it up to `max`.  Values above `max` are cut off there.
-/

namespace QueryBench

structure BrokenAxis (α : Type) where
  lower : α
  upper : α
  max : α
  /-- Height of the squeezed band on the axis. -/
  gap : α
deriving DecidableEq, Repr

namespace BrokenAxis

/-- Why an axis cannot be broken so. -/
inductive Fault (α : Type) where
  | bounds (lower upper max : α)
  | gap (gap band : α)
deriving DecidableEq, Repr

def Fault.message : Fault Float → String
  | bounds l u m =>
      s!"broken axis needs 0 < lower < upper < max, got {Decimal.plainText l} / " ++
        s!"{Decimal.plainText u} / {Decimal.plainText m}"
  | gap g band =>
      s!"broken axis gap {Decimal.plainText g} must be positive and smaller than the " ++
        s!"torn band {Decimal.plainText band}"

variable {α : Type} [Scalar α]

/-- The axis with these bounds, which have to be positive and ascending, and with a
gap smaller than the band. -/
def ofBounds (lower upper max gap : α) : Except (Fault α) (BrokenAxis α) :=
  if !([lower, upper, max, gap].all Scalar.isFinite) ∨ lower ≤ 0 ∨ upper ≤ lower ∨
      max ≤ upper then
    .error (.bounds lower upper max)
  else if gap ≤ 0 ∨ upper - lower ≤ gap then .error (.gap gap (upper - lower))
  else .ok ⟨lower, upper, max, gap⟩

def gapStart (a : BrokenAxis α) : α := a.lower

def gapEnd (a : BrokenAxis α) : α := a.lower + a.gap

/-- Whether a value is cut off. -/
def clips (a : BrokenAxis α) (value : α) : Bool := decide (a.max < value)

/-- Where a value stands on the axis. -/
def project (a : BrokenAxis α) (value : α) : α :=
  let v := Scalar.smaller value a.max
  if v ≤ a.lower then v
  else if v < a.upper then a.lower + a.gap * (v - a.lower) / (a.upper - a.lower)
  else a.lower + a.gap + (v - a.upper)

/-- The value that stands at a position. -/
def unproject (a : BrokenAxis α) (position : α) : α :=
  if position ≤ a.gapStart then position
  else if position < a.gapEnd then
    a.lower + (position - a.lower) * (a.upper - a.lower) / a.gap
  else position - a.gap + a.upper - a.lower

/-- Height of the whole axis. -/
def top (a : BrokenAxis α) : α := a.project a.max

end BrokenAxis
end QueryBench
