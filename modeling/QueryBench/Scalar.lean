import QueryBench.Decimal.Binary

/-!
# Arithmetic of figures

Figure geometry is computed in binary64 numbers.  It is written once for any
`Scalar`, so that the same definitions can be read over the exact rationals,
where their laws hold without rounding.
-/

namespace QueryBench

/-- Numbers that figure geometry can be computed in. -/
class Scalar (α : Type) extends Add α, Sub α, Mul α, Div α, Neg α, LT α, LE α,
    OfScientific α where
  ofNat : Nat → α
  decLt : DecidableLT α
  decLe : DecidableLE α
  /-- Neither infinite nor undefined. -/
  isFinite : α → Bool
  /-- The nearest whole pixel, halves away from zero. -/
  pixel : α → Int

namespace Scalar

instance (priority := low) {α : Type} [Scalar α] : DecidableLT α := decLt

instance (priority := low) {α : Type} [Scalar α] : DecidableLE α := decLe

instance (priority := low) {α : Type} [Scalar α] (n : Nat) : OfNat α n := ⟨ofNat n⟩

variable {α : Type} [Scalar α]

/-- The larger of two numbers, the second where they are equal; the other one where
one is undefined. -/
def larger (a b : α) : α := if a ≤ b ∨ ¬ a ≤ a then b else a

/-- The smaller of two numbers, the second where they are equal; the other one where
one is undefined. -/
def smaller (a b : α) : α := if b ≤ a ∨ ¬ a ≤ a then b else a

def pixelOfFloat (x : Float) : Int :=
  (FloatClass.ofFloat x).clampedInt Binary.nearest Int32.minValue.toInt Int32.maxValue.toInt

instance : Scalar Float where
  ofNat := Float.ofNat
  decLt := inferInstance
  decLe := inferInstance
  isFinite := Float.isFinite
  pixel := pixelOfFloat

def pixelOfRat (x : Rat) : Int :=
  if x < 0 then -(-x + 1 / 2).floor else (x + 1 / 2).floor

instance : Scalar Rat where
  ofNat n := n
  decLt := inferInstance
  decLe := inferInstance
  isFinite _ := true
  pixel := pixelOfRat

end Scalar
end QueryBench
