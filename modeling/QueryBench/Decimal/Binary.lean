/-!
# Binary floating point, exactly

A finite binary64 value is `± mantissa * 2 ^ exponent`.  All rounding to whole
numbers or to decimal places is done on this form, in exact arithmetic.
-/

namespace QueryBench

/-- Which neighbour a value exactly halfway between two gets. -/
inductive Tie where
  | toEven
  | awayFromZero
deriving DecidableEq, Repr

/-- The whole number nearest to `num / den`. -/
def roundDiv (num den : Nat) (tie : Tie) : Nat :=
  let q := num / den
  let r := num % den
  match compare (2 * r) den, tie with
  | .lt, _ => q
  | .gt, _ => q + 1
  | .eq, .awayFromZero => q + 1
  | .eq, .toEven => if q % 2 = 0 then q else q + 1

/-- A finite binary64 value. -/
structure Binary where
  negative : Bool
  mantissa : Nat
  exponent : Int
  /-- The gap to the next smaller magnitude is half the gap to the next larger
  one: the mantissa is a power of two above the least. -/
  narrowBelow : Bool
deriving DecidableEq, Repr

namespace Binary

/-- The magnitude as a quotient of whole numbers. -/
def numerator (b : Binary) : Nat := b.mantissa * Nat.pow 2 b.exponent.toNat

def denominator (b : Binary) : Nat := Nat.pow 2 (-b.exponent).toNat

def signed (negative : Bool) (n : Nat) : Int :=
  if negative then -(n : Int) else n

/-- The nearest integer, halves away from zero. -/
def nearest (b : Binary) : Int :=
  signed b.negative (roundDiv b.numerator b.denominator .awayFromZero)

/-- The integer part. -/
def integerPart (b : Binary) : Int :=
  signed b.negative (b.numerator / b.denominator)

/-- The largest integer that is not above. -/
def floor (b : Binary) : Int :=
  Int.fdiv (signed b.negative b.numerator) b.denominator

/-- The smallest integer that is not below. -/
def ceil (b : Binary) : Int :=
  -Int.fdiv (-signed b.negative b.numerator) b.denominator

end Binary

inductive FloatClass where
  | nan
  | infinite (negative : Bool)
  | finite (value : Binary)
deriving DecidableEq, Repr

namespace FloatClass

/-- Decodes sign, exponent and fraction fields. -/
def ofBits (bits : UInt64) : FloatClass :=
  let negative := bits >>> 63 != 0
  let e := ((bits >>> 52) &&& 0x7FF).toNat
  let f := (bits &&& 0xFFFFFFFFFFFFF).toNat
  if e = 2047 then if f = 0 then infinite negative else nan
  else if e = 0 then finite ⟨negative, f, -1074, false⟩
  else finite ⟨negative, Nat.pow 2 52 + f, (e : Int) - 1075, f = 0 ∧ 1 < e⟩

def ofFloat (x : Float) : FloatClass := ofBits x.toBits

/-- The integer chosen by `pick` for a finite value, held between `low` and
`high`; infinities go to the bound of their sign, and what is not a number to
zero. -/
def clampedInt (pick : Binary → Int) (low high : Int) : FloatClass → Int
  | nan => 0
  | infinite negative => if negative then low else high
  | finite b => max low (min high (pick b))

end FloatClass
end QueryBench
