/-!
# Decimal numbers

Numbers reach the program as decimal texts and leave it as decimal texts.  A
`Decimal` is such a number, held exactly.  Its nearest binary64 value is chosen
once, by the correctly rounded conversion.
-/

namespace QueryBench

/-- The number `± digits * 10 ^ exponent`. -/
structure Decimal where
  negative : Bool
  digits : Nat
  exponent : Int
deriving DecidableEq, Repr

namespace Decimal

/-- Number of decimal digits of `n`, with one digit for zero. -/
def digitCount (n : Nat) : Nat :=
  (Nat.toDigits 10 n).length

/-- Magnitudes from `10 ^ 400` on exceed every finite binary64 value, and those
below `10 ^ (-400)` round to zero. -/
def scaleLimit : Int := 400

/-- The binary64 value nearest to `digits * 10 ^ exponent`, ties to even; beyond
the largest finite value it is infinite. -/
def magnitudeToFloat (digits : Nat) (exponent : Int) : Float :=
  let top := exponent + digitCount digits
  if digits = 0 ∨ top < -scaleLimit then 0.0
  else if scaleLimit < top then 1.0 / 0.0
  else Float.ofScientific digits (exponent < 0) exponent.natAbs

/-- The nearest binary64 value, with the sign kept on zero. -/
def toFloat (d : Decimal) : Float :=
  let x := magnitudeToFloat d.digits d.exponent
  if d.negative then -x else x

def toRat (d : Decimal) : Rat :=
  let m := mkRat (d.digits * Nat.pow 10 d.exponent.toNat) (Nat.pow 10 (-d.exponent).toNat)
  if d.negative then -m else m

end Decimal
end QueryBench
