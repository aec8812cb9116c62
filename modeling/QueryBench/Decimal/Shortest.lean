import QueryBench.Decimal.Basic
import QueryBench.Decimal.Binary

/-!
# The fewest digits that identify a value

The reals that round to a binary64 value form an interval around it, whose ends
belong to it exactly when the mantissa is even.  The shortest decimal in that
interval is searched on the grids of one, two, … seventeen digits: only the two
neighbours of the value on a grid can be nearest to it.  Of two neighbours that
both identify the value the nearer one is taken.
-/

namespace QueryBench
namespace Decimal

/-- Compares `a * 10 ^ i` with `n * 2 ^ j`. -/
def compareScaled (a : Nat) (i : Int) (n : Nat) (j : Int) : Ordering :=
  compare (a * Nat.pow 10 i.toNat * Nat.pow 2 (-j).toNat)
    (n * Nat.pow 2 j.toNat * Nat.pow 10 (-i).toNat)

/-- Whether `digits * 10 ^ exponent` lies among the reals that round to the
magnitude of `b`. -/
def identifies (b : Binary) (digits : Nat) (exponent : Int) : Bool :=
  let low := if b.narrowBelow then 4 * b.mantissa - 1 else 4 * b.mantissa - 2
  let high := 4 * b.mantissa + 2
  let ends := b.mantissa % 2 == 0
  let atLow := compareScaled digits exponent low (b.exponent - 2)
  let atHigh := compareScaled digits exponent high (b.exponent - 2)
  (atLow == .gt || (ends && atLow == .eq)) && (atHigh == .lt || (ends && atHigh == .eq))

/-- Whether the magnitude of `b` is below `10 ^ k`. -/
def belowPower (b : Binary) (k : Int) : Bool :=
  decide (b.numerator * Nat.pow 10 (-k).toNat < b.denominator * Nat.pow 10 k.toNat)

/-- The least `k` with the magnitude below `10 ^ k`.  The binary logarithm, times
`1233 / 4096`, misses it by at most two. -/
def decimalScale (b : Binary) : Int :=
  let k := ((b.mantissa.log2 : Int) + b.exponent) * 1233 / 4096
  if belowPower b k then k else if belowPower b (k + 1) then k + 1 else k + 2

/-- The neighbour of the magnitude on the grid of multiples of `10 ^ g` that
identifies it. -/
def onGrid? (tie : Tie) (b : Binary) (g : Int) : Option Decimal :=
  let num := b.numerator * Nat.pow 10 (-g).toNat
  let den := b.denominator * Nat.pow 10 g.toNat
  let below := num / den
  let above := below + 1
  match identifies b below g, identifies b above g with
  | false, false => none
  | true, false => some ⟨b.negative, below, g⟩
  | false, true => some ⟨b.negative, above, g⟩
  | true, true => some ⟨b.negative, roundDiv num den tie, g⟩

/-- Moves trailing zeros of the digits into the exponent. -/
def stripZeros (d : Decimal) : Decimal :=
  if h : d.digits ≠ 0 ∧ d.digits % 10 = 0 then
    stripZeros ⟨d.negative, d.digits / 10, d.exponent + 1⟩
  else d
termination_by d.digits
decreasing_by
  exact Nat.div_lt_self (Nat.pos_of_ne_zero h.1) (by decide)

/-- The exact decimal value of `b`. -/
def exactly (b : Binary) : Decimal :=
  ⟨b.negative, b.mantissa * Nat.pow 2 b.exponent.toNat * Nat.pow 5 (-b.exponent).toNat,
    min b.exponent 0⟩

/-- The shortest decimal that identifies `b`. -/
def shortest (tie : Tie) (b : Binary) : Decimal :=
  if b.mantissa = 0 then ⟨b.negative, 0, 0⟩
  else
    let k := decimalScale b
    stripZeros
      (((List.range 17).findSome? fun (n : Nat) ↦ onGrid? tie b (k - (n + 1))).getD (exactly b))

end Decimal
end QueryBench
