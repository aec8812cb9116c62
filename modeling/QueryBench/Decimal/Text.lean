import QueryBench.Decimal.Shortest

/-!
# Decimal texts

How numbers are written: with the fewest digits that identify them, either
always positionally or with an exponent outside a range, and with a fixed number
of places.
-/

namespace QueryBench
namespace Decimal

def zeros (n : Nat) : List Char := List.replicate n '0'

def digitChars (n : Nat) : List Char := Nat.toDigits 10 n

/-- Digits with the point `places` from the right, zeros filled in so that a digit
stands before it; no point for no places. -/
def pointed (digits : List Char) (places : Nat) : List Char :=
  if places = 0 then digits
  else
    let padded := zeros (places + 1 - digits.length) ++ digits
    padded.take (padded.length - places) ++ '.' :: padded.drop (padded.length - places)

/-- The magnitude without an exponent. -/
def positional (d : Decimal) : List Char :=
  pointed (digitChars d.digits ++ zeros d.exponent.toNat) (-d.exponent).toNat

/-- Exponent of the leading digit. -/
def leadingExponent (d : Decimal) : Int :=
  d.exponent + digitCount d.digits - 1

/-- The magnitude with one digit before the point and a signed exponent. -/
def scientific (d : Decimal) : List Char :=
  let ds := digitChars d.digits
  let e := d.leadingExponent
  pointed ds (ds.length - 1) ++ 'e' :: (if e < 0 then '-' else '+') :: digitChars e.natAbs

def signChars (negative : Bool) : List Char := if negative then ['-'] else []

/-- How finite values are written. -/
structure Style where
  /-- Leading exponents written without an exponent. -/
  isPositional : Int → Bool
  /-- Whole values end in `.0`. -/
  pointZero : Bool
  /-- Which of two equally short and equally near decimals is taken. -/
  tie : Tie

/-- Every value positionally, whole values without a point. -/
def plainStyle : Style := ⟨fun _ ↦ true, false, .awayFromZero⟩

/-- Positional from `10 ^ (-5)` up to below `10 ^ 16`, with a point always. -/
def jsonStyle : Style := ⟨fun e ↦ decide (-5 ≤ e) && decide (e ≤ 15), true, .toEven⟩

def render (style : Style) (b : Binary) : List Char :=
  let d := shortest style.tie b
  let body :=
    if style.isPositional d.leadingExponent then
      d.positional ++ (if style.pointZero && decide (0 ≤ d.exponent) then ['.', '0'] else [])
    else d.scientific
  signChars d.negative ++ body

/-- The value rounded to a number of places, ties to the even digit. -/
def fixed (places : Nat) (b : Binary) : List Char :=
  let n := roundDiv (b.numerator * Nat.pow 10 places) b.denominator .toEven
  signChars b.negative ++ pointed (digitChars n) places

/-- The words for values that have no digits. -/
def special? : FloatClass → Option String
  | .nan => some "NaN"
  | .infinite negative => some (if negative then "-inf" else "inf")
  | .finite _ => none

/-- A number with the fewest digits, never with an exponent. -/
def plainText (x : Float) : String :=
  match FloatClass.ofFloat x with
  | .finite b => String.ofList (render plainStyle b)
  | c => (special? c).getD ""

/-- A number with a fixed count of places. -/
def fixedText (places : Nat) (x : Float) : String :=
  match FloatClass.ofFloat x with
  | .finite b => String.ofList (fixed places b)
  | c => (special? c).getD ""

/-- A number as a JSON literal; none for values that JSON has no literal for. -/
def jsonText? (x : Float) : Option String :=
  match FloatClass.ofFloat x with
  | .finite b => some (String.ofList (render jsonStyle b))
  | _ => none

end Decimal
end QueryBench
