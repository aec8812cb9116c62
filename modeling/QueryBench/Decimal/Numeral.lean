import QueryBench.Decimal.Basic

/-!
# Numerals

The texts that denote numbers.  A count is a run of digits, with an optional
plus sign, below `2 ^ 64`.  A reading is `inf`, `infinity` or `nan` in any case,
or digits with an optional point and an optional exponent; at least one digit
stands before or after the point.  Neither admits blanks or separators.
-/

namespace QueryBench

/-- What a reading denotes. -/
inductive Numeral where
  | nan
  | infinite (negative : Bool)
  | finite (value : Decimal)
deriving DecidableEq, Repr

namespace Numeral

/-- A nonempty run of digits and nothing else. -/
def digits? (cs : List Char) : Option Nat :=
  if cs.isEmpty || !cs.all Char.isDigit then none else some (Nat.ofDigitChars 10 cs 0)

/-- Drops one plus sign. -/
def dropPlus : List Char → List Char
  | '+' :: rest => rest
  | cs => cs

/-- A count that fits 64 bits. -/
def count? (cs : List Char) : Option UInt64 :=
  match digits? (dropPlus cs) with
  | some n => if n < UInt64.size then some (UInt64.ofNat n) else none
  | none => none

/-- Splits off a leading sign; `true` stands for minus. -/
def sign : List Char → Bool × List Char
  | '-' :: rest => (true, rest)
  | '+' :: rest => (false, rest)
  | cs => (false, cs)

/-- What follows the digits: nothing, or `e` and a signed run of digits. -/
def exponent? : List Char → Option Int
  | [] => some 0
  | c :: rest =>
      if c = 'e' ∨ c = 'E' then
        let (negative, ds) := sign rest
        (digits? ds).map fun n ↦ if negative then -(n : Int) else n
      else none

/-- The fraction digits after a point, and what follows them. -/
def fraction : List Char → List Char × List Char
  | '.' :: rest => (rest.takeWhile Char.isDigit, rest.dropWhile Char.isDigit)
  | cs => ([], cs)

/-- Digits, point and exponent, after the sign. -/
def magnitude? (negative : Bool) (cs : List Char) : Option Decimal :=
  let whole := cs.takeWhile Char.isDigit
  let (part, rest) := fraction (cs.dropWhile Char.isDigit)
  if whole.isEmpty && part.isEmpty then none
  else (exponent? rest).map fun e ↦
    ⟨negative, Nat.ofDigitChars 10 (whole ++ part) 0, e - part.length⟩

/-- A reading in any of its spellings. -/
def parse? (cs : List Char) : Option Numeral :=
  let (negative, rest) := sign cs
  let word := rest.map Char.toLower
  if word = ['n', 'a', 'n'] then some .nan
  else if word = ['i', 'n', 'f'] ∨ word = ['i', 'n', 'f', 'i', 'n', 'i', 't', 'y'] then
    some (.infinite negative)
  else (magnitude? negative rest).map .finite

def toFloat : Numeral → Float
  | nan => 0.0 / 0.0
  | infinite negative => if negative then -1.0 / 0.0 else 1.0 / 0.0
  | finite d => d.toFloat

def float? (s : String) : Option Float :=
  (parse? s.toList).map toFloat

theorem digits?_toDigits (n : Nat) : digits? (Nat.toDigits 10 n) = some n := by
  have hall : (Nat.toDigits 10 n).all Char.isDigit = true := by
    rw [List.all_eq_true]
    intro c hc
    exact Nat.isDigit_of_mem_toDigits (by decide) (by decide) hc
  simp [digits?, hall, Nat.ofDigitChars_ten_toDigits]

/-- Every count is read back from its decimal digits. -/
theorem count?_toDigits (n : UInt64) : count? (Nat.toDigits 10 n.toNat) = some n := by
  have hplus : dropPlus (Nat.toDigits 10 n.toNat) = Nat.toDigits 10 n.toNat := by
    unfold dropPlus
    split
    · rename_i rest h
      have : ('+' : Char).isDigit = true :=
        Nat.isDigit_of_mem_toDigits (b := 10) (n := n.toNat) (by decide) (by decide)
          (by rw [h]; exact List.mem_cons_self)
      exact absurd this (by decide)
    · rfl
  simp only [count?, hplus, digits?_toDigits]
  rw [if_pos n.toNat_lt]
  simp

end Numeral
end QueryBench
