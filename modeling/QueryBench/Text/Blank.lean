/-!
# Blank characters

Labels and table fields are trimmed of surrounding white space.  A character is
blank when it has the Unicode property White_Space, a set of 25 code points in
ten ranges that has not changed since Unicode 6.3.
-/

namespace QueryBench
namespace Text

/-- Closed ranges of code points with the property White_Space, ascending and
apart. -/
def blankRanges : List (Nat × Nat) :=
  [(0x09, 0x0D), (0x20, 0x20), (0x85, 0x85), (0xA0, 0xA0), (0x1680, 0x1680),
    (0x2000, 0x200A), (0x2028, 0x2029), (0x202F, 0x202F), (0x205F, 0x205F),
    (0x3000, 0x3000)]

def isBlank (c : Char) : Bool :=
  blankRanges.any fun r ↦ decide (r.1 ≤ c.toNat) && decide (c.toNat ≤ r.2)

/-- The list without its blank ends. -/
def trimChars (cs : List Char) : List Char :=
  ((cs.dropWhile isBlank).reverse.dropWhile isBlank).reverse

def trim (s : String) : String :=
  String.ofList (trimChars s.toList)

/-- A text whose two ends are not blank is its own trimmed form. -/
theorem trimChars_eq_self {cs : List Char}
    (hfirst : ∀ c ∈ cs.head?, isBlank c = false)
    (hlast : ∀ c ∈ cs.getLast?, isBlank c = false) :
    trimChars cs = cs := by
  have hdrop : cs.dropWhile isBlank = cs := by
    cases cs with
    | nil => rfl
    | cons c rest => simp [hfirst c (by simp)]
  have hreverse : cs.reverse.dropWhile isBlank = cs.reverse := by
    cases h : cs.reverse with
    | nil => rfl
    | cons c rest =>
        have : cs.getLast? = some c := by
          rw [← List.head?_reverse, h]
          rfl
        simp [hlast c this]
  simp [trimChars, hdrop, hreverse]

end Text
end QueryBench
