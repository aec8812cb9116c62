import Mathlib
import QueryBench.Decimal.Numeral

/-!
# The grammar of numerals

What the readers of counts and of readings accept, part by part.
-/

namespace QueryBench
namespace Numeral

/-! ## Digits and counts -/

theorem digits?_eq_some_iff {cs : List Char} {n : ℕ} :
    digits? cs = some n ↔
      cs ≠ [] ∧ (∀ c ∈ cs, c.isDigit = true) ∧ Nat.ofDigitChars 10 cs 0 = n := by
  rw [digits?]
  cases cs with
  | nil => simp
  | cons c cs =>
      rw [List.isEmpty_cons, Bool.false_or, ← List.all_eq_true]
      cases (c :: cs).all Char.isDigit <;> simp

/-- Digits, with an optional plus sign before them, that denote a count of 64 bits. -/
inductive SpellsCount : List Char → UInt64 → Prop
  | digits {ds : List Char} {n : UInt64} (hne : ds ≠ []) (hdigits : ∀ c ∈ ds, c.isDigit = true)
      (hvalue : Nat.ofDigitChars 10 ds 0 = n.toNat) : SpellsCount ds n
  | plus {ds : List Char} {n : UInt64} (hne : ds ≠ []) (hdigits : ∀ c ∈ ds, c.isDigit = true)
      (hvalue : Nat.ofDigitChars 10 ds 0 = n.toNat) : SpellsCount ('+' :: ds) n

theorem count?_eq_some_iff_dropPlus {cs : List Char} {n : UInt64} :
    count? cs = some n ↔ dropPlus cs ≠ [] ∧ (∀ c ∈ dropPlus cs, c.isDigit = true) ∧
      Nat.ofDigitChars 10 (dropPlus cs) 0 = n.toNat := by
  rw [← digits?_eq_some_iff, count?]
  cases digits? (dropPlus cs) with
  | none => simp
  | some m =>
      dsimp only
      rw [Option.some.injEq]
      constructor
      · intro h
        split at h
        · rename_i hlt
          rw [← Option.some.inj h, UInt64.toNat_ofNat', Nat.mod_eq_of_lt hlt]
        · cases h
      · rintro rfl
        rw [if_pos n.toNat_lt, UInt64.ofNat_toNat]

theorem eq_dropPlus_or (cs : List Char) : cs = '+' :: dropPlus cs ∨ cs = dropPlus cs := by
  unfold dropPlus
  split
  · exact .inl rfl
  · exact .inr rfl

theorem dropPlus_of_digits {cs : List Char} (h : ∀ c ∈ cs, c.isDigit = true) :
    dropPlus cs = cs := by
  unfold dropPlus
  split
  · exact absurd (h '+' List.mem_cons_self) (by decide)
  · rfl

theorem count?_eq_some_iff {cs : List Char} {n : UInt64} :
    count? cs = some n ↔ SpellsCount cs n := by
  rw [count?_eq_some_iff_dropPlus]
  constructor
  · rintro ⟨hne, hdigits, hvalue⟩
    rcases eq_dropPlus_or cs with hplus | hcs
    · rw [hplus]
      exact .plus hne hdigits hvalue
    · rw [hcs]
      exact .digits hne hdigits hvalue
  · rintro (⟨hne, hdigits, hvalue⟩ | ⟨hne, hdigits, hvalue⟩)
    · rw [dropPlus_of_digits hdigits]
      exact ⟨hne, hdigits, hvalue⟩
    · exact ⟨hne, hdigits, hvalue⟩

/-! ## Signs -/

inductive SpellsSign : List Char → Bool → Prop
  | none : SpellsSign [] false
  | plus : SpellsSign ['+'] false
  | minus : SpellsSign ['-'] true

theorem sign_append {cs rest : List Char} {negative : Bool} (h : SpellsSign cs negative)
    (hrest : ∀ c ∈ rest.head?, c ≠ '-' ∧ c ≠ '+') : sign (cs ++ rest) = (negative, rest) := by
  cases h with
  | none =>
      cases rest with
      | nil => rfl
      | cons c rest =>
          obtain ⟨hminus, hplus⟩ := hrest c rfl
          rw [List.nil_append, sign]
          · simpa using hminus
          · simpa using hplus
  | plus => rfl
  | minus => rfl

theorem exists_of_sign (cs : List Char) :
    ∃ front, cs = front ++ (sign cs).2 ∧ SpellsSign front (sign cs).1 := by
  unfold sign
  split
  · exact ⟨['-'], rfl, .minus⟩
  · exact ⟨['+'], rfl, .plus⟩
  · exact ⟨[], rfl, .none⟩

/-! ## Exponents and fractions -/

inductive SpellsExponent : List Char → ℤ → Prop
  | none : SpellsExponent [] 0
  | some {c : Char} {front ds : List Char} {negative : Bool} (hmark : c = 'e' ∨ c = 'E')
      (hsign : SpellsSign front negative) (hne : ds ≠ []) (hdigits : ∀ c ∈ ds, c.isDigit = true) :
      SpellsExponent (c :: (front ++ ds))
        (if negative then -(Nat.ofDigitChars 10 ds 0 : ℤ) else Nat.ofDigitChars 10 ds 0)

theorem not_sign_of_isDigit {c : Char} (h : c.isDigit = true) : c ≠ '-' ∧ c ≠ '+' := by
  constructor <;> rintro rfl <;> exact absurd h (by decide)

theorem exponent?_eq_some_iff {cs : List Char} {e : ℤ} :
    exponent? cs = some e ↔ SpellsExponent cs e := by
  constructor
  · intro h
    cases cs with
    | nil =>
        cases h
        exact .none
    | cons c rest =>
        rw [exponent?] at h
        split at h
        · rename_i hmark
          obtain ⟨front, hrest, hsign⟩ := exists_of_sign rest
          dsimp only at h
          cases hdigits : digits? (sign rest).2 with
          | none =>
              rw [hdigits] at h
              cases h
          | some n =>
              obtain ⟨hne, hall, rfl⟩ := digits?_eq_some_iff.mp hdigits
              rw [hdigits] at h
              cases h
              generalize sign rest = p at hrest hsign hne hall
              rw [hrest]
              exact .some hmark hsign hne hall
        · cases h
  · intro h
    cases h with
    | none => rfl
    | @some c front ds negative hmark hsign hne hdigits =>
        have hrest : ∀ d ∈ ds.head?, d ≠ '-' ∧ d ≠ '+' := fun d hd ↦
          not_sign_of_isDigit (hdigits d (List.mem_of_mem_head? hd))
        rw [exponent?, if_pos hmark, sign_append hsign hrest]
        dsimp only
        rw [digits?_eq_some_iff.mpr ⟨hne, hdigits, rfl⟩]
        rfl

/-- No digit follows the digits before. -/
theorem SpellsExponent.head {cs : List Char} {e : ℤ} (h : SpellsExponent cs e) :
    ∀ c ∈ cs.head?, c.isDigit = false ∧ c ≠ '.' := by
  intro c hc
  cases h with
  | none => cases hc
  | some hmark =>
      cases hc
      rcases hmark with rfl | rfl <;> decide

inductive SpellsFraction : List Char → List Char → Prop
  | none : SpellsFraction [] []
  | point {part : List Char} (hdigits : ∀ c ∈ part, c.isDigit = true) :
      SpellsFraction ('.' :: part) part

section Digits

variable {ds rest : List Char}

theorem takeWhile_digits (hdigits : ∀ c ∈ ds, c.isDigit = true)
    (hrest : ∀ c ∈ rest.head?, c.isDigit = false) :
    (ds ++ rest).takeWhile Char.isDigit = ds := by
  rw [List.takeWhile_append_of_pos hdigits]
  cases rest with
  | nil => simp
  | cons c rest => rw [List.takeWhile_cons_of_neg (by simp [hrest c rfl]), List.append_nil]

theorem dropWhile_digits (hdigits : ∀ c ∈ ds, c.isDigit = true)
    (hrest : ∀ c ∈ rest.head?, c.isDigit = false) :
    (ds ++ rest).dropWhile Char.isDigit = rest := by
  rw [List.dropWhile_append_of_pos hdigits]
  cases rest with
  | nil => rfl
  | cons c rest => rw [List.dropWhile_cons_of_neg (by simp [hrest c rfl])]

end Digits

theorem fraction_append {cs part rest : List Char} (h : SpellsFraction cs part)
    (hrest : ∀ c ∈ rest.head?, c.isDigit = false ∧ c ≠ '.') :
    fraction (cs ++ rest) = (part, rest) := by
  cases h with
  | none =>
      cases rest with
      | nil => rfl
      | cons c rest =>
          rw [List.nil_append, fraction]
          simpa using (hrest c rfl).2
  | point hdigits =>
      have hdigit : ∀ c ∈ rest.head?, c.isDigit = false := fun c hc ↦ (hrest c hc).1
      rw [List.cons_append, fraction, takeWhile_digits hdigits hdigit,
        dropWhile_digits hdigits hdigit]

theorem exists_of_fraction (cs : List Char) :
    ∃ front, cs = front ++ (fraction cs).2 ∧ SpellsFraction front (fraction cs).1 := by
  unfold fraction
  split
  · rename_i rest
    refine ⟨'.' :: rest.takeWhile Char.isDigit, ?_, .point fun c hc ↦ ?_⟩
    · rw [List.cons_append, List.takeWhile_append_dropWhile]
    · exact List.mem_takeWhile_imp hc
  · exact ⟨[], rfl, .none⟩

/-! ## Decimal numerals -/

/-- A sign, digits with a point among them or not, and an exponent. -/
inductive Spells : List Char → Decimal → Prop
  | intro {front whole point part tail : List Char} {negative : Bool} {e : ℤ}
      (hsign : SpellsSign front negative) (hwhole : ∀ c ∈ whole, c.isDigit = true)
      (hpoint : SpellsFraction point part) (hne : whole ≠ [] ∨ part ≠ [])
      (hexponent : SpellsExponent tail e) :
      Spells (front ++ whole ++ point ++ tail)
        ⟨negative, Nat.ofDigitChars 10 (whole ++ part) 0, e - part.length⟩

theorem magnitude?_eq_some_iff {negative : Bool} {cs : List Char} {d : Decimal} :
    magnitude? negative cs = some d ↔
      ∃ whole point part tail e, cs = whole ++ point ++ tail ∧
        (∀ c ∈ whole, c.isDigit = true) ∧ SpellsFraction point part ∧ (whole ≠ [] ∨ part ≠ []) ∧
        SpellsExponent tail e ∧
        d = ⟨negative, Nat.ofDigitChars 10 (whole ++ part) 0, e - part.length⟩ := by
  constructor
  · intro h
    obtain ⟨point, hpoint, hspells⟩ := exists_of_fraction (cs.dropWhile Char.isDigit)
    rw [magnitude?] at h
    dsimp only at h
    split at h
    · cases h
    · rename_i hempty
      obtain ⟨e, he, rfl⟩ := Option.map_eq_some_iff.mp h
      refine ⟨cs.takeWhile Char.isDigit, point, _, _, e, ?_, fun c hc ↦ List.mem_takeWhile_imp hc,
        hspells, ?_, exponent?_eq_some_iff.mp he, rfl⟩
      · rw [List.append_assoc, ← hpoint, List.takeWhile_append_dropWhile]
      · rw [Bool.not_eq_true, Bool.and_eq_false_iff, List.isEmpty_eq_false_iff,
          List.isEmpty_eq_false_iff] at hempty
        exact hempty
  · rintro ⟨whole, point, part, tail, e, rfl, hwhole, hpoint, hne, hexponent, rfl⟩
    have hhead : ∀ c ∈ (point ++ tail).head?, c.isDigit = false := by
      intro c hc
      cases hpoint with
      | none => exact (hexponent.head c hc).1
      | point =>
          cases hc
          decide
    have hempty : (whole.isEmpty && part.isEmpty) = false := by
      rw [Bool.and_eq_false_iff, List.isEmpty_eq_false_iff, List.isEmpty_eq_false_iff]
      exact hne
    rw [magnitude?, List.append_assoc]
    dsimp only
    rw [takeWhile_digits hwhole hhead, dropWhile_digits hwhole hhead,
      fraction_append hpoint hexponent.head]
    dsimp only
    rw [hempty, exponent?_eq_some_iff.mpr hexponent]
    rfl

theorem toLower_of_isDigit {c : Char} (h : c.isDigit = true) : c.toLower = c := by
  rw [Char.toLower, dif_neg]
  intro hupper
  rw [Char.isDigit, Bool.and_eq_true, decide_eq_true_eq, decide_eq_true_eq] at h
  have hle : c.val ≤ 57 := h.2
  have hge : 65 ≤ c.val := hupper.1
  exact absurd (UInt32.le_trans hge hle) (by decide)

/-- A numeral begins, after its sign, with a digit or a point, and so it is no word. -/
theorem parse?_of_head {front rest : List Char} {negative : Bool}
    (hsign : SpellsSign front negative) (hhead : ∃ c ∈ rest.head?, c.isDigit = true ∨ c = '.') :
    parse? (front ++ rest) = (magnitude? negative rest).map .finite := by
  obtain ⟨c, hc, hkind⟩ := hhead
  have hnosign : ∀ d ∈ rest.head?, d ≠ '-' ∧ d ≠ '+' := by
    intro d hd
    cases hc.symm.trans hd
    rcases hkind with hdigit | rfl
    · exact not_sign_of_isDigit hdigit
    · decide
  have hlower : c.toLower = c := by
    rcases hkind with hdigit | rfl
    · exact toLower_of_isDigit hdigit
    · rfl
  have hword : ∀ (d : Char) (word : List Char), d ≠ c → rest.map Char.toLower ≠ d :: word := by
    intro d word hne heq
    have hfirst := congrArg List.head? heq
    rw [List.head?_map, hc, Option.map_some, hlower] at hfirst
    exact hne (Option.some.inj hfirst).symm
  have hn : 'n' ≠ c := by
    rintro rfl
    exact absurd hkind (by decide)
  have hi : 'i' ≠ c := by
    rintro rfl
    exact absurd hkind (by decide)
  rw [parse?, sign_append hsign hnosign]
  dsimp only
  rw [if_neg (hword 'n' _ hn), if_neg (not_or.mpr ⟨hword 'i' _ hi, hword 'i' _ hi⟩)]

theorem parse?_eq_finite_iff {cs : List Char} {d : Decimal} :
    parse? cs = some (.finite d) ↔ Spells cs d := by
  constructor
  · intro h
    obtain ⟨front, hfront, hsign⟩ := exists_of_sign cs
    rw [parse?] at h
    dsimp only at h
    generalize sign cs = p at h hfront hsign
    split at h
    · cases h
    · split at h
      · cases h
      · obtain ⟨d', hd', heq⟩ := Option.map_eq_some_iff.mp h
        cases heq
        obtain ⟨whole, point, part, tail, e, hrest, hwhole, hpoint, hne, hexponent, rfl⟩ :=
          magnitude?_eq_some_iff.mp hd'
        rw [hfront, hrest, ← List.append_assoc, ← List.append_assoc]
        exact .intro hsign hwhole hpoint hne hexponent
  · intro h
    cases h with
    | @intro front whole point part tail negative e hsign hwhole hpoint hne hexponent =>
        have hhead : ∃ c ∈ (whole ++ point ++ tail).head?, c.isDigit = true ∨ c = '.' := by
          cases whole with
          | cons c whole => exact ⟨c, rfl, .inl (hwhole c List.mem_cons_self)⟩
          | nil =>
              cases hpoint with
              | none => exact absurd hne (by simp)
              | point => exact ⟨'.', rfl, .inr rfl⟩
        rw [List.append_assoc, List.append_assoc, ← List.append_assoc whole,
          parse?_of_head hsign hhead,
          magnitude?_eq_some_iff.mpr ⟨whole, point, part, tail, e, rfl, hwhole, hpoint, hne,
            hexponent, rfl⟩]
        rfl

/-! ## Words -/

/-- A word, in any case, for a number that is not finite. -/
inductive SpellsWord : List Char → Bool → Numeral → Prop
  | nan {cs : List Char} {negative : Bool} (hword : cs.map Char.toLower = ['n', 'a', 'n']) :
      SpellsWord cs negative .nan
  | infinite {cs : List Char} {negative : Bool} (hword : cs.map Char.toLower = ['i', 'n', 'f'] ∨
      cs.map Char.toLower = ['i', 'n', 'f', 'i', 'n', 'i', 't', 'y']) :
      SpellsWord cs negative (.infinite negative)

/-- What a text denotes: a decimal number, or one that is not finite, by a sign and a word. -/
inductive Denotes : List Char → Numeral → Prop
  | finite {cs : List Char} {d : Decimal} (h : Spells cs d) : Denotes cs (.finite d)
  | word {front cs : List Char} {negative : Bool} {numeral : Numeral}
      (hsign : SpellsSign front negative) (hword : SpellsWord cs negative numeral) :
      Denotes (front ++ cs) numeral

theorem SpellsWord.head {cs : List Char} {negative : Bool} {numeral : Numeral}
    (h : SpellsWord cs negative numeral) : ∀ c ∈ cs.head?, c ≠ '-' ∧ c ≠ '+' := by
  have hhead : (cs.map Char.toLower).head? = some 'n' ∨ (cs.map Char.toLower).head? = some 'i' := by
    rcases h with hword | hword | hword <;> rw [hword] <;> decide
  intro c hc
  rw [List.head?_map, hc] at hhead
  constructor <;> rintro rfl <;> revert hhead <;> decide

theorem parse?_eq_some_iff {cs : List Char} {numeral : Numeral} :
    parse? cs = some numeral ↔ Denotes cs numeral := by
  constructor
  · intro h
    obtain ⟨front, hfront, hsign⟩ := exists_of_sign cs
    have hfinite : ∀ d, numeral = .finite d → Denotes cs numeral := by
      rintro d rfl
      exact .finite (parse?_eq_finite_iff.mp h)
    rw [parse?] at h
    dsimp only at h
    split at h
    · rename_i hword
      cases h
      rw [hfront]
      exact .word hsign (.nan hword)
    · split at h
      · rename_i hword
        cases h
        have hdenotes := Denotes.word hsign (.infinite hword)
        rwa [← hfront] at hdenotes
      · obtain ⟨d, -, rfl⟩ := Option.map_eq_some_iff.mp h
        exact hfinite d rfl
  · rintro (h | ⟨hsign, hword⟩)
    · exact parse?_eq_finite_iff.mpr h
    · rw [parse?, sign_append hsign hword.head]
      rcases hword with hword | hword | hword <;> simp [hword]

theorem parse?_eq_none_iff {cs : List Char} :
    parse? cs = none ↔ ∀ numeral, ¬ Denotes cs numeral := by
  simp only [Option.eq_none_iff_forall_ne_some, ne_eq, parse?_eq_some_iff]

end Numeral
end QueryBench
