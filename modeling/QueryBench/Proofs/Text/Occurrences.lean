import QueryBench.Text.Lines

/-!
# Occurrences of words

Where a word occurs in a text more than once, what follows it depends on the occurrence.  The
first one has the shortest front before it, and the last one the longest.
-/

namespace QueryBench
namespace Text

/-- `rest` follows the first occurrence of a word in a text. -/
def FollowsFirst (word text rest : List Char) : Prop :=
  ∃ front, text = front ++ word ++ rest ∧
    ∀ front' rest', text = front' ++ word ++ rest' → front.length ≤ front'.length

/-- `rest` follows the last occurrence of a word in a text. -/
def FollowsLast (word text rest : List Char) : Prop :=
  ∃ front, text = front ++ word ++ rest ∧
    ∀ front' rest', text = front' ++ word ++ rest' → front'.length ≤ front.length

variable {word text rest : List Char} {c : Char}

/-! ## One character -/

theorem eq_of_front_nil {front : List Char} (h : [] = front ++ word ++ rest) :
    front = [] ∧ word = [] ∧ rest = [] := by
  simpa [and_assoc] using h.symm

theorem followsFirst_nil_iff : FollowsFirst word [] rest ↔ word = [] ∧ rest = [] := by
  constructor
  · rintro ⟨front, htext, -⟩
    exact (eq_of_front_nil htext).2
  · rintro ⟨rfl, rfl⟩
    exact ⟨[], rfl, fun _ _ _ ↦ Nat.zero_le _⟩

theorem followsLast_nil_iff : FollowsLast word [] rest ↔ word = [] ∧ rest = [] := by
  constructor
  · rintro ⟨front, htext, -⟩
    exact (eq_of_front_nil htext).2
  · rintro ⟨rfl, rfl⟩
    refine ⟨[], rfl, fun front' rest' htext ↦ ?_⟩
    exact Nat.le_of_eq (congrArg List.length (eq_of_front_nil htext).1)

/-- A text that begins with a word has its first occurrence there. -/
theorem followsFirst_append_iff (word rest' : List Char) :
    FollowsFirst word (word ++ rest') rest ↔ rest = rest' := by
  constructor
  · rintro ⟨front, htext, hfirst⟩
    have hfront := Nat.le_zero.mp (hfirst [] rest' rfl)
    rw [List.eq_nil_of_length_eq_zero hfront] at htext
    exact (List.append_cancel_left htext).symm
  · rintro rfl
    exact ⟨[], rfl, fun _ _ _ ↦ Nat.zero_le _⟩

/-- An occurrence in a longer text is at its beginning or after its first character. -/
theorem cons_eq_append_iff {front : List Char} :
    c :: text = front ++ word ++ rest ↔
      front = [] ∧ c :: text = word ++ rest ∨
        ∃ front', front = c :: front' ∧ text = front' ++ word ++ rest := by
  cases front with
  | nil => simp
  | cons d front =>
      constructor
      · intro htext
        cases htext
        exact .inr ⟨front, rfl, rfl⟩
      · rintro (⟨hnil, -⟩ | ⟨front', hfront, htext⟩)
        · cases hnil
        · cases hfront
          rw [htext]
          rfl

theorem followsFirst_cons_iff (h : ¬ word <+: c :: text) :
    FollowsFirst word (c :: text) rest ↔ FollowsFirst word text rest := by
  constructor
  · rintro ⟨front, htext, hfirst⟩
    rcases cons_eq_append_iff.mp htext with ⟨-, hprefix⟩ | ⟨front, rfl, hrest⟩
    · exact absurd ⟨rest, hprefix.symm⟩ h
    · refine ⟨front, hrest, fun front' rest' htext' ↦ ?_⟩
      have hle := hfirst (c :: front') rest' (by rw [htext']; rfl)
      exact Nat.le_of_succ_le_succ hle
  · rintro ⟨front, htext, hfirst⟩
    refine ⟨c :: front, by rw [htext]; rfl, fun front' rest' htext' ↦ ?_⟩
    rcases cons_eq_append_iff.mp htext' with ⟨-, hprefix⟩ | ⟨front', rfl, hrest'⟩
    · exact absurd ⟨rest', hprefix.symm⟩ h
    · exact Nat.succ_le_succ (hfirst front' rest' hrest')

/-- A character before an occurrence leaves the last one where it is. -/
theorem followsLast_cons_iff (h : word <:+: text) :
    FollowsLast word (c :: text) rest ↔ FollowsLast word text rest := by
  constructor
  · rintro ⟨front, htext, hlast⟩
    obtain ⟨front₀, rest₀, htext₀⟩ := h
    have hle : front₀.length + 1 ≤ front.length :=
      hlast (c :: front₀) rest₀ (by rw [← htext₀]; rfl)
    rcases cons_eq_append_iff.mp htext with ⟨rfl, -⟩ | ⟨front, rfl, hrest⟩
    · exact absurd hle (Nat.not_succ_le_zero _)
    · refine ⟨front, hrest, fun front' rest' htext' ↦ ?_⟩
      have hle' := hlast (c :: front') rest' (by rw [htext']; rfl)
      exact Nat.le_of_succ_le_succ hle'
  · rintro ⟨front, htext, hlast⟩
    refine ⟨c :: front, by rw [htext]; rfl, fun front' rest' htext' ↦ ?_⟩
    rcases cons_eq_append_iff.mp htext' with ⟨rfl, -⟩ | ⟨front', rfl, hrest'⟩
    · exact Nat.zero_le _
    · exact Nat.succ_le_succ (hlast front' rest' hrest')

/-- Without an occurrence after the first character, there is only the one at the beginning. -/
theorem followsLast_cons_iff_of_not (h : ¬ word <:+: text) :
    FollowsLast word (c :: text) rest ↔ c :: text = word ++ rest := by
  have hbegins : ∀ {front rest' : List Char}, c :: text = front ++ word ++ rest' → front = [] := by
    intro front rest' htext
    rcases cons_eq_append_iff.mp htext with ⟨hfront, -⟩ | ⟨front', -, hrest'⟩
    · exact hfront
    · exact absurd ⟨front', rest', hrest'.symm⟩ h
  constructor
  · rintro ⟨front, htext, -⟩
    rw [hbegins htext] at htext
    exact htext
  · intro htext
    refine ⟨[], htext, fun front' rest' htext' ↦ ?_⟩
    exact Nat.le_of_eq (congrArg List.length (hbegins htext'))

/-! ## Searching -/

theorem after?_eq_some_iff : after? word text = some rest ↔ FollowsFirst word text rest := by
  induction text with
  | nil => cases word <;> simp [after?, followsFirst_nil_iff, eq_comm]
  | cons c text ih =>
      rw [after?]
      split
      · rename_i hprefix
        obtain ⟨rest', htext⟩ := List.isPrefixOf_iff_prefix.mp hprefix
        rw [← htext, followsFirst_append_iff, List.drop_left, Option.some.injEq, eq_comm]
      · rename_i hprefix
        rw [ih, followsFirst_cons_iff fun h ↦ hprefix (List.isPrefixOf_iff_prefix.mpr h)]

theorem afterLast?_eq_none_iff : afterLast? word text = none ↔ ¬ word <:+: text := by
  induction text with
  | nil => cases word <;> simp [afterLast?]
  | cons c text ih =>
      rw [afterLast?, List.infix_cons_iff, not_or]
      cases hrest : afterLast? word text with
      | some found =>
          rw [hrest] at ih
          have hword : word <:+: text := by simpa using ih
          simp [hword]
      | none =>
          rw [hrest] at ih
          simp [List.isPrefixOf_iff_prefix, ih.mp rfl]

theorem afterLast?_eq_some_iff : afterLast? word text = some rest ↔ FollowsLast word text rest := by
  induction text with
  | nil => cases word <;> simp [afterLast?, followsLast_nil_iff, eq_comm]
  | cons c text ih =>
      rw [afterLast?]
      cases hrest : afterLast? word text with
      | some found =>
          rw [hrest] at ih
          have hword : word <:+: text := by
            apply Classical.byContradiction
            intro hnone
            rw [afterLast?_eq_none_iff.mpr hnone] at hrest
            cases hrest
          rw [followsLast_cons_iff hword, ← ih]
      | none =>
          rw [followsLast_cons_iff_of_not (afterLast?_eq_none_iff.mp hrest)]
          dsimp only
          split
          · rename_i hprefix
            obtain ⟨rest', htext⟩ := List.isPrefixOf_iff_prefix.mp hprefix
            rw [← htext, List.drop_left, Option.some.injEq, List.append_right_inj, eq_comm]
          · rename_i hprefix
            refine iff_of_false nofun fun htext ↦ hprefix ?_
            exact List.isPrefixOf_iff_prefix.mpr ⟨rest, htext.symm⟩

end Text
end QueryBench
