import QueryBench.Proofs.QueryRules.Survivors

/-!
# What relabelling does to each row

Every row is kept under its display id, counted as excluded, or reported.  The display id of
a kept row tells its raw id, so that rows are in one group as they were before, and every
group that is dropped is reported once, when its first row is met.
-/

namespace QueryBench

/-- The members of a list, each once, in the order in which they are first met. -/
structure IsFirstOccurrences {β : Type} [DecidableEq β] (firsts all : List β) : Prop where
  mem_iff : ∀ b, b ∈ firsts ↔ b ∈ all
  ordered : firsts.Pairwise fun a b ↦ all.idxOf a < all.idxOf b

namespace IsFirstOccurrences

variable {β : Type} [DecidableEq β] {firsts all : List β}

theorem nil : IsFirstOccurrences ([] : List β) [] := ⟨fun _ ↦ Iff.rfl, .nil⟩

theorem nodup (h : IsFirstOccurrences firsts all) : firsts.Nodup := by
  apply h.ordered.imp
  rintro a b hlt rfl
  exact Nat.lt_irrefl _ hlt

/-- A new first member comes first, and its later occurrences do not count. -/
theorem cons (h : IsFirstOccurrences firsts all) (a : β) :
    IsFirstOccurrences (a :: firsts.filter (· ≠ a)) (a :: all) := by
  have hafter {b : β} (hb : b ≠ a) : (a :: all).idxOf b = all.idxOf b + 1 :=
    List.idxOf_cons_ne all hb.symm
  constructor
  · intro b
    by_cases hb : b = a <;> simp [hb, h.mem_iff]
  · refine List.pairwise_cons.mpr ⟨?_, ?_⟩
    · intro b hb
      have hne : b ≠ a := by simpa using (List.mem_filter.mp hb).2
      rw [List.idxOf_cons_self, hafter hne]
      exact Nat.succ_pos _
    · rw [List.pairwise_filter]
      apply h.ordered.imp
      intro b c hlt hb hc
      rw [hafter (of_decide_eq_true hb), hafter (of_decide_eq_true hc)]
      exact Nat.succ_lt_succ hlt

end IsFirstOccurrences

namespace QueryRules

variable {α : Type} {r : QueryRules}

/-- The rows that relabelling reports. -/
def colliding (r : QueryRules) (rows : List (Row α)) : List (Row α) :=
  rows.filter fun row ↦ r.collides row.group.query

theorem relabel_accounts (rows : List (Row α)) :
    (r.relabel rows).rows.length + (r.relabel rows).excluded + (r.colliding rows).length =
      rows.length := by
  induction rows with
  | nil => rfl
  | cons row rest ih =>
      rw [relabel_cons, colliding, List.filter_cons, List.length_cons, ← ih, colliding]
      rcases r.fate_cases row with ⟨hcollides, hfate⟩ | ⟨hcollides, -, hfate⟩ |
        ⟨hcollides, -, hfate⟩
      · rw [hfate, if_pos hcollides]
        rfl
      · rw [hfate, if_neg (by simp [hcollides])]
        simp only [Fate.addTo]
        omega
      · rw [hfate, if_neg (by simp [hcollides])]
        simp only [Fate.addTo, List.length_cons]
        omega

theorem relabel_issues (rows : List (Row α)) :
    IsFirstOccurrences (r.relabel rows).issues
      ((r.colliding rows).map fun row ↦ .idCollision row.group) := by
  induction rows with
  | nil => exact .nil
  | cons row rest ih =>
      rw [relabel_cons, colliding, List.filter_cons]
      rcases r.fate_cases row with ⟨hcollides, hfate⟩ | ⟨hcollides, -, hfate⟩ |
        ⟨hcollides, -, hfate⟩
      · rw [hfate, if_pos hcollides]
        exact ih.cons _
      · rw [hfate, if_neg (by simp [hcollides])]
        exact ih
      · rw [hfate, if_neg (by simp [hcollides])]
        exact ih

/-- Relabelling keeps the rows whose raw id is neither excluded nor the display id of another
query, in their order, and changes nothing but their query ids.  The raw id can be told
from the display id, so the rows that are kept form the groups that they formed before.
Every row is kept, counted as excluded or among the colliding ones, and each group of
these is reported once, in the order in which the groups are first met. -/
theorem relabelling_accounts_for_rows {excluded : List String}
    {renamings : List (String × String)} {rules : QueryRules}
    (haccepted : ofLists excluded renamings = .ok rules) (rows : List (Row α)) :
    let out := rules.relabel rows
    let kept := rows.filter fun row ↦
      row.group.query ∉ rules.excluded ∧ rules.collides row.group.query = false
    let reported := rows.filter fun row ↦ rules.collides row.group.query
    out.rows = kept.map rules.shown ∧
    (∀ row ∈ kept, rules.displayId? row.group.query = some (rules.shown row).group.query ∧
      rules.rawId (rules.shown row).group.query = row.group.query) ∧
    (∀ row ∈ kept, ∀ row' ∈ kept,
      (rules.shown row).group = (rules.shown row').group ↔ row.group = row'.group) ∧
    out.rows.length + out.excluded + reported.length = rows.length ∧
    out.issues.Nodup ∧
      IsFirstOccurrences out.issues (reported.map fun row ↦ .idCollision row.group) := by
  have hr := sound_of_ofLists haccepted
  intro out kept reported
  have hkept : kept = rules.survivors rows := (survivors_eq rows).symm
  have hsurvives : ∀ row ∈ kept, rules.survives row.group.query = true := by
    rw [hkept]
    exact fun row hrow ↦ (List.mem_filter.mp hrow).2
  refine ⟨?_, ?_, ?_, relabel_accounts rows, (relabel_issues rows).nodup, relabel_issues rows⟩
  · rw [hkept]
    exact relabel_rows rows
  · intro row hrow
    obtain ⟨-, hexcluded⟩ := survives_iff.mp (hsurvives row hrow)
    exact ⟨displayId?_eq_some_iff.mpr ⟨hexcluded, rfl⟩, rawId_display hr (hsurvives row hrow)⟩
  · intro row hrow row' hrow'
    exact group_shown_eq_iff hr (hsurvives row hrow) (hsurvives row' hrow')

/-- Trials of a renamed query, of an excluded one, and of one that has the display id of the
first, twice on one engine and once on another. -/
def mixedTrials : List Trial :=
  [⟨⟨"duckdb", "q87", ⟨"1"⟩⟩, ⟨9, .none, .none⟩⟩, ⟨⟨"duckdb", "q13", ⟨"1"⟩⟩, ⟨7, some 3, .none⟩⟩,
    ⟨⟨"umbra", "q87", ⟨"1"⟩⟩, ⟨5, .none, .none⟩⟩, ⟨⟨"umbra", "l_count", ⟨"1"⟩⟩, ⟨1, .none, .none⟩⟩,
    ⟨⟨"duckdb", "q87", ⟨"1"⟩⟩, ⟨8, .none, .none⟩⟩]

theorem splitFigure_accounts_for_mixedTrials :
    ofLists ["l_count", "l_point"]
        [("q13", "q87"), ("q14", "q88"), ("q18", "q98"), ("q19", "q99")] = .ok splitFigure ∧
    (splitFigure.relabel mixedTrials).rows =
      [⟨⟨"duckdb", "q87", ⟨"1"⟩⟩, ⟨7, some 3, .none⟩⟩] ∧
    splitFigure.rawId "q87" = "q13" ∧
    (splitFigure.relabel mixedTrials).excluded = 1 ∧
    IsFirstOccurrences (splitFigure.relabel mixedTrials).issues
      [.idCollision ⟨"duckdb", "q87", ⟨"1"⟩⟩, .idCollision ⟨"umbra", "q87", ⟨"1"⟩⟩,
        .idCollision ⟨"duckdb", "q87", ⟨"1"⟩⟩] := by
  obtain ⟨hrows, hkept, -, hcount, -, hissues⟩ :=
    relabelling_accounts_for_rows ofLists_splitFigure mixedTrials
  refine ⟨ofLists_splitFigure, hrows, ?_, ?_, hissues⟩
  · exact (hkept ⟨⟨"duckdb", "q13", ⟨"1"⟩⟩, ⟨7, some 3, .none⟩⟩ List.mem_cons_self).2
  · rw [hrows] at hcount
    change 1 + (splitFigure.relabel mixedTrials).excluded + 3 = 5 at hcount
    omega

end QueryRules
end QueryBench
