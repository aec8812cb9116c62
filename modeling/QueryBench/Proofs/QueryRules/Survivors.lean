import QueryBench.Proofs.QueryRules.RawIds
import QueryBench.QueryRules.Relabel

/-!
# Rows that survive relabelling

Relabelling keeps, in input order, the rows whose raw id survives, and changes only
their query ids.  The rows of one display group are therefore the rows of one raw
group.
-/

namespace QueryBench
namespace QueryRules

variable {α : Type} {r : QueryRules}

/-- The row under its display id. -/
def shown (r : QueryRules) (row : Row α) : Row α :=
  ⟨{ row.group with query := r.display row.group.query }, row.reading⟩

/-- The rows that relabelling keeps, before they are relabelled. -/
def survivors (r : QueryRules) (rows : List (Row α)) : List (Row α) :=
  rows.filter fun row ↦ r.survives row.group.query

@[simp] theorem shown_reading (row : Row α) : (r.shown row).reading = row.reading := rfl

theorem survivors_eq (rows : List (Row α)) :
    r.survivors rows = rows.filter fun row ↦
      row.group.query ∉ r.excluded ∧ r.collides row.group.query = false := by
  apply List.filter_congr
  intro row _
  rw [Bool.eq_iff_iff, survives_iff, decide_eq_true_iff, and_comm]

@[simp] theorem survivors_survivors (rows : List (Row α)) :
    r.survivors (r.survivors rows) = r.survivors rows := by
  simp [survivors, List.filter_filter]

/-- A row is reported, left out or kept. -/
theorem fate_cases (r : QueryRules) (row : Row α) :
    (r.collides row.group.query = true ∧
      r.fate row = .collision (.idCollision row.group)) ∨
    (r.collides row.group.query = false ∧ row.group.query ∈ r.excluded ∧
      r.fate row = .excluded) ∨
    (r.collides row.group.query = false ∧ row.group.query ∉ r.excluded ∧
      r.fate row = .kept (r.shown row)) := by
  cases hcollides : r.collides row.group.query with
  | true => exact .inl ⟨rfl, if_pos hcollides⟩
  | false =>
      refine .inr ?_
      by_cases hexcluded : row.group.query ∈ r.excluded
      · exact .inl ⟨rfl, hexcluded, by simp [fate, hcollides, displayId?, hexcluded]⟩
      · refine .inr ⟨rfl, hexcluded, ?_⟩
        simp [fate, hcollides, displayId?, hexcluded, shown, display]

theorem relabel_cons (row : Row α) (rest : List (Row α)) :
    r.relabel (row :: rest) = (r.fate row).addTo (r.relabel rest) := rfl

theorem relabel_rows (rows : List (Row α)) :
    (r.relabel rows).rows = (r.survivors rows).map r.shown := by
  induction rows with
  | nil => rfl
  | cons row rest ih =>
      rw [relabel_cons, survivors, List.filter_cons]
      rcases r.fate_cases row with ⟨hcollides, hfate⟩ | ⟨-, hexcluded, hfate⟩ |
        ⟨hcollides, hkept, hfate⟩
      · rw [hfate, if_neg (by simp [survives_iff, hcollides])]
        exact ih
      · rw [hfate, if_neg (by simp [survives_iff, hexcluded])]
        exact ih
      · rw [hfate, if_pos (survives_iff.mpr ⟨hcollides, hkept⟩)]
        exact congrArg (r.shown row :: ·) ih

/-- Rows that do not survive have no influence on those that do. -/
theorem relabel_survivors_rows (rows : List (Row α)) :
    (r.relabel (r.survivors rows)).rows = (r.relabel rows).rows := by
  simp [relabel_rows]

/-- Rows that survive are in one display group exactly if they are in one raw group. -/
theorem group_shown_eq_iff (hr : r.Sound) {row row' : Row α}
    (h : r.survives row.group.query = true) (h' : r.survives row'.group.query = true) :
    (r.shown row).group = (r.shown row').group ↔ row.group = row'.group := by
  obtain ⟨⟨e, q, sf⟩, reading⟩ := row
  obtain ⟨⟨e', q', sf'⟩, reading'⟩ := row'
  simp only [shown, Group.mk.injEq]
  constructor
  · rintro ⟨he, hq, hsf⟩
    exact ⟨he, display_injective hr h h' hq, hsf⟩
  · rintro ⟨he, hq, hsf⟩
    exact ⟨he, congrArg r.display hq, hsf⟩

/-- The rows of a display group are the rows of the raw group behind it. -/
theorem filter_group_relabel (hr : r.Sound) {id d : String} (h : r.displayId? id = some d)
    (engine : String) (sf : ScaleFactor) (rows : List (Row α)) :
    (r.relabel rows).rows.filter (fun t ↦ t.group = ⟨engine, d, sf⟩) =
      (rows.filter fun t ↦ t.group = ⟨engine, r.rawId d, sf⟩).map r.shown := by
  rw [relabel_rows, survivors, List.filter_map, List.filter_filter]
  congr 1
  apply List.filter_congr
  rintro ⟨⟨e, raw, s⟩, reading⟩ -
  have hraw := survives_and_display_iff hr h raw
  simp only [Function.comp_apply, shown, Group.mk.injEq, ← hraw]
  cases r.survives raw <;> simp

end QueryRules
end QueryBench
