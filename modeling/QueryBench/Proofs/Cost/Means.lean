import Mathlib.Data.List.Nodup
import QueryBench.Cost.Report
import QueryBench.Proofs.Grouping
import QueryBench.Proofs.Outcomes
import QueryBench.Proofs.QueryRules.RawIds

/-!
# Groups and rows of the cost report

The mean of a group is computed from the samples of that group in input order, each
group has one mean, and a report has one row for each mean.  Whether there is a report
does not depend on the order that groups are visited in.
-/

namespace QueryBench

/-! ## Means -/

/-- The tally of some samples, added up in their order. -/
def Tally.ofSamples (samples : List Sample) : Tally :=
  samples.foldl (fun t s ↦ t.add s.reading) .empty

/-- The aggregate of a group that has these samples. -/
def Aggregate.ofSamples (g : Group) (samples : List Sample) : Aggregate :=
  ⟨g, (Tally.ofSamples samples).mean, (Tally.ofSamples samples).count⟩

theorem foldl_tally (t : Tally) (samples : List Sample) :
    samples.foldl (fun t s ↦ some ((t.getD .empty).add s.reading)) (some t) =
      some (samples.foldl (fun t s ↦ t.add s.reading) t) := by
  induction samples generalizing t with
  | nil => rfl
  | cons s rest ih => exact ih (t.add s.reading)

theorem getElem?_tallies_eq_some_iff {samples : List Sample} {g : Group} {t : Tally} :
    (tallies samples)[g]? = some t ↔
      samples.filter (fun s ↦ s.group = g) ≠ [] ∧
        Tally.ofSamples (samples.filter fun s ↦ s.group = g) = t := by
  unfold tallies
  rw [getElem?_foldl_alter fun (s : Sample) (t : Option Tally) ↦ (t.getD .empty).add s.reading]
  cases samples.filter fun s ↦ s.group = g with
  | nil => simp
  | cons s rest =>
      have hfold := foldl_tally (Tally.empty.add s.reading) rest
      simp only [Std.ExtTreeMap.getElem?_empty, List.foldl_cons, Option.getD_none]
      rw [hfold]
      simp [Tally.ofSamples]

theorem mem_aggregateMean {samples : List Sample} {a : Aggregate} :
    a ∈ aggregateMean samples ↔
      samples.filter (fun s ↦ s.group = a.group) ≠ [] ∧
        a = .ofSamples a.group (samples.filter fun s ↦ s.group = a.group) := by
  simp only [aggregateMean, List.mem_map, Prod.exists,
    Std.ExtTreeMap.mem_toList_iff_getElem?_eq_some, getElem?_tallies_eq_some_iff]
  constructor
  · rintro ⟨g, t, ⟨hne, rfl⟩, rfl⟩
    exact ⟨hne, rfl⟩
  · rintro ⟨hne, ha⟩
    exact ⟨a.group, _, ⟨hne, rfl⟩, ha.symm⟩

theorem nodup_group_aggregateMean (samples : List Sample) :
    ((aggregateMean samples).map (·.group)).Nodup := by
  rw [aggregateMean, List.map_map]
  exact nodup_fst_toList _

theorem nodup_aggregateMean (samples : List Sample) : (aggregateMean samples).Nodup :=
  List.Nodup.of_map _ (nodup_group_aggregateMean samples)

/-! ## Rows -/

namespace CostRow

/-- The group that a row reports on, under its raw query id. -/
def group (row : CostRow) : Group := ⟨row.backend, row.query, row.scaleFactor⟩

/-- A row without its display id. -/
def measured (row : CostRow) : Group × Counters := (row.group, row.perTuple)

theorem group_of_ofAggregate {reference : ReferenceTable} {rules : QueryRules}
    {a : Aggregate} {row : CostRow} (h : ofAggregate reference rules a = .ok row) :
    row.group = { a.group with query := rules.rawId a.group.query } := by
  unfold ofAggregate at h
  dsimp only at h
  split at h
  · cases h
  · split at h
    · cases h
    · cases h
      rfl

end CostRow

namespace CostReport

variable {reference : ReferenceTable} {rules : QueryRules}

theorem rowsOf_takesInOrder : TakesInOrder (CostRow.ofAggregate reference rules) List.cons []
    (rowsOf reference rules) where
  nil := rfl
  cons := by
    intro a as
    rw [rowsOf]
    cases CostRow.ofAggregate reference rules a <;> rfl

theorem rowsOf_eq_ok_iff_forall₂ {as : List Aggregate} {rows : List CostRow} :
    rowsOf reference rules as = .ok rows ↔
      List.Forall₂ (fun a row ↦ CostRow.ofAggregate reference rules a = .ok row) as rows := by
  rw [rowsOf_takesInOrder.eq_ok_iff]
  simp only [List.foldr_cons_nil, exists_eq_right']

/-- There are rows exactly if every group has one, and they are then those of the
groups. -/
theorem rowsOf_eq_ok_iff {as : List Aggregate} {rows : List CostRow} :
    rowsOf reference rules as = .ok rows ↔
      as.map (CostRow.ofAggregate reference rules) = rows.map .ok := by
  rw [rowsOf_eq_ok_iff_forall₂, ← List.forall₂_eq_eq_eq, List.forall₂_map_left_iff,
    List.forall₂_map_right_iff]

theorem exists_rowsOf_iff {as : List Aggregate} :
    (∃ rows, rowsOf reference rules as = .ok rows) ↔
      ∀ a ∈ as, ∃ row, CostRow.ofAggregate reference rules a = .ok row :=
  rowsOf_takesInOrder.exists_ok_iff

/-- What each row takes over from its group, the rows take over in the order of the
groups. -/
theorem map_eq_of_rowsOf {β : Type} {f : CostRow → β} {g : Aggregate → β}
    (hrow : ∀ {a row}, CostRow.ofAggregate reference rules a = .ok row → f row = g a)
    {as : List Aggregate} {rows : List CostRow} (h : rowsOf reference rules as = .ok rows) :
    rows.map f = as.map g := by
  have hrows := (rowsOf_eq_ok_iff_forall₂.mp h).imp fun a row ha ↦ (hrow ha).symm
  rw [← List.forall₂_map_right_iff, ← List.forall₂_map_left_iff, List.forall₂_eq_eq_eq] at hrows
  exact hrows.symm

theorem map_group_of_rowsOf {as : List Aggregate} {rows : List CostRow}
    (h : rowsOf reference rules as = .ok rows) :
    rows.map CostRow.group =
      as.map fun a ↦ { a.group with query := rules.rawId a.group.query } :=
  map_eq_of_rowsOf CostRow.group_of_ofAggregate h

/-- A report holds the rows of its groups in another order. -/
theorem ofAggregates_eq_ok_iff {as : List Aggregate} {report : CostReport} :
    ofAggregates reference rules as = .ok report ↔
      ∃ rows, rowsOf reference rules as = .ok rows ∧
        report = ⟨rows.mergeSort CostRow.notAfter⟩ := by
  rw [ofAggregates, map_eq_ok_iff]
  simp only [eq_comm (b := report)]

theorem exists_ofAggregates_iff {as : List Aggregate} :
    (∃ report, ofAggregates reference rules as = .ok report) ↔
      ∀ a ∈ as, ∃ row, CostRow.ofAggregate reference rules a = .ok row := by
  rw [← exists_rowsOf_iff]
  constructor
  · rintro ⟨report, h⟩
    obtain ⟨rows, hrows, -⟩ := ofAggregates_eq_ok_iff.mp h
    exact ⟨rows, hrows⟩
  · rintro ⟨rows, hrows⟩
    exact ⟨_, ofAggregates_eq_ok_iff.mpr ⟨rows, hrows, rfl⟩⟩

end CostReport
end QueryBench
