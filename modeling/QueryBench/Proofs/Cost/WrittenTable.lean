import Mathlib.Data.Finset.Card
import QueryBench.Cost.Text
import QueryBench.Proofs.Cost.DisplayIds
import QueryBench.Proofs.Cost.HiddenBackends
import QueryBench.Proofs.Csv.RoundTrip

/-!
# The cost report as a table

A reader of the written table finds a record for each row, with the labels of the row as
they are.  The scale factor is left out only where all rows have the same one, so the
labels that are shown still tell apart any two rows.
-/

namespace QueryBench
namespace CostReport

/-- The columns of the labels: their names, and what a row has there. -/
def labelColumns (spans : Bool) : List (String × (CostRow → String)) :=
  [("backend", CostRow.backend), ("query", CostRow.query)] ++
    if spans then [("sf", fun row ↦ row.scaleFactor.label)] else []

/-- The labels of a row that stand in its record. -/
def labelFields (spans : Bool) (row : CostRow) : List String :=
  (labelColumns spans).map fun column ↦ column.2 row

def counterFields (row : CostRow) : List String :=
  Counter.all.map fun k ↦ Decimal.fixedText 2 (row.perTuple.get k)

theorem header_eq (r : CostReport) :
    r.header = (labelColumns r.spansScaleFactors).map Prod.fst ++
      Counter.all.map Counter.reportName := by
  unfold header labelColumns
  cases r.spansScaleFactors <;> rfl

theorem rowFields_eq (spans : Bool) (row : CostRow) :
    rowFields spans row = labelFields spans row ++ counterFields row := by
  unfold rowFields labelFields labelColumns counterFields
  cases spans <;> rfl

theorem length_labelFields (spans : Bool) (row : CostRow) :
    (labelFields spans row).length = (labelColumns spans).length := List.length_map _

theorem length_rowFields (r : CostReport) (row : CostRow) :
    (rowFields r.spansScaleFactors row).length = r.header.length := by
  rw [rowFields_eq, header_eq, List.length_append, List.length_append, length_labelFields]
  simp [counterFields]

theorem take_rowFields (spans : Bool) (row : CostRow) :
    (rowFields spans row).take (labelColumns spans).length = labelFields spans row := by
  rw [rowFields_eq, ← length_labelFields spans row, List.take_left]

theorem sf_mem_header_iff {r : CostReport} : "sf" ∈ r.header ↔ r.spansScaleFactors = true := by
  unfold header
  cases r.spansScaleFactors <;> decide

/-! ## Labels that are shown -/

variable {r : CostReport}

theorem nodup_scaleFactors (r : CostReport) : r.scaleFactors.Nodup := by
  apply Std.ExtTreeSet.distinct_toList.imp
  intro x y hne heq
  exact hne (heq ▸ Std.ReflCmp.compare_self)

theorem mem_scaleFactors_iff {label : String} :
    label ∈ r.scaleFactors ↔ ∃ row ∈ r.rows, row.scaleFactor.label = label := by
  simp [scaleFactors]

theorem spansScaleFactors_iff :
    r.spansScaleFactors = true ↔ ∃ a ∈ r.rows, ∃ b ∈ r.rows, a.scaleFactor ≠ b.scaleFactor := by
  have hcard : r.scaleFactors.toFinset.card = r.scaleFactors.length :=
    List.toFinset_card_of_nodup (nodup_scaleFactors r)
  rw [spansScaleFactors, decide_eq_true_iff, ← hcard, Finset.one_lt_card]
  simp only [List.mem_toFinset, mem_scaleFactors_iff]
  constructor
  · rintro ⟨_, ⟨a, ha, rfl⟩, _, ⟨b, hb, rfl⟩, hne⟩
    exact ⟨a, ha, b, hb, fun heq ↦ hne (congrArg ScaleFactor.label heq)⟩
  · rintro ⟨a, ha, b, hb, hne⟩
    refine ⟨_, ⟨a, ha, rfl⟩, _, ⟨b, hb, rfl⟩, fun heq ↦ hne ?_⟩
    exact congrArg ScaleFactor.mk heq

/-- The labels that are shown tell rows apart as all their labels do. -/
theorem labelFields_eq_iff {a b : CostRow} (ha : a ∈ r.rows) (hb : b ∈ r.rows) :
    labelFields r.spansScaleFactors a = labelFields r.spansScaleFactors b ↔
      a.group = b.group := by
  -- a scale factor that is not shown is that of all rows
  have hshared : r.spansScaleFactors = false → a.scaleFactor = b.scaleFactor := by
    intro hspans
    by_contra hne
    rw [spansScaleFactors_iff.mpr ⟨a, ha, b, hb, hne⟩] at hspans
    cases hspans
  obtain ⟨backend, query, shown, ⟨sf⟩, counters⟩ := a
  obtain ⟨backend', query', shown', ⟨sf'⟩, counters'⟩ := b
  cases hspans : r.spansScaleFactors with
  | true => simp [labelFields, labelColumns, CostRow.group]
  | false =>
      have hsf := hshared hspans
      simp_all [labelFields, labelColumns, CostRow.group]

theorem nodup_labelFields (h : (r.rows.map CostRow.group).Nodup) :
    (r.rows.map (labelFields r.spansScaleFactors)).Nodup := by
  rw [List.Nodup, List.pairwise_map] at h ⊢
  apply h.imp_of_mem
  intro a b ha hb hne heq
  exact hne ((labelFields_eq_iff ha hb).mp heq)

theorem nodup_group_withoutBackends {rules : QueryRules} (hr : rules.Sound)
    {reference : ReferenceTable} {samples : List Sample}
    (h : ofAggregates reference rules (aggregateMean (rules.relabel samples).rows) = .ok r)
    (hidden : List String) : ((r.withoutBackends hidden).rows.map CostRow.group).Nodup := by
  obtain ⟨rows, hrows, rfl⟩ := ofAggregates_eq_ok_iff.mp h
  have hsorted : ((rows.mergeSort CostRow.notAfter).map CostRow.group).Nodup :=
    ((List.mergeSort_perm rows _).map _).nodup_iff.mpr (QueryRules.nodup_group_of_rowsOf hr hrows)
  rw [withoutBackends_eq]
  exact hsorted.sublist (List.filter_sublist.map _)

/-! ## Reading the table -/

theorem map_fields_records_table (r : CostReport) :
    (Csv.records r.table).map Csv.Record.fields =
      (r.header :: r.rows.map (rowFields r.spansScaleFactors)).map
        (List.map Bytes.ofString) := by
  apply Csv.map_fields_records_write
  · have hheader : 2 ≤ r.header.length := by simp [header]
    rw [List.forall_mem_cons, List.forall_mem_map]
    refine ⟨hheader, ?_⟩
    intro row _
    rw [length_rowFields]
    exact hheader
  -- the first text is the name of the first column
  · intro fields hfields s hs
    cases hfields
    cases hs
    decide

/-- The table of a report, with some backends hidden, is read as a header and a record for
each row that is left, in the order of the rows and as wide as the header.  Backend, query
and, in a table of several scale factors, the scale factor stand there as they are, and no
two records agree in all of these. -/
theorem cost_table_tells_rows_apart {excluded : List String}
    {renamings : List (String × String)} {rules : QueryRules}
    (haccepted : QueryRules.ofLists excluded renamings = .ok rules)
    {reference : ReferenceTable} {samples : List Sample} {r : CostReport}
    (hreport : ofAggregates reference rules (aggregateMean (rules.relabel samples).rows) = .ok r)
    (hidden : List String) :
    let shown := r.withoutBackends hidden
    let columns := labelColumns shown.spansScaleFactors
    ∃ header records,
      (Csv.records shown.table).map Csv.Record.fields =
        (header :: records).map (List.map Bytes.ofString) ∧
      header = columns.map Prod.fst ++ Counter.all.map Counter.reportName ∧
      ("sf" ∈ header ↔ ∃ a ∈ shown.rows, ∃ b ∈ shown.rows, a.scaleFactor ≠ b.scaleFactor) ∧
      (∀ fields ∈ records, fields.length = header.length) ∧
      records.map (List.take columns.length) =
        shown.rows.map (fun row ↦ columns.map fun column ↦ column.2 row) ∧
      (records.map (List.take columns.length)).Nodup := by
  intro shown columns
  have hsound := QueryRules.sound_of_ofLists haccepted
  have hlabels : (shown.rows.map (rowFields shown.spansScaleFactors)).map
      (List.take columns.length) = shown.rows.map (labelFields shown.spansScaleFactors) := by
    rw [List.map_map]
    exact List.map_congr_left fun row _ ↦ take_rowFields _ row
  refine ⟨shown.header, shown.rows.map (rowFields shown.spansScaleFactors),
    map_fields_records_table shown, header_eq shown, ?_, ?_, hlabels, ?_⟩
  · rw [sf_mem_header_iff, spansScaleFactors_iff]
  · rw [List.forall_mem_map]
    exact fun row _ ↦ length_rowFields shown row
  · rw [hlabels]
    exact nodup_labelFields (nodup_group_withoutBackends hsound hreport hidden)

/-- Backends that hold separators, quotes, line ends or a mark, one that is hidden, and a
query that is read under its raw id at two scale factors. -/
def awkwardSamples : List Sample :=
  [⟨⟨"\uFEFFa,\"b\"", "q13", ⟨"1"⟩⟩, ⟨100, 7, 1, 1, 1, 2⟩⟩,
    ⟨⟨"line\r\nend", "q6", ⟨"1"⟩⟩, ⟨5, 1, 1, 1, 1, 1⟩⟩,
    ⟨⟨"\uFEFFa,\"b\"", "q13", ⟨"10"⟩⟩, ⟨300, 9, 1, 1, 1, 4⟩⟩,
    ⟨⟨"jit", "q6", ⟨"100"⟩⟩, ⟨1, 1, 1, 1, 1, 1⟩⟩]

theorem cost_table_of_awkwardSamples :
    QueryRules.ofLists ["l_count", "l_point"]
        [("q13", "q87"), ("q14", "q88"), ("q18", "q98"), ("q19", "q99")] = .ok .splitFigure ∧
    ∃ r, ofAggregates renamedReference .splitFigure
        (aggregateMean (QueryRules.splitFigure.relabel awkwardSamples).rows) = .ok r ∧
      ∃ header records, (Csv.records (r.withoutBackends ["jit"]).table).map Csv.Record.fields =
          (header :: records).map (List.map Bytes.ofString) ∧
        (∀ fields ∈ records, fields.length = header.length) ∧
        records.length = (r.withoutBackends ["jit"]).rows.length := by
  have haccepted := QueryRules.ofLists_splitFigure
  have hok : (ofAggregates renamedReference .splitFigure
      (aggregateMean (QueryRules.splitFigure.relabel awkwardSamples).rows)).isOk = true := by
    decide +kernel
  refine ⟨haccepted, ?_⟩
  cases hr : ofAggregates renamedReference .splitFigure
      (aggregateMean (QueryRules.splitFigure.relabel awkwardSamples).rows) with
  | error fault =>
      rw [hr] at hok
      cases hok
  | ok r =>
      obtain ⟨header, records, htable, -, -, hwidth, hlabels, -⟩ :=
        cost_table_tells_rows_apart haccepted hr ["jit"]
      have hlength := congrArg List.length hlabels
      rw [List.length_map, List.length_map] at hlength
      exact ⟨r, rfl, header, records, htable, hwidth, hlength⟩

end CostReport
end QueryBench
