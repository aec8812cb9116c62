import Mathlib.Data.List.Perm.Basic
import QueryBench.Proofs.Cost.Means
import QueryBench.Proofs.QueryRules.Survivors

/-!
# Display ids in the cost report

Renaming queries changes how a cost report is sorted and nothing else.  The display
groups of the relabelled samples correspond one to one to the raw groups of the
samples that survive, and corresponding groups add up the same readings in the same
order.
-/

namespace QueryBench

/-- The aggregate under the display id of its query. -/
def QueryRules.shownAggregate (r : QueryRules) (a : Aggregate) : Aggregate :=
  { a with group := { a.group with query := r.display a.group.query } }

/-- The row of a report that is sorted by the display ids of some rules. -/
def CostRow.shown (r : QueryRules) (row : CostRow) : CostRow :=
  { row with displayQuery := r.display row.query }

namespace QueryRules

variable {r : QueryRules}

/-! ## Corresponding groups -/

theorem tally_map_shown (samples : List Sample) :
    Tally.ofSamples (samples.map r.shown) = Tally.ofSamples samples := by
  simp [Tally.ofSamples, List.foldl_map]

/-- The display group of a surviving row holds the surviving rows of its raw group. -/
theorem filter_group_shown {α : Type} (hr : r.Sound) {row : Row α}
    (hrow : r.survives row.group.query = true) (rows : List (Row α)) :
    (r.relabel rows).rows.filter (fun t ↦ t.group = (r.shown row).group) =
      ((r.survivors rows).filter fun t ↦ t.group = row.group).map r.shown := by
  rw [relabel_rows, List.filter_map]
  congr 1
  apply List.filter_congr
  intro t ht
  have hsurvives : r.survives t.group.query = true := (List.mem_filter.mp ht).2
  simp [group_shown_eq_iff hr hsurvives hrow]

theorem survives_of_mem_aggregateMean {samples : List Sample} {a : Aggregate}
    (h : a ∈ aggregateMean (r.survivors samples)) : r.survives a.group.query = true := by
  obtain ⟨hne, -⟩ := mem_aggregateMean.mp h
  obtain ⟨s, hs⟩ := List.exists_mem_of_ne_nil _ hne
  obtain ⟨hmem, hgroup⟩ := List.mem_filter.mp hs
  have hgroup' : s.group = a.group := by simpa using hgroup
  rw [← hgroup']
  exact (List.mem_filter.mp hmem).2

theorem ofSamples_shown (hr : r.Sound) {s : Sample} (hs : r.survives s.group.query = true)
    (samples : List Sample) :
    Aggregate.ofSamples (r.shown s).group
        ((r.relabel samples).rows.filter fun t ↦ t.group = (r.shown s).group) =
      r.shownAggregate (.ofSamples s.group
        ((r.survivors samples).filter fun t ↦ t.group = s.group)) := by
  rw [filter_group_shown hr hs, Aggregate.ofSamples, tally_map_shown]
  rfl

theorem mem_aggregateMean_relabel (hr : r.Sound) {samples : List Sample} {a : Aggregate} :
    a ∈ aggregateMean (r.relabel samples).rows ↔
      ∃ b ∈ aggregateMean (r.survivors samples), r.shownAggregate b = a := by
  constructor
  · intro ha
    obtain ⟨hne, heq⟩ := mem_aggregateMean.mp ha
    obtain ⟨t, ht⟩ := List.exists_mem_of_ne_nil _ hne
    obtain ⟨hmem, hgroup⟩ := List.mem_filter.mp ht
    rw [relabel_rows] at hmem
    obtain ⟨s, hs, rfl⟩ := List.mem_map.mp hmem
    have hgroup' : a.group = (r.shown s).group := by simpa [eq_comm] using hgroup
    have hsurvives : r.survives s.group.query = true := (List.mem_filter.mp hs).2
    refine ⟨.ofSamples s.group ((r.survivors samples).filter fun t ↦ t.group = s.group), ?_, ?_⟩
    · refine mem_aggregateMean.mpr ⟨?_, rfl⟩
      exact List.ne_nil_of_mem (List.mem_filter.mpr ⟨hs, by simp [Aggregate.ofSamples]⟩)
    · rw [heq, hgroup', ofSamples_shown hr hsurvives]
  · rintro ⟨b, hb, rfl⟩
    obtain ⟨hne, heq⟩ := mem_aggregateMean.mp hb
    obtain ⟨s, hs⟩ := List.exists_mem_of_ne_nil _ hne
    obtain ⟨hmem, hgroup⟩ := List.mem_filter.mp hs
    have hgroup' : b.group = s.group := by simpa [eq_comm] using hgroup
    have hsurvives : r.survives s.group.query = true := (List.mem_filter.mp hmem).2
    have hshown : (r.shownAggregate b).group = (r.shown s).group := by
      simp [shownAggregate, shown, hgroup']
    rw [mem_aggregateMean, hshown, filter_group_shown hr hsurvives]
    refine ⟨?_, ?_⟩
    · rw [hgroup'] at hne
      simpa using hne
    · rw [← filter_group_shown hr hsurvives, ofSamples_shown hr hsurvives, ← hgroup', ← heq]

theorem nodup_shownAggregate (hr : r.Sound) (samples : List Sample) :
    ((aggregateMean (r.survivors samples)).map r.shownAggregate).Nodup := by
  apply (nodup_aggregateMean _).map_on
  intro a ha b hb heq
  have hquery : a.group.query = b.group.query := by
    apply display_injective hr (survives_of_mem_aggregateMean ha)
      (survives_of_mem_aggregateMean hb)
    exact congrArg (·.group.query) heq
  obtain ⟨⟨e, q, sf⟩, mean, trials⟩ := a
  obtain ⟨⟨e', q', sf'⟩, mean', trials'⟩ := b
  simp_all [shownAggregate]

/-- Display groups and raw groups correspond one to one. -/
theorem aggregateMean_relabel_perm (hr : r.Sound) (samples : List Sample) :
    (aggregateMean (r.relabel samples).rows).Perm
      ((aggregateMean (r.survivors samples)).map r.shownAggregate) := by
  rw [List.perm_ext_iff_of_nodup (nodup_aggregateMean _) (nodup_shownAggregate hr samples)]
  intro a
  rw [mem_aggregateMean_relabel hr, List.mem_map]

/-! ## Corresponding rows -/

/-- A display group gives the row of its raw group, or fails as that does. -/
theorem ofAggregate_shown (hr : r.Sound) (reference : ReferenceTable) {a : Aggregate}
    (h : r.survives a.group.query = true) :
    CostRow.ofAggregate reference r (r.shownAggregate a) =
      (CostRow.ofAggregate reference .none a).map (CostRow.shown r) := by
  have hraw : r.rawId (r.shownAggregate a).group.query = a.group.query := rawId_display hr h
  have hsf : (r.shownAggregate a).group.scaleFactor = a.group.scaleFactor := rfl
  unfold CostRow.ofAggregate
  simp only [hraw, rawId_none, hsf]
  cases reference.get? a.group.query with
  | none => rfl
  | some tuples =>
      cases hfactor : a.group.scaleFactor.factor with
      | error fault => simp [Except.map]
      | ok factor => simp [Except.map, CostRow.shown, shownAggregate]

/-- The rows of corresponding groups differ in their display ids only. -/
theorem rowsOf_shown (hr : r.Sound) {reference : ReferenceTable} {as : List Aggregate}
    (h : ∀ a ∈ as, r.survives a.group.query = true) {rows : List CostRow}
    (hrows : CostReport.rowsOf reference .none as = .ok rows) :
    (as.map r.shownAggregate).map (CostRow.ofAggregate reference r) =
      (rows.map (CostRow.shown r)).map .ok := by
  have hmap := CostReport.rowsOf_eq_ok_iff.mp hrows
  calc
    (as.map r.shownAggregate).map (CostRow.ofAggregate reference r) =
        as.map fun a ↦ (CostRow.ofAggregate reference .none a).map (CostRow.shown r) := by
      rw [List.map_map]
      exact List.map_congr_left fun a ha ↦ ofAggregate_shown hr reference (h a ha)
    _ = (as.map (CostRow.ofAggregate reference .none)).map (Except.map (CostRow.shown r)) := by
      rw [List.map_map]
      rfl
    _ = (rows.map (CostRow.shown r)).map .ok := by
      rw [hmap, List.map_map, List.map_map]
      rfl

theorem rows_perm (hr : r.Sound) {reference : ReferenceTable} {samples : List Sample}
    {rows raw : List CostRow}
    (hrows : CostReport.rowsOf reference r (aggregateMean (r.relabel samples).rows) = .ok rows)
    (hraw : CostReport.rowsOf reference .none (aggregateMean (r.survivors samples)) = .ok raw) :
    rows.Perm (raw.map (CostRow.shown r)) := by
  have hperm := (aggregateMean_relabel_perm hr samples).map (CostRow.ofAggregate reference r)
  rw [CostReport.rowsOf_eq_ok_iff.mp hrows,
    rowsOf_shown hr (fun a ha ↦ survives_of_mem_aggregateMean ha) hraw] at hperm
  exact (List.map_perm_map_iff fun _ _ h ↦ Except.ok.inj h).mp hperm

theorem map_group_perm (hr : r.Sound) {reference : ReferenceTable} {samples : List Sample}
    {rows : List CostRow}
    (hrows : CostReport.rowsOf reference r (aggregateMean (r.relabel samples).rows) = .ok rows) :
    (rows.map CostRow.group).Perm ((aggregateMean (r.survivors samples)).map (·.group)) := by
  rw [CostReport.map_group_of_rowsOf hrows]
  refine ((aggregateMean_relabel_perm hr samples).map _).trans (.of_eq ?_)
  rw [List.map_map]
  apply List.map_congr_left
  intro a ha
  have hraw : r.rawId (r.display a.group.query) = a.group.query :=
    rawId_display hr (survives_of_mem_aggregateMean ha)
  simp [shownAggregate, hraw]

theorem nodup_group_of_rowsOf (hr : r.Sound) {reference : ReferenceTable}
    {samples : List Sample} {rows : List CostRow}
    (hrows : CostReport.rowsOf reference r (aggregateMean (r.relabel samples).rows) = .ok rows) :
    (rows.map CostRow.group).Nodup :=
  (map_group_perm hr hrows).nodup_iff.mpr (nodup_group_aggregateMean _)

/-- Renaming does not decide whether there is a report. -/
theorem exists_report_iff (hr : r.Sound) (reference : ReferenceTable) (samples : List Sample) :
    (∃ report, CostReport.ofAggregates reference r
        (aggregateMean (r.relabel samples).rows) = .ok report) ↔
      ∃ report, CostReport.ofAggregates reference .none
        (aggregateMean (r.survivors samples)) = .ok report := by
  rw [CostReport.exists_ofAggregates_iff, CostReport.exists_ofAggregates_iff]
  have hmem : ∀ a, a ∈ aggregateMean (r.relabel samples).rows ↔
      ∃ b ∈ aggregateMean (r.survivors samples), r.shownAggregate b = a :=
    fun a ↦ mem_aggregateMean_relabel hr
  constructor
  · intro h b hb
    obtain ⟨row, hrow⟩ := h _ ((hmem _).mpr ⟨b, hb, rfl⟩)
    rw [ofAggregate_shown hr reference (survives_of_mem_aggregateMean hb)] at hrow
    cases hraw : CostRow.ofAggregate reference .none b with
    | error fault =>
        rw [hraw] at hrow
        cases hrow
    | ok raw => exact ⟨raw, rfl⟩
  · intro h a ha
    obtain ⟨b, hb, rfl⟩ := (hmem a).mp ha
    obtain ⟨row, hrow⟩ := h b hb
    rw [ofAggregate_shown hr reference (survives_of_mem_aggregateMean hb), hrow]
    exact ⟨row.shown r, rfl⟩

end QueryRules

theorem CostReport.nodup_group_none {reference : ReferenceTable} {samples : List Sample}
    {rows : List CostRow}
    (h : CostReport.rowsOf reference .none (aggregateMean samples) = .ok rows) :
    (rows.map CostRow.group).Nodup := by
  rw [CostReport.map_group_of_rowsOf h]
  simpa using nodup_group_aggregateMean samples

/-- A cost report does not depend on how its queries are renamed.  It exists exactly if
the report on the surviving samples under their raw ids does, and both have the same
rows up to their order and the display ids: one for each group, with identical
counters. -/
theorem cost_report_ignores_display_ids {excluded : List String}
    {renamings : List (String × String)} {rules : QueryRules}
    (haccepted : QueryRules.ofLists excluded renamings = .ok rules)
    (reference : ReferenceTable) (samples : List Sample) :
    let displayed := CostReport.ofAggregates reference rules
      (aggregateMean (rules.relabel samples).rows)
    let raw := CostReport.ofAggregates reference .none
      (aggregateMean (samples.filter fun s ↦
        s.group.query ∉ rules.excluded ∧ rules.collides s.group.query = false))
    ((∃ report, displayed = .ok report) ↔ ∃ report, raw = .ok report) ∧
      ∀ report report', displayed = .ok report → raw = .ok report' →
        (report.rows.map CostRow.measured).Perm (report'.rows.map CostRow.measured) ∧
          (report.rows.map CostRow.group).Nodup ∧ (report'.rows.map CostRow.group).Nodup := by
  have hr := QueryRules.sound_of_ofLists haccepted
  intro displayed raw
  dsimp only [displayed, raw]
  rw [← QueryRules.survivors_eq]
  refine ⟨QueryRules.exists_report_iff hr reference samples, ?_⟩
  intro report report' hreport hreport'
  obtain ⟨rows, hrows, rfl⟩ := CostReport.ofAggregates_eq_ok_iff.mp hreport
  obtain ⟨rows', hrows', rfl⟩ := CostReport.ofAggregates_eq_ok_iff.mp hreport'
  have hsorted := List.mergeSort_perm rows CostRow.notAfter
  have hsorted' := List.mergeSort_perm rows' CostRow.notAfter
  have hperm : (rows.map CostRow.measured).Perm (rows'.map CostRow.measured) := by
    have hshown := (QueryRules.rows_perm hr hrows hrows').map CostRow.measured
    rwa [List.map_map, show CostRow.measured ∘ CostRow.shown rules = CostRow.measured from rfl]
      at hshown
  refine ⟨?_, ?_, ?_⟩
  · exact (hsorted.map _).trans (hperm.trans (hsorted'.map _).symm)
  · exact (hsorted.map _).nodup_iff.mpr (QueryRules.nodup_group_of_rowsOf hr hrows)
  · exact (hsorted'.map _).nodup_iff.mpr (CostReport.nodup_group_none hrows')

/-- Samples of a renamed query, of one that keeps its id, and of one whose raw id is
the display id of the first. -/
def renamedSamples : List Sample :=
  [⟨⟨"rof", "q13", ⟨"1"⟩⟩, ⟨100, 7, 1, 1, 1, 2⟩⟩, ⟨⟨"rof", "q87", ⟨"1"⟩⟩, ⟨1, 1, 1, 1, 1, 1⟩⟩,
    ⟨⟨"rof", "q6", ⟨"1"⟩⟩, ⟨5, 1, 1, 1, 1, 1⟩⟩, ⟨⟨"rof", "q13", ⟨"1"⟩⟩, ⟨300, 9, 1, 1, 1, 4⟩⟩]

def renamedReference : ReferenceTable :=
  ⟨((∅ : Std.ExtTreeMap String UInt64).insert "q13" 100).insert "q6" 10⟩

theorem cost_report_of_renamed_samples :
    QueryRules.ofLists ["l_count", "l_point"]
        [("q13", "q87"), ("q14", "q88"), ("q18", "q98"), ("q19", "q99")] = .ok .splitFigure ∧
    ∃ report report',
      CostReport.ofAggregates renamedReference .splitFigure
        (aggregateMean (QueryRules.splitFigure.relabel renamedSamples).rows) = .ok report ∧
      CostReport.ofAggregates renamedReference .none
        (aggregateMean (renamedSamples.filter fun s ↦
          s.group.query ∉ QueryRules.splitFigure.excluded ∧
            QueryRules.splitFigure.collides s.group.query = false)) = .ok report' ∧
      (report.rows.map CostRow.measured).Perm (report'.rows.map CostRow.measured) := by
  have haccepted := QueryRules.ofLists_splitFigure
  obtain ⟨hexists, hperm⟩ :=
    cost_report_ignores_display_ids haccepted renamedReference renamedSamples
  have hok : (CostReport.rowsOf renamedReference .none (aggregateMean
      (renamedSamples.filter fun s ↦ s.group.query ∉ QueryRules.splitFigure.excluded ∧
        QueryRules.splitFigure.collides s.group.query = false))).isOk = true := by
    decide +kernel
  cases hrows : CostReport.rowsOf renamedReference .none (aggregateMean
      (renamedSamples.filter fun s ↦ s.group.query ∉ QueryRules.splitFigure.excluded ∧
        QueryRules.splitFigure.collides s.group.query = false)) with
  | error fault =>
      rw [hrows] at hok
      cases hok
  | ok rows =>
      have hraw := CostReport.ofAggregates_eq_ok_iff.mpr ⟨rows, hrows, rfl⟩
      obtain ⟨report, hreport⟩ := hexists.mpr ⟨_, hraw⟩
      exact ⟨haccepted, report, _, hreport, hraw, (hperm _ _ hreport hraw).1⟩

end QueryBench
