import QueryBench.Proofs.Arithmetic.NonFinite
import QueryBench.Proofs.Cost.SortedRows

/-!
# Means that are not finite

One reading that is not finite spreads to the mean of its group, and from there to the row of
the cost report.
-/

namespace QueryBench

open Binary64 (isFinite_add_left isFinite_add_right isFinite_div)

section Means

variable {samples : List Sample} {s : Sample} {k : Counter}

theorem isFinite_foldl_add {x : Float}
    (h : x.isFinite = false ∨ ∃ s ∈ samples, (s.reading.get k).isFinite = false) :
    (samples.foldl (fun x s ↦ x + s.reading.get k) x).isFinite = false := by
  induction samples generalizing x with
  | nil => simpa using h
  | cons s rest ih =>
      apply ih
      rcases h with hx | ⟨t, ht, hreading⟩
      · exact .inl (isFinite_add_right hx _)
      · rcases List.mem_cons.mp ht with rfl | ht
        · exact .inl (isFinite_add_left hreading _)
        · exact .inr ⟨t, ht, hreading⟩

theorem isFinite_meanReading (hs : s ∈ samples) (h : (s.reading.get k).isFinite = false) :
    (meanReading samples k).isFinite = false :=
  isFinite_div (isFinite_foldl_add (.inr ⟨s, hs, h⟩)) _

theorem isFinite_mean_of_group (hs : s ∈ samples) (h : (s.reading.get k).isFinite = false) :
    (meanReading (samples.filter fun t ↦ t.group = s.group) k).isFinite = false :=
  isFinite_meanReading (List.mem_filter.mpr ⟨hs, decide_eq_true rfl⟩) h

/-- The mean of the group is not finite either. -/
theorem exists_aggregate_not_finite (hs : s ∈ samples) (h : (s.reading.get k).isFinite = false) :
    ∃ a ∈ aggregateMean samples, a.group = s.group ∧ (a.mean.get k).isFinite = false := by
  obtain ⟨a, ha, hgroup⟩ := List.mem_map.mp (mem_map_group_aggregateMean.mpr ⟨s, hs, rfl⟩)
  refine ⟨a, ha, hgroup, ?_⟩
  have hmean : a.mean.get k = meanReading (samples.filter fun t ↦ t.group = s.group) k := by
    rw [(mem_aggregateMean.mp ha).2, hgroup]
    exact get_mean_ofSamples _ k
  exact hmean ▸ isFinite_mean_of_group hs h

/-- A report has a row of the group, and the row is not finite. -/
theorem CostReport.exists_row_not_finite {reference : ReferenceTable} {rules : QueryRules}
    {report : CostReport}
    (hreport : ofAggregates reference rules (aggregateMean samples) = .ok report)
    (hs : s ∈ samples) (h : (s.reading.get k).isFinite = false) :
    ∃ row ∈ report.rows, row.shownGroup = s.group ∧ (row.perTuple.get k).isFinite = false := by
  obtain ⟨rows, hrows, rfl⟩ := ofAggregates_eq_ok_iff.mp hreport
  have hgroups : s.group ∈ rows.map CostRow.shownGroup := by
    rw [map_shownGroup_of_rowsOf hrows]
    exact mem_map_group_aggregateMean.mpr ⟨s, hs, rfl⟩
  obtain ⟨row, hrow, hgroup⟩ := List.mem_map.mp hgroups
  refine ⟨row, (List.mergeSort_perm rows _).mem_iff.mpr hrow, hgroup, ?_⟩
  obtain ⟨-, tuples, factor, -, -, hquotient⟩ := isQuotient_of_mem_rowsOf hrows hrow
  have hmean := isFinite_mean_of_group hs h
  rw [hquotient k, hgroup]
  dsimp only
  split_ifs
  · exact hmean
  · exact isFinite_div hmean _

end Means

end QueryBench
