import QueryBench.Proofs.Cost.SortedRows

/-!
# Reports that hide backends

Which groups a report keeps can be decided before their samples are averaged or after their rows
are sorted.  No group takes part in the mean, the row or the order of others, so what is left of
a report without some backends is the report on the samples of all others.
-/

namespace QueryBench

/-! ## Means -/

/-- The samples of a group that is kept are all there after the others have been left out. -/
theorem filter_group_of_keep {keep : Group → Bool} {g : Group} (hkeep : keep g = true)
    (samples : List Sample) :
    (samples.filter fun s ↦ keep s.group).filter (fun s ↦ s.group = g) =
      samples.filter fun s ↦ s.group = g := by
  rw [List.filter_filter]
  apply List.filter_congr
  intro s _
  by_cases hgroup : s.group = g <;> simp [hgroup, hkeep]

theorem mem_aggregateMean_filter {samples : List Sample} {keep : Group → Bool} {a : Aggregate} :
    a ∈ aggregateMean (samples.filter fun s ↦ keep s.group) ↔
      a ∈ aggregateMean samples ∧ keep a.group = true := by
  rw [mem_aggregateMean, mem_aggregateMean]
  cases hkeep : keep a.group with
  | true => rw [filter_group_of_keep hkeep, and_iff_left rfl]
  | false =>
      refine iff_of_false ?_ (fun h ↦ Bool.false_ne_true h.2)
      rintro ⟨hsome, -⟩
      obtain ⟨s, hs⟩ := List.exists_mem_of_ne_nil _ hsome
      obtain ⟨hs, hgroup⟩ := List.mem_filter.mp hs
      obtain ⟨-, hkept⟩ := List.mem_filter.mp hs
      rw [of_decide_eq_true hgroup, hkeep] at hkept
      cases hkept

theorem aggregateMean_filter (samples : List Sample) (keep : Group → Bool) :
    aggregateMean (samples.filter fun s ↦ keep s.group) =
      (aggregateMean samples).filter fun a ↦ keep a.group := by
  apply eq_of_perm_of_ascending _ (pairwise_aggregateMean _)
    ((pairwise_aggregateMean samples).filter _)
  apply (List.perm_ext_iff_of_nodup (nodup_aggregateMean _)
    ((nodup_aggregateMean samples).filter _)).mpr
  intro a
  rw [mem_aggregateMean_filter, List.mem_filter]

/-! ## Rows -/

theorem CostRow.mergeSort_filter {rows : List CostRow} (h : (rows.map shownGroup).Nodup)
    (keep : CostRow → Bool) :
    (rows.filter keep).mergeSort notAfter = (rows.mergeSort notAfter).filter keep := by
  have hkept : ((rows.filter keep).map shownGroup).Nodup :=
    h.sublist (List.filter_sublist.map shownGroup)
  apply eq_of_perm_of_ascending _ (pairwise_mergeSort hkept) ((pairwise_mergeSort h).filter keep)
  exact (List.mergeSort_perm _ notAfter).trans
    ((List.mergeSort_perm rows notAfter).filter keep).symm

namespace CostReport

variable {reference : ReferenceTable} {rules : QueryRules}

theorem rowsOf_filter {as : List Aggregate} {rows : List CostRow}
    (h : rowsOf reference rules as = .ok rows) (keep : Group → Bool) :
    rowsOf reference rules (as.filter fun a ↦ keep a.group) =
      .ok (rows.filter fun row ↦ keep row.shownGroup) := by
  rw [rowsOf_eq_ok_iff_forall₂] at h ⊢
  refine List.rel_filter (fun a row ha ↦ ?_) h
  dsimp only
  rw [CostRow.shownGroup_of_ofAggregate ha]

/-- A report on the groups that are kept has the rows of those groups in the whole report. -/
theorem ofAggregates_filter {samples : List Sample} {r : CostReport}
    (h : ofAggregates reference rules (aggregateMean samples) = .ok r) (keep : Group → Bool) :
    ofAggregates reference rules (aggregateMean (samples.filter fun s ↦ keep s.group)) =
      .ok ⟨r.rows.filter fun row ↦ keep row.shownGroup⟩ := by
  obtain ⟨rows, hrows, rfl⟩ := ofAggregates_eq_ok_iff.mp h
  have hgroups : (rows.map CostRow.shownGroup).Nodup := by
    rw [map_shownGroup_of_rowsOf hrows]
    exact nodup_group_aggregateMean samples
  rw [aggregateMean_filter, ofAggregates_eq_ok_iff]
  exact ⟨_, rowsOf_filter hrows keep, by rw [CostRow.mergeSort_filter hgroups]⟩

/-! ## Hiding -/

theorem withoutBackends_eq (r : CostReport) (hidden : List String) :
    r.withoutBackends hidden = ⟨r.rows.filter fun row ↦ row.backend ∉ hidden⟩ := by
  unfold withoutBackends
  induction hidden generalizing r with
  | nil => simp
  | cons backend rest ih =>
      rw [List.foldl_cons, ih, withoutBackend, List.filter_filter]
      congr 1
      apply List.filter_congr
      intro row _
      by_cases hbackend : row.backend = backend <;> simp [hbackend]

/-- Backends that are hidden, one after the other in any order and any number of times, leave the
report that there would be if they had not been measured. -/
theorem withoutBackends_eq_report_of_others {samples : List Sample} {r : CostReport}
    (h : ofAggregates reference rules (aggregateMean samples) = .ok r) {hidden steps : List String}
    (hsteps : ∀ backend, backend ∈ steps ↔ backend ∈ hidden) :
    ofAggregates reference rules
        (aggregateMean (samples.filter fun s ↦ s.group.engine ∉ hidden)) =
      .ok (r.withoutBackends steps) := by
  rw [ofAggregates_filter h fun g ↦ decide (g.engine ∉ hidden), withoutBackends_eq]
  simp only [hsteps]
  rfl

theorem exists_report_of_repeatedSamples :
    ∃ r, ofAggregates .tpch .none (aggregateMean repeatedSamples) = .ok r := by
  have htuples : ReferenceTable.tpch.get? (QueryRules.none.rawId "q1") = some 600000 := by
    decide +kernel
  have hfactor : ScaleFactor.factor ⟨"10"⟩ = .ok 10.0 := by rfl
  have hgroups : ∀ a ∈ aggregateMean repeatedSamples,
      a.group.query = "q1" ∧ a.group.scaleFactor = ⟨"10"⟩ := by
    apply (forall_group_aggregateMean (P := fun g ↦ g.query = "q1" ∧ g.scaleFactor = ⟨"10"⟩)).mpr
    simp [repeatedSamples]
  rw [exists_ofAggregates_iff]
  intro a ha
  rw [CostRow.exists_ofAggregate_iff, (hgroups a ha).1, (hgroups a ha).2]
  exact ⟨⟨_, htuples⟩, _, ScaleFactor.factor_eq_ok_iff.mp hfactor⟩

/-- The readings of one backend around that of a hidden one, and a backend that was not measured
hidden as well. -/
theorem report_of_hidden_jit :
    ∃ r, ofAggregates .tpch .none (aggregateMean repeatedSamples) = .ok r ∧
      ofAggregates .tpch .none (aggregateMean
        [⟨⟨"rof", "q1", ⟨"10"⟩⟩, ⟨100, 7, 1, 1, 1, 2⟩⟩,
          ⟨⟨"rof", "q1", ⟨"10"⟩⟩, ⟨300, 9, 1, 1, 1, 4⟩⟩]) =
        .ok (r.withoutBackends ["jit", "hybrid", "jit"]) := by
  have hsteps : ∀ backend, backend ∈ ["jit", "hybrid", "jit"] ↔ backend ∈ ["hybrid", "jit"] := by
    simp
  obtain ⟨r, hr⟩ := exists_report_of_repeatedSamples
  exact ⟨r, hr, withoutBackends_eq_report_of_others hr hsteps⟩

end CostReport
end QueryBench
