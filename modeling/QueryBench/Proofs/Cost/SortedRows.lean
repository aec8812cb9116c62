import Mathlib.Data.List.Perm.Basic
import QueryBench.Proofs.Cost.Work

/-!
# The cost report as a whole

Groups are visited in the order of their labels, and the first one without a row makes
the report fail.  Otherwise there is one row for each group.  No two rows have the same
labels, so their order does not depend on the order of the groups.
-/

namespace QueryBench

/-! ## Groups in order -/

theorem pairwise_aggregateMean (samples : List Sample) :
    (aggregateMean samples).Pairwise fun a b ↦ compare a.group b.group = .lt := by
  rw [aggregateMean, List.pairwise_map]
  exact Std.ExtTreeMap.ordered_keys_toList

theorem mem_map_group_aggregateMean {samples : List Sample} {g : Group} :
    g ∈ (aggregateMean samples).map (·.group) ↔ ∃ s ∈ samples, s.group = g := by
  rw [List.mem_map]
  constructor
  · rintro ⟨a, ha, rfl⟩
    obtain ⟨s, hs⟩ := List.exists_mem_of_ne_nil _ (mem_aggregateMean.mp ha).1
    obtain ⟨hmem, hgroup⟩ := List.mem_filter.mp hs
    exact ⟨s, hmem, by simpa using hgroup⟩
  · rintro ⟨s, hs, rfl⟩
    refine ⟨.ofSamples s.group (samples.filter fun t ↦ t.group = s.group), ?_, rfl⟩
    apply mem_aggregateMean.mpr
    exact ⟨List.ne_nil_of_mem (List.mem_filter.mpr ⟨hs, by simp [Aggregate.ofSamples]⟩), rfl⟩

/-- What holds of the groups of all aggregates holds of those of all samples. -/
theorem forall_group_aggregateMean {samples : List Sample} {P : Group → Prop} :
    (∀ a ∈ aggregateMean samples, P a.group) ↔ ∀ s ∈ samples, P s.group := by
  have hgroups : (∀ a ∈ aggregateMean samples, P a.group) ↔
      ∀ g ∈ (aggregateMean samples).map (·.group), P g := by
    rw [List.forall_mem_map]
  rw [hgroups]
  simp only [mem_map_group_aggregateMean]
  constructor
  · intro h s hs
    exact h s.group ⟨s, hs, rfl⟩
  · rintro h g ⟨s, hs, rfl⟩
    exact h s hs

/-- In a list that ascends by a key, the members before one are those of a smaller key. -/
theorem exists_split_iff_of_pairwise {l : List Aggregate}
    (hl : l.Pairwise fun a b ↦ compare a.group b.group = .lt) {P Q : Aggregate → Prop} :
    (∃ before a after, l = before ++ a :: after ∧ (∀ b ∈ before, P b) ∧ Q a) ↔
      ∃ a ∈ l, Q a ∧ ∀ b ∈ l, compare b.group a.group = .lt → P b := by
  constructor
  · rintro ⟨before, a, after, rfl, hbefore, ha⟩
    refine ⟨a, by simp, ha, ?_⟩
    intro b hb hlt
    obtain ⟨-, hrest, -⟩ := List.pairwise_append.mp hl
    rcases List.mem_append.mp hb with hb | hb
    · exact hbefore b hb
    · rcases List.mem_cons.mp hb with rfl | hb
      · rw [Std.ReflOrd.compare_self] at hlt
        cases hlt
      · have hgt := (List.pairwise_cons.mp hrest).1 b hb
        rw [← Std.OrientedCmp.gt_iff_lt, hlt] at hgt
        cases hgt
  · rintro ⟨a, ha, hQ, hsmaller⟩
    obtain ⟨before, after, rfl⟩ := List.append_of_mem ha
    refine ⟨before, a, after, rfl, ?_, hQ⟩
    intro b hb
    apply hsmaller b (List.mem_append_left _ hb)
    exact (List.pairwise_append.mp hl).2.2 b hb a List.mem_cons_self

/-! ## Rows in order -/

namespace CostRow

theorem labels_eq_iff {a b : CostRow} : a.labels = b.labels ↔ a.shownGroup = b.shownGroup := by
  obtain ⟨e, q, d, ⟨sf⟩, c⟩ := a
  obtain ⟨e', q', d', ⟨sf'⟩, c'⟩ := b
  simp only [labels, shownGroup, List.cons.injEq, Group.mk.injEq, ScaleFactor.mk.injEq]
  constructor
  · rintro ⟨hd, he, hsf, -⟩
    exact ⟨he, hd, hsf⟩
  · rintro ⟨he, hd, hsf⟩
    exact ⟨hd, he, hsf, trivial⟩

theorem pairwise_mergeSort {rows : List CostRow} (h : (rows.map shownGroup).Nodup) :
    (rows.mergeSort notAfter).Pairwise fun a b ↦ compare a.labels b.labels = .lt := by
  have hsorted : (rows.mergeSort notAfter).Pairwise fun a b ↦ notAfter a b = true := by
    apply List.pairwise_mergeSort
    · intro a b c hab hbc
      exact Std.TransCmp.isLE_trans hab hbc
    · intro a b
      rw [Bool.or_eq_true]
      unfold notAfter
      cases hcompare : compare a.labels b.labels with
      | lt => exact .inl rfl
      | eq => exact .inl rfl
      | gt =>
          rw [Std.OrientedCmp.gt_iff_lt] at hcompare
          rw [hcompare]
          exact .inr rfl
  have hdistinct : (rows.mergeSort notAfter).Pairwise fun a b ↦ a.shownGroup ≠ b.shownGroup := by
    apply List.pairwise_map.mp
    exact ((List.mergeSort_perm rows notAfter).map shownGroup).nodup_iff.mpr h
  apply (hsorted.and hdistinct).imp
  rintro a b ⟨hnotAfter, hne⟩
  unfold notAfter at hnotAfter
  cases hcompare : compare a.labels b.labels with
  | lt => rfl
  | eq => exact absurd (labels_eq_iff.mp (Std.LawfulEqOrd.eq_of_compare hcompare)) hne
  | gt =>
      rw [hcompare] at hnotAfter
      cases hnotAfter

/-- Rows of distinct groups are sorted in one way, whatever their order was. -/
theorem mergeSort_eq_of_perm {rows rows' : List CostRow} (hperm : rows.Perm rows')
    (h : (rows.map shownGroup).Nodup) : rows.mergeSort notAfter = rows'.mergeSort notAfter := by
  have h' : (rows'.map shownGroup).Nodup := (hperm.map shownGroup).nodup_iff.mp h
  apply eq_of_perm_of_ascending _ (pairwise_mergeSort h) (pairwise_mergeSort h')
  exact (List.mergeSort_perm rows notAfter).trans
    (hperm.trans (List.mergeSort_perm rows' notAfter).symm)

end CostRow

/-! ## Reports -/

namespace CostReport

variable {reference : ReferenceTable} {rules : QueryRules}

/-- The fault of a report is that of its first group without a row. -/
theorem ofAggregates_aggregateMean_eq_error_iff {samples : List Sample} {fault : CostFault} :
    ofAggregates reference rules (aggregateMean samples) = .error fault ↔
      ∃ s ∈ samples, fault.Arises reference rules s.group ∧
        ∀ t ∈ samples, compare t.group s.group = .lt →
          ∀ fault' : CostFault, ¬ fault'.Arises reference rules t.group := by
  rw [ofAggregates, map_eq_error_iff, rowsOf_takesInOrder.eq_error_iff,
    exists_split_iff_of_pairwise (pairwise_aggregateMean samples)]
  simp only [CostRow.exists_ofAggregate_iff_no_fault, CostRow.ofAggregate_eq_error_iff]
  have hearlier : ∀ g : Group,
      (∀ b ∈ aggregateMean samples, compare b.group g = .lt →
        ∀ fault' : CostFault, ¬ fault'.Arises reference rules b.group) ↔
      ∀ t ∈ samples, compare t.group g = .lt →
        ∀ fault' : CostFault, ¬ fault'.Arises reference rules t.group := fun g ↦
    forall_group_aggregateMean (P := fun h ↦ compare h g = .lt →
      ∀ fault' : CostFault, ¬ fault'.Arises reference rules h)
  constructor
  · rintro ⟨a, ha, hfault, hfirst⟩
    obtain ⟨s, hs, hgroup⟩ := mem_map_group_aggregateMean.mp (List.mem_map_of_mem ha)
    rw [← hgroup] at hfault hfirst
    exact ⟨s, hs, hfault, (hearlier _).mp hfirst⟩
  · rintro ⟨s, hs, hfault, hfirst⟩
    obtain ⟨a, ha, hgroup⟩ :=
      List.mem_map.mp (mem_map_group_aggregateMean.mpr ⟨s, hs, rfl⟩)
    rw [← hgroup] at hfault hfirst
    exact ⟨a, ha, hfault, (hearlier _).mpr hfirst⟩

theorem map_shownGroup_of_rowsOf {as : List Aggregate} {rows : List CostRow}
    (h : rowsOf reference rules as = .ok rows) :
    rows.map CostRow.shownGroup = as.map (·.group) :=
  map_eq_of_rowsOf CostRow.shownGroup_of_ofAggregate h

theorem ofAggregates_of_perm {as as' : List Aggregate} (hperm : as.Perm as')
    (hgroups : (as.map (·.group)).Nodup) {r : CostReport}
    (h : ofAggregates reference rules as = .ok r) :
    ofAggregates reference rules as' = .ok r := by
  obtain ⟨rows, hrows, rfl⟩ := ofAggregates_eq_ok_iff.mp h
  have hexists : ∃ rows', rowsOf reference rules as' = .ok rows' := by
    rw [exists_rowsOf_iff]
    intro a ha
    exact exists_rowsOf_iff.mp ⟨rows, hrows⟩ a (hperm.mem_iff.mpr ha)
  obtain ⟨rows', hrows'⟩ := hexists
  have hmap := hperm.map (CostRow.ofAggregate reference rules)
  rw [rowsOf_eq_ok_iff.mp hrows, rowsOf_eq_ok_iff.mp hrows'] at hmap
  have hrowsPerm : rows.Perm rows' :=
    (List.map_perm_map_iff fun _ _ heq ↦ Except.ok.inj heq).mp hmap
  refine ofAggregates_eq_ok_iff.mpr ⟨rows', hrows', ?_⟩
  rw [CostRow.mergeSort_eq_of_perm hrowsPerm]
  rw [map_shownGroup_of_rowsOf hrows]
  exact hgroups

theorem isQuotient_of_mem_rowsOf {samples : List Sample} {rows : List CostRow}
    (h : rowsOf reference rules (aggregateMean samples) = .ok rows) {row : CostRow}
    (hrow : row ∈ rows) : row.IsQuotient reference rules samples := by
  have hmem : Except.ok row ∈
      (aggregateMean samples).map (CostRow.ofAggregate reference rules) := by
    rw [rowsOf_eq_ok_iff.mp h]
    exact List.mem_map_of_mem hrow
  obtain ⟨a, ha, hok⟩ := List.mem_map.mp hmem
  exact CostRow.isQuotient_of_ofAggregate ha hok

/-- A report is made of all groups or not at all.  It exists exactly if the query of every
sample has reference work and its scale factor is a positive number; otherwise it fails
with the fault of the first group, in the order of labels, that has one.  A report has one
row for each group of the samples, strictly ascending by display id, backend and scale
factor, each the quotient of means and work; and it is the same for every order of the
groups. -/
theorem cost_report_is_all_or_nothing (reference : ReferenceTable) (rules : QueryRules)
    (samples : List Sample) :
    let report := ofAggregates reference rules (aggregateMean samples)
    ((∃ r, report = .ok r) ↔ ∀ s ∈ samples,
      (∃ tuples, reference.get? (rules.rawId s.group.query) = some tuples) ∧
        ∃ factor, s.group.scaleFactor.Denotes factor) ∧
    (∀ fault, report = .error fault ↔
      ∃ s ∈ samples, fault.Arises reference rules s.group ∧
        ∀ t ∈ samples, compare t.group s.group = .lt →
          ∀ fault' : CostFault, ¬ fault'.Arises reference rules t.group) ∧
    (∀ r, report = .ok r →
      r.rows.Pairwise (fun a b ↦ compare a.labels b.labels = .lt) ∧
      (r.rows.map CostRow.shownGroup).Nodup ∧
      (∀ g, g ∈ r.rows.map CostRow.shownGroup ↔ ∃ s ∈ samples, s.group = g) ∧
      ∀ row ∈ r.rows, row.IsQuotient reference rules samples) ∧
    ∀ as, as.Perm (aggregateMean samples) → ∀ r,
      ofAggregates reference rules as = .ok r ↔ report = .ok r := by
  intro report
  refine ⟨?_, fun fault ↦ ofAggregates_aggregateMean_eq_error_iff, ?_, ?_⟩
  · rw [exists_ofAggregates_iff]
    simp only [CostRow.exists_ofAggregate_iff]
    exact forall_group_aggregateMean (P := fun g ↦
      (∃ tuples, reference.get? (rules.rawId g.query) = some tuples) ∧
        ∃ factor, g.scaleFactor.Denotes factor)
  · intro r hr
    obtain ⟨rows, hrows, rfl⟩ := ofAggregates_eq_ok_iff.mp hr
    have hgroups := map_shownGroup_of_rowsOf hrows
    have hnodup : (rows.map CostRow.shownGroup).Nodup := by
      rw [hgroups]
      exact nodup_group_aggregateMean samples
    have hperm := List.mergeSort_perm rows CostRow.notAfter
    refine ⟨CostRow.pairwise_mergeSort hnodup, ?_, ?_, ?_⟩
    · exact (hperm.map CostRow.shownGroup).nodup_iff.mpr hnodup
    · intro g
      rw [(hperm.map CostRow.shownGroup).mem_iff, hgroups, mem_map_group_aggregateMean]
    · intro row hrow
      exact isQuotient_of_mem_rowsOf hrows (hperm.mem_iff.mp hrow)
  · intro as hperm r
    have hnodup := nodup_group_aggregateMean samples
    constructor
    · exact ofAggregates_of_perm hperm ((hperm.map (·.group)).nodup_iff.mpr hnodup)
    · exact ofAggregates_of_perm hperm.symm hnodup

/-- Two readings of one group around a reading of another one. -/
def repeatedSamples : List Sample :=
  [⟨⟨"rof", "q1", ⟨"10"⟩⟩, ⟨100, 7, 1, 1, 1, 2⟩⟩, ⟨⟨"jit", "q1", ⟨"10"⟩⟩, ⟨5, 1, 1, 1, 1, 1⟩⟩,
    ⟨⟨"rof", "q1", ⟨"10"⟩⟩, ⟨300, 9, 1, 1, 1, 4⟩⟩]

theorem cost_report_of_reversed_groups :
    (aggregateMean repeatedSamples).reverse.Perm (aggregateMean repeatedSamples) ∧
    ∃ r, ofAggregates .tpch .none (aggregateMean repeatedSamples) = .ok r ∧
      ofAggregates .tpch .none (aggregateMean repeatedSamples).reverse = .ok r ∧
      (⟨"rof", "q1", ⟨"10"⟩⟩ : Group) ∈ r.rows.map CostRow.shownGroup ∧
      ∀ row ∈ r.rows, row.IsQuotient .tpch .none repeatedSamples := by
  have hperm := (aggregateMean repeatedSamples).reverse_perm
  obtain ⟨hexists, -, hrows, horder⟩ :=
    cost_report_is_all_or_nothing .tpch .none repeatedSamples
  have husable : ∀ s ∈ repeatedSamples,
      (∃ tuples, ReferenceTable.tpch.get? (QueryRules.none.rawId s.group.query) = some tuples) ∧
        ∃ factor, s.group.scaleFactor.Denotes factor := by
    have htuples : ReferenceTable.tpch.get? (QueryRules.none.rawId "q1") = some 600000 := by
      decide +kernel
    have hfactor : ScaleFactor.factor ⟨"10"⟩ = .ok 10.0 := by rfl
    intro s hs
    have hgroup : s.group.query = "q1" ∧ s.group.scaleFactor = ⟨"10"⟩ := by
      simp only [repeatedSamples, List.mem_cons, List.not_mem_nil, or_false] at hs
      rcases hs with rfl | rfl | rfl <;> exact ⟨rfl, rfl⟩
    rw [hgroup.1, hgroup.2]
    exact ⟨⟨_, htuples⟩, _, ScaleFactor.factor_eq_ok_iff.mp hfactor⟩
  obtain ⟨r, hr⟩ := hexists.mpr husable
  obtain ⟨-, -, hgroups, hquotients⟩ := hrows r hr
  refine ⟨hperm, r, hr, (horder _ hperm r).mpr hr, ?_, hquotients⟩
  exact (hgroups _).mpr ⟨_, List.mem_cons_self, rfl⟩

end CostReport
end QueryBench
