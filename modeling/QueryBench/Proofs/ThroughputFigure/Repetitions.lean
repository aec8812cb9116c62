import Mathlib.Data.List.Destutter
import QueryBench.Proofs.LatencyFigure.Issues
import QueryBench.Proofs.ThroughputFigure.Outcomes

/-!
# Issues that are told twice

Of equal neighbors among the issues of a throughput figure one is kept, so an issue is told once
exactly if its occurrences stand together.  Only issues on the baseline can occur more than once:
its selection is looked up ahead of the engines, and every engine that executed is held up by a
baseline that did not.
-/

namespace QueryBench

/-- The group that an issue tells of. -/
def Issue.group? : Issue → Option Group
  | missing g => some g
  | cardinality _ _ _ _ => none
  | unknownQuery g => some g
  | idCollision g => some g
  | nonPositiveExecution g => some g

theorem SelectionIndex.mem_of_getElem? {index : SelectionIndex} {g : Group} {s : Selection}
    (h : index[g]? = some s) : g ∈ index :=
  Std.ExtTreeMap.mem_iff_isSome_getElem?.mpr (Option.isSome_of_eq_some h)

theorem SelectionIndex.missing?_of_getElem? {index : SelectionIndex} {g : Group} {s : Selection}
    (h : index[g]? = some s) : index.missing? g = none :=
  if_pos (SelectionIndex.mem_of_getElem? h)

/-- Between two occurrences of an issue there are no others. -/
def AreGrouped (issues : List Issue) : Prop :=
  ∀ i j, [i, j, i].Sublist issues → j = i

theorem eraseRepsBy_loop_eq (i : Issue) (rest acc : List Issue) :
    List.eraseRepsBy.loop (· == ·) i rest acc = acc.reverse ++ rest.destutter' (· ≠ ·) i := by
  induction rest generalizing i acc with
  | nil => simp [List.eraseRepsBy.loop]
  | cons j rest ih =>
      rw [List.eraseRepsBy.loop]
      split
      · rename_i heq
        obtain rfl : i = j := by simpa using heq
        rw [ih, List.destutter'_cons_neg _ (not_not_intro rfl)]
      · rename_i hne
        have hne : i ≠ j := by simpa using hne
        rw [ih, List.destutter'_cons_pos _ hne, List.reverse_cons, List.append_assoc]
        rfl

theorem eraseReps_eq_destutter (issues : List Issue) :
    issues.eraseReps = issues.destutter (· ≠ ·) := by
  cases issues with
  | nil => rfl
  | cons i rest => exact eraseRepsBy_loop_eq i rest []

namespace AreGrouped

theorem of_nodup {issues : List Issue} (h : issues.Nodup) : AreGrouped issues := by
  intro i j hsub
  have hnodup := h.sublist hsub
  simp at hnodup

theorem cons_self_iff {i : Issue} {rest : List Issue} :
    AreGrouped (i :: i :: rest) ↔ AreGrouped (i :: rest) := by
  constructor
  · intro h a b hsub
    exact h a b (hsub.cons i)
  · intro h a b hsub
    rcases List.sublist_cons_iff.mp hsub with hsub | ⟨tail, heq, hsub⟩
    · exact h a b hsub
    · obtain ⟨rfl, rfl⟩ := List.cons.inj heq
      rcases List.sublist_cons_iff.mp hsub with hsub | ⟨tail, heq, -⟩
      · exact h a b (hsub.cons_cons a)
      · exact (List.cons.inj heq).1

theorem cons_iff_of_ne {i j : Issue} (hne : i ≠ j) {rest : List Issue} :
    AreGrouped (i :: j :: rest) ↔ i ∉ j :: rest ∧ AreGrouped (j :: rest) := by
  constructor
  · intro h
    refine ⟨?_, fun a b hsub ↦ h a b (hsub.cons i)⟩
    intro hmem
    have hrest : i ∈ rest := (List.mem_cons.mp hmem).resolve_left hne
    exact hne (h i j (((List.singleton_sublist.mpr hrest).cons_cons j).cons_cons i)).symm
  · rintro ⟨hnew, h⟩ a b hsub
    rcases List.sublist_cons_iff.mp hsub with hsub | ⟨tail, heq, hsub⟩
    · exact h a b hsub
    · obtain ⟨rfl, rfl⟩ := List.cons.inj heq
      exact absurd (hsub.subset (by simp)) hnew

/-- Issues of a sequence of engines are grouped if those of engines on both sides of another one
agree only with the issue between them. -/
theorem map_iff {tags : List String} {issue : String → Issue} :
    AreGrouped (tags.map issue) ↔
      ∀ a b c, [a, b, c].Sublist tags → issue a = issue c → issue b = issue a := by
  constructor
  · intro h a b c hsub heq
    have hmap := hsub.map issue
    rw [List.map_cons, List.map_cons, List.map_cons, ← heq] at hmap
    exact h _ _ hmap
  · intro h i j hsub
    obtain ⟨triple, htriple, heq⟩ := List.sublist_map_iff.mp hsub
    obtain ⟨a, b, c, rfl⟩ : ∃ a b c, triple = [a, b, c] := by
      apply List.length_eq_three.mp
      rw [← List.length_map issue, ← heq]
      rfl
    simp only [List.map_cons, List.map_nil, List.cons.injEq, and_true] at heq
    obtain ⟨rfl, rfl, hlast⟩ := heq
    exact h a b c htriple hlast

theorem append_iff {issues issues' : List Issue} (h : ∀ i ∈ issues, i ∉ issues') :
    AreGrouped (issues ++ issues') ↔ AreGrouped issues ∧ AreGrouped issues' := by
  constructor
  · intro hgrouped
    exact ⟨fun i j hsub ↦ hgrouped i j (hsub.trans (List.sublist_append_left _ _)),
      fun i j hsub ↦ hgrouped i j (hsub.trans (List.sublist_append_right _ _))⟩
  · rintro ⟨hgrouped, hgrouped'⟩ i j hsub
    obtain ⟨front, back, heq, hfront, hback⟩ := List.sublist_append_iff.mp hsub
    -- An occurrence on either side would be a common member.
    rcases List.eq_nil_or_concat back with rfl | ⟨back, k, rfl⟩
    · rw [List.append_nil] at heq
      exact hgrouped i j (heq ▸ hfront)
    · cases front with
      | nil => exact hgrouped' i j (heq ▸ hback)
      | cons k' front =>
          have hfirst : i = k' := (List.cons.inj heq).1
          have hlast : i = k := by
            have hlast := congrArg List.getLast? heq
            rw [List.concat_eq_append, ← List.append_assoc, List.getLast?_concat] at hlast
            exact Option.some.inj hlast
          exact absurd (hback.subset (by simp [hlast])) (h i (hfront.subset (by simp [hfirst])))

/-- Where no two queries share an issue, each of them is examined on its own. -/
theorem flatMap_iff {queries : List String} (hqueries : queries.Nodup) {f : String → List Issue}
    (hunique : ∀ {q q' i}, i ∈ f q → i ∈ f q' → q = q') :
    AreGrouped (queries.flatMap f) ↔ ∀ q ∈ queries, AreGrouped (f q) := by
  induction queries with
  | nil => exact iff_of_true (of_nodup List.nodup_nil) (by simp)
  | cons q rest ih =>
      obtain ⟨hnew, hrest⟩ := List.nodup_cons.mp hqueries
      rw [List.flatMap_cons, append_iff, ih hrest, List.forall_mem_cons]
      intro i hi hi'
      obtain ⟨q', hq', hi'⟩ := List.mem_flatMap.mp hi'
      exact hnew (hunique hi hi' ▸ hq')

end AreGrouped

theorem nodup_eraseReps_iff {issues : List Issue} :
    issues.eraseReps.Nodup ↔ AreGrouped issues := by
  rw [eraseReps_eq_destutter]
  induction issues with
  | nil => exact iff_of_true List.nodup_nil (.of_nodup List.nodup_nil)
  | cons i rest ih =>
      cases rest with
      | nil => exact iff_of_true (List.nodup_singleton i) (.of_nodup (List.nodup_singleton i))
      | cons j rest =>
          rw [List.destutter_cons_cons]
          split
          · rename_i hne
            rw [AreGrouped.cons_iff_of_ne hne, ← ih, List.nodup_cons, ← List.destutter_cons',
              ← eraseReps_eq_destutter, mem_eraseReps]
          · rename_i heq
            obtain rfl : i = j := not_not.mp heq
            rw [AreGrouped.cons_self_iff, ← ih, List.destutter_cons']

namespace ThroughputFigure

/-- The issue that stands in the place of a bar. -/
def Outcome.issue? {α : Type} : Outcome α → Option Issue
  | .issue i => some i
  | _ => none

variable {f : ThroughputFigure Float} {index : SelectionIndex} {q : String}

theorem queryIssues_eq (q : String) :
    f.queryIssues index q = (index.missing? ⟨f.baseline, q, f.scaleFactor⟩).toList ++
      f.engineTags.filterMap fun tag ↦ (f.outcome index q tag : Outcome Float).issue? := by
  rw [queryIssues, engineTags, List.filterMap_map]
  rfl

/-- Every issue tells of the engine of its place, or of a baseline that did not execute. -/
theorem exists_group?_of_issue? {tag : String} {i : Issue}
    (h : (f.outcome index q tag : Outcome Float).issue? = some i) :
    ∃ engine, i.group? = some ⟨engine, q, f.scaleFactor⟩ ∧ (engine = tag ∨
      ∃ s, index[(⟨f.baseline, q, f.scaleFactor⟩ : Group)]? = some s ∧ ¬ 0 < s.executionMs) := by
  have hyields : f.Yields index q tag (f.outcome index q tag) := yields_outcome q tag
  generalize (f.outcome index q tag : Outcome Float) = o at h hyields
  cases hyields with
  | missing => cases h; exact ⟨tag, rfl, .inl rfl⟩
  | noBaseline => cases h
  | notExecuted => cases h; exact ⟨tag, rfl, .inl rfl⟩
  | baselineNotExecuted _ hs _ hzero => cases h; exact ⟨f.baseline, rfl, .inr ⟨_, hs, hzero⟩⟩
  | value => cases h

theorem query_of_mem_queryIssues {i : Issue} (h : i ∈ f.queryIssues index q) :
    ∃ engine, i.group? = some ⟨engine, q, f.scaleFactor⟩ := by
  rw [queryIssues_eq, List.mem_append, Option.mem_toList, SelectionIndex.missing?_eq_some_iff,
    List.mem_filterMap] at h
  obtain ⟨-, rfl⟩ | ⟨tag, -, hissue⟩ := h
  · exact ⟨f.baseline, rfl⟩
  · obtain ⟨engine, hgroup, -⟩ := exists_group?_of_issue? hissue
    exact ⟨engine, hgroup⟩

theorem nodup_issues_iff :
    (f.issues index).Nodup ↔ ∀ q ∈ f.displayQueries, AreGrouped (f.queryIssues index q) := by
  rw [issues, nodup_eraseReps_iff]
  apply AreGrouped.flatMap_iff (f.rules.nodup_displayIds f.queries)
  intro q q' i hi hi'
  obtain ⟨engine, hgroup⟩ := query_of_mem_queryIssues hi
  obtain ⟨engine', hgroup'⟩ := query_of_mem_queryIssues hi'
  exact congrArg Group.query (Option.some.inj (hgroup.symm.trans hgroup'))

/-! ## One query -/

/-- An engine whose place is empty because of the baseline, where that did not execute. -/
def BlamesBaseline (f : ThroughputFigure Float) (index : SelectionIndex) (q tag : String) : Prop :=
  tag = f.baseline ∨
    ∃ s, index[(⟨tag, q, f.scaleFactor⟩ : Group)]? = some s ∧ 0 < s.executionMs

/-- What keeps the issues of a query from being told twice: a missing baseline comes first among
the engines that are missing, and the engines that blame a baseline stand together. -/
structure ToldOnce (f : ThroughputFigure Float) (index : SelectionIndex) (q : String) : Prop where
  missing : (⟨f.baseline, q, f.scaleFactor⟩ : Group) ∉ index →
    ∀ tag, [tag, f.baseline].Sublist f.engineTags →
      (⟨tag, q, f.scaleFactor⟩ : Group) ∈ index
  notExecuted : ∀ s, index[(⟨f.baseline, q, f.scaleFactor⟩ : Group)]? = some s →
    ¬ 0 < s.executionMs → ∀ a b c, [a, b, c].Sublist f.engineTags →
      f.BlamesBaseline index q a → f.BlamesBaseline index q c → f.BlamesBaseline index q b

theorem issue?_outcome_of_missing (habsent : (⟨f.baseline, q, f.scaleFactor⟩ : Group) ∉ index)
    (tag : String) :
    (f.outcome index q tag : Outcome Float).issue? = index.missing? ⟨tag, q, f.scaleFactor⟩ := by
  rw [outcome, execution?, execution?, SelectionIndex.getElem?_eq_none_iff.mpr habsent]
  cases hs : index[(⟨tag, q, f.scaleFactor⟩ : Group)]? with
  | none =>
      have hmissing := SelectionIndex.getElem?_eq_none_iff.mp hs
      rw [SelectionIndex.missing?_eq_some_iff.mpr ⟨hmissing, rfl⟩]
      rfl
  | some s =>
      rw [SelectionIndex.missing?_of_getElem? hs]
      rfl

theorem areGrouped_of_missing_iff (htags : f.engineTags.Nodup)
    (habsent : (⟨f.baseline, q, f.scaleFactor⟩ : Group) ∉ index) :
    AreGrouped (f.queryIssues index q) ↔ ∀ tag, [tag, f.baseline].Sublist f.engineTags →
      (⟨tag, q, f.scaleFactor⟩ : Group) ∈ index := by
  let absent (tag : String) : Bool := (⟨tag, q, f.scaleFactor⟩ : Group) ∉ index
  have hissues : f.queryIssues index q = (f.baseline :: f.engineTags.filter absent).map
      fun tag ↦ .missing ⟨tag, q, f.scaleFactor⟩ := by
    rw [queryIssues_eq, SelectionIndex.missing?_eq_some_iff.mpr ⟨habsent, rfl⟩,
      ← List.filterMap_eq_filter, List.map_cons, List.map_filterMap, Option.toList_some,
      List.singleton_append]
    congr 1
    apply List.filterMap_congr
    intro tag _
    rw [issue?_outcome_of_missing habsent, SelectionIndex.missing?]
    by_cases hmem : (⟨tag, q, f.scaleFactor⟩ : Group) ∈ index <;> simp [absent, hmem]
  have hmissing : ∀ {tag tag'}, Issue.missing ⟨tag, q, f.scaleFactor⟩ =
      .missing ⟨tag', q, f.scaleFactor⟩ → tag = tag' :=
    fun heq ↦ congrArg Group.engine (Issue.missing.inj heq)
  rw [hissues, AreGrouped.map_iff]
  constructor
  · intro h tag hsub
    by_contra hmem
    have hrest : [tag, f.baseline].Sublist (f.engineTags.filter absent) := by
      have hfilter := hsub.filter absent
      simpa [absent, hmem, habsent] using hfilter
    obtain rfl := hmissing (h _ _ _ (hrest.cons_cons f.baseline) rfl)
    exact List.nodup_iff_sublist.mp htags _ hsub
  · intro h a b c hsub heq
    obtain rfl := hmissing heq
    -- The baseline is missing among the engines too, and so would be the one ahead of it.
    rcases List.sublist_cons_iff.mp hsub with hsub | ⟨tail, heq, hsub⟩
    · have hnodup := (htags.filter absent).sublist hsub
      simp at hnodup
    · obtain ⟨rfl, rfl⟩ := List.cons.inj heq
      have hmem := h b (hsub.trans List.filter_sublist)
      have hb := (List.mem_filter.mp (hsub.subset List.mem_cons_self)).2
      simp [absent, hmem] at hb

/-- Where the baseline did not execute, every place has an issue. -/
theorem exists_issue?_of_not_executed {s : Selection}
    (hs : index[(⟨f.baseline, q, f.scaleFactor⟩ : Group)]? = some s) (hzero : ¬ 0 < s.executionMs)
    (tag : String) :
    ∃ i, (f.outcome index q tag : Outcome Float).issue? = some i ∧
      (f.BlamesBaseline index q tag ∧
          i = .nonPositiveExecution ⟨f.baseline, q, f.scaleFactor⟩ ∨
        ¬ f.BlamesBaseline index q tag ∧ i.group? = some ⟨tag, q, f.scaleFactor⟩) := by
  have hyields : f.Yields index q tag (f.outcome index q tag) := yields_outcome q tag
  have hpresent := SelectionIndex.mem_of_getElem? hs
  generalize (f.outcome index q tag : Outcome Float) = o at hyields
  cases hyields with
  | missing habsent =>
      refine ⟨_, rfl, .inr ⟨?_, rfl⟩⟩
      rintro (rfl | ⟨s', hs', -⟩)
      · exact habsent hpresent
      · rw [SelectionIndex.getElem?_eq_none_iff.mpr habsent] at hs'
        cases hs'
  | noBaseline _ habsent => exact absurd hpresent habsent
  | notExecuted hs' _ hzero' =>
      by_cases htag : tag = f.baseline
      · subst htag
        exact ⟨_, rfl, .inl ⟨.inl rfl, rfl⟩⟩
      · refine ⟨_, rfl, .inr ⟨?_, rfl⟩⟩
        rintro (heq | ⟨s'', hs'', hpos⟩)
        · exact htag heq
        · obtain rfl := Option.some.inj (hs'.symm.trans hs'')
          exact hzero' hpos
  | baselineNotExecuted hs' _ hpos => exact ⟨_, rfl, .inl ⟨.inr ⟨_, hs', hpos⟩, rfl⟩⟩
  | value _ hs' _ hpos =>
      obtain rfl := Option.some.inj (hs.symm.trans hs')
      exact absurd hpos hzero

theorem areGrouped_of_not_executed_iff (htags : f.engineTags.Nodup) {s : Selection}
    (hs : index[(⟨f.baseline, q, f.scaleFactor⟩ : Group)]? = some s)
    (hzero : ¬ 0 < s.executionMs) :
    AreGrouped (f.queryIssues index q) ↔ ∀ a b c, [a, b, c].Sublist f.engineTags →
      f.BlamesBaseline index q a → f.BlamesBaseline index q c → f.BlamesBaseline index q b := by
  choose issue hissue hcases using exists_issue?_of_not_executed (f := f) (q := q) hs hzero
  have hblamed : ∀ tag, issue tag = .nonPositiveExecution ⟨f.baseline, q, f.scaleFactor⟩ ↔
      f.BlamesBaseline index q tag := by
    intro tag
    rcases hcases tag with ⟨hblames, heq⟩ | ⟨hblames, hgroup⟩
    · exact iff_of_true heq hblames
    · refine iff_of_false ?_ hblames
      intro heq
      rw [heq] at hgroup
      exact hblames (.inl (congrArg Group.engine (Option.some.inj hgroup)).symm)
  -- Issues of two engines agree only where both blame the baseline.
  have hagree : ∀ {a c}, a ≠ c → issue a = issue c →
      f.BlamesBaseline index q a ∧ f.BlamesBaseline index q c := by
    intro a c hne heq
    rw [← hblamed, ← hblamed, ← heq, and_self]
    rcases hcases a with ⟨-, ha⟩ | ⟨-, ha⟩
    · exact ha
    · rcases hcases c with ⟨-, hc⟩ | ⟨-, hc⟩
      · exact heq.trans hc
      · rw [heq, hc] at ha
        exact absurd (congrArg Group.engine (Option.some.inj ha)).symm hne
  have hissues : f.queryIssues index q = f.engineTags.map issue := by
    rw [queryIssues_eq, SelectionIndex.missing?_of_getElem? hs, ← List.filterMap_eq_map]
    apply List.filterMap_congr
    exact fun tag _ ↦ hissue tag
  rw [hissues, AreGrouped.map_iff]
  constructor
  · intro h a b c hsub ha hc
    rw [← hblamed] at ha hc ⊢
    exact (h a b c hsub (ha.trans hc.symm)).trans ha
  · intro h a b c hsub heq
    have hne : a ≠ c := by
      rintro rfl
      have hnodup := htags.sublist hsub
      simp at hnodup
    obtain ⟨ha, hc⟩ := hagree hne heq
    rw [(hblamed a).mpr ha]
    exact (hblamed b).mpr (h a b c hsub ha hc)

theorem nodup_queryIssues_of_executed (htags : f.engineTags.Nodup) {s : Selection}
    (hs : index[(⟨f.baseline, q, f.scaleFactor⟩ : Group)]? = some s) (hpos : 0 < s.executionMs) :
    (f.queryIssues index q).Nodup := by
  have hgroup : ∀ {tag i}, (f.outcome index q tag : Outcome Float).issue? = some i →
      i.group? = some ⟨tag, q, f.scaleFactor⟩ := by
    intro tag i hi
    obtain ⟨engine, hgroup, rfl | ⟨s', hs', hzero⟩⟩ := exists_group?_of_issue? hi
    · exact hgroup
    · obtain rfl := Option.some.inj (hs.symm.trans hs')
      exact absurd hpos hzero
  rw [queryIssues_eq, SelectionIndex.missing?_of_getElem? hs, Option.toList_none, List.nil_append]
  apply htags.filterMap
  intro tag tag' i hi hi'
  exact congrArg Group.engine (Option.some.inj ((hgroup hi).symm.trans (hgroup hi')))

theorem areGrouped_queryIssues_iff (htags : f.engineTags.Nodup) :
    AreGrouped (f.queryIssues index q) ↔ f.ToldOnce index q := by
  cases hs : index[(⟨f.baseline, q, f.scaleFactor⟩ : Group)]? with
  | none =>
      have habsent := SelectionIndex.getElem?_eq_none_iff.mp hs
      rw [areGrouped_of_missing_iff htags habsent]
      constructor
      · exact fun h ↦ ⟨fun _ ↦ h, by simp [hs]⟩
      · exact fun h ↦ h.missing habsent
  | some s =>
      have hpresent := SelectionIndex.mem_of_getElem? hs
      by_cases hpos : 0 < s.executionMs
      · refine iff_of_true (.of_nodup (nodup_queryIssues_of_executed htags hs hpos)) ?_
        refine ⟨fun habsent ↦ absurd hpresent habsent, ?_⟩
        intro s' hs' hzero
        rw [hs] at hs'
        cases hs'
        exact absurd hpos hzero
      · rw [areGrouped_of_not_executed_iff htags hs hpos]
        constructor
        · exact fun h ↦ ⟨fun habsent ↦ absurd hpresent habsent, fun _ _ _ ↦ h⟩
        · exact fun h ↦ h.notExecuted s hs hpos

/-- The issues of a valid figure, whose engines have different tags, are told once exactly if no
query has a baseline that is missing behind another engine that is, or engines that blame the
baseline on both sides of one that does not. -/
theorem layout_issues_nodup_iff (hvalid : f.fault? = none) (htags : f.engineTags.Nodup)
    (index : SelectionIndex) :
    ∃ l, f.layout index = .ok l ∧
      (l.issues.Nodup ↔ ∀ q ∈ f.displayQueries, f.ToldOnce index q) := by
  rw [layout, hvalid]
  refine ⟨_, rfl, ?_⟩
  rw [nodup_issues_iff]
  exact forall₂_congr fun q _ ↦ areGrouped_queryIssues_iff htags

/-- A figure of four engines reports its missing baseline twice, ahead of all engines and behind
those that are missing as well. -/
theorem engineFigure_repeats_missing_baseline :
    (engineFigure : ThroughputFigure Float).fault? = none ∧
    (engineFigure : ThroughputFigure Float).engineTags.Nodup ∧
    ∃ l, (engineFigure : ThroughputFigure Float).layout (selectAll []) = .ok l ∧
      ¬ l.issues.Nodup := by
  have hvalid : (engineFigure : ThroughputFigure Float).fault? = none := by decide +kernel
  have htags : (engineFigure : ThroughputFigure Float).engineTags.Nodup := by decide
  have hquery : "q1" ∈ (engineFigure : ThroughputFigure Float).displayQueries := by decide +kernel
  have habsent : ∀ g : Group, g ∉ selectAll [] := by simp [mem_selectAll_iff]
  obtain ⟨l, hl, hnodup⟩ := layout_issues_nodup_iff hvalid htags (selectAll [])
  refine ⟨hvalid, htags, l, hl, ?_⟩
  intro h
  have hbehind : ["inkfuse_fused", (engineFigure : ThroughputFigure Float).baseline].Sublist
      (engineFigure : ThroughputFigure Float).engineTags := by decide
  exact habsent _ ((hnodup.mp h "q1" hquery).missing (habsent _) "inkfuse_fused" hbehind)

end ThroughputFigure
end QueryBench
