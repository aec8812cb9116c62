import Mathlib.Data.List.Nodup
import QueryBench.Selection.Basic
import QueryBench.Proofs.Grouping

/-!
# What coverage issues tell

The groups that an index holds for an engine at a scale factor are compared with the
queries expected there.  Every issue of that comparison, and of the search for groups
that are missing, names the engine and the scale factor it was found for, so issues that are
found for different ones are different.
-/

namespace QueryBench

/-- Lists without repetitions that share no members make up a list without repetitions. -/
theorem nodup_flatMap_of_unique {α β : Type} {l : List α} {f : α → List β} (hl : l.Nodup)
    (hf : ∀ a ∈ l, (f a).Nodup) (hunique : ∀ {a a' b}, b ∈ f a → b ∈ f a' → a = a') :
    (l.flatMap f).Nodup := by
  rw [List.nodup_flatMap]
  refine ⟨hf, hl.imp ?_⟩
  intro a a' hne b hb hb'
  exact hne (hunique hb hb')

theorem eraseDups_of_nodup {l : List String} (h : l.Nodup) : l.eraseDups = l := by
  induction l with
  | nil => rfl
  | cons a l ih =>
      obtain ⟨hnew, hl⟩ := List.nodup_cons.mp h
      have hfilter : l.filter (fun b ↦ !b == a) = l := by
        rw [List.filter_eq_self]
        intro b hb
        have hne : b ≠ a := fun heq ↦ hnew (heq ▸ hb)
        simpa using hne
      rw [List.eraseDups_cons, hfilter, ih hl]

namespace SelectionIndex

variable {index : SelectionIndex}

/-! ## Groups of an engine at a scale factor -/

theorem mem_queriesFor {engine : String} {sf : ScaleFactor} {q : String} :
    q ∈ index.queriesFor engine sf ↔ (⟨engine, q, sf⟩ : Group) ∈ index := by
  rw [queriesFor, List.mem_map]
  constructor
  · rintro ⟨⟨⟨e, q', sf'⟩, s⟩, hp, rfl⟩
    obtain ⟨hmem, hpair⟩ := List.mem_filter.mp hp
    obtain ⟨rfl, rfl⟩ : e = engine ∧ sf' = sf := by simpa using hpair
    rw [Std.ExtTreeMap.mem_iff_isSome_getElem?,
      Std.ExtTreeMap.mem_toList_iff_getElem?_eq_some.mp hmem]
    rfl
  · intro hmem
    have hget := Std.ExtTreeMap.getElem?_eq_some_getElem hmem
    refine ⟨(⟨engine, q, sf⟩, index[(⟨engine, q, sf⟩ : Group)]), ?_, rfl⟩
    apply List.mem_filter.mpr
    exact ⟨Std.ExtTreeMap.mem_toList_iff_getElem?_eq_some.mpr hget, by simp⟩

theorem nodup_queriesFor (engine : String) (sf : ScaleFactor) :
    (index.queriesFor engine sf).Nodup := by
  have hkeys : ((index.toList.filter fun p ↦
      p.1.engine = engine ∧ p.1.scaleFactor = sf).map Prod.fst).Nodup :=
    (nodup_fst_toList index).sublist (List.filter_sublist.map Prod.fst)
  rw [queriesFor, ← Function.comp_def Group.query Prod.fst, ← List.map_map]
  apply hkeys.map_on
  intro g hg g' hg' hquery
  obtain ⟨p, hp, rfl⟩ := List.mem_map.mp hg
  obtain ⟨p', hp', rfl⟩ := List.mem_map.mp hg'
  have hpair := (List.mem_filter.mp hp).2
  have hpair' := (List.mem_filter.mp hp').2
  simp only [decide_eq_true_eq] at hpair hpair'
  obtain ⟨⟨e, q, sf⟩, s⟩ := p
  obtain ⟨⟨e', q', sf'⟩, s'⟩ := p'
  simp_all

/-! ## Issues of an engine at a scale factor -/

theorem mem_pairIssues {expected : List String} {engine : String} {sf : ScaleFactor}
    {i : Issue} :
    i ∈ index.pairIssues expected engine sf ↔
      ((index.queriesFor engine sf).length ≠ expected.eraseDups.length ∧
        i = .cardinality engine sf expected.eraseDups.length
          (index.queriesFor engine sf).length) ∨
      ∃ q, (⟨engine, q, sf⟩ : Group) ∈ index ∧ q ∉ expected ∧
        i = .unknownQuery ⟨engine, q, sf⟩ := by
  rw [pairIssues, List.mem_append]
  apply or_congr
  · split
    · rename_i heq
      simp [heq]
    · rename_i hne
      simp [hne]
  · simp only [List.mem_map, List.mem_filter, mem_queriesFor, decide_eq_true_eq, and_assoc]
    apply exists_congr
    intro q
    rw [eq_comm (b := i)]

theorem nodup_pairIssues (expected : List String) (engine : String) (sf : ScaleFactor) :
    (index.pairIssues expected engine sf).Nodup := by
  rw [pairIssues, List.nodup_append]
  refine ⟨by split <;> simp, ?_, ?_⟩
  · apply ((nodup_queriesFor engine sf).sublist List.filter_sublist).map_on
    intro q _ q' _ heq
    exact congrArg Group.query (Issue.unknownQuery.inj heq)
  · intro i hi j hj
    obtain ⟨q, -, rfl⟩ := List.mem_map.mp hj
    split at hi
    · cases hi
    · rw [List.mem_singleton.mp hi]
      exact Issue.noConfusion

theorem pair_of_mem_pairIssues {expected : List String} {engine engine' : String}
    {sf sf' : ScaleFactor} {i : Issue} (h : i ∈ index.pairIssues expected engine sf)
    (h' : i ∈ index.pairIssues expected engine' sf') : engine = engine' ∧ sf = sf' := by
  rcases mem_pairIssues.mp h with ⟨-, rfl⟩ | ⟨q, -, -, rfl⟩
  · rcases mem_pairIssues.mp h' with ⟨-, heq⟩ | ⟨q, -, -, heq⟩
    · obtain ⟨he, hsf, -, -⟩ := Issue.cardinality.inj heq
      exact ⟨he, hsf⟩
    · cases heq
  · rcases mem_pairIssues.mp h' with ⟨-, heq⟩ | ⟨q', -, -, heq⟩
    · cases heq
    · have hgroup := Issue.unknownQuery.inj heq
      exact ⟨congrArg Group.engine hgroup, congrArg Group.scaleFactor hgroup⟩

/-! ## Issues of all engines at all scale factors -/

theorem mem_coverageIssues {engines : List String} {sfs : List ScaleFactor}
    {expected : List String} {i : Issue} :
    i ∈ index.coverageIssues engines sfs expected ↔
      ∃ e ∈ engines, ∃ sf ∈ sfs, i ∈ index.pairIssues expected e sf := by
  simp only [coverageIssues, List.mem_flatMap]

theorem nodup_coverageIssues {engines : List String} {sfs : List ScaleFactor}
    (hengines : engines.Nodup) (hsfs : sfs.Nodup) (expected : List String) :
    (index.coverageIssues engines sfs expected).Nodup := by
  apply nodup_flatMap_of_unique hengines
  · intro e _
    apply nodup_flatMap_of_unique hsfs
    · intro sf _
      exact nodup_pairIssues expected e sf
    · intro sf sf' i hi hi'
      exact (pair_of_mem_pairIssues hi hi').2
  · intro e e' i hi hi'
    obtain ⟨sf, -, hi⟩ := List.mem_flatMap.mp hi
    obtain ⟨sf', -, hi'⟩ := List.mem_flatMap.mp hi'
    exact (pair_of_mem_pairIssues hi hi').1

theorem missing?_eq_some_iff {g : Group} {i : Issue} :
    index.missing? g = some i ↔ g ∉ index ∧ i = .missing g := by
  unfold missing?
  split
  · rename_i hmem
    simp [hmem]
  · rename_i hmem
    simp [hmem, eq_comm]

end SelectionIndex
end QueryBench
