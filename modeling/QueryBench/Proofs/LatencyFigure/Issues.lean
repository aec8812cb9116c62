import QueryBench.Command.Figure
import QueryBench.Proofs.LatencyFigure.Panels
import QueryBench.Proofs.Selection.Coverage

/-!
# The issues of a latency figure

A figure expects its queries once for each of its engines and scale factors.  The panels
together ask for exactly these groups, and the comparison with the index finds what it
holds beyond them, so the issues are all that data and expectation differ in.
-/

namespace QueryBench

/-! ## Missing groups -/

namespace SelectionIndex

variable {index : SelectionIndex}

theorem missingIssues_eq (engines : List EngineStyle) (sf : ScaleFactor)
    (queries : List String) :
    index.missingIssues engines sf queries =
      queries.flatMap fun q ↦ (engines.map (·.tag)).filterMap fun e ↦
        index.missing? ⟨e, q, sf⟩ := by
  simp only [missingIssues, List.filterMap_map, Function.comp_def]

theorem mem_missingIssues {engines : List EngineStyle} {sf : ScaleFactor}
    {queries : List String} {i : Issue} :
    i ∈ index.missingIssues engines sf queries ↔
      ∃ e ∈ engines.map (·.tag), ∃ q ∈ queries,
        (⟨e, q, sf⟩ : Group) ∉ index ∧ i = .missing ⟨e, q, sf⟩ := by
  rw [missingIssues_eq]
  simp only [List.mem_flatMap, List.mem_filterMap, missing?_eq_some_iff]
  constructor
  · rintro ⟨q, hq, e, he, h⟩
    exact ⟨e, he, q, hq, h⟩
  · rintro ⟨e, he, q, hq, h⟩
    exact ⟨q, hq, e, he, h⟩

theorem nodup_missingIssues {engines : List EngineStyle} (hengines : (engines.map (·.tag)).Nodup)
    (sf : ScaleFactor) {queries : List String} (hqueries : queries.Nodup) :
    (index.missingIssues engines sf queries).Nodup := by
  rw [missingIssues_eq]
  apply nodup_flatMap_of_unique hqueries
  · intro q _
    apply List.Nodup.filterMap _ hengines
    intro e e' i hi hi'
    obtain ⟨-, rfl⟩ := missing?_eq_some_iff.mp hi
    obtain ⟨-, heq⟩ := missing?_eq_some_iff.mp hi'
    exact congrArg Group.engine (Issue.missing.inj heq)
  · intro q q' i hi hi'
    obtain ⟨e, -, hi⟩ := List.mem_filterMap.mp hi
    obtain ⟨e', -, hi'⟩ := List.mem_filterMap.mp hi'
    obtain ⟨-, rfl⟩ := missing?_eq_some_iff.mp hi
    obtain ⟨-, heq⟩ := missing?_eq_some_iff.mp hi'
    exact congrArg Group.query (Issue.missing.inj heq)

end SelectionIndex

theorem QueryRules.nodup_displayIds (r : QueryRules) (ids : List String) :
    (r.displayIds ids).Nodup := by
  apply Std.ExtTreeSet.distinct_toList.imp
  intro a b hne heq
  exact hne (by rw [heq]; exact Std.ReflOrd.compare_self)

namespace LatencyFigure

variable {α : Type} {f : LatencyFigure α} {index : SelectionIndex}

theorem nodup_expectedQueries (f : LatencyFigure α) : f.expectedQueries.Nodup := by
  rw [expectedQueries, List.nodup_append]
  refine ⟨(f.rules.nodup_displayIds f.queries).filter _, ?_, ?_⟩
  · cases f.outlierQuery <;> simp
  · rintro q hq q' hq' rfl
    have hmain := (List.mem_filter.mp hq).2
    rw [Option.mem_toList] at hq'
    simp [hq'] at hmain

/-- The queries of the main panels and of the outlier's are those expected. -/
theorem issues_eq [Scalar α] :
    f.issues index = index.coverageIssues f.engineTags f.scaleFactors f.expectedQueries ++
      f.scaleFactors.flatMap fun sf ↦ index.missingIssues f.engines sf f.expectedQueries := by
  rw [issues, expectedQueries]
  congr 2
  funext sf
  simp only [SelectionIndex.missingIssues, List.flatMap_append]
  cases f.outlierQuery <;> simp

/-! ## Deviations -/

/-- What the data of an engine at a scale factor differ in from what the figure expects. -/
inductive Deviation (f : LatencyFigure α) (index : SelectionIndex) (e : String)
    (sf : ScaleFactor) : Issue → Prop
  | missing {q : String} (hexpected : q ∈ f.expectedQueries)
      (habsent : (⟨e, q, sf⟩ : Group) ∉ index) : Deviation f index e sf (.missing ⟨e, q, sf⟩)
  | unknownQuery {q : String} (hpresent : (⟨e, q, sf⟩ : Group) ∈ index)
      (hunexpected : q ∉ f.expectedQueries) :
      Deviation f index e sf (.unknownQuery ⟨e, q, sf⟩)
  | cardinality (hcount : (index.queriesFor e sf).length ≠ f.expectedQueries.length) :
      Deviation f index e sf
        (.cardinality e sf f.expectedQueries.length (index.queriesFor e sf).length)

/-- Each engine has, at each scale factor, the queries that the figure expects. -/
def Agrees (f : LatencyFigure α) (index : SelectionIndex) : Prop :=
  ∀ e ∈ f.engineTags, ∀ sf ∈ f.scaleFactors, ∀ q,
    q ∈ index.queriesFor e sf ↔ q ∈ f.expectedQueries

theorem mem_pairIssues_iff {e : String} {sf : ScaleFactor} {i : Issue} :
    i ∈ index.pairIssues f.expectedQueries e sf ∨
        (∃ q ∈ f.expectedQueries, (⟨e, q, sf⟩ : Group) ∉ index ∧ i = .missing ⟨e, q, sf⟩) ↔
      Deviation f index e sf i := by
  rw [SelectionIndex.mem_pairIssues, eraseDups_of_nodup f.nodup_expectedQueries]
  constructor
  · rintro ((⟨hcount, rfl⟩ | ⟨q, hpresent, hunexpected, rfl⟩) | ⟨q, hexpected, habsent, rfl⟩)
    · exact .cardinality hcount
    · exact .unknownQuery hpresent hunexpected
    · exact .missing hexpected habsent
  · intro h
    cases h with
    | missing hexpected habsent => exact .inr ⟨_, hexpected, habsent, rfl⟩
    | unknownQuery hpresent hunexpected =>
        exact .inl (.inr ⟨_, hpresent, hunexpected, rfl⟩)
    | cardinality hcount => exact .inl (.inl ⟨hcount, rfl⟩)

variable [Scalar α]

theorem mem_issues_iff {i : Issue} :
    i ∈ f.issues index ↔
      ∃ e ∈ f.engineTags, ∃ sf ∈ f.scaleFactors, Deviation f index e sf i := by
  simp only [issues_eq, ← mem_pairIssues_iff, List.mem_append, List.mem_flatMap,
    SelectionIndex.mem_coverageIssues, SelectionIndex.mem_missingIssues]
  constructor
  · rintro (⟨e, he, sf, hsf, hi⟩ | ⟨sf, hsf, e, he, hi⟩)
    · exact ⟨e, he, sf, hsf, .inl hi⟩
    · exact ⟨e, he, sf, hsf, .inr hi⟩
  · rintro ⟨e, he, sf, hsf, hi | hi⟩
    · exact .inl ⟨e, he, sf, hsf, hi⟩
    · exact .inr ⟨sf, hsf, e, he, hi⟩

theorem nodup_issues (hengines : f.engineTags.Nodup) (hsfs : f.scaleFactors.Nodup) :
    (f.issues index).Nodup := by
  rw [issues_eq, List.nodup_append]
  refine ⟨SelectionIndex.nodup_coverageIssues hengines hsfs _, ?_, ?_⟩
  · apply nodup_flatMap_of_unique hsfs
    · intro sf _
      exact SelectionIndex.nodup_missingIssues hengines sf f.nodup_expectedQueries
    · intro sf sf' i hi hi'
      obtain ⟨e, -, q, -, -, rfl⟩ := SelectionIndex.mem_missingIssues.mp hi
      obtain ⟨e', -, q', -, -, heq⟩ := SelectionIndex.mem_missingIssues.mp hi'
      exact congrArg Group.scaleFactor (Issue.missing.inj heq)
  · rintro i hcoverage _ hmissing rfl
    obtain ⟨e, -, sf, -, hpair⟩ := SelectionIndex.mem_coverageIssues.mp hcoverage
    obtain ⟨sf', -, hmissing⟩ := List.mem_flatMap.mp hmissing
    obtain ⟨e', -, q, -, -, rfl⟩ := SelectionIndex.mem_missingIssues.mp hmissing
    rcases SelectionIndex.mem_pairIssues.mp hpair with ⟨-, heq⟩ | ⟨q', -, -, heq⟩
    · cases heq
    · cases heq

theorem issues_eq_nil_iff : f.issues index = [] ↔ f.Agrees index := by
  rw [List.eq_nil_iff_forall_not_mem]
  simp only [mem_issues_iff]
  constructor
  · intro hnone e he sf hsf q
    rw [SelectionIndex.mem_queriesFor]
    constructor
    · intro hpresent
      by_contra hunexpected
      exact hnone _ ⟨e, he, sf, hsf, .unknownQuery hpresent hunexpected⟩
    · intro hexpected
      by_contra habsent
      exact hnone _ ⟨e, he, sf, hsf, .missing hexpected habsent⟩
  · rintro hagrees i ⟨e, he, sf, hsf, hi⟩
    have hsame := hagrees e he sf hsf
    cases hi with
    | missing hexpected habsent =>
        exact habsent (SelectionIndex.mem_queriesFor.mp ((hsame _).mpr hexpected))
    | unknownQuery hpresent hunexpected =>
        exact hunexpected ((hsame _).mp (SelectionIndex.mem_queriesFor.mpr hpresent))
    | cardinality hcount =>
        apply hcount
        have hperm := (List.perm_ext_iff_of_nodup (SelectionIndex.nodup_queriesFor e sf)
          f.nodup_expectedQueries).mpr hsame
        exact hperm.length_eq

/-- The issues of a figure are all that its data and its expectation differ in.  There is
none exactly if each engine has the expected queries at each scale factor, and the strict
option then passes unless rows collided; each missing group, each unexpected one and each
wrong number of groups is an issue, and nothing else is; and where no scale factor is
listed twice no issue is. -/
theorem issues_are_all_deviations (hvalid : f.fault? = none) (index : SelectionIndex) :
    ∃ l, f.layout index = .ok l ∧ (l.issues = [] ↔ f.Agrees index) ∧
      (∀ o : FigureOptions, o.strict = true → ∀ collisions : Nat,
        o.strictFault? (collisions + l.issues.length) = none ↔
          collisions = 0 ∧ f.Agrees index) ∧
      (∀ i ∈ l.issues, ∃ e ∈ f.engineTags, ∃ sf ∈ f.scaleFactors, Deviation f index e sf i) ∧
      (∀ e ∈ f.engineTags, ∀ sf ∈ f.scaleFactors,
        (∀ q, .missing ⟨e, q, sf⟩ ∈ l.issues ↔
          q ∈ f.expectedQueries ∧ (⟨e, q, sf⟩ : Group) ∉ index) ∧
        (∀ q, .unknownQuery ⟨e, q, sf⟩ ∈ l.issues ↔
          (⟨e, q, sf⟩ : Group) ∈ index ∧ q ∉ f.expectedQueries) ∧
        ∀ expected actual, .cardinality e sf expected actual ∈ l.issues ↔
          expected = f.expectedQueries.length ∧ actual = (index.queriesFor e sf).length ∧
            actual ≠ expected) ∧
      (f.scaleFactors.Nodup → l.issues.Nodup) := by
  obtain ⟨l, hl, -, hissues⟩ := exists_layout hvalid index
  refine ⟨l, hl, ?_⟩
  rw [hissues]
  refine ⟨issues_eq_nil_iff, ?_, fun i hi ↦ mem_issues_iff.mp hi, ?_,
    nodup_issues (nodup_engineTags hvalid)⟩
  · intro o hstrict collisions
    rw [← issues_eq_nil_iff, ← List.length_eq_zero_iff, FigureOptions.strictFault?, hstrict]
    simp only [Bool.true_and, decide_eq_true_eq, ite_eq_right_iff, reduceCtorEq, imp_false]
    omega
  · intro e he sf hsf
    simp only [mem_issues_iff]
    refine ⟨?_, ?_, ?_⟩
    · intro q
      constructor
      · rintro ⟨e', -, sf', -, hi⟩
        cases hi with
        | missing hexpected habsent => exact ⟨hexpected, habsent⟩
      · rintro ⟨hexpected, habsent⟩
        exact ⟨e, he, sf, hsf, .missing hexpected habsent⟩
    · intro q
      constructor
      · rintro ⟨e', -, sf', -, hi⟩
        cases hi with
        | unknownQuery hpresent hunexpected => exact ⟨hpresent, hunexpected⟩
      · rintro ⟨hpresent, hunexpected⟩
        exact ⟨e, he, sf, hsf, .unknownQuery hpresent hunexpected⟩
    · intro expected actual
      constructor
      · rintro ⟨e', -, sf', -, hi⟩
        cases hi with
        | cardinality hcount => exact ⟨rfl, rfl, hcount⟩
      · rintro ⟨rfl, rfl, hcount⟩
        exact ⟨e, he, sf, hsf, .cardinality hcount⟩

/-- Trials of a query that the main figure shows and of one that it does not. -/
def strayTrials : List Trial :=
  [⟨⟨"duckdb", "q1", ⟨"1"⟩⟩, ⟨7, none, none⟩⟩, ⟨⟨"duckdb", "q2", ⟨"1"⟩⟩, ⟨1, none, none⟩⟩]

theorem mainFigure_issues_of_stray_trials :
    (mainFigure : LatencyFigure Float).fault? = none ∧
    ∃ l, (mainFigure : LatencyFigure Float).layout (selectAll strayTrials) = .ok l ∧
      .missing ⟨"duckdb", "q87", ⟨"1"⟩⟩ ∈ l.issues ∧
      .missing ⟨"duckdb", "q1", ⟨"1"⟩⟩ ∉ l.issues ∧
      .unknownQuery ⟨"duckdb", "q2", ⟨"1"⟩⟩ ∈ l.issues ∧
      .cardinality "duckdb" ⟨"1"⟩ 8 2 ∈ l.issues ∧ l.issues.Nodup := by
  have hvalid : (mainFigure : LatencyFigure Float).fault? = none := by decide +kernel
  have hexpected : (mainFigure : LatencyFigure Float).expectedQueries =
      ["q1", "q3", "q4", "q5", "q6", "q87", "q88", "q99"] := by decide +kernel
  have hsfs : (mainFigure : LatencyFigure Float).scaleFactors =
      [⟨"0.1"⟩, ⟨"1"⟩, ⟨"10"⟩, ⟨"100"⟩] := by decide +kernel
  have hcount : ((selectAll strayTrials).queriesFor "duckdb" ⟨"1"⟩).length = 2 := by
    decide +kernel
  obtain ⟨l, hl, -, -, -, hdeviations, hnodup⟩ :=
    issues_are_all_deviations hvalid (selectAll strayTrials)
  obtain ⟨hmissing, hunknown, hcardinality⟩ :=
    hdeviations "duckdb" List.mem_cons_self ⟨"1"⟩ (by simp [hsfs])
  refine ⟨hvalid, l, hl, ?_, ?_, ?_, ?_, hnodup (by simp [hsfs])⟩
  · rw [hmissing, mem_selectAll_iff, hexpected]
    simp [strayTrials]
  · rw [hmissing, mem_selectAll_iff, hexpected]
    simp [strayTrials]
  · rw [hunknown, mem_selectAll_iff, hexpected]
    simp [strayTrials]
  · rw [hcardinality, hcount, hexpected]
    simp

end LatencyFigure
end QueryBench
