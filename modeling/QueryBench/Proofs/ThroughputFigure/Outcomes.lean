import Mathlib.Data.List.Forall2
import QueryBench.Proofs.Arithmetic.PositiveSums
import QueryBench.Proofs.Chart.Consistency
import QueryBench.Proofs.Selection.Coverage
import QueryBench.Proofs.Selection.Fastest
import QueryBench.ThroughputFigure.Layout

/-!
# What becomes of queries and engines

A throughput figure has a place for each of its queries and engines.  A place has a bar, or an
issue tells why it has none; where only the baseline is missing, the issue is one for the whole
query.
-/

namespace QueryBench

theorem mem_eraseRepsBy_loop {i j : Issue} {rest acc : List Issue} :
    i ∈ List.eraseRepsBy.loop (· == ·) j rest acc ↔ i = j ∨ i ∈ rest ∨ i ∈ acc := by
  induction rest generalizing j acc with
  | nil => simp [List.eraseRepsBy.loop, or_comm]
  | cons j' rest ih =>
      rw [List.eraseRepsBy.loop]
      split
      · rename_i heq
        obtain rfl : j = j' := by simpa using heq
        rw [ih, List.mem_cons]
        tauto
      · rw [ih, List.mem_cons, List.mem_cons]
        tauto

theorem mem_eraseReps {i : Issue} {issues : List Issue} : i ∈ issues.eraseReps ↔ i ∈ issues := by
  cases issues with
  | nil => rfl
  | cons j rest =>
      rw [List.eraseReps, List.eraseRepsBy, mem_eraseRepsBy_loop, List.mem_cons]
      simp

theorem SelectionIndex.getElem?_eq_none_iff {index : SelectionIndex} {g : Group} :
    index[g]? = none ↔ g ∉ index := by
  rw [Std.ExtTreeMap.mem_iff_isSome_getElem?, Option.not_isSome_iff_eq_none]

/-- The execution time of the trial selected. -/
def Selection.executionMs (s : Selection) : Float := s.trial.reading.executionMs

theorem Timing.executionMs_le_zero_iff (t : Timing) :
    (t.executionMs : Float) ≤ 0 ↔ ¬ 0 < (t.executionMs : Float) := by
  unfold executionMs
  dsimp only
  split
  · rename_i hpos
    exact iff_of_false (Binary64.not_le_of_lt hpos) (not_not_intro hpos)
  · exact iff_of_true (by decide +kernel) (by decide +kernel)

namespace ThroughputFigure

/-- What comes of one query and engine in every case. -/
inductive Yields (f : ThroughputFigure Float) (index : SelectionIndex) (query engine : String) :
    Outcome Float → Prop
  | missing (habsent : (⟨engine, query, f.scaleFactor⟩ : Group) ∉ index) :
      Yields f index query engine (.issue (.missing ⟨engine, query, f.scaleFactor⟩))
  | noBaseline {s : Selection} (hs : index[(⟨engine, query, f.scaleFactor⟩ : Group)]? = some s)
      (habsent : (⟨f.baseline, query, f.scaleFactor⟩ : Group) ∉ index) :
      Yields f index query engine .noBaseline
  | notExecuted {s s' : Selection}
      (hs : index[(⟨engine, query, f.scaleFactor⟩ : Group)]? = some s)
      (hs' : index[(⟨f.baseline, query, f.scaleFactor⟩ : Group)]? = some s')
      (hzero : ¬ 0 < s.executionMs) :
      Yields f index query engine (.issue (.nonPositiveExecution ⟨engine, query, f.scaleFactor⟩))
  | baselineNotExecuted {s s' : Selection}
      (hs : index[(⟨engine, query, f.scaleFactor⟩ : Group)]? = some s)
      (hs' : index[(⟨f.baseline, query, f.scaleFactor⟩ : Group)]? = some s')
      (hpos : 0 < s.executionMs) (hzero : ¬ 0 < s'.executionMs) :
      Yields f index query engine
        (.issue (.nonPositiveExecution ⟨f.baseline, query, f.scaleFactor⟩))
  | value {s s' : Selection}
      (hs : index[(⟨engine, query, f.scaleFactor⟩ : Group)]? = some s)
      (hs' : index[(⟨f.baseline, query, f.scaleFactor⟩ : Group)]? = some s')
      (hpos : 0 < s.executionMs) (hpos' : 0 < s'.executionMs) :
      Yields f index query engine (.value (s'.executionMs / s.executionMs))

variable {f : ThroughputFigure Float} {index : SelectionIndex}

theorem yields_outcome (query engine : String) :
    f.Yields index query engine (f.outcome index query engine) := by
  unfold outcome execution?
  cases hs : index[(⟨engine, query, f.scaleFactor⟩ : Group)]? with
  | none => exact .missing (SelectionIndex.getElem?_eq_none_iff.mp hs)
  | some s =>
      cases hs' : index[(⟨f.baseline, query, f.scaleFactor⟩ : Group)]? with
      | none => exact .noBaseline hs (SelectionIndex.getElem?_eq_none_iff.mp hs')
      | some s' =>
          dsimp only [Option.map_some]
          split
          · rename_i hzero
            exact .notExecuted hs hs' (s.trial.reading.executionMs_le_zero_iff.mp hzero)
          · rename_i hpos
            have hpos : 0 < s.executionMs :=
              Classical.not_not.mp (s.trial.reading.executionMs_le_zero_iff.not.mp hpos)
            split
            · rename_i hzero
              exact .baselineNotExecuted hs hs' hpos
                (s'.trial.reading.executionMs_le_zero_iff.mp hzero)
            · rename_i hpos'
              exact .value hs hs' hpos
                (Classical.not_not.mp (s'.trial.reading.executionMs_le_zero_iff.not.mp hpos'))

def Outcome.isValue {α : Type} : Outcome α → Bool
  | .value _ => true
  | _ => false

/-! ## Issues -/

theorem mem_issues_iff {i : Issue} :
    i ∈ f.issues index ↔ ∃ q ∈ f.displayQueries,
      ((⟨f.baseline, q, f.scaleFactor⟩ : Group) ∉ index ∧
          i = .missing ⟨f.baseline, q, f.scaleFactor⟩) ∨
        ∃ e ∈ f.engines, (f.outcome index q e.tag : Outcome Float) = .issue i := by
  rw [issues, mem_eraseReps, List.mem_flatMap]
  apply exists_congr
  intro q
  apply and_congr_right
  intro _
  rw [queryIssues, List.mem_append, Option.mem_toList, SelectionIndex.missing?_eq_some_iff,
    List.mem_filterMap]
  apply or_congr_right
  apply exists_congr
  intro e
  apply and_congr_right
  intro _
  cases (f.outcome index q e.tag : Outcome Float) <;> simp

/-- A query without a selection of the baseline has an issue of its own, and an outcome without
a value is either that or an issue itself. -/
theorem exists_mem_issues {q : String} (hq : q ∈ f.displayQueries) {e : EngineStyle}
    (he : e ∈ f.engines) (hvalue : (f.outcome index q e.tag : Outcome Float).isValue = false) :
    ∃ i, i ∈ f.issues index := by
  have hyields : f.Yields index q e.tag (f.outcome index q e.tag) := yields_outcome q e.tag
  cases ho : (f.outcome index q e.tag : Outcome Float) with
  | value v => rw [ho] at hvalue; cases hvalue
  | issue i => exact ⟨i, mem_issues_iff.mpr ⟨q, hq, .inr ⟨e, he, ho⟩⟩⟩
  | noBaseline =>
      rw [ho] at hyields
      cases hyields with
      | noBaseline _ habsent => exact ⟨_, mem_issues_iff.mpr ⟨q, hq, .inl ⟨habsent, rfl⟩⟩⟩

theorem issues_eq_nil_iff (hengines : f.engines ≠ []) :
    f.issues index = [] ↔ ∀ q ∈ f.displayQueries, ∀ e ∈ f.engines,
      (f.outcome index q e.tag : Outcome Float).isValue = true := by
  rw [List.eq_nil_iff_forall_not_mem]
  constructor
  · intro hnone q hq e he
    by_contra hvalue
    obtain ⟨i, hi⟩ := exists_mem_issues hq he (Bool.eq_false_of_not_eq_true hvalue)
    exact hnone i hi
  · intro hvalues i hi
    obtain ⟨q, hq, ⟨habsent, -⟩ | ⟨e, he, hissue⟩⟩ := mem_issues_iff.mp hi
    · obtain ⟨e, he⟩ := List.exists_mem_of_ne_nil _ hengines
      have hvalue := hvalues q hq e he
      have hyields : f.Yields index q e.tag (f.outcome index q e.tag) := yields_outcome q e.tag
      -- An engine has a value for the query, so the baseline has a selection.
      cases ho : (f.outcome index q e.tag : Outcome Float) with
      | issue i => rw [ho] at hvalue; cases hvalue
      | noBaseline => rw [ho] at hvalue; cases hvalue
      | value v =>
          rw [ho] at hyields
          cases hyields with
          | value _ hs' =>
              rw [SelectionIndex.getElem?_eq_none_iff.mpr habsent] at hs'
              cases hs'
    · have hvalue := hvalues q hq e he
      rw [hissue] at hvalue
      cases hvalue

/-! ## Places -/

/-- What a place of a query and an engine holds, and what the issues tell if it is empty. -/
structure Accounts (f : ThroughputFigure Float) (index : SelectionIndex) (issues : List Issue)
    (q : String) (e : EngineStyle) (place : Option (ThroughputBar Float)) : Prop where
  drawn : place.isSome = true ↔ ∃ s s' : Selection,
    index[(⟨e.tag, q, f.scaleFactor⟩ : Group)]? = some s ∧
      index[(⟨f.baseline, q, f.scaleFactor⟩ : Group)]? = some s' ∧
        0 < s.executionMs ∧ 0 < s'.executionMs
  value : ∀ b s s', place = some b →
    index[(⟨e.tag, q, f.scaleFactor⟩ : Group)]? = some s →
      index[(⟨f.baseline, q, f.scaleFactor⟩ : Group)]? = some s' →
        b.engine = e.tag ∧ b.color = e.color ∧ b.value = s'.executionMs / s.executionMs
  missing : place = none → (⟨e.tag, q, f.scaleFactor⟩ : Group) ∉ index →
    .missing ⟨e.tag, q, f.scaleFactor⟩ ∈ issues
  missingBaseline : place = none → (⟨f.baseline, q, f.scaleFactor⟩ : Group) ∉ index →
    .missing ⟨f.baseline, q, f.scaleFactor⟩ ∈ issues
  notExecuted : ∀ s s', place = none →
    index[(⟨e.tag, q, f.scaleFactor⟩ : Group)]? = some s →
      index[(⟨f.baseline, q, f.scaleFactor⟩ : Group)]? = some s' → ¬ 0 < s.executionMs →
        .nonPositiveExecution ⟨e.tag, q, f.scaleFactor⟩ ∈ issues
  baselineNotExecuted : ∀ s s', place = none →
    index[(⟨e.tag, q, f.scaleFactor⟩ : Group)]? = some s →
      index[(⟨f.baseline, q, f.scaleFactor⟩ : Group)]? = some s' → 0 < s.executionMs →
        .nonPositiveExecution ⟨f.baseline, q, f.scaleFactor⟩ ∈ issues

/-- The bar of an outcome, around `x` at the `k`-th place. -/
def placed (f : ThroughputFigure Float) (x : Float) (k : Nat) (e : EngineStyle) :
    Outcome Float → Option (ThroughputBar Float)
  | .value v => some ⟨e.tag, e.color, barCenter x f.barWidth f.engines.length k, f.barWidth, v⟩
  | _ => none

theorem bars_eq (x : Float) (q : String) :
    f.bars index x q = f.engines.zipIdx.filterMap fun p ↦
      f.placed x p.2 p.1 (f.outcome index q p.1.tag) := by
  unfold bars
  congr 1
  funext ⟨e, k⟩
  dsimp only
  cases (f.outcome index q e.tag : Outcome Float) <;> rfl

theorem isSome_placed (x : Float) (k : Nat) (e : EngineStyle) (o : Outcome Float) :
    (f.placed x k e o).isSome = o.isValue := by
  cases o <;> rfl

theorem length_bars_eq_iff (x : Float) (q : String) :
    (f.bars index x q).length = f.engines.length ↔
      ∀ e ∈ f.engines, (f.outcome index q e.tag : Outcome Float).isValue = true := by
  have hplaces : f.engines.zipIdx.length = f.engines.length := List.length_zipIdx
  rw [bars_eq, ← hplaces, List.filterMap_length_eq_length]
  simp only [isSome_placed]
  constructor
  · intro h e he
    obtain ⟨k, hk⟩ := List.mem_iff_getElem?.mp he
    exact h (e, k) (List.mem_zipIdx_iff_getElem?.mpr hk)
  · intro h p hp
    exact h p.1 (List.fst_mem_of_mem_zipIdx hp)

theorem accounts_placed {q : String} (hq : q ∈ f.displayQueries) {e : EngineStyle}
    (he : e ∈ f.engines) (x : Float) (k : Nat) :
    f.Accounts index (f.issues index) q e (f.placed x k e (f.outcome index q e.tag)) := by
  -- The issues are known by the outcome, so the two have to be generalized together.
  have hyields : f.Yields index q e.tag (f.outcome index q e.tag) := yields_outcome q e.tag
  have hissue : ∀ i, (f.outcome index q e.tag : Outcome Float) = .issue i → i ∈ f.issues index :=
    fun i hi ↦ mem_issues_iff.mpr ⟨q, hq, .inr ⟨e, he, hi⟩⟩
  have hbaseline : (⟨f.baseline, q, f.scaleFactor⟩ : Group) ∉ index →
      .missing ⟨f.baseline, q, f.scaleFactor⟩ ∈ f.issues index :=
    fun habsent ↦ mem_issues_iff.mpr ⟨q, hq, .inl ⟨habsent, rfl⟩⟩
  generalize (f.outcome index q e.tag : Outcome Float) = o at hyields hissue
  cases hyields with
  | missing habsent =>
      have hmem := hissue _ rfl
      constructor <;> grind [placed, SelectionIndex.getElem?_eq_none_iff]
  | noBaseline hs habsent =>
      have hmem := hbaseline habsent
      constructor <;> grind [placed, SelectionIndex.getElem?_eq_none_iff]
  | notExecuted hs hs' hzero =>
      have hmem := hissue _ rfl
      constructor <;> grind [placed, SelectionIndex.getElem?_eq_none_iff]
  | baselineNotExecuted hs hs' hpos hzero =>
      have hmem := hissue _ rfl
      constructor <;> grind [placed, SelectionIndex.getElem?_eq_none_iff]
  | value hs hs' hpos hpos' =>
      constructor <;> grind [placed, SelectionIndex.getElem?_eq_none_iff]

theorem forall₂_accounts {q : String} (hq : q ∈ f.displayQueries) (x : Float) :
    ∃ places, List.Forall₂ (f.Accounts index (f.issues index) q) f.engines places ∧
      f.bars index x q = places.filterMap id := by
  refine ⟨f.engines.zipIdx.map fun p ↦ f.placed x p.2 p.1 (f.outcome index q p.1.tag), ?_, ?_⟩
  · have hengines : List.Forall₂ (f.Accounts index (f.issues index) q)
        (f.engines.zipIdx.map Prod.fst)
        (f.engines.zipIdx.map fun p ↦ f.placed x p.2 p.1 (f.outcome index q p.1.tag)) := by
      rw [List.forall₂_map_left_iff, List.forall₂_map_right_iff, List.forall₂_same]
      intro p hp
      exact accounts_placed hq (List.fst_mem_of_mem_zipIdx hp) x p.2
    rwa [List.zipIdx_map_fst] at hengines
  · rw [bars_eq, List.filterMap_map]
    rfl

/-- Each query of a throughput figure has a place for each engine.  A place has a bar if both the
engine and the baseline executed for some time, and the issues account for every place that has
none. -/
theorem layout_accounts_for_places (hvalid : f.fault? = none) (index : SelectionIndex) :
    ∃ l, f.layout index = .ok l ∧ l.groups.map (·.query) = f.displayQueries ∧
      (∀ g ∈ l.groups, ∃ places,
        List.Forall₂ (f.Accounts index l.issues g.query) f.engines places ∧
          g.bars = places.filterMap id) ∧
      (l.issues = [] ↔ ∀ g ∈ l.groups, g.bars.length = f.engines.length) := by
  have hengines : f.engines ≠ [] := by
    simp only [fault?, List.findSome?_eq_none_iff, List.forall_mem_cons, id_eq,
      faultIf_eq_none_iff] at hvalid
    exact hvalid.1
  have hqueries : (f.groups index).map (·.query) = f.displayQueries := by
    simp [groups, List.map_map, Function.comp_def]
  have hgroup : ∀ g ∈ f.groups index, g.query ∈ f.displayQueries ∧
      ∃ x, g.bars = f.bars index x g.query := by
    intro g hg
    obtain ⟨⟨query, slot⟩, hmem, rfl⟩ := List.mem_map.mp hg
    exact ⟨List.fst_mem_of_mem_zipIdx hmem, slotCenter f.slotSpacing slot, rfl⟩
  unfold layout
  rw [hvalid]
  refine ⟨_, rfl, hqueries, ?_, ?_⟩
  · intro g hg
    obtain ⟨hquery, x, hbars⟩ := hgroup g hg
    rw [hbars]
    exact forall₂_accounts hquery x
  · rw [issues_eq_nil_iff hengines, ← hqueries, List.forall_mem_map]
    apply forall_congr'
    intro g
    apply imp_congr_right
    intro hg
    obtain ⟨-, x, hbars⟩ := hgroup g hg
    rw [hbars, length_bars_eq_iff]

/-- Trials of a baseline that executed, of an engine that did not, and of one that did for half
the time. -/
def unevenTrials : List Trial :=
  [⟨⟨"inkfuse_interpreted", "q1", ⟨"100"⟩⟩, ⟨8, none, none⟩⟩,
    ⟨⟨"inkfuse_fused", "q1", ⟨"100"⟩⟩, ⟨2, some 5000, none⟩⟩,
    ⟨⟨"inkfuse_rof", "q1", ⟨"100"⟩⟩, ⟨5, some 1000, none⟩⟩]

theorem engineFigure_of_uneven_trials :
    (engineFigure : ThroughputFigure Float).fault? = none ∧
    ∃ l, (engineFigure : ThroughputFigure Float).layout (selectAll unevenTrials) = .ok l ∧
      .nonPositiveExecution ⟨"inkfuse_fused", "q1", ⟨"100"⟩⟩ ∈ l.issues ∧
      .missing ⟨"inkfuse_hybrid", "q1", ⟨"100"⟩⟩ ∈ l.issues ∧
      ∃ g ∈ l.groups, g.query = "q1" ∧ ∃ b ∈ g.bars, b.engine = "inkfuse_rof" ∧ b.value = 2 := by
  have hvalid : (engineFigure : ThroughputFigure Float).fault? = none := by decide +kernel
  have hquery : "q1" ∈ (engineFigure : ThroughputFigure Float).displayQueries := by decide +kernel
  have hbaseline : (selectAll unevenTrials)[(⟨"inkfuse_interpreted", "q1", ⟨"100"⟩⟩ : Group)]? =
      some ⟨⟨⟨"inkfuse_interpreted", "q1", ⟨"100"⟩⟩, ⟨8, none, none⟩⟩, 1⟩ := by
    rw [getElem?_selectAll_eq]
    rfl
  have hfused : (selectAll unevenTrials)[(⟨"inkfuse_fused", "q1", ⟨"100"⟩⟩ : Group)]? =
      some ⟨⟨⟨"inkfuse_fused", "q1", ⟨"100"⟩⟩, ⟨2, some 5000, none⟩⟩, 1⟩ := by
    rw [getElem?_selectAll_eq]
    rfl
  have hrof : (selectAll unevenTrials)[(⟨"inkfuse_rof", "q1", ⟨"100"⟩⟩ : Group)]? =
      some ⟨⟨⟨"inkfuse_rof", "q1", ⟨"100"⟩⟩, ⟨5, some 1000, none⟩⟩, 1⟩ := by
    rw [getElem?_selectAll_eq]
    rfl
  have hhybrid : (selectAll unevenTrials)[(⟨"inkfuse_hybrid", "q1", ⟨"100"⟩⟩ : Group)]? = none := by
    rw [getElem?_selectAll_eq]
    rfl
  have hvalue : Selection.executionMs
      ⟨⟨⟨"inkfuse_interpreted", "q1", ⟨"100"⟩⟩, ⟨8, none, none⟩⟩, 1⟩ /
        Selection.executionMs ⟨⟨⟨"inkfuse_rof", "q1", ⟨"100"⟩⟩, ⟨5, some 1000, none⟩⟩, 1⟩ = 2 := by
    decide +kernel
  obtain ⟨l, hl, hqueries, hgroups, -⟩ :=
    layout_accounts_for_places hvalid (selectAll unevenTrials)
  obtain ⟨g, hg, hquery⟩ := List.mem_map.mp (hqueries ▸ hquery)
  obtain ⟨places, hplaces, hbars⟩ := hgroups g hg
  rw [hquery] at hplaces
  cases hplaces with
  | @cons _ fused _ _ hfusedPlace hplaces =>
  cases hplaces with
  | @cons _ rof _ _ hrofPlace hplaces =>
  cases hplaces with
  | cons _ hplaces =>
  cases hplaces with
  | @cons _ hybrid _ _ hhybridPlace hplaces =>
  have hzero : ¬ 0 < Selection.executionMs
      ⟨⟨⟨"inkfuse_fused", "q1", ⟨"100"⟩⟩, ⟨2, some 5000, none⟩⟩, 1⟩ := by decide +kernel
  have hnoFused : fused = none := by
    rw [← Option.not_isSome_iff_eq_none, hfusedPlace.drawn]
    rintro ⟨s, s', hs, -, hpos, -⟩
    obtain rfl := Option.some.inj (hs.symm.trans hfused)
    exact hzero hpos
  have hnoHybrid : hybrid = none := by
    rw [← Option.not_isSome_iff_eq_none, hhybridPlace.drawn]
    rintro ⟨s, s', hs, -⟩
    cases hs.symm.trans hhybrid
  obtain ⟨b, rfl⟩ := Option.isSome_iff_exists.mp
    (hrofPlace.drawn.mpr ⟨_, _, hrof, hbaseline, by decide +kernel, by decide +kernel⟩)
  obtain ⟨hengine, -, hb⟩ := hrofPlace.value b _ _ rfl hrof hbaseline
  refine ⟨hvalid, l, hl, hfusedPlace.notExecuted _ _ hnoFused hfused hbaseline hzero,
    hhybridPlace.missing hnoHybrid (SelectionIndex.getElem?_eq_none_iff.mp hhybrid), g, hg, hquery,
    b, ?_, hengine, hb.trans hvalue⟩
  rw [hbars, List.mem_filterMap]
  exact ⟨some b, by simp, rfl⟩

end ThroughputFigure
end QueryBench
