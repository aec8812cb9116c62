import QueryBench.Proofs.LatencyFigure.Panels
import QueryBench.Proofs.Text.Utf8

/-!
# Lists of queries

A figure lists its queries by raw id and shows them by display id, each once and in the order of
their bytes.  Its layout goes through that sorted list alone: another list makes the same layout
exactly if it names the same display ids beside the one of the outlier.
-/

namespace QueryBench

theorem QueryRules.ordered_displayIds (r : QueryRules) (ids : List String) :
    (r.displayIds ids).Pairwise fun a b ↦ compare a b = .lt :=
  Std.ExtTreeSet.ordered_toList

namespace LatencyFigure

variable {α : Type} {f : LatencyFigure α} {ids : List String} {index : SelectionIndex}

/-- A display id that the list of queries names for the main panels. -/
def Lists (f : LatencyFigure α) (d : String) : Prop :=
  (∃ id ∈ f.queries, f.rules.displayId? id = some d) ∧ some d ≠ f.outlierQuery

theorem mem_mainQueries {d : String} : d ∈ f.mainQueries ↔ f.Lists d := by
  rw [mainQueries, List.mem_filter, QueryRules.mem_displayIds, decide_eq_true_iff]
  rfl

theorem ordered_mainQueries (f : LatencyFigure α) :
    f.mainQueries.Pairwise fun a b ↦ compare a b = .lt :=
  (f.rules.ordered_displayIds f.queries).filter _

theorem pairwise_mainQueries (f : LatencyFigure α) : f.mainQueries.Pairwise (· < ·) :=
  f.ordered_mainQueries.imp compareOfLessAndEq_eq_lt.mp

theorem mainQueries_eq_iff {f' : LatencyFigure α} :
    f.mainQueries = f'.mainQueries ↔ ∀ d, f.Lists d ↔ f'.Lists d := by
  simp only [← mem_mainQueries]
  constructor
  · intro h d
    rw [h]
  · intro hmem
    have hperm : f.mainQueries.Perm f'.mainQueries :=
      (List.perm_ext_iff_of_nodup f.pairwise_mainQueries.nodup f'.pairwise_mainQueries.nodup).mpr
        hmem
    exact eq_of_perm_of_ascending hperm f.ordered_mainQueries f'.ordered_mainQueries

/-- The figure with another list of queries. -/
def withQueries (f : LatencyFigure α) (ids : List String) : LatencyFigure α :=
  { f with queries := ids }

/-! ## What the layout reads of the list -/

section SameQueries

variable (h : (f.withQueries ids).mainQueries = f.mainQueries)

include h

theorem expectedQueries_withQueries : (f.withQueries ids).expectedQueries = f.expectedQueries :=
  congrArg (· ++ f.outlierQuery.toList) h

theorem issues_withQueries : (f.withQueries ids).issues index = f.issues index := by
  unfold issues
  rw [h, expectedQueries_withQueries h]
  rfl

variable [Scalar α]

theorem scaleFactorPanels_withQueries (row : Nat) (r : PanelRow α) (position : Nat)
    (sf : ScaleFactor) :
    (f.withQueries ids).scaleFactorPanels index row r position sf =
      f.scaleFactorPanels index row r position sf := by
  unfold scaleFactorPanels
  rw [h, expectedQueries_withQueries h]
  rfl

theorem panels_withQueries : (f.withQueries ids).panels index = f.panels index := by
  unfold panels
  simp only [scaleFactorPanels_withQueries h]
  rfl

theorem layout_withQueries (hvalid : f.fault? = none)
    (hvalid' : (f.withQueries ids).fault? = none) (index : SelectionIndex) :
    (f.withQueries ids).layout index = f.layout index := by
  unfold layout
  rw [hvalid, hvalid', panels_withQueries h, issues_withQueries h]
  rfl

end SameQueries

/-! ## What the layout shows of the list -/

variable [Scalar α]

theorem map_query_of_mem_panels {p : Panel α} (hp : p ∈ f.panels index) (hkind : p.kind = .main) :
    p.groups.map (·.query) = f.mainQueries := by
  rw [groups_of_mem_panels index hp, map_query_groups, hkind, queriesOf]

theorem exists_main_panel (hvalid : f.fault? = none) (index : SelectionIndex) :
    ∃ p ∈ f.panels index, p.kind = .main := by
  have h := consistent_of_fault? hvalid
  obtain ⟨r, hr⟩ := List.exists_mem_of_ne_nil _ h.rows
  obtain ⟨row, hrow⟩ := List.mem_iff_getElem?.mp hr
  obtain ⟨sf, hsf⟩ := List.exists_mem_of_ne_nil _ (h.scaleFactors r hr)
  obtain ⟨q, hq⟩ := List.exists_mem_of_ne_nil _ h.queries
  have hexpected : q ∈ f.expectedQueries := List.mem_append_left _ hq
  obtain ⟨p, hp, -, -, hquery⟩ := exists_panel_of_query hrow hsf hexpected
  refine ⟨p, hp, ?_⟩
  cases hkind : p.kind with
  | main => rfl
  | overflow =>
      rw [hkind, queriesOf, Option.mem_toList] at hquery
      exact absurd hquery.symm (mem_mainQueries.mp hq).2

/-- Two valid figures that differ in their lists of queries have one layout exactly if the lists
name the same display ids beside the outlier's, in whatever order, spelling and number.  The
groups of a main panel are these display ids in the order of their bytes. -/
theorem layout_ignores_how_queries_are_listed (hvalid : f.fault? = none)
    (hvalid' : (f.withQueries ids).fault? = none) (index : SelectionIndex) :
    ∃ l l', f.layout index = .ok l ∧ (f.withQueries ids).layout index = .ok l' ∧
      ((∀ d, f.Lists d ↔ (f.withQueries ids).Lists d) ↔ l = l') ∧
      ∀ p ∈ l.panels, p.kind = .main →
        ((p.groups.map (·.query)).Pairwise fun a b ↦ Bytes.ofString a < Bytes.ofString b) ∧
        (p.groups.map (·.query)).Nodup ∧
        (∀ g ∈ p.groups, some g.query ≠ f.outlierQuery) ∧
        ∀ d, d ∈ p.groups.map (·.query) ↔ f.Lists d := by
  obtain ⟨l, hl, hpanels, -⟩ := exists_layout hvalid index
  obtain ⟨l', hl', hpanels', -⟩ := exists_layout hvalid' index
  refine ⟨l, l', hl, hl', ⟨fun hsame ↦ ?same, fun heq ↦ ?differ⟩, fun p hp hkind ↦ ?groups⟩
  case same =>
    have hlayout := layout_withQueries (mainQueries_eq_iff.mpr hsame).symm hvalid hvalid' index
    rw [hl, hl'] at hlayout
    exact (Except.ok.inj hlayout).symm
  case differ =>
    -- There is a main panel, and its groups tell what the list names.
    obtain ⟨p, hp, hkind⟩ := exists_main_panel hvalid index
    have hp' : p ∈ (f.withQueries ids).panels index := by
      rw [← hpanels', ← heq, hpanels]
      exact hp
    apply mainQueries_eq_iff.mp
    rw [← map_query_of_mem_panels hp hkind, map_query_of_mem_panels hp' hkind]
  case groups =>
    have hshown := map_query_of_mem_panels (hpanels ▸ hp) hkind
    refine ⟨?_, ?_, ?_, ?_⟩
    · rw [hshown]
      exact f.pairwise_mainQueries.imp Bytes.ofString_lt
    · rw [hshown]
      exact f.pairwise_mainQueries.nodup
    · intro g hg
      have hmem : g.query ∈ f.mainQueries := hshown ▸ List.mem_map_of_mem hg
      exact (mem_mainQueries.mp hmem).2
    · intro d
      rw [hshown, mem_mainQueries]

/-- The queries of the figure with an outlier, listed in another order: some by display id, some
twice, and with the outlier among them. -/
def respelledQueries : List String :=
  ["q99", "q18", "q6", "q5", "q13", "q4", "q87", "q3", "q98", "q14", "q1", "q1"]

theorem splitFigure_of_respelledQueries :
    (splitFigure : LatencyFigure Float).fault? = none ∧
    ((splitFigure : LatencyFigure Float).withQueries respelledQueries).fault? = none ∧
    ∃ l, (splitFigure : LatencyFigure Float).layout (selectAll crowdedTrials) = .ok l ∧
      ((splitFigure : LatencyFigure Float).withQueries respelledQueries).layout
        (selectAll crowdedTrials) = .ok l ∧
      ∀ p ∈ l.panels, p.kind = .main →
        "q87" ∈ p.groups.map (·.query) ∧ "q98" ∉ p.groups.map (·.query) := by
  have hvalid : (splitFigure : LatencyFigure Float).fault? = none := by decide +kernel
  have hvalid' : ((splitFigure : LatencyFigure Float).withQueries respelledQueries).fault? =
      none := by decide +kernel
  have hqueries : (splitFigure : LatencyFigure Float).mainQueries =
      ((splitFigure : LatencyFigure Float).withQueries respelledQueries).mainQueries := by
    decide +kernel
  obtain ⟨l, l', hl, hl', hsame, hgroups⟩ :=
    layout_ignores_how_queries_are_listed hvalid hvalid' (selectAll crowdedTrials)
  obtain rfl := hsame.mp (mainQueries_eq_iff.mp hqueries)
  refine ⟨hvalid, hvalid', l, hl, hl', fun p hp hkind ↦ ?_⟩
  obtain ⟨-, -, -, hmem⟩ := hgroups p hp hkind
  rw [hmem, hmem, ← mem_mainQueries, ← mem_mainQueries]
  decide +kernel

end LatencyFigure
end QueryBench
