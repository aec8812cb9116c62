import Mathlib.Algebra.Order.Field.Rat
import Mathlib.Tactic.NormNum
import QueryBench.Proofs.LatencyFigure.Panels

/-!
# The unit of a scale factor

The panels of one scale factor share a unit, so that a query beside them can be compared with
the rest.  Where the row leaves the choice to the data, the unit is chosen by what is drawn: the
latencies that are looked at for it are those of the bars in these panels.
-/

namespace QueryBench

theorem lt_foldl_max_iff {most limit : UInt64} {selections : List Selection} :
    limit < selections.foldl (fun most s ↦ max most s.latencyMs) most ↔
      limit < most ∨ ∃ s ∈ selections, limit < s.latencyMs := by
  induction selections generalizing most with
  | nil => simp
  | cons s rest ih =>
      have hmax : max most s.latencyMs = if most ≤ s.latencyMs then s.latencyMs else most := rfl
      have hlt : limit < max most s.latencyMs ↔ limit < most ∨ limit < s.latencyMs := by
        rw [hmax]
        split <;> grind
      simp [ih, hlt, or_assoc]

theorem SelectionIndex.lt_maxLatencyMs_iff {index : SelectionIndex} {engines : List EngineStyle}
    {sf : ScaleFactor} {queries : List String} {limit : UInt64} :
    limit < index.maxLatencyMs engines sf queries ↔
      ∃ q ∈ queries, ∃ e ∈ engines, ∃ s,
        index[(⟨e.tag, q, sf⟩ : Group)]? = some s ∧ limit < s.latencyMs := by
  have hzero : ¬ limit < 0 := by simp
  simp only [maxLatencyMs, lt_foldl_max_iff, hzero, false_or, List.mem_flatMap, List.mem_filterMap]
  constructor
  · rintro ⟨s, ⟨q, hq, e, he, hs⟩, hlt⟩
    exact ⟨q, hq, e, he, s, hs, hlt⟩
  · rintro ⟨q, hq, e, he, s, hs, hlt⟩
    exact ⟨s, ⟨q, hq, e, he, hs⟩, hlt⟩

namespace DisplayUnit

theorem choose_auto_eq_seconds_iff {most : UInt64} :
    choose most .auto = seconds ↔ 1000 < most := by
  simp [choose]

/-- Milliseconds in one unit. -/
def inMilliseconds : DisplayUnit → ℚ
  | milliseconds => 1
  | seconds => 1000

theorem latency_mul_inMilliseconds (ms : ℚ) (u : DisplayUnit) :
    u.latency ms * u.inMilliseconds = ms := by
  cases u with
  | milliseconds => exact mul_one ms
  | seconds => exact div_mul_cancel₀ ms (by norm_num)

theorem stall_mul_inMilliseconds (us : UInt64) (u : DisplayUnit) :
    u.stall us * (1000 * u.inMilliseconds) = (us.toNat : ℚ) := by
  cases u with
  | milliseconds =>
      have hback : (us.toNat : ℚ) / 1000 * (1000 * 1) = us.toNat := by
        rw [mul_one, div_mul_cancel₀ _ (by norm_num)]
      exact hback
  | seconds =>
      have hback : (us.toNat : ℚ) / 1000000 * (1000 * 1000) = us.toNat := by
        rw [show (1000 : ℚ) * 1000 = 1000000 by norm_num, div_mul_cancel₀ _ (by norm_num)]
      exact hback

end DisplayUnit

namespace LatencyFigure

variable {α : Type} [Scalar α]

/-- A bar of a group shows a selection in the unit of its panel.  Where the conversion is
computed exactly, nothing of what was measured is lost. -/
structure ShowsSelection (index : SelectionIndex) (p : Panel α) (g : BarGroup α) (b : Bar α)
    (s : Selection) : Prop where
  selected : index[(⟨b.engine, g.query, p.scaleFactor⟩ : Group)]? = some s
  value_eq : b.value = p.unit.latency (Scalar.ofNat s.latencyMs.toNat)
  stall_eq : b.stall = (s.stallUs.map p.unit.stall).getD 0
  latency_back : p.unit.latency (s.latencyMs.toNat : ℚ) * p.unit.inMilliseconds =
    s.latencyMs.toNat
  stall_back : (s.stallUs.map p.unit.stall).getD 0 * (1000 * p.unit.inMilliseconds) =
    ((s.stallUs.getD 0).toNat : ℚ)

/-- A selection of more than a second is drawn in the panels of a scale factor. -/
def DrawsSeconds (index : SelectionIndex) (panels : List (Panel α)) (row : Nat)
    (sf : ScaleFactor) : Prop :=
  ∃ p ∈ panels, p.row = row ∧ p.scaleFactor = sf ∧ ∃ g ∈ p.groups, ∃ b ∈ g.bars, ∃ s,
    ShowsSelection index p g b s ∧ 1000 < s.latencyMs

variable {f : LatencyFigure α} {index : SelectionIndex}

theorem showsSelection_ofSelection {p : Panel α} {g : BarGroup α} {e : EngineStyle} {s : Selection}
    (hs : index[(⟨e.tag, g.query, p.scaleFactor⟩ : Group)]? = some s) (x width floor : α)
    (axis : Option (BrokenAxis α)) :
    ShowsSelection index p g (.ofSelection e x width p.unit floor axis s) s := by
  obtain ⟨hvalue, hstall⟩ := value_and_stall_ofSelection e x width floor p.unit axis s
  refine ⟨hs, hvalue, hstall, p.unit.latency_mul_inMilliseconds _, ?_⟩
  cases s.stallUs with
  | none => simp
  | some us => exact p.unit.stall_mul_inMilliseconds us

theorem unit_eq_of_mem {p : Panel α} (hp : p ∈ f.panels index) {r : PanelRow α}
    (hr : f.rows[p.row]? = some r) : p.unit = f.unitOf index r p.scaleFactor := by
  obtain ⟨r', hr', -, hpanel⟩ := exists_panel_of_mem hp
  cases hr.symm.trans hr'
  exact congrArg Panel.unit hpanel

theorem exists_showsSelection {p : Panel α} (hp : p ∈ f.panels index) {g : BarGroup α}
    (hg : g ∈ p.groups) {b : Bar α} (hb : b ∈ g.bars) : ∃ s, ShowsSelection index p g b s := by
  obtain ⟨-, e, -, x, s, hs, rfl⟩ := exists_selection_of_mem_bars hp hg hb
  exact ⟨s, showsSelection_ofSelection hs ..⟩

/-- The selections that the unit is chosen by are those that are drawn. -/
theorem drawsSeconds_iff {row : Nat} {r : PanelRow α} (hr : f.rows[row]? = some r)
    {sf : ScaleFactor} (hsf : sf ∈ r.scaleFactors) :
    DrawsSeconds index (f.panels index) row sf ↔
      1000 < index.maxLatencyMs f.engines sf f.expectedQueries := by
  rw [SelectionIndex.lt_maxLatencyMs_iff]
  constructor
  · rintro ⟨p, hp, rfl, rfl, g, hg, b, hb, s, hshows, hlt⟩
    obtain ⟨hquery, e, he, x, s', hs', rfl⟩ := exists_selection_of_mem_bars hp hg hb
    exact ⟨g.query, mem_expectedQueries_of_mem_queriesOf hquery, e, he, s, hshows.selected, hlt⟩
  · rintro ⟨q, hq, e, he, s, hs, hlt⟩
    obtain ⟨p, hp, hrow, rfl, hquery⟩ := exists_panel_of_query hr hsf hq
    obtain ⟨g, hg, rfl, x, hb⟩ := exists_bar_of_selection hp hquery he hs
    exact ⟨p, hp, hrow, rfl, g, hg, _, hb, s, showsSelection_ofSelection hs .., hlt⟩

theorem axis_eq_none_of_auto (h : f.Consistent) {p : Panel α} (hp : p ∈ f.panels index)
    {r : PanelRow α} (hr : f.rows[p.row]? = some r) (hauto : r.unit = .auto) : p.axis = none := by
  by_contra hne
  obtain ⟨a, ha⟩ := Option.ne_none_iff_exists'.mp hne
  obtain ⟨r', hr', t, ht, -⟩ := exists_tear_of_axis hp ha
  cases hr.symm.trans hr'
  simp [h.tearUnits r (List.mem_of_getElem? hr) hauto] at ht

/-- All panels of one scale factor in a row have one unit.  Where the row leaves the choice to the
data it is seconds exactly if one of these panels draws a selection of more than a second, and no
axis is broken.  Each bar shows one selection in the unit of its panel. -/
theorem scale_factor_has_one_unit (hvalid : f.fault? = none) (index : SelectionIndex) :
    ∃ l, f.layout index = .ok l ∧
      (∀ p ∈ l.panels, ∀ p' ∈ l.panels,
        p.row = p'.row → p.scaleFactor = p'.scaleFactor → p.unit = p'.unit) ∧
      (∀ p ∈ l.panels, ∃ r, f.rows[p.row]? = some r ∧ (r.unit = .auto → p.axis = none ∧
        (p.unit = .seconds ↔ DrawsSeconds index l.panels p.row p.scaleFactor))) ∧
      ∀ p ∈ l.panels, ∀ g ∈ p.groups, ∀ b ∈ g.bars, ∃ s, ShowsSelection index p g b s := by
  have h := consistent_of_fault? hvalid
  obtain ⟨l, hl, hpanels, -⟩ := exists_layout hvalid index
  refine ⟨l, hl, ?_⟩
  rw [hpanels]
  refine ⟨?shared, ?chosen, fun p hp g hg b hb ↦ exists_showsSelection hp hg hb⟩
  case shared =>
    intro p hp p' hp' hrow hsf
    obtain ⟨r, hr, -⟩ := exists_panel_of_mem hp
    rw [unit_eq_of_mem hp hr, unit_eq_of_mem hp' (hrow ▸ hr), hsf]
  case chosen =>
    intro p hp
    obtain ⟨r, hr, hsf, -⟩ := exists_panel_of_mem hp
    refine ⟨r, hr, fun hauto ↦ ⟨axis_eq_none_of_auto h hp hr hauto, ?_⟩⟩
    rw [drawsSeconds_iff hr hsf, unit_eq_of_mem hp hr, unitOf, hauto]
    exact DisplayUnit.choose_auto_eq_seconds_iff

/-- One row, whose unit the data choose, with query 18 beside the others. -/
def autoFigure : LatencyFigure Float :=
  { splitFigure with rows := [⟨[.ofText "1"], .auto, [], 1⟩] }

/-- A fast query in the main panel and a slow one beside it. -/
def unevenTrials : List Trial :=
  [⟨⟨"duckdb", "q1", ⟨"1"⟩⟩, ⟨40, some 700, none⟩⟩, ⟨⟨"duckdb", "q98", ⟨"1"⟩⟩, ⟨1500, none, none⟩⟩]

/-- The slow query puts both panels in seconds. -/
theorem autoFigure_of_unevenTrials :
    autoFigure.fault? = none ∧ ∃ l, autoFigure.layout (selectAll unevenTrials) = .ok l ∧
      l.panels.map (fun p ↦ p.kind) = [.main, .overflow] ∧
      ∀ p ∈ l.panels, p.unit = .seconds ∧ p.axis = none := by
  have hvalid : autoFigure.fault? = none := by decide +kernel
  obtain ⟨l, hl, hshared, hchosen, -⟩ := scale_factor_has_one_unit hvalid (selectAll unevenTrials)
  have hpanels := panels_of_layout hl
  have hkinds : l.panels.map (fun p ↦ p.kind) = [.main, .overflow] := by
    rw [hpanels]
    decide +kernel
  have hmost : 1000 < (selectAll unevenTrials).maxLatencyMs autoFigure.engines ⟨"1"⟩
      autoFigure.expectedQueries := by
    decide +kernel
  refine ⟨hvalid, l, hl, hkinds, fun p hp ↦ ?_⟩
  obtain ⟨r, hr, hauto⟩ := hchosen p hp
  -- There is one row, and it has one scale factor.
  obtain ⟨r', hr', hsf, -⟩ := exists_panel_of_mem (hpanels ▸ hp)
  cases hr.symm.trans hr'
  have hfirst : r = ⟨[.ofText "1"], .auto, [], 1⟩ :=
    List.mem_singleton.mp (List.mem_of_getElem? hr)
  subst hfirst
  have hlabel : p.scaleFactor = ⟨"1"⟩ := by
    rw [List.mem_singleton.mp hsf]
    decide +kernel
  obtain ⟨haxis, hseconds⟩ := hauto rfl
  refine ⟨hseconds.mpr ?_, haxis⟩
  rw [hpanels, hlabel]
  exact (drawsSeconds_iff hr (hlabel ▸ hsf)).mpr hmost

end LatencyFigure
end QueryBench
