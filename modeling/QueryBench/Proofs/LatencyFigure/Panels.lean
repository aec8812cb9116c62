import QueryBench.Proofs.LatencyFigure.Provenance

/-!
# The panels of a latency figure

Each panel of a layout shows one scale factor of one row, in the unit that is chosen for them,
and the panels of a scale factor together have a group for each expected query.
-/

namespace QueryBench
namespace LatencyFigure

variable {α : Type} [Scalar α] {f : LatencyFigure α} {index : SelectionIndex}

/-- The unit of a scale factor in a row. -/
def unitOf (f : LatencyFigure α) (index : SelectionIndex) (r : PanelRow α) (sf : ScaleFactor) :
    DisplayUnit :=
  .choose (index.maxLatencyMs f.engines sf f.expectedQueries) r.unit

theorem exists_layout (hvalid : f.fault? = none) (index : SelectionIndex) :
    ∃ l, f.layout index = .ok l ∧ l.panels = f.panels index ∧ l.issues = f.issues index := by
  rw [layout, hvalid]
  exact ⟨_, rfl, rfl, rfl⟩

theorem panels_of_layout {l : FigureLayout α} (h : f.layout index = .ok l) :
    l.panels = f.panels index := by
  unfold layout at h
  split at h
  · cases h
  · cases h
    rfl

theorem exists_panel_of_mem {p : Panel α} (hp : p ∈ f.panels index) :
    ∃ r, f.rows[p.row]? = some r ∧ p.scaleFactor ∈ r.scaleFactors ∧
      p = f.panel index p.row r p.column p.kind p.scaleFactor
        (f.unitOf index r p.scaleFactor) (f.queriesOf p.kind) := by
  obtain ⟨⟨r, row⟩, hr, hp⟩ := List.mem_flatMap.mp hp
  obtain ⟨⟨sf, position⟩, hsf, hp⟩ := List.mem_flatMap.mp hp
  have hrow : f.rows[row]? = some r := List.mem_zipIdx_iff_getElem?.mp hr
  have hmem : sf ∈ r.scaleFactors := List.fst_mem_of_mem_zipIdx hsf
  rcases List.mem_cons.mp hp with rfl | hp
  · exact ⟨r, hrow, hmem, rfl⟩
  · obtain ⟨q, hq, rfl⟩ := List.mem_map.mp hp
    have hqueries : [q] = f.queriesOf .overflow := by
      simp [queriesOf, Option.mem_toList.mp hq]
    exact ⟨r, hrow, hmem, congrArg _ hqueries⟩

/-- Each expected query has a group at each scale factor. -/
theorem exists_panel_of_query {row : Nat} {r : PanelRow α} (hr : f.rows[row]? = some r)
    {sf : ScaleFactor} (hsf : sf ∈ r.scaleFactors) {q : String} (hq : q ∈ f.expectedQueries) :
    ∃ p ∈ f.panels index, p.row = row ∧ p.scaleFactor = sf ∧ q ∈ f.queriesOf p.kind := by
  obtain ⟨position, hposition⟩ := List.mem_iff_getElem?.mp hsf
  have hpanels : ∀ p ∈ f.scaleFactorPanels index row r position sf, p ∈ f.panels index := by
    intro p hp
    apply List.mem_flatMap.mpr ⟨(r, row), List.mem_zipIdx_iff_getElem?.mpr hr, ?_⟩
    exact List.mem_flatMap.mpr ⟨(sf, position), List.mem_zipIdx_iff_getElem?.mpr hposition, hp⟩
  rcases List.mem_append.mp hq with hmain | houtlier
  · exact ⟨_, hpanels _ List.mem_cons_self, rfl, rfl, hmain⟩
  · have hoverflow := List.mem_map_of_mem (f := fun q ↦ f.panel index row r
      (position * f.columnStride + 1) .overflow sf (f.unitOf index r sf) [q]) houtlier
    exact ⟨_, hpanels _ (List.mem_cons_of_mem _ hoverflow), rfl, rfl, houtlier⟩

theorem mem_groupBars {sf : ScaleFactor} {unit : DisplayUnit} {axis : Option (BrokenAxis α)}
    {x : α} {query : String} {b : Bar α} (hb : b ∈ f.groupBars index sf unit axis x query) :
    ∃ k e s, f.engines[k]? = some e ∧ index[(⟨e.tag, query, sf⟩ : Group)]? = some s ∧
      b = .ofSelection e (barCenter x f.barWidth f.engines.length k) f.barWidth unit
        (unit.latency f.floorMs) axis s := by
  obtain ⟨⟨e, k⟩, he, hb⟩ := List.mem_filterMap.mp hb
  obtain ⟨s, hs, rfl⟩ := Option.map_eq_some_iff.mp hb
  exact ⟨k, e, s, List.mem_zipIdx_iff_getElem?.mp he, hs, rfl⟩

/-- Every selection of an engine has a bar. -/
theorem exists_mem_groupBars {e : EngineStyle} (he : e ∈ f.engines) {query : String}
    {sf : ScaleFactor} {s : Selection} (hs : index[(⟨e.tag, query, sf⟩ : Group)]? = some s)
    (unit : DisplayUnit) (axis : Option (BrokenAxis α)) (x : α) :
    ∃ center, Bar.ofSelection e center f.barWidth unit (unit.latency f.floorMs) axis s ∈
      f.groupBars index sf unit axis x query := by
  obtain ⟨k, hk⟩ := List.mem_iff_getElem?.mp he
  refine ⟨barCenter x f.barWidth f.engines.length k, List.mem_filterMap.mpr ⟨(e, k), ?_, ?_⟩⟩
  · exact List.mem_zipIdx_iff_getElem?.mpr hk
  · simp [hs]

/-- The bars of a panel are those of the selections of its queries. -/
theorem exists_selection_of_mem_bars {p : Panel α} (hp : p ∈ f.panels index) {g : BarGroup α}
    (hg : g ∈ p.groups) {b : Bar α} (hb : b ∈ g.bars) :
    g.query ∈ f.queriesOf p.kind ∧ ∃ e ∈ f.engines, ∃ x s,
      index[(⟨e.tag, g.query, p.scaleFactor⟩ : Group)]? = some s ∧
        b = .ofSelection e x f.barWidth p.unit (p.unit.latency f.floorMs) p.axis s := by
  rw [groups_of_mem_panels index hp] at hg
  obtain ⟨hquery, x, hbars⟩ := mem_groups index hg
  rw [hbars] at hb
  obtain ⟨k, e, s, he, hs, rfl⟩ := mem_groupBars hb
  exact ⟨hquery, e, List.mem_of_getElem? he, _, s, hs, rfl⟩

theorem exists_bar_of_selection {p : Panel α} (hp : p ∈ f.panels index) {q : String}
    (hq : q ∈ f.queriesOf p.kind) {e : EngineStyle} (he : e ∈ f.engines) {s : Selection}
    (hs : index[(⟨e.tag, q, p.scaleFactor⟩ : Group)]? = some s) :
    ∃ g ∈ p.groups, g.query = q ∧ ∃ x,
      Bar.ofSelection e x f.barWidth p.unit (p.unit.latency f.floorMs) p.axis s ∈ g.bars := by
  have hgroups := groups_of_mem_panels index hp
  have hqueries : p.groups.map (·.query) = f.queriesOf p.kind := by
    rw [hgroups, map_query_groups]
  obtain ⟨g, hg, rfl⟩ := List.mem_map.mp (hqueries.symm ▸ hq)
  obtain ⟨-, x, hbars⟩ := mem_groups index (hgroups ▸ hg)
  obtain ⟨center, hcenter⟩ := exists_mem_groupBars he hs p.unit p.axis x
  exact ⟨g, hg, rfl, center, hbars ▸ hcenter⟩

theorem exists_tear_of_axis {p : Panel α} (hp : p ∈ f.panels index) {a : BrokenAxis α}
    (ha : p.axis = some a) :
    ∃ r, f.rows[p.row]? = some r ∧ ∃ t ∈ r.tears, t.axis = .ok a := by
  obtain ⟨r, hr, -, hpanel⟩ := exists_panel_of_mem hp
  rw [hpanel] at ha
  obtain ⟨t, ht, hok⟩ := Option.bind_eq_some_iff.mp ha
  refine ⟨r, hr, t, List.mem_of_find?_eq_some ht, ?_⟩
  cases haxis : t.axis with
  | error fault => simp [haxis, Except.toOption] at hok
  | ok a' => simpa [haxis, Except.toOption] using hok

end LatencyFigure
end QueryBench
