import QueryBench.Proofs.Chart.BrokenAxis
import QueryBench.Proofs.Chart.Places
import QueryBench.Proofs.LatencyFigure.Grid
import QueryBench.Proofs.LatencyFigure.Panels

/-!
# The bars of a latency figure

Read over the rationals, the bars of a panel stand side by side in the places that their engines
have in a slot, and are drawn from the bottom of the axis to no more than its top.
-/

namespace QueryBench

namespace Bar

variable {α : Type} [Scalar α]

def left (b : Bar α) : α := b.x - b.width / 2

def right (b : Bar α) : α := b.x + b.width / 2

end Bar

namespace DisplayUnit

theorem latency_nonneg {ms : Rat} (h : 0 ≤ ms) (u : DisplayUnit) : 0 ≤ u.latency ms := by
  cases u with
  | milliseconds => exact h
  | seconds => exact div_nonneg h (by decide)

theorem stall_nonneg (us : UInt64) (u : DisplayUnit) : (0 : Rat) ≤ u.stall us := by
  have hus : (0 : Rat) ≤ (us.toNat : Rat) := Nat.cast_nonneg _
  cases u with
  | milliseconds => exact div_nonneg hus (by decide)
  | seconds => exact div_nonneg hus (by decide)

end DisplayUnit

namespace LatencyFigure

/-- Where the bars of a panel stand. -/
structure BarsStand (f : LatencyFigure Rat) (index : SelectionIndex) (p : Panel Rat) : Prop where
  queries : p.groups.map (·.query) = f.queriesOf p.kind
  centered : ∀ (slot : Nat) g, p.groups[slot]? = some g → g.x = slot * f.slotSpacing
  wide : ∀ b ∈ p.bars, b.left < b.right
  inRange : ∀ b ∈ p.bars, p.xLow ≤ b.left ∧ b.right ≤ p.xHigh
  inSlot : ∀ g ∈ p.groups, ∀ b ∈ g.bars,
    g.x - f.slotSpacing / 2 ≤ b.left ∧ b.right ≤ g.x + f.slotSpacing / 2
  inOrder : p.bars.Pairwise fun b c ↦ b.right ≤ c.left
  engines : ∀ g ∈ p.groups, g.bars.map (·.engine) =
    f.engineTags.filter fun tag ↦ (⟨tag, g.query, p.scaleFactor⟩ : Group) ∈ index
  inPlace : ∀ g ∈ p.groups, ∀ b ∈ g.bars, ∃ k, f.engineTags[k]? = some b.engine ∧
    b.left = placeStart g.x f.groupWidth f.engines.length k ∧
      b.right = placeStart g.x f.groupWidth f.engines.length (k + 1)
  empty : ∀ g ∈ p.groups, ∀ k tag, f.engineTags[k]? = some tag →
    (⟨tag, g.query, p.scaleFactor⟩ : Group) ∉ index → ∀ b ∈ p.bars,
      b.right ≤ placeStart g.x f.groupWidth f.engines.length k ∨
        placeStart g.x f.groupWidth f.engines.length (k + 1) ≤ b.left

/-- How the bars of a panel are drawn. -/
structure BarsDrawn (f : LatencyFigure Rat) (index : SelectionIndex) (p : Panel Rat) : Prop where
  measured : ∀ g ∈ p.groups, ∀ b ∈ g.bars, ∃ s : Selection,
    index[(⟨b.engine, g.query, p.scaleFactor⟩ : Group)]? = some s ∧
      b.value = p.unit.latency (s.latencyMs.toNat : Rat) ∧
        b.stall = (s.stallUs.map p.unit.stall).getD 0
  drawn : ∀ b ∈ p.bars, b.drawn = max b.value (p.unit.latency f.floorMs)
  segments : ∀ b ∈ p.bars, b.segments =
      [⟨0, min b.stall b.drawn, true⟩, ⟨min b.stall b.drawn, b.drawn, false⟩] ∧
    0 ≤ min b.stall b.drawn ∧ min b.stall b.drawn ≤ b.drawn
  projected : ∀ b ∈ p.bars, ∀ s ∈ b.segments, 0 ≤ p.project s.bottom ∧
    p.project s.bottom ≤ p.project s.top ∧ p.project s.top ≤ p.yTop
  overflow : ∀ b ∈ p.bars, b.overflow = true ↔
    ∃ axis, p.axis = some axis ∧ axis.max < b.drawn

section Groups

variable {f : LatencyFigure Rat} {index : SelectionIndex} {sf : ScaleFactor} {unit : DisplayUnit}
  {axis : Option (BrokenAxis Rat)} {x : Rat} {query : String} {queries : List String} {b : Bar Rat}

/-- A bar that fills the place of its engine in a group around `x`. -/
structure FillsPlace (f : LatencyFigure Rat) (x : Rat) (k : Nat) (b : Bar Rat) : Prop extends
    StandsAt x f.groupWidth f.engines.length k b.left b.right where
  engine_eq : f.engineTags[k]? = some b.engine

theorem exists_fillsPlace (hb : b ∈ f.groupBars index sf unit axis x query) :
    ∃ k, f.FillsPlace x k b ∧ (⟨b.engine, query, sf⟩ : Group) ∈ index := by
  obtain ⟨k, e, s, he, hs, rfl⟩ := mem_groupBars hb
  have hk := (List.getElem?_eq_some_iff.mp he).1
  refine ⟨k, ⟨standsAt_barCenter hk x f.groupWidth, ?_⟩, ?_⟩
  · rw [engineTags, List.getElem?_map, he]
    rfl
  · apply Std.ExtTreeMap.mem_iff_isSome_getElem?.mpr
    exact Option.isSome_of_eq_some hs

theorem FillsPlace.mem_slot (h : f.Consistent) {k : Nat} (hb : f.FillsPlace x k b) :
    x - f.slotSpacing / 2 ≤ b.left ∧ b.right ≤ x + f.slotSpacing / 2 := by
  have hfits : f.groupWidth ≤ f.slotSpacing := not_lt.mp h.groupFits
  obtain ⟨hleft, hright⟩ := hb.mem_group h.groupWidth
  constructor <;> linarith

theorem pairwise_groupBars (h : f.Consistent) :
    (f.groupBars index sf unit axis x query).Pairwise fun b c ↦ b.right ≤ c.left := by
  apply pairwise_filterMap_zipIdx h.groupWidth
  intro p b hp hb
  obtain ⟨s, -, rfl⟩ := Option.map_eq_some_iff.mp hb
  exact standsAt_barCenter (List.getElem?_eq_some_iff.mp hp).1 x f.groupWidth

/-- What is read off the bars of a group, where it depends on the engine and its selection. -/
theorem map_groupBars {β : Type} (read : Bar Rat → β) (part : EngineStyle → Selection → β)
    (hpart : ∀ e center s, read (.ofSelection e center f.barWidth unit (unit.latency f.floorMs)
      axis s) = part e s) :
    (f.groupBars index sf unit axis x query).map read =
      f.engines.filterMap fun e ↦ (index[(⟨e.tag, query, sf⟩ : Group)]?).map (part e) := by
  have hfst : ∀ g : EngineStyle → Option β,
      (f.engines.zipIdx.filterMap fun p ↦ g p.1) = f.engines.filterMap g := by
    intro g
    rw [← List.zipIdx_map_fst 0 f.engines, List.filterMap_map, List.zipIdx_map_fst]
    rfl
  rw [groupBars, List.map_filterMap, ← hfst]
  simp only [Option.map_map, Function.comp_def, hpart]

theorem map_engine_groupBars :
    (f.groupBars index sf unit axis x query).map (·.engine) =
      f.engineTags.filter fun tag ↦ (⟨tag, query, sf⟩ : Group) ∈ index := by
  rw [map_groupBars (·.engine) (fun e _ ↦ e.tag) fun _ _ _ ↦ rfl, engineTags, List.filter_map,
    ← List.filterMap_eq_map, List.filterMap_filter]
  congr 1
  funext e
  by_cases hmem : (⟨e.tag, query, sf⟩ : Group) ∈ index <;> simp [hmem]

theorem map_values_groups :
    (f.groups index sf unit axis queries).map (fun g ↦ g.bars.map (·.value)) =
      queries.map fun q ↦ f.engines.filterMap fun e ↦
        (index[(⟨e.tag, q, sf⟩ : Group)]?).map fun s ↦ unit.latency (s.latencyMs.toNat : Rat) := by
  rw [groups, List.map_map, ← List.zipIdx_map_fst 0 queries, List.map_map, List.zipIdx_map_fst]
  congr 1
  funext p
  exact map_groupBars (·.value) (fun _ s ↦ unit.latency (s.latencyMs.toNat : Rat)) fun _ _ _ ↦ rfl

theorem pairwise_bars (h : f.Consistent) :
    ((f.groups index sf unit axis queries).flatMap (·.bars)).Pairwise
      fun b c ↦ b.right ≤ c.left := by
  rw [groups, List.flatMap_map]
  apply pairwise_flatMap_zipIdx h.groupWidth h.slotSpacing (.inl (not_lt.mp h.groupFits))
  · exact fun _ ↦ pairwise_groupBars h
  · intro p b hb
    obtain ⟨k, hk, -⟩ := exists_fillsPlace hb
    exact ⟨k, hk.toStandsAt⟩

theorem group_of_getElem? {slot : Nat} {g : BarGroup Rat}
    (hg : (f.groups index sf unit axis queries)[slot]? = some g) :
    g.x = slotCenter f.slotSpacing slot ∧
      g.bars = f.groupBars index sf unit axis g.x g.query := by
  rw [groups, List.getElem?_map, List.getElem?_zipIdx, Nat.zero_add] at hg
  obtain ⟨p, hp, rfl⟩ := Option.map_eq_some_iff.mp hg
  obtain ⟨query, -, rfl⟩ := Option.map_eq_some_iff.mp hp
  exact ⟨rfl, rfl⟩

end Groups

/-! ## Heights -/

section Heights

variable (e : EngineStyle) (x width : Rat) (unit : DisplayUnit) (floor : Rat)
  (axis : Option (BrokenAxis Rat)) (s : Selection)

theorem drawn_ofSelection :
    (Bar.ofSelection e x width unit floor axis s).drawn =
      max (Bar.ofSelection e x width unit floor axis s).value floor :=
  Scalar.larger_eq_max _ _

theorem segments_ofSelection :
    let b := Bar.ofSelection e x width unit floor axis s
    b.segments = [⟨0, min b.stall b.drawn, true⟩, ⟨min b.stall b.drawn, b.drawn, false⟩] := by
  intro b
  rw [← Scalar.smaller_eq_min]
  rfl

theorem stall_ofSelection_nonneg : 0 ≤ (Bar.ofSelection e x width unit floor axis s).stall := by
  rw [(value_and_stall_ofSelection e x width floor unit axis s).2]
  cases s.trial.reading.stallUs with
  | none => exact le_refl 0
  | some us => exact unit.stall_nonneg us

theorem overflow_ofSelection :
    (Bar.ofSelection e x width unit floor axis s).overflow = true ↔
      ∃ a, axis = some a ∧ a.max < (Bar.ofSelection e x width unit floor axis s).drawn := by
  cases axis with
  | none => simp [Bar.ofSelection]
  | some a => simp [Bar.ofSelection, BrokenAxis.clips]

end Heights

/-! ## Panels -/

/-- What the bars of a panel are drawn on. -/
structure IsPanelOf (f : LatencyFigure Rat) (index : SelectionIndex) (p : Panel Rat) : Prop where
  groups_eq : p.groups = f.groups index p.scaleFactor p.unit p.axis (f.queriesOf p.kind)
  xLow_eq : p.xLow = -(f.slotSpacing / 2)
  xHigh_eq : p.xHigh = slotsEnd f.slotSpacing p.groups.length
  axis_ordered : ∀ a, p.axis = some a → a.IsOrdered
  yMax_nonneg : p.axis = none → 0 ≤ p.yMax

theorem le_tallest (floor : Rat) (groups : List (BarGroup Rat)) : floor ≤ tallest floor groups := by
  unfold tallest
  generalize groups.flatMap (·.bars) = bars
  induction bars generalizing floor with
  | nil => exact le_refl floor
  | cons b rest ih =>
      rw [List.foldl_cons, Scalar.larger_eq_max]
      exact (le_max_left floor b.drawn).trans (ih _)

section Panels

variable {f : LatencyFigure Rat} {index : SelectionIndex} {p : Panel Rat}

theorem isPanelOf_panel (h : f.Consistent) (row : Nat) (r : PanelRow Rat) (column : Nat)
    (kind : PanelKind) (sf : ScaleFactor) (unit : DisplayUnit) :
    f.IsPanelOf index (f.panel index row r column kind sf unit (f.queriesOf kind)) := by
  refine ⟨rfl, rfl, rfl, ?_, ?_⟩
  · intro a ha
    obtain ⟨t, -, ht⟩ := Option.bind_eq_some_iff.mp ha
    cases haxis : t.axis with
    | error fault => rw [haxis] at ht; cases ht
    | ok a' =>
        rw [haxis] at ht
        cases ht
        exact BrokenAxis.isOrdered_of_ofBounds haxis
  · intro hnone
    have hfloor : 0 ≤ unit.latency f.floorMs := unit.latency_nonneg h.floor
    unfold panel at hnone ⊢
    dsimp only at hnone ⊢
    rw [hnone]
    exact mul_nonneg (hfloor.trans (le_tallest _ _)) (by decide +kernel)

theorem isPanelOf_of_mem (h : f.Consistent) (hp : p ∈ f.panels index) : f.IsPanelOf index p := by
  obtain ⟨r, -, -, hpanel⟩ := exists_panel_of_mem hp
  rw [hpanel]
  exact isPanelOf_panel h _ r _ _ _ _

theorem project_nonneg (hpanel : f.IsPanelOf index p) {v : Rat} (hv : 0 ≤ v) :
    0 ≤ p.project v := by
  unfold Panel.project
  cases haxis : p.axis with
  | none =>
      rw [Scalar.smaller_eq_min]
      exact le_min hv (hpanel.yMax_nonneg haxis)
  | some a => exact BrokenAxis.project_nonneg (hpanel.axis_ordered a haxis) hv

theorem project_le_project (hpanel : f.IsPanelOf index p) {v w : Rat} (hvw : v ≤ w) :
    p.project v ≤ p.project w := by
  unfold Panel.project
  cases haxis : p.axis with
  | none =>
      rw [Scalar.smaller_eq_min, Scalar.smaller_eq_min]
      exact min_le_min_right p.yMax hvw
  | some a => exact BrokenAxis.project_le_project (hpanel.axis_ordered a haxis) hvw

theorem project_le_yTop (hpanel : f.IsPanelOf index p) (v : Rat) : p.project v ≤ p.yTop := by
  unfold Panel.project Panel.yTop
  cases haxis : p.axis with
  | none =>
      rw [Scalar.smaller_eq_min]
      exact min_le_right v p.yMax
  | some a => exact BrokenAxis.project_le_top (hpanel.axis_ordered a haxis) v

theorem group_of_mem_panel (hpanel : f.IsPanelOf index p) {slot : Nat} {g : BarGroup Rat}
    (hg : p.groups[slot]? = some g) :
    g.x = slotCenter f.slotSpacing slot ∧
      g.bars = f.groupBars index p.scaleFactor p.unit p.axis g.x g.query := by
  rw [hpanel.groups_eq] at hg
  exact group_of_getElem? hg

theorem bars_of_mem_groups (hpanel : f.IsPanelOf index p) {g : BarGroup Rat}
    (hg : g ∈ p.groups) :
    g.bars = f.groupBars index p.scaleFactor p.unit p.axis g.x g.query := by
  obtain ⟨slot, hslot⟩ := List.mem_iff_getElem?.mp hg
  exact (group_of_mem_panel hpanel hslot).2

/-! ## Extents -/

theorem exists_fillsPlace_of_mem_bars (hpanel : f.IsPanelOf index p) {b : Bar Rat}
    (hb : b ∈ p.bars) :
    ∃ (slot : Nat) (g : BarGroup Rat) (k : Nat), p.groups[slot]? = some g ∧
      f.FillsPlace (slotCenter f.slotSpacing slot) k b ∧
        (⟨b.engine, g.query, p.scaleFactor⟩ : Group) ∈ index := by
  obtain ⟨g, hg, hb⟩ := List.mem_flatMap.mp hb
  obtain ⟨slot, hslot⟩ := List.mem_iff_getElem?.mp hg
  obtain ⟨hx, hbars⟩ := group_of_mem_panel hpanel hslot
  rw [hbars, hx] at hb
  obtain ⟨k, hk, hindex⟩ := exists_fillsPlace hb
  exact ⟨slot, g, k, hslot, hk, hindex⟩

theorem mem_range_of_mem_bars (h : f.Consistent) (hpanel : f.IsPanelOf index p) {b : Bar Rat}
    (hb : b ∈ p.bars) : p.xLow ≤ b.left ∧ b.right ≤ p.xHigh := by
  obtain ⟨slot, g, k, hg, hk, -⟩ := exists_fillsPlace_of_mem_bars hpanel hb
  obtain ⟨hslot, -⟩ := List.getElem?_eq_some_iff.mp hg
  obtain ⟨hleft, hright⟩ := hk.mem_slot h
  have hfirst := slotCenter_nonneg h.slotSpacing slot
  have hlast := slotCenter_add_half_le_slotsEnd h.slotSpacing hslot
  rw [hpanel.xLow_eq, hpanel.xHigh_eq]
  constructor <;> linarith

/-- No bar reaches into the place of an engine that has no selection. -/
theorem place_empty (h : f.Consistent) (hpanel : f.IsPanelOf index p) {g : BarGroup Rat}
    (hg : g ∈ p.groups) {k : Nat} {tag : String} (htag : f.engineTags[k]? = some tag)
    (hmissing : (⟨tag, g.query, p.scaleFactor⟩ : Group) ∉ index) {b : Bar Rat}
    (hb : b ∈ p.bars) :
    b.right ≤ placeStart g.x f.groupWidth f.engines.length k ∨
      placeStart g.x f.groupWidth f.engines.length (k + 1) ≤ b.left := by
  have hfits := not_lt.mp h.groupFits
  have hk : k < f.engines.length := by
    obtain ⟨hlt, -⟩ := List.getElem?_eq_some_iff.mp htag
    rwa [engineTags, List.length_map] at hlt
  obtain ⟨slot, hslot⟩ := List.mem_iff_getElem?.mp hg
  obtain ⟨slot', g', k', hslot', hk', hindex⟩ := exists_fillsPlace_of_mem_bars hpanel hb
  rw [(group_of_mem_panel hpanel hslot).1, hk'.left_eq, hk'.right_eq]
  -- Places are ordered by slot and engine; at the place itself a bar would show a selection.
  have hplaces : (slot' < slot ∨ slot' = slot ∧ k' < k) ∨ (slot' = slot ∧ k' = k) ∨
      (slot < slot' ∨ slot = slot' ∧ k < k') := by
    omega
  rcases hplaces with hlt | ⟨rfl, rfl⟩ | hgt
  · exact .inl (placeStart_succ_le h.groupWidth h.slotSpacing hfits hk'.place_lt hlt)
  · obtain rfl : g' = g := Option.some.inj (hslot'.symm.trans hslot)
    obtain rfl : tag = b.engine := Option.some.inj (htag.symm.trans hk'.engine_eq)
    exact absurd hindex hmissing
  · exact .inr (placeStart_succ_le h.groupWidth h.slotSpacing hfits hk hgt)

theorem barsStand_of_isPanelOf (h : f.Consistent) (hpanel : f.IsPanelOf index p) :
    f.BarsStand index p := by
  constructor
  case queries => rw [hpanel.groups_eq, map_query_groups]
  case centered => exact fun slot g hg ↦ (group_of_mem_panel hpanel hg).1
  case wide =>
    intro b hb
    obtain ⟨slot, g, k, -, hk, -⟩ := exists_fillsPlace_of_mem_bars hpanel hb
    exact hk.left_lt_right h.groupWidth
  case inRange => exact fun b hb ↦ mem_range_of_mem_bars h hpanel hb
  case inSlot =>
    intro g hg b hb
    rw [bars_of_mem_groups hpanel hg] at hb
    obtain ⟨k, hk, -⟩ := exists_fillsPlace hb
    exact hk.mem_slot h
  case inOrder =>
    unfold Panel.bars
    rw [hpanel.groups_eq]
    exact pairwise_bars h
  case engines =>
    intro g hg
    rw [bars_of_mem_groups hpanel hg]
    exact map_engine_groupBars
  case inPlace =>
    intro g hg b hb
    rw [bars_of_mem_groups hpanel hg] at hb
    obtain ⟨k, hk, -⟩ := exists_fillsPlace hb
    exact ⟨k, hk.engine_eq, hk.left_eq, hk.right_eq⟩
  case empty => exact fun g hg k tag htag hmissing b hb ↦ place_empty h hpanel hg htag hmissing hb

/-! ## Segments -/

theorem exists_ofSelection_of_mem_bars (hpanel : f.IsPanelOf index p) {b : Bar Rat}
    (hb : b ∈ p.bars) :
    ∃ e x s, b = .ofSelection e x f.barWidth p.unit (p.unit.latency f.floorMs) p.axis s := by
  obtain ⟨g, hg, hb⟩ := List.mem_flatMap.mp hb
  rw [bars_of_mem_groups hpanel hg] at hb
  obtain ⟨k, e, s, -, -, heq⟩ := mem_groupBars hb
  exact ⟨e, _, s, heq⟩

theorem segments_of_mem_bars (h : f.Consistent) (hpanel : f.IsPanelOf index p) {b : Bar Rat}
    (hb : b ∈ p.bars) :
    b.segments = [⟨0, min b.stall b.drawn, true⟩, ⟨min b.stall b.drawn, b.drawn, false⟩] ∧
      0 ≤ min b.stall b.drawn ∧ min b.stall b.drawn ≤ b.drawn := by
  obtain ⟨e, x, s, rfl⟩ := exists_ofSelection_of_mem_bars hpanel hb
  refine ⟨segments_ofSelection .., ?_, min_le_right _ _⟩
  apply le_min
  · exact stall_ofSelection_nonneg ..
  · rw [drawn_ofSelection]
    exact (p.unit.latency_nonneg h.floor).trans (le_max_right _ _)

theorem segment_bounds (h : f.Consistent) (hpanel : f.IsPanelOf index p) {b : Bar Rat}
    (hb : b ∈ p.bars) {s : Segment Rat} (hs : s ∈ b.segments) :
    0 ≤ s.bottom ∧ s.bottom ≤ s.top := by
  obtain ⟨hsegments, hnonneg, hle⟩ := segments_of_mem_bars h hpanel hb
  rw [hsegments] at hs
  simp only [List.mem_cons, List.not_mem_nil, or_false] at hs
  rcases hs with rfl | rfl
  · exact ⟨le_refl 0, hnonneg⟩
  · exact ⟨hnonneg, hle⟩

theorem barsDrawn_of_isPanelOf (h : f.Consistent) (hpanel : f.IsPanelOf index p) :
    f.BarsDrawn index p := by
  constructor
  case measured =>
    intro g hg b hb
    rw [bars_of_mem_groups hpanel hg] at hb
    obtain ⟨k, e, s, -, hs, rfl⟩ := mem_groupBars hb
    obtain ⟨hvalue, hstall⟩ := value_and_stall_ofSelection e
      (barCenter g.x f.barWidth f.engines.length k) f.barWidth (p.unit.latency f.floorMs)
      p.unit p.axis s
    exact ⟨s, hs, hvalue, hstall⟩
  case drawn =>
    intro b hb
    obtain ⟨e, x, s, rfl⟩ := exists_ofSelection_of_mem_bars hpanel hb
    exact drawn_ofSelection ..
  case segments => exact fun b hb ↦ segments_of_mem_bars h hpanel hb
  case projected =>
    intro b hb s hs
    obtain ⟨hbottom, htop⟩ := segment_bounds h hpanel hb hs
    exact ⟨project_nonneg hpanel hbottom, project_le_project hpanel htop,
      project_le_yTop hpanel s.top⟩
  case overflow =>
    intro b hb
    obtain ⟨e, x, s, rfl⟩ := exists_ofSelection_of_mem_bars hpanel hb
    exact overflow_ofSelection ..

end Panels

/-! ## The floor -/

/-- The values of all bars, group by group. -/
def values (panels : List (Panel Rat)) : List (List (List Rat)) :=
  panels.map fun p ↦ p.groups.map fun g ↦ g.bars.map (·.value)

variable {f : LatencyFigure Rat}

theorem fault?_with_floor (hvalid : f.fault? = none) {floor : Rat} (hfloor : 0 ≤ floor) :
    { f with floorMs := floor }.fault? = none := by
  simp only [fault?, List.findSome?_eq_none_iff, List.forall_mem_cons, id_eq] at hvalid ⊢
  obtain ⟨h₁, h₂, h₃, h₄, h₅, h₆, h₇, h₈, h₉, h₁₀, h₁₁, -, hrest⟩ := hvalid
  exact ⟨h₁, h₂, h₃, h₄, h₅, h₆, h₇, h₈, h₉, h₁₀, h₁₁,
    faultIf_eq_none_iff.mpr (not_not_intro hfloor), hrest⟩

theorem values_with_floor (floor : Rat) (index : SelectionIndex) :
    values ({ f with floorMs := floor }.panels index) = values (f.panels index) := by
  simp only [values, panels, scaleFactorPanels, panel, List.map_flatMap, List.map_cons,
    List.map_map, Function.comp_def, map_values_groups]
  rfl

/-- Every bar stands in its engine's place in a slot of its own, apart from the others, and is
drawn as two segments from zero to its height within the axis.  The floor of the figure changes
that height and no value. -/
theorem layout_bars_fit (hvalid : f.fault? = none) (index : SelectionIndex) :
    ∃ l, f.layout index = .ok l ∧ (∀ p ∈ l.panels, f.BarsStand index p ∧ f.BarsDrawn index p) ∧
      ∀ floor : Rat, 0 ≤ floor → ∃ l', { f with floorMs := floor }.layout index = .ok l' ∧
        values l'.panels = values l.panels := by
  have h := consistent_of_fault? hvalid
  obtain ⟨l, hl, hpanels, -⟩ := exists_layout hvalid index
  refine ⟨l, hl, ?_, ?_⟩
  · intro p hp
    rw [hpanels] at hp
    have hpanel := isPanelOf_of_mem h hp
    exact ⟨barsStand_of_isPanelOf h hpanel, barsDrawn_of_isPanelOf h hpanel⟩
  · intro floor hfloor
    obtain ⟨l', hl', hpanels', -⟩ := exists_layout (fault?_with_floor hvalid hfloor) index
    refine ⟨l', hl', ?_⟩
    rw [hpanels', hpanels, values_with_floor]

theorem splitFigure_bars_fit :
    (splitFigure : LatencyFigure Rat).fault? = none ∧
    ∃ l l', (splitFigure : LatencyFigure Rat).layout (selectAll crowdedTrials) = .ok l ∧
      (∀ p ∈ l.panels, splitFigure.BarsStand (selectAll crowdedTrials) p ∧
        splitFigure.BarsDrawn (selectAll crowdedTrials) p) ∧
      { (splitFigure : LatencyFigure Rat) with floorMs := 0 }.layout (selectAll crowdedTrials) =
        .ok l' ∧ values l'.panels = values l.panels := by
  have hvalid : (splitFigure : LatencyFigure Rat).fault? = none := by decide +kernel
  obtain ⟨l, hl, hfit, hfloor⟩ := layout_bars_fit hvalid (selectAll crowdedTrials)
  obtain ⟨l', hl', hvalues⟩ := hfloor 0 (le_refl 0)
  exact ⟨hvalid, l, l', hl, hfit, hl', hvalues⟩

end LatencyFigure
end QueryBench
