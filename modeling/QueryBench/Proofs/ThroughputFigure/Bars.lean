import QueryBench.Proofs.Chart.Consistency
import QueryBench.Proofs.Chart.Places
import QueryBench.Proofs.Selection.Fastest
import QueryBench.ThroughputFigure.Layout

/-!
# The bars of a throughput figure

Read over the rationals, the bars of a query stand side by side in the places that their engines
have in its slot.  The bars of different queries stay apart, and all of them in the range of the
figure, exactly if a group is no wider than a slot, which a valid figure need not be.
-/

namespace QueryBench

namespace ThroughputBar

variable {α : Type} [Scalar α]

def left (b : ThroughputBar α) : α := b.x - b.width / 2

def right (b : ThroughputBar α) : α := b.x + b.width / 2

end ThroughputBar

def ThroughputLayout.bars {α : Type} (l : ThroughputLayout α) : List (ThroughputBar α) :=
  l.groups.flatMap (·.bars)

namespace ThroughputFigure

variable {f : ThroughputFigure Rat} {index : SelectionIndex} {x : Rat} {q : String}
  {b : ThroughputBar Rat}

/-- The bar of the `k`-th engine. -/
def barAt (f : ThroughputFigure Rat) (x : Rat) (k : Nat) (e : EngineStyle) (v : Rat) :
    ThroughputBar Rat :=
  ⟨e.tag, e.color, barCenter x f.barWidth f.engines.length k, f.barWidth, v⟩

/-- A bar that fills the `k`-th place of a group around `x`. -/
abbrev FillsPlace (f : ThroughputFigure Rat) (x : Rat) (k : Nat) (b : ThroughputBar Rat) : Prop :=
  StandsAt x f.groupWidth f.engines.length k b.left b.right

theorem fillsPlace_barAt {k : Nat} {e : EngineStyle} (he : f.engines[k]? = some e) (x v : Rat) :
    f.FillsPlace x k (f.barAt x k e v) :=
  standsAt_barCenter (List.getElem?_eq_some_iff.mp he).1 x f.groupWidth

def Outcome.value? {α : Type} : Outcome α → Option α
  | .value v => some v
  | _ => none

theorem bars_eq_filterMap (index : SelectionIndex) (x : Rat) (q : String) :
    f.bars index x q = f.engines.zipIdx.filterMap fun p ↦
      (f.outcome index q p.1.tag : Outcome Rat).value?.map (f.barAt x p.2 p.1) := by
  unfold bars
  congr 1
  funext ⟨e, k⟩
  dsimp only
  cases (f.outcome index q e.tag : Outcome Rat) <;> rfl

theorem exists_fillsPlace (hb : b ∈ f.bars index x q) : ∃ k, f.FillsPlace x k b := by
  rw [bars_eq_filterMap] at hb
  obtain ⟨⟨e, k⟩, he, hb⟩ := List.mem_filterMap.mp hb
  obtain ⟨v, -, rfl⟩ := Option.map_eq_some_iff.mp hb
  exact ⟨k, fillsPlace_barAt (List.mem_zipIdx_iff_getElem?.mp he) x v⟩

/-! ## One query -/

/-- The bars of one query stand in order whatever the width of a slot is. -/
theorem pairwise_bars (h : f.Consistent) :
    (f.bars index x q).Pairwise fun b c ↦ b.right ≤ c.left := by
  rw [bars_eq_filterMap]
  apply pairwise_filterMap_zipIdx h.groupWidth
  intro p b hp hb
  obtain ⟨v, -, rfl⟩ := Option.map_eq_some_iff.mp hb
  exact fillsPlace_barAt hp x v

/-! ## Queries in slots -/

theorem exists_of_mem_groups {g : ThroughputGroup Rat} (hg : g ∈ f.groups index) :
    ∃ slot < f.displayQueries.length, g.x = slotCenter f.slotSpacing slot ∧
      g.bars = f.bars index g.x g.query := by
  obtain ⟨⟨q, slot⟩, hq, rfl⟩ := List.mem_map.mp hg
  obtain ⟨hslot, -⟩ := List.getElem?_eq_some_iff.mp (List.mem_zipIdx_iff_getElem?.mp hq)
  exact ⟨slot, hslot, rfl, rfl⟩

theorem mem_range_of_mem_groups (h : f.Consistent) (hfits : f.groupWidth ≤ f.slotSpacing)
    {g : ThroughputGroup Rat} (hg : g ∈ f.groups index) (hb : b ∈ g.bars) :
    -(f.slotSpacing / 2) ≤ b.left ∧ b.right ≤ slotsEnd f.slotSpacing f.displayQueries.length := by
  obtain ⟨slot, hslot, hx, hbars⟩ := exists_of_mem_groups hg
  rw [hbars] at hb
  obtain ⟨k, hk⟩ := exists_fillsPlace hb
  obtain ⟨hleft, hright⟩ := hk.mem_group h.groupWidth
  have hfirst := slotCenter_nonneg h.slotSpacing slot
  have hlast := slotCenter_add_half_le_slotsEnd h.slotSpacing hslot
  rw [← hx] at hfirst hlast
  constructor <;> linarith

theorem pairwise_flatMap_groups (h : f.Consistent)
    (hfits : f.groupWidth ≤ f.slotSpacing ∨ f.displayQueries.length ≤ 1) :
    ((f.groups index).flatMap (·.bars)).Pairwise fun b c ↦ b.right ≤ c.left := by
  rw [groups, List.flatMap_map]
  apply pairwise_flatMap_zipIdx h.groupWidth h.slotSpacing hfits
  · exact fun _ ↦ pairwise_bars h
  · exact fun _ _ hb ↦ exists_fillsPlace hb

/-! ## Wide groups -/

/-- A trial of one millisecond for every query and engine of the figure. -/
def evenTrials (f : ThroughputFigure Rat) : List Trial :=
  f.displayQueries.flatMap fun q ↦
    f.neededEngines.map fun tag ↦ ⟨⟨tag, q, f.scaleFactor⟩, ⟨1, none, none⟩⟩

theorem execution?_evenTrials {tag : String} (hq : q ∈ f.displayQueries)
    (htag : tag ∈ f.neededEngines) :
    f.execution? (selectAll f.evenTrials) tag q = some (1 : Rat) := by
  have hmem : (⟨tag, q, f.scaleFactor⟩ : Group) ∈ selectAll f.evenTrials :=
    mem_selectAll_iff.mpr ⟨_, List.mem_flatMap.mpr ⟨q, hq, List.mem_map_of_mem htag⟩, rfl⟩
  obtain ⟨s, hs⟩ := Option.isSome_iff_exists.mp (Std.ExtTreeMap.mem_iff_isSome_getElem?.mp hmem)
  rw [execution?, hs]
  rw [getElem?_selectAll_eq] at hs
  have htrial := (List.mem_filter.mp (select_spec hs).1.mem).1
  obtain ⟨q', -, htrial⟩ := List.mem_flatMap.mp htrial
  obtain ⟨tag', -, heq⟩ := List.mem_map.mp htrial
  have hone : (Timing.executionMs ⟨1, none, none⟩ : Rat) = 1 := by decide +kernel
  rw [Option.map_some, ← heq, hone]

theorem outcome_evenTrials {e : EngineStyle} (hq : q ∈ f.displayQueries) (he : e ∈ f.engines) :
    f.outcome (selectAll f.evenTrials) q e.tag = .value (1 : Rat) := by
  have htag : e.tag ∈ f.engineTags := List.mem_map_of_mem he
  have hengine : e.tag ∈ f.neededEngines := by
    unfold neededEngines
    split
    · exact htag
    · exact List.mem_append_left _ htag
  have hbaseline : f.baseline ∈ f.neededEngines := by
    unfold neededEngines
    split
    · assumption
    · exact List.mem_append_right _ List.mem_cons_self
  have hpositive : ¬ (1 : Rat) ≤ 0 := by decide
  rw [outcome, execution?_evenTrials hq hengine, execution?_evenTrials hq hbaseline]
  dsimp only
  rw [if_neg hpositive, if_neg hpositive]
  exact congrArg Outcome.value (div_one 1)

/-- Where everything was measured, every place has its bar. -/
theorem exists_fillsPlace_evenTrials (hq : q ∈ f.displayQueries) (x : Rat) {k : Nat}
    (hk : k < f.engines.length) :
    ∃ b ∈ f.bars (selectAll f.evenTrials) x q, f.FillsPlace x k b := by
  have he : f.engines[k]? = some f.engines[k] := List.getElem?_eq_getElem hk
  refine ⟨f.barAt x k f.engines[k] 1, ?_, fillsPlace_barAt he x 1⟩
  rw [bars_eq_filterMap, List.mem_filterMap]
  refine ⟨(f.engines[k], k), List.mem_zipIdx_iff_getElem?.mpr he, ?_⟩
  rw [outcome_evenTrials hq (List.getElem_mem hk)]
  rfl

theorem groupWidth_le_of_mem_range (h : f.Consistent)
    (hrange : ∀ b ∈ (f.groups (selectAll f.evenTrials)).flatMap (·.bars),
      -(f.slotSpacing / 2) ≤ b.left) : f.groupWidth ≤ f.slotSpacing := by
  obtain ⟨q, rest, hqueries⟩ := List.exists_cons_of_ne_nil h.queries
  have hq : q ∈ f.displayQueries := hqueries ▸ List.mem_cons_self
  obtain ⟨b, hb, hplace⟩ := exists_fillsPlace_evenTrials hq (slotCenter f.slotSpacing 0)
    (List.length_pos_iff.mpr h.engines)
  have hmem : b ∈ (f.groups (selectAll f.evenTrials)).flatMap (·.bars) := by
    rw [groups, hqueries, List.zipIdx_cons, List.map_cons, List.flatMap_cons]
    exact List.mem_append_left _ hb
  have hleft := hrange b hmem
  rw [hplace.left_eq, placeStart, slotCenter_eq, Nat.cast_zero] at hleft
  linarith

/-- In a group that is wider than a slot, some bar reaches into the first of the next slot. -/
theorem groupWidth_le_of_pairwise (h : f.Consistent) (htwo : ¬ f.displayQueries.length ≤ 1)
    (hapart : ((f.groups (selectAll f.evenTrials)).flatMap (·.bars)).Pairwise
      fun b c ↦ b.right ≤ c.left ∨ c.right ≤ b.left) : f.groupWidth ≤ f.slotSpacing := by
  have hcount := List.length_pos_iff.mpr h.engines
  obtain ⟨q, q', rest, hqueries⟩ : ∃ q q' rest, f.displayQueries = q :: q' :: rest := by
    match hqueries : f.displayQueries with
    | [] => exact absurd hqueries h.queries
    | [q] => exact absurd (by rw [hqueries]; rfl) htwo
    | q :: q' :: rest => exact ⟨q, q', rest, rfl⟩
  have hq : q ∈ f.displayQueries := by simp [hqueries]
  have hq' : q' ∈ f.displayQueries := by simp [hqueries]
  by_contra hwide
  obtain ⟨c, hc, hfirst⟩ :=
    exists_fillsPlace_evenTrials hq' (slotCenter f.slotSpacing 1) hcount
  have hcenter : slotCenter f.slotSpacing 0 = 0 := by rw [slotCenter_eq, Nat.cast_zero, zero_mul]
  have hstart : c.left = f.slotSpacing - f.groupWidth / 2 := by
    rw [hfirst.left_eq, placeStart, slotCenter_eq, Nat.cast_zero, Nat.cast_one]
    linarith
  have hspacing := h.slotSpacing
  have hwide := not_le.mp hwide
  have hlow : slotCenter f.slotSpacing 0 - f.groupWidth / 2 ≤ c.left := by linarith
  have hhigh : c.left < slotCenter f.slotSpacing 0 + f.groupWidth / 2 := by linarith
  obtain ⟨k, hk, hle, hlt⟩ := exists_placeStart_le_lt hcount hlow hhigh
  obtain ⟨b, hb, hplace⟩ := exists_fillsPlace_evenTrials hq (slotCenter f.slotSpacing 0) hk
  rw [← hplace.left_eq] at hle
  rw [← hplace.right_eq] at hlt
  have hpair : b.right ≤ c.left ∨ c.right ≤ b.left := by
    rw [groups, hqueries, List.zipIdx_cons, List.zipIdx_cons, List.map_cons, List.map_cons,
      List.flatMap_cons, List.flatMap_cons] at hapart
    exact (List.pairwise_append.mp hapart).2.2 b hb c (List.mem_append_left _ hc)
  have hpositive := hfirst.left_lt_right h.groupWidth
  rcases hpair with hright | hright <;> linarith

/-- The bars of one query never overlap in a valid figure.  Those of all queries stay in the range
of the figure exactly if a group is no wider than a slot, and apart from each other exactly if it
is or there is only one query. -/
theorem bars_stay_apart_iff (hvalid : f.fault? = none) :
    (∀ index, ∃ l, f.layout index = .ok l ∧
      ∀ g ∈ l.groups, g.bars.Pairwise fun b c ↦ b.right ≤ c.left) ∧
    ((∀ index l, f.layout index = .ok l →
        ∀ b ∈ l.bars, l.xLow ≤ b.left ∧ b.right ≤ l.xHigh) ↔
      f.groupWidth ≤ f.slotSpacing) ∧
    ((∀ index l, f.layout index = .ok l →
        l.bars.Pairwise fun b c ↦ b.right ≤ c.left ∨ c.right ≤ b.left) ↔
      f.groupWidth ≤ f.slotSpacing ∨ f.displayQueries.length ≤ 1) := by
  have h := consistent_of_fault? hvalid
  have hslots : ∀ index, (f.groups index).length = f.displayQueries.length := by
    intro index
    rw [groups, List.length_map, List.length_zipIdx]
  simp only [layout, hvalid, Except.ok.injEq, exists_eq_left', forall_eq', hslots]
  refine ⟨?_, ⟨?_, ?_⟩, ⟨?_, ?_⟩⟩
  · intro index g hg
    obtain ⟨slot, -, -, hbars⟩ := exists_of_mem_groups hg
    rw [hbars]
    exact pairwise_bars h
  · exact fun hrange ↦ groupWidth_le_of_mem_range h fun b hb ↦ (hrange _ b hb).1
  · intro hfits index b hb
    obtain ⟨g, hg, hb⟩ := List.mem_flatMap.mp hb
    exact mem_range_of_mem_groups h hfits hg hb
  · intro hapart
    by_contra hneither
    obtain ⟨hwide, htwo⟩ := not_or.mp hneither
    exact hwide (groupWidth_le_of_pairwise h htwo (hapart _))
  · exact fun hfits index ↦ (pairwise_flatMap_groups h hfits).imp .inl

/-- A figure whose groups are three slots wide. -/
def wideFigure : ThroughputFigure Rat :=
  { engineFigure with slotSpacing := 1, groupWidth := 3 }

theorem wideFigure_bars_collide :
    wideFigure.fault? = none ∧
    (∃ index l, wideFigure.layout index = .ok l ∧
      ∃ b ∈ l.bars, ¬ (l.xLow ≤ b.left ∧ b.right ≤ l.xHigh)) ∧
    ∃ index l, wideFigure.layout index = .ok l ∧
      ¬ l.bars.Pairwise fun b c ↦ b.right ≤ c.left ∨ c.right ≤ b.left := by
  have hvalid : wideFigure.fault? = none := by decide +kernel
  have hwide : ¬ wideFigure.groupWidth ≤ wideFigure.slotSpacing := by decide +kernel
  have hqueries : ¬ wideFigure.displayQueries.length ≤ 1 := by decide +kernel
  obtain ⟨-, hrange, hapart⟩ := bars_stay_apart_iff hvalid
  refine ⟨hvalid, ?_, ?_⟩
  · have hcollide := hrange.not.mpr hwide
    push Not at hcollide
    obtain ⟨index, l, hl, b, hb, hout⟩ := hcollide
    exact ⟨index, l, hl, b, hb, fun hin ↦ absurd hin.2 (not_le.mpr (hout hin.1))⟩
  · have hcollide := hapart.not.mpr (not_or.mpr ⟨hwide, hqueries⟩)
    simpa only [not_forall, exists_prop] using hcollide

end ThroughputFigure
end QueryBench
