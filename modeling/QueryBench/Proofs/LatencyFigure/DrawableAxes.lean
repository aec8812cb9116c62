import QueryBench.Proofs.Arithmetic.Order
import QueryBench.Proofs.Decimal.Nearest
import QueryBench.Proofs.LatencyFigure.Panels

/-!
# Axes that can be drawn

A panel is drawn in the ranges of its two axes.  In binary64 arithmetic a valid figure can still
give it an empty one: a single slot has no width where the spacing is infinite or halves to zero,
and an axis that is not broken has no height where the floor is zero and no latency is above it.
-/

namespace QueryBench

/-! ## Literals -/

namespace Binary64

theorem holds_natCast (n : ℕ) : Holds (Scalar.ofNat n) .positive (rounded n) := by
  rcases n.eq_zero_or_pos with rfl | hn
  · rw [Nat.cast_zero, rounded_zero]
    exact ⟨fun _ ↦ unpack_zero ▸ .zero .positive, fun hle ↦ absurd limit_pos hle.not_gt⟩
  · have hholds : Holds (Float.ofScientific n false 0) .positive (rounded n) := by
      simpa using Decimal.holds_ofScientific hn (e := 0) (by omega) (by omega)
    exact hholds

theorem holds_natCast_of_lt {n : ℕ} (hn : n < 2 ^ 53) : Holds (Scalar.ofNat n) .positive n :=
  rounded_natCast hn ▸ holds_natCast n

theorem one_le_rounded {q : ℚ} (h : 1 ≤ q) : 1 ≤ rounded q := by
  simpa using two_zpow_le_rounded (k := 0) (by norm_num) (by simpa using h)

theorem exists_holds_half {x : Float} (h : 0 < x) : ∃ r, 0 ≤ r ∧ Holds (x / 2) .positive r := by
  have htwo := holds_natCast_of_lt (n := 2) (by norm_num)
  obtain ⟨r, hr, hhalf, -⟩ := (holds_of_pos h).exists_div htwo (pos_iff.mp h).2.le (by norm_num)
    (Decimal.natCast_lt_limit (by norm_num))
  exact ⟨r, hr, hhalf⟩

end Binary64

open Binary64

/-! ## Slots -/

theorem lt_slotsEnd_of_one_lt {spacing : Float} (h : 0 < spacing) {slots : ℕ} (hslots : 1 < slots) :
    -(spacing / 2) < slotsEnd spacing slots := by
  obtain ⟨r, hr, hhalf⟩ := exists_holds_half h
  have hcount : 1 ≤ rounded (max slots 1 - 1 : ℕ) := one_le_rounded (by exact_mod_cast (by omega))
  obtain ⟨w, hw, hwidth⟩ := (holds_natCast (max slots 1 - 1)).exists_mul (holds_of_pos h)
    (zero_lt_one.trans_le hcount) (pos_iff.mp h).2 (.inl hcount)
  obtain ⟨z, hend, hpos⟩ := hwidth.exists_add hhalf hw.le hr
  exact neg_lt_of_nonneg_of_pos (hhalf.nonneg_iff.mpr hr) (hend.pos_iff.mpr (hpos.mpr (.inl hw)))

theorem lt_slotsEnd_one_iff {spacing : Float} (h : 0 < spacing) :
    -(spacing / 2) < slotsEnd spacing 1 ↔ spacing.isFinite = true ∧ 0 < spacing / 2 := by
  obtain ⟨r, hr, hhalf⟩ := exists_holds_half h
  have hspacing := holds_of_pos h
  have hzero := holds_natCast 0
  rw [Nat.cast_zero, rounded_zero] at hzero
  rw [hspacing.isFinite_iff, hhalf.pos_iff]
  rcases lt_or_ge (value spacing) limit with hlt | hle
  · have hwidth := hzero.mul hspacing limit_pos hlt
    rw [zero_mul, rounded_zero] at hwidth
    obtain ⟨z, hend, hpos⟩ := Holds.exists_add hwidth hhalf le_rfl hr
    constructor
    · intro hrange
      refine ⟨hlt, ?_⟩
      -- Where half a slot is zero, so are both ends.
      by_contra hnot
      obtain rfl : r = 0 := le_antisymm (not_lt.mp hnot) hr
      obtain ⟨-, hnumber, hless⟩ := lt_iff.mp hrange
      rw [hhalf.neg.value_zero] at hless
      simpa using hpos.mp (hend.pos_iff.mp (pos_iff.mpr ⟨hnumber, hless⟩))
    · rintro ⟨-, hr'⟩
      exact neg_lt_of_nonneg_of_pos (hhalf.nonneg_iff.mpr hr)
        (hend.pos_iff.mpr (hpos.mpr (.inr hr')))
  · have hend : ¬ IsNumber (slotsEnd spacing 1).toModel.unpack :=
      not_isNumber_add (hzero.not_isNumber_mul hspacing hle) _
    exact iff_of_false (fun hrange ↦ hend (lt_iff.mp hrange).2.1) fun hfinite ↦
      hfinite.1.not_ge hle

theorem lt_slotsEnd_iff {spacing : Float} (h : 0 < spacing) {slots : ℕ} :
    -(spacing / 2) < slotsEnd spacing slots ↔
      1 < slots ∨ spacing.isFinite = true ∧ 0 < spacing / 2 := by
  rcases lt_or_ge 1 slots with hslots | hslots
  · exact iff_of_true (lt_slotsEnd_of_one_lt h hslots) (.inl hslots)
  · have hend : slotsEnd spacing slots = slotsEnd spacing 1 := by
      rw [slotsEnd, slotsEnd, max_eq_right hslots, max_self]
    rw [hend, lt_slotsEnd_one_iff h]
    exact (or_iff_right hslots.not_gt).symm

/-! ## Broken axes -/

namespace BrokenAxis

variable {lower upper max gap : Float} {a : BrokenAxis Float}

/-- The bounds of an axis that is laid out in binary64 numbers. -/
structure IsFinite (a : BrokenAxis Float) : Prop where
  lower_pos : 0 < a.lower
  lower_lt_upper : a.lower < a.upper
  upper_lt_max : a.upper < a.max
  gap_pos : 0 < a.gap
  upper_finite : a.upper.isFinite = true
  max_finite : a.max.isFinite = true

theorem isFinite_of_ofBounds (h : ofBounds lower upper max gap = .ok a) : a.IsFinite := by
  unfold ofBounds at h
  split_ifs at h with hbounds hgap
  cases h
  obtain ⟨hfinite, hlower, hupper, hmax⟩ :
      ([lower, upper, max, gap].all Scalar.isFinite = true) ∧ ¬ lower ≤ 0 ∧ ¬ upper ≤ lower ∧
        ¬ max ≤ upper := by
    simpa only [not_or, Bool.not_eq_true', Bool.not_eq_false] using hbounds
  obtain ⟨hgap, -⟩ := not_or.mp hgap
  simp only [List.all_cons, List.all_nil, Bool.and_true, Bool.and_eq_true] at hfinite
  obtain ⟨hlowerFinite, hupperFinite, hmaxFinite, hgapFinite⟩ := hfinite
  have hlowerNumber := isNumber_of_isFinite hlowerFinite
  have hupperNumber := isNumber_of_isFinite hupperFinite
  have hzero : IsNumber (0 : Float).toModel.unpack := unpack_zero ▸ .zero .positive
  exact
    { lower_pos := lt_of_not_le hlowerNumber hzero hlower
      lower_lt_upper := lt_of_not_le hupperNumber hlowerNumber hupper
      upper_lt_max := lt_of_not_le (isNumber_of_isFinite hmaxFinite) hupperNumber hmax
      gap_pos := lt_of_not_le (isNumber_of_isFinite hgapFinite) hzero hgap
      upper_finite := hupperFinite
      max_finite := hmaxFinite }

theorem IsFinite.top_eq (h : a.IsFinite) : a.top = a.lower + a.gap + (a.max - a.upper) := by
  have hlower := (lt_iff.mp h.lower_lt_upper).2.2
  have hupper := (lt_iff.mp h.upper_lt_max).2.2
  have hself : Scalar.smaller a.max a.max = a.max := ite_self _
  rw [top, project, hself, if_neg, if_neg]
  · exact fun hlt ↦ (lt_iff.mp hlt).2.2.not_gt hupper
  · exact fun hle ↦ (le_iff.mp hle).2.2.not_gt (hlower.trans hupper)

theorem IsFinite.top_pos (h : a.IsFinite) : 0 < a.top := by
  have hupper := holds_of_pos (pos_of_pos_of_lt h.lower_pos h.lower_lt_upper)
  have hmax := holds_of_pos
    (pos_of_pos_of_lt (pos_of_pos_of_lt h.lower_pos h.lower_lt_upper) h.upper_lt_max)
  have hrest := hmax.sub hupper (hmax.isFinite_iff.mp h.max_finite)
    (hupper.isFinite_iff.mp h.upper_finite) (lt_iff.mp h.upper_lt_max).2.2
  have hlower := (pos_iff.mp h.lower_pos).2
  obtain ⟨r, hsum, hr⟩ := (holds_of_pos h.lower_pos).exists_add (holds_of_pos h.gap_pos) hlower.le
    (pos_iff.mp h.gap_pos).2.le
  have hpos : 0 < r := hr.mpr (.inl hlower)
  obtain ⟨z, hheight, hz⟩ := hsum.exists_add hrest hpos.le (rounded_nonneg _)
  rw [h.top_eq]
  exact hheight.pos_iff.mpr (hz.mpr (.inl hpos))

end BrokenAxis

/-! ## Heights -/

theorem DisplayUnit.zero_le_latency {ms : Float} (h : 0 ≤ ms) (u : DisplayUnit) :
    0 ≤ u.latency ms := by
  cases u with
  | milliseconds => exact h
  | seconds =>
      exact quotient_nonneg h (holds_natCast_of_lt (n := 1000) (by norm_num)) (by norm_num)
        (Decimal.natCast_lt_limit (by norm_num))

theorem DisplayUnit.latency_pos_iff {ms : ℕ} (h : ms < 2 ^ 64) (u : DisplayUnit) :
    0 < u.latency (Scalar.ofNat ms : Float) ↔ 0 < ms := by
  have hms := holds_natCast ms
  have hthousand := holds_natCast_of_lt (n := 1000) (by norm_num)
  have hseconds := hms.div hthousand (rounded_natCast_lt_limit h.le)
    (Decimal.natCast_lt_limit (by norm_num)) (by norm_num)
  rcases ms.eq_zero_or_pos with rfl | hpos
  · rw [Nat.cast_zero, rounded_zero] at hms hseconds
    rw [zero_div, rounded_zero] at hseconds
    refine iff_of_false (fun hlt ↦ ?_) (lt_irrefl 0)
    cases u with
    | milliseconds => exact lt_irrefl 0 (hms.pos_iff.mp hlt)
    | seconds => exact lt_irrefl 0 (hseconds.pos_iff.mp hlt)
  · have hone : 1 ≤ rounded ms := one_le_rounded (by exact_mod_cast hpos)
    refine iff_of_true ?_ hpos
    cases u with
    | milliseconds => exact hms.pos_iff.mpr (zero_lt_one.trans_le hone)
    | seconds =>
        refine hseconds.pos_iff.mpr (rounded_pos ?_)
        calc
          (2 : ℚ) ^ (-1074 : ℤ) ≤ 2 ^ (-10 : ℤ) := zpow_le_zpow_right₀ (by norm_num) (by norm_num)
          _ ≤ 1 / (1000 : ℕ) := by norm_num
          _ ≤ rounded ms / (1000 : ℕ) := by gcongr

theorem Bar.drawn_pos_iff {floor : Float} (hfloor : 0 ≤ floor) (e : EngineStyle) (x width : Float)
    (unit : DisplayUnit) (axis : Option (BrokenAxis Float)) (s : Selection) :
    0 ≤ (Bar.ofSelection e x width unit floor axis s).drawn ∧
      (0 < (Bar.ofSelection e x width unit floor axis s).drawn ↔ 0 < s.latencyMs ∨ 0 < floor) := by
  have hvalue : 0 ≤ unit.latency (Scalar.ofNat s.latencyMs.toNat : Float) :=
    unit.zero_le_latency ((holds_natCast _).nonneg_iff.mpr (rounded_nonneg _))
  refine ⟨zero_le_larger hvalue hfloor, (zero_lt_larger_iff hvalue hfloor).trans ?_⟩
  rw [unit.latency_pos_iff s.latencyMs.toNat_lt]
  rfl

namespace LatencyFigure

theorem zero_lt_foldl_larger_iff {most : Float} (hmost : 0 ≤ most) {bars : List (Bar Float)}
    (hbars : ∀ b ∈ bars, 0 ≤ b.drawn) :
    0 ≤ bars.foldl (fun most b ↦ Scalar.larger most b.drawn) most ∧
      (0 < bars.foldl (fun most b ↦ Scalar.larger most b.drawn) most ↔
        0 < most ∨ ∃ b ∈ bars, 0 < b.drawn) := by
  induction bars generalizing most with
  | nil => simp [hmost]
  | cons b rest ih =>
      obtain ⟨hb, hrest⟩ := List.forall_mem_cons.mp hbars
      obtain ⟨hnonneg, hpos⟩ := ih (zero_le_larger hmost hb) hrest
      refine ⟨hnonneg, hpos.trans ?_⟩
      simp [zero_lt_larger_iff hmost hb, or_assoc]

theorem holds_headroom : Holds headroom .positive (rounded (11 / 10)) := by
  have hholds := Decimal.holds_ofScientific (m := 11) (e := -1) (by norm_num) (by omega) (by omega)
  have hvalue : ((11 : ℕ) : ℚ) * 10 ^ (-1 : ℤ) = 11 / 10 := by norm_num
  rw [hvalue] at hholds
  exact hholds

variable {f : LatencyFigure Float} {index : SelectionIndex} {p : Panel Float}

/-- A selection of more than no time is drawn in a panel. -/
def DrawsLatency (f : LatencyFigure Float) (index : SelectionIndex) (p : Panel Float) : Prop :=
  ∃ q ∈ f.queriesOf p.kind, ∃ e ∈ f.engines, ∃ s,
    index[(⟨e.tag, q, p.scaleFactor⟩ : Group)]? = some s ∧ 0 < s.latencyMs

theorem tallest_pos_iff (h : f.Consistent) (hp : p ∈ f.panels index) :
    0 ≤ tallest (p.unit.latency f.floorMs) p.groups ∧
      (0 < tallest (p.unit.latency f.floorMs) p.groups ↔
        0 < p.unit.latency f.floorMs ∨ f.DrawsLatency index p) := by
  have hfloor := p.unit.zero_le_latency h.floor
  have hbars : ∀ b ∈ p.groups.flatMap (·.bars), 0 ≤ b.drawn := by
    intro b hb
    obtain ⟨g, hg, hb⟩ := List.mem_flatMap.mp hb
    obtain ⟨-, e, -, x, s, -, rfl⟩ := exists_selection_of_mem_bars hp hg hb
    exact (Bar.drawn_pos_iff hfloor ..).1
  obtain ⟨hnonneg, hpos⟩ := zero_lt_foldl_larger_iff hfloor hbars
  refine ⟨hnonneg, hpos.trans ?_⟩
  constructor
  · rintro (hlt | ⟨b, hb, hlt⟩)
    · exact .inl hlt
    · obtain ⟨g, hg, hb⟩ := List.mem_flatMap.mp hb
      obtain ⟨hq, e, he, x, s, hs, rfl⟩ := exists_selection_of_mem_bars hp hg hb
      exact ((Bar.drawn_pos_iff hfloor ..).2.mp hlt).symm.imp_right fun hms ↦
        ⟨g.query, hq, e, he, s, hs, hms⟩
  · rintro (hlt | ⟨q, hq, e, he, s, hs, hms⟩)
    · exact .inl hlt
    · obtain ⟨g, hg, rfl, x, hb⟩ := exists_bar_of_selection hp hq he hs
      exact .inr ⟨_, List.mem_flatMap.mpr ⟨g, hg, hb⟩,
        (Bar.drawn_pos_iff hfloor ..).2.mpr (.inl hms)⟩

theorem yMax_of_axis_eq_none (hp : p ∈ f.panels index) (haxis : p.axis = none) :
    p.yMax = tallest (p.unit.latency f.floorMs) p.groups * headroom := by
  obtain ⟨r, -, -, hpanel⟩ := exists_panel_of_mem hp
  rw [hpanel] at haxis ⊢
  unfold panel at haxis ⊢
  dsimp only at haxis ⊢
  rw [haxis]

theorem yTop_pos_iff (h : f.Consistent) (hp : p ∈ f.panels index) :
    0 < p.yTop ↔ p.axis ≠ none ∨ 0 < p.unit.latency f.floorMs ∨ f.DrawsLatency index p := by
  cases haxis : p.axis with
  | some a =>
      obtain ⟨r, -, t, -, ht⟩ := exists_tear_of_axis hp haxis
      have htop : p.yTop = a.top := by rw [Panel.yTop, haxis]
      rw [htop]
      exact iff_of_true (BrokenAxis.isFinite_of_ofBounds ht).top_pos (.inl (Option.some_ne_none a))
  | none =>
      have htop : p.yTop = tallest (p.unit.latency f.floorMs) p.groups * headroom := by
        rw [Panel.yTop, haxis]
        exact yMax_of_axis_eq_none hp haxis
      obtain ⟨hnonneg, hpos⟩ := tallest_pos_iff h hp
      have hlimit : rounded (11 / 10) < limit :=
        (rounded_le_two_zpow (k := 1) (by norm_num) (by norm_num) (by norm_num)).trans_lt
          (zpow_lt_zpow_right₀ (by norm_num) (by norm_num))
      rw [htop, mul_pos_iff_left hnonneg holds_headroom (one_le_rounded (by norm_num)) hlimit, hpos]
      simp

theorem xLow_lt_xHigh_iff (h : f.Consistent) (hp : p ∈ f.panels index) :
    p.xLow < p.xHigh ↔
      1 < p.groups.length ∨ f.slotSpacing.isFinite = true ∧ 0 < f.slotSpacing / 2 := by
  obtain ⟨r, -, -, hpanel⟩ := exists_panel_of_mem hp
  have hlow : p.xLow = -(f.slotSpacing / 2) := congrArg Panel.xLow hpanel
  have hhigh : p.xHigh = slotsEnd f.slotSpacing p.groups.length := by
    rw [hpanel]
    rfl
  rw [hlow, hhigh]
  exact lt_slotsEnd_iff h.slotSpacing

/-- A panel of a valid figure has a width if it has more than one slot, or else half a slot that
is neither infinite nor zero.  It has a height if its axis is broken, or else if its floor or one
of the latencies that it draws is above zero. -/
theorem panel_ranges_are_proper_iff (hvalid : f.fault? = none) (index : SelectionIndex) :
    ∃ l, f.layout index = .ok l ∧ ∀ p ∈ l.panels,
      (p.xLow < p.xHigh ↔
        1 < p.groups.length ∨ f.slotSpacing.isFinite = true ∧ 0 < f.slotSpacing / 2) ∧
      (0 < p.yTop ↔
        p.axis ≠ none ∨ 0 < p.unit.latency f.floorMs ∨ f.DrawsLatency index p) := by
  have h := consistent_of_fault? hvalid
  obtain ⟨l, hl, hpanels, -⟩ := exists_layout hvalid index
  refine ⟨l, hl, fun p hp ↦ ?_⟩
  rw [hpanels] at hp
  exact ⟨xLow_lt_xHigh_iff h hp, yTop_pos_iff h hp⟩

/-- The usual figure, with bars of no least height. -/
def floorlessFigure : LatencyFigure Float :=
  { mainFigure with floorMs := 0 }

/-- Without data its panels have a width, but no height. -/
theorem floorlessFigure_is_flat :
    floorlessFigure.fault? = none ∧ ∃ l, floorlessFigure.layout (selectAll []) = .ok l ∧
      l.panels.length = 4 ∧ ∀ p ∈ l.panels, p.xLow < p.xHigh ∧ ¬ 0 < p.yTop := by
  have hvalid : floorlessFigure.fault? = none := by decide +kernel
  obtain ⟨l, hl, hranges⟩ := panel_ranges_are_proper_iff hvalid (selectAll [])
  have hshape : (floorlessFigure.panels (selectAll [])).length = 4 ∧
      ∀ p ∈ floorlessFigure.panels (selectAll []), 1 < p.groups.length ∧ p.axis = none := by
    decide +kernel
  have hfloor : ∀ u : DisplayUnit, ¬ 0 < u.latency (0 : Float) := by
    intro u
    cases u <;> decide +kernel
  rw [← panels_of_layout hl] at hshape
  refine ⟨hvalid, l, hl, hshape.1, fun p hp ↦ ?_⟩
  obtain ⟨hwidth, hheight⟩ := hranges p hp
  obtain ⟨hgroups, haxis⟩ := hshape.2 p hp
  refine ⟨hwidth.mpr (.inl hgroups), fun hlt ↦ ?_⟩
  rcases hheight.mp hlt with htorn | hraised | ⟨q, -, e, -, s, hs, -⟩
  · exact htorn haxis
  · exact hfloor p.unit hraised
  · simp [selectAll] at hs

end LatencyFigure
end QueryBench
