import Mathlib.Algebra.Order.Field.Rat
import Mathlib.Data.Set.Function
import Mathlib.Tactic.Linarith
import Mathlib.Tactic.Ring
import QueryBench.Chart.BrokenAxis

/-!
# Projection on a broken axis

Read over the rationals, a broken axis keeps values in order.  It has three pieces, and each of
them ends where the next begins.  Positions are read back piece by piece, so that every value up
to the end of the axis is recovered and no other is.
-/

namespace QueryBench

namespace Scalar

theorem larger_eq_max (a b : Rat) : larger a b = max a b := by
  unfold larger
  rw [max_def]
  simp only [le_refl, not_true_eq_false, or_false]

theorem smaller_eq_min (a b : Rat) : smaller a b = min a b := by
  unfold smaller
  rw [min_comm, min_def]
  simp only [le_refl, not_true_eq_false, or_false]

end Scalar
namespace BrokenAxis

/-- The bounds of an axis that can be drawn. -/
structure IsOrdered (a : BrokenAxis Rat) : Prop where
  lower_pos : 0 < a.lower
  lower_lt_upper : a.lower < a.upper
  upper_lt_max : a.upper < a.max
  gap_pos : 0 < a.gap
  gap_lt : a.gap < a.upper - a.lower

namespace IsOrdered

variable {a : BrokenAxis Rat}

theorem lower_le_max (h : a.IsOrdered) : a.lower ≤ a.max :=
  (h.lower_lt_upper.trans h.upper_lt_max).le

theorem gap_ne_zero (h : a.IsOrdered) : a.gap ≠ 0 := ne_of_gt h.gap_pos

theorem band_ne_zero (h : a.IsOrdered) : a.upper - a.lower ≠ 0 :=
  ne_of_gt (sub_pos.mpr h.lower_lt_upper)

end IsOrdered

/-- Accepted are the bounds of an axis that can be drawn. -/
theorem ofBounds_eq_ok_iff {lower upper max gap : Rat} {a : BrokenAxis Rat} :
    ofBounds lower upper max gap = .ok a ↔ a = ⟨lower, upper, max, gap⟩ ∧ a.IsOrdered := by
  unfold ofBounds
  split
  · rename_i hbounds
    refine ⟨nofun, ?_⟩
    rintro ⟨rfl, h⟩
    rcases hbounds with hfinite | hlower | hupper | hmax
    · exact absurd hfinite (by simp [Scalar.isFinite])
    · exact absurd h.lower_pos (not_lt.mpr hlower)
    · exact absurd h.lower_lt_upper (not_lt.mpr hupper)
    · exact absurd h.upper_lt_max (not_lt.mpr hmax)
  · rename_i hbounds
    simp only [not_or, not_le] at hbounds
    split
    · rename_i hgap
      refine ⟨nofun, ?_⟩
      rintro ⟨rfl, h⟩
      rcases hgap with hpos | hband
      · exact absurd h.gap_pos (not_lt.mpr hpos)
      · exact absurd h.gap_lt (not_lt.mpr hband)
    · rename_i hgap
      simp only [not_or, not_le] at hgap
      constructor
      · rintro ⟨⟩
        exact ⟨rfl, hbounds.2.1, hbounds.2.2.1, hbounds.2.2.2, hgap.1, hgap.2⟩
      · rintro ⟨rfl, -⟩
        rfl

theorem isOrdered_of_ofBounds {lower upper max gap : Rat} {a : BrokenAxis Rat}
    (h : ofBounds lower upper max gap = .ok a) : a.IsOrdered :=
  (ofBounds_eq_ok_iff.mp h).2

/-- Where a value of the squeezed band stands. -/
def bandPosition (a : BrokenAxis Rat) (v : Rat) : Rat :=
  a.lower + a.gap * (v - a.lower) / (a.upper - a.lower)

variable {a : BrokenAxis Rat} {v w : Rat}

/-! ## Pieces -/

theorem project_of_le_lower (hmax : v ≤ a.max) (h : v ≤ a.lower) : a.project v = v := by
  unfold project
  rw [Scalar.smaller_eq_min, min_eq_left hmax]
  exact if_pos h

theorem project_of_band (hmax : v ≤ a.max) (hlower : a.lower < v) (hupper : v < a.upper) :
    a.project v = a.bandPosition v := by
  unfold project
  rw [Scalar.smaller_eq_min, min_eq_left hmax]
  exact (if_neg (not_le.mpr hlower)).trans (if_pos hupper)

theorem project_of_upper_le (h : a.IsOrdered) (hmax : v ≤ a.max) (hupper : a.upper ≤ v) :
    a.project v = a.lower + a.gap + (v - a.upper) := by
  have hlower : a.lower < v := h.lower_lt_upper.trans_le hupper
  unfold project
  rw [Scalar.smaller_eq_min, min_eq_left hmax]
  exact (if_neg (not_le.mpr hlower)).trans (if_neg (not_lt.mpr hupper))

theorem project_min (a : BrokenAxis Rat) (v : Rat) : a.project (min v a.max) = a.project v := by
  unfold project
  rw [Scalar.smaller_eq_min, Scalar.smaller_eq_min, min_assoc, min_self]

theorem bandPosition_lower (a : BrokenAxis Rat) : a.bandPosition a.lower = a.lower := by
  rw [bandPosition, sub_self, mul_zero, zero_div, add_zero]

theorem bandPosition_upper (h : a.IsOrdered) : a.bandPosition a.upper = a.lower + a.gap := by
  rw [bandPosition, mul_div_assoc, div_self h.band_ne_zero, mul_one]

theorem bandPosition_lt_bandPosition (h : a.IsOrdered) (hvw : v < w) :
    a.bandPosition v < a.bandPosition w := by
  have hband : 0 < a.upper - a.lower := sub_pos.mpr h.lower_lt_upper
  apply add_lt_add_right
  apply div_lt_div_of_pos_right _ hband
  exact mul_lt_mul_of_pos_left (sub_lt_sub_right hvw a.lower) h.gap_pos

theorem project_lower (h : a.IsOrdered) : a.project a.lower = a.gapStart :=
  project_of_le_lower h.lower_le_max le_rfl

theorem project_upper (h : a.IsOrdered) : a.project a.upper = a.gapEnd := by
  rw [project_of_upper_le h h.upper_lt_max.le le_rfl, sub_self, add_zero]
  rfl

theorem top_eq (h : a.IsOrdered) : a.top = a.lower + a.gap + (a.max - a.upper) :=
  project_of_upper_le h le_rfl h.upper_lt_max.le

theorem project_of_max_le (hmax : a.max ≤ v) : a.project v = a.top := by
  rw [← project_min, min_eq_right hmax, top]

/-! ## Order -/

theorem project_lt_project (h : a.IsOrdered) (hvw : v < w) (hmax : w ≤ a.max) :
    a.project v < a.project w := by
  have hv : v ≤ a.max := hvw.le.trans hmax
  have hgap := h.gap_pos
  -- The piece of `w` comes first, since `v` lies on the same piece or on one below it.
  rcases le_or_gt w a.lower with hw | hlower
  · rw [project_of_le_lower hv (hvw.le.trans hw), project_of_le_lower hmax hw]
    exact hvw
  · rcases lt_or_ge w a.upper with hw | hw
    · rw [project_of_band hmax hlower hw]
      rcases le_or_gt v a.lower with hv' | hv'
      · rw [project_of_le_lower hv hv']
        calc v ≤ a.lower := hv'
          _ = a.bandPosition a.lower := (bandPosition_lower a).symm
          _ < a.bandPosition w := bandPosition_lt_bandPosition h hlower
      · rw [project_of_band hv hv' (hvw.trans hw)]
        exact bandPosition_lt_bandPosition h hvw
    · rw [project_of_upper_le h hmax hw]
      rcases le_or_gt v a.lower with hv' | hv'
      · rw [project_of_le_lower hv hv']
        linarith
      · rcases lt_or_ge v a.upper with hv'' | hv''
        · rw [project_of_band hv hv' hv'']
          have hlt := bandPosition_lt_bandPosition h hv''
          rw [bandPosition_upper h] at hlt
          linarith
        · rw [project_of_upper_le h hv hv'']
          linarith

theorem project_le_project (h : a.IsOrdered) (hvw : v ≤ w) : a.project v ≤ a.project w := by
  rw [← project_min a v, ← project_min a w]
  rcases (min_le_min_right a.max hvw).eq_or_lt with heq | hlt
  · rw [heq]
  · exact (project_lt_project h hlt (min_le_right w a.max)).le

theorem project_le_top (h : a.IsOrdered) (v : Rat) : a.project v ≤ a.top := by
  rw [← project_min]
  exact project_le_project h (min_le_right v a.max)

theorem project_nonneg (h : a.IsOrdered) (hv : 0 ≤ v) : 0 ≤ a.project v := by
  have hmax : 0 ≤ a.max := h.lower_pos.le.trans h.lower_le_max
  calc 0 = a.project 0 := (project_of_le_lower hmax h.lower_pos.le).symm
    _ ≤ a.project v := project_le_project h hv

/-! ## Reading positions back -/

/-- The value of the squeezed band that stands at a position. -/
def bandValue (a : BrokenAxis Rat) (p : Rat) : Rat :=
  a.lower + (p - a.lower) * (a.upper - a.lower) / a.gap

variable {p : Rat}

theorem unproject_of_le_gapStart (h : p ≤ a.lower) : a.unproject p = p := if_pos h

theorem unproject_of_gap (hstart : a.lower < p) (hend : p < a.lower + a.gap) :
    a.unproject p = a.bandValue p :=
  (if_neg (not_le.mpr hstart)).trans (if_pos hend)

theorem unproject_of_gapEnd_le (h : a.IsOrdered) (hend : a.lower + a.gap ≤ p) :
    a.unproject p = p - a.gap + a.upper - a.lower := by
  have hstart : a.lower < p := (lt_add_of_pos_right _ h.gap_pos).trans_le hend
  exact (if_neg (not_le.mpr hstart)).trans (if_neg (not_lt.mpr hend))

theorem bandValue_bandPosition (h : a.IsOrdered) (v : Rat) :
    a.bandValue (a.bandPosition v) = v := by
  rw [bandValue, bandPosition, add_sub_cancel_left, div_mul_cancel₀ _ h.band_ne_zero,
    mul_div_cancel_left₀ _ h.gap_ne_zero, add_sub_cancel]

theorem bandPosition_bandValue (h : a.IsOrdered) (p : Rat) :
    a.bandPosition (a.bandValue p) = p := by
  rw [bandPosition, bandValue, add_sub_cancel_left, mul_div_cancel₀ _ h.gap_ne_zero,
    mul_div_cancel_right₀ _ h.band_ne_zero, add_sub_cancel]

theorem bandPosition_strictMono (h : a.IsOrdered) : StrictMono a.bandPosition :=
  fun _ _ hvw ↦ bandPosition_lt_bandPosition h hvw

theorem unproject_project (h : a.IsOrdered) (hmax : v ≤ a.max) :
    a.unproject (a.project v) = v := by
  rcases le_or_gt v a.lower with hv | hlower
  · rw [project_of_le_lower hmax hv, unproject_of_le_gapStart hv]
  · rcases lt_or_ge v a.upper with hv | hupper
    · have hstart := bandPosition_lt_bandPosition h hlower
      have hend := bandPosition_lt_bandPosition h hv
      rw [bandPosition_lower] at hstart
      rw [bandPosition_upper h] at hend
      rw [project_of_band hmax hlower hv, unproject_of_gap hstart hend, bandValue_bandPosition h]
    · rw [project_of_upper_le h hmax hupper, unproject_of_gapEnd_le h (by linarith)]
      ring

/-- A position up to the top is that of the value read there, which lies on the axis. -/
theorem project_unproject (h : a.IsOrdered) (htop : p ≤ a.top) :
    a.unproject p ≤ a.max ∧ a.project (a.unproject p) = p := by
  rcases le_or_gt p a.lower with hp | hstart
  · rw [unproject_of_le_gapStart hp]
    have hmax : p ≤ a.max := hp.trans h.lower_le_max
    exact ⟨hmax, project_of_le_lower hmax hp⟩
  · rcases lt_or_ge p (a.lower + a.gap) with hp | hend
    · -- The value is found between the ends of the band because its position is.
      have hposition := bandPosition_bandValue h p
      have hlower : a.lower < a.bandValue p := by
        rw [← (bandPosition_strictMono h).lt_iff_lt, hposition, bandPosition_lower]
        exact hstart
      have hupper : a.bandValue p < a.upper := by
        rw [← (bandPosition_strictMono h).lt_iff_lt, hposition, bandPosition_upper h]
        exact hp
      have hmax : a.bandValue p ≤ a.max := (hupper.trans h.upper_lt_max).le
      rw [unproject_of_gap hstart hp]
      exact ⟨hmax, (project_of_band hmax hlower hupper).trans hposition⟩
    · rw [top_eq h] at htop
      rw [unproject_of_gapEnd_le h hend]
      have hmax : p - a.gap + a.upper - a.lower ≤ a.max := by linarith
      refine ⟨hmax, ?_⟩
      rw [project_of_upper_le h hmax (by linarith)]
      ring

theorem clips_iff : a.clips v = true ↔ a.max < v := decide_eq_true_iff

/-- The values that are cut off are those that are not read back. -/
theorem clips_iff_unproject_project_ne (h : a.IsOrdered) :
    a.clips v = true ↔ a.unproject (a.project v) ≠ v := by
  rw [clips_iff]
  constructor
  · intro hmax
    rw [project_of_max_le hmax.le, top, unproject_project h le_rfl]
    exact ne_of_lt hmax
  · intro hne
    by_contra hmax
    exact hne (unproject_project h (not_lt.mp hmax))

/-- The values up to the end of an axis and the positions up to its top correspond in their order,
by the identity where the axis is not yet broken.  What lies beyond the end is cut off. -/
structure IsIsomorphism (a : BrokenAxis Rat) : Prop where
  strictMonoOn : StrictMonoOn a.project (Set.Iic a.max)
  bijOn : Set.BijOn a.project (Set.Iic a.max) (Set.Iic a.top)
  project_beyond : ∀ v, a.max ≤ v → a.project v = a.top
  project_below : ∀ v, v ≤ a.lower → a.project v = v
  gapStart_eq : a.project a.lower = a.gapStart
  gapEnd_eq : a.project a.upper = a.gapEnd
  top_eq : a.top = a.lower + a.gap + (a.max - a.upper)
  value_back : ∀ v, v ≤ a.max → a.unproject (a.project v) = v
  position_back : ∀ p, p ≤ a.top → a.project (a.unproject p) = p
  clips_iff : ∀ v, a.clips v = true ↔ a.max < v
  clips_iff_lost : ∀ v, a.clips v = true ↔ a.unproject (a.project v) ≠ v

theorem IsOrdered.isIsomorphism (h : a.IsOrdered) : a.IsIsomorphism where
  strictMonoOn _ _ _ hw hvw := project_lt_project h hvw hw
  bijOn := by
    have hinv : Set.InvOn a.unproject a.project (Set.Iic a.max) (Set.Iic a.top) :=
      ⟨fun _ hv ↦ unproject_project h hv, fun _ hp ↦ (project_unproject h hp).2⟩
    exact hinv.bijOn (fun v _ ↦ project_le_top h v) fun _ hp ↦ (project_unproject h hp).1
  project_beyond _ hmax := project_of_max_le hmax
  project_below _ hlower := project_of_le_lower (hlower.trans h.lower_le_max) hlower
  gapStart_eq := project_lower h
  gapEnd_eq := project_upper h
  top_eq := BrokenAxis.top_eq h
  value_back _ hmax := unproject_project h hmax
  position_back _ htop := (project_unproject h htop).2
  clips_iff _ := BrokenAxis.clips_iff
  clips_iff_lost _ := clips_iff_unproject_project_ne h

/-- An axis is accepted with the bounds that can be drawn, and it then is an order isomorphism
onto the positions that it shows. -/
theorem accepted_axis_is_isomorphism {lower upper max gap : Rat} {a : BrokenAxis Rat}
    (haccepted : ofBounds lower upper max gap = .ok a) :
    a = ⟨lower, upper, max, gap⟩ ∧ a.IsIsomorphism := by
  obtain ⟨heq, h⟩ := ofBounds_eq_ok_iff.mp haccepted
  exact ⟨heq, h.isIsomorphism⟩

/-- A value beyond the gap stands lower by what is squeezed, and one beyond the end is lost. -/
theorem steep_axis_is_isomorphism :
    ∃ a : BrokenAxis Rat, ofBounds (5 / 2) 3 35 (1 / 4) = .ok a ∧
      a.project 10 = 39 / 4 ∧ a.unproject (39 / 4) = 10 ∧ a.project (11 / 4) = 21 / 8 ∧
      a.top = 139 / 4 ∧ a.clips 40 = true ∧ a.unproject (a.project 40) ≠ 40 := by
  have haccepted :
      ofBounds (5 / 2) 3 35 (1 / 4) = .ok (⟨5 / 2, 3, 35, 1 / 4⟩ : BrokenAxis Rat) := by
    decide +kernel
  obtain ⟨-, h⟩ := accepted_axis_is_isomorphism haccepted
  have hproject : (⟨5 / 2, 3, 35, 1 / 4⟩ : BrokenAxis Rat).project 10 = 39 / 4 := by decide +kernel
  have hclips : (⟨5 / 2, 3, 35, 1 / 4⟩ : BrokenAxis Rat).clips 40 = true := by decide +kernel
  refine ⟨_, haccepted, hproject, ?_, by decide +kernel, ?_, hclips,
    (h.clips_iff_lost 40).mp hclips⟩
  · rw [← hproject]
    exact h.value_back 10 (by decide +kernel)
  · rw [h.top_eq]
    decide +kernel

end BrokenAxis
end QueryBench
