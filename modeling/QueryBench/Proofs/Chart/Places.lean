import Mathlib.Algebra.Order.Field.Rat
import Mathlib.Tactic.Linarith
import QueryBench.LatencyFigure.Layout

/-!
# Places of bars

The bars around the middle of a slot stand in places of one width, side by side and centered.
Where they are together no wider than a slot, the places of one slot end before those of the
next begin.
-/

namespace QueryBench

theorem barCenter_eq (x width : Rat) (count k : Nat) :
    barCenter x width count k = x + (k - (count - 1) / 2) * width := rfl

theorem slotCenter_eq (spacing : Rat) (slot : Nat) : slotCenter spacing slot = slot * spacing := rfl

theorem slotsEnd_eq (spacing : Rat) (slots : Nat) :
    slotsEnd spacing slots = (max slots 1 - 1 : Nat) * spacing + spacing / 2 := rfl

/-- Where the `k`-th of `count` places begins that are centered around `x`. -/
def placeStart (x groupWidth : Rat) (count k : Nat) : Rat :=
  x - groupWidth / 2 + k * (groupWidth / count)

section Group

variable {x groupWidth : Rat} {count : Nat}

theorem count_mul_width (hcount : 0 < count) (groupWidth : Rat) :
    (count : Rat) * (groupWidth / count) = groupWidth :=
  mul_div_cancel₀ _ (Nat.cast_ne_zero.mpr (Nat.ne_of_gt hcount))

theorem placeStart_succ (x groupWidth : Rat) (count k : Nat) :
    placeStart x groupWidth count (k + 1) =
      placeStart x groupWidth count k + groupWidth / count := by
  rw [placeStart, placeStart, Nat.cast_succ]
  linarith

theorem barCenter_sub_half (hcount : 0 < count) (x groupWidth : Rat) (k : Nat) :
    barCenter x (groupWidth / count) count k - groupWidth / count / 2 =
      placeStart x groupWidth count k := by
  have hsum := count_mul_width hcount groupWidth
  rw [barCenter_eq, placeStart]
  linarith

theorem barCenter_add_half (hcount : 0 < count) (x groupWidth : Rat) (k : Nat) :
    barCenter x (groupWidth / count) count k + groupWidth / count / 2 =
      placeStart x groupWidth count (k + 1) := by
  rw [placeStart_succ, ← barCenter_sub_half hcount]
  linarith

theorem placeStart_lt_succ (hcount : 0 < count) (hwidth : 0 < groupWidth) (x : Rat) (k : Nat) :
    placeStart x groupWidth count k < placeStart x groupWidth count (k + 1) := by
  rw [placeStart_succ]
  exact lt_add_of_pos_right _ (div_pos hwidth (Nat.cast_pos.mpr hcount))

theorem placeStart_le (hcount : 0 < count) (hwidth : 0 < groupWidth) (x : Rat) {k k' : Nat}
    (h : k ≤ k') : placeStart x groupWidth count k ≤ placeStart x groupWidth count k' :=
  monotone_nat_of_le_succ (fun k ↦ (placeStart_lt_succ hcount hwidth x k).le) h

theorem sub_half_le_placeStart (hcount : 0 < count) (hwidth : 0 < groupWidth) (x : Rat)
    (k : Nat) : x - groupWidth / 2 ≤ placeStart x groupWidth count k := by
  have hzero : placeStart x groupWidth count 0 = x - groupWidth / 2 := by
    rw [placeStart, Nat.cast_zero, zero_mul, add_zero]
  rw [← hzero]
  exact placeStart_le hcount hwidth x (Nat.zero_le k)

theorem placeStart_le_add_half (hwidth : 0 < groupWidth) (x : Rat) {k : Nat} (h : k < count) :
    placeStart x groupWidth count (k + 1) ≤ x + groupWidth / 2 := by
  have hcount : 0 < count := Nat.zero_lt_of_lt h
  have hlast : placeStart x groupWidth count count = x + groupWidth / 2 := by
    rw [placeStart, count_mul_width hcount]
    linarith
  rw [← hlast]
  exact placeStart_le hcount hwidth x h

/-- The places around `x` leave nothing between their ends uncovered. -/
theorem exists_placeStart_le_lt (hcount : 0 < count) {p : Rat} (hlow : x - groupWidth / 2 ≤ p)
    (hhigh : p < x + groupWidth / 2) : ∃ k < count,
      placeStart x groupWidth count k ≤ p ∧ p < placeStart x groupWidth count (k + 1) := by
  have hend : p < placeStart x groupWidth count count := by
    rw [placeStart, count_mul_width hcount]
    linarith
  have hpassed : ∃ k, p < placeStart x groupWidth count k := ⟨count, hend⟩
  have hfirst := Nat.find_spec hpassed
  have hle : Nat.find hpassed ≤ count := Nat.find_min' hpassed hend
  cases hk : Nat.find hpassed with
  | zero =>
      rw [hk, placeStart, Nat.cast_zero, zero_mul, add_zero] at hfirst
      exact absurd hlow (not_le.mpr hfirst)
  | succ k =>
      rw [hk] at hfirst hle
      exact ⟨k, hle, not_lt.mp (Nat.find_min hpassed (hk ▸ Nat.lt_succ_self k)), hfirst⟩

end Group

section Slots

variable {spacing : Rat}

theorem slotCenter_nonneg (hspacing : 0 < spacing) (slot : Nat) : 0 ≤ slotCenter spacing slot := by
  rw [slotCenter_eq]
  exact mul_nonneg (Nat.cast_nonneg slot) hspacing.le

theorem slotCenter_add_le (hspacing : 0 < spacing) {slot slot' : Nat} (h : slot < slot') :
    slotCenter spacing slot + spacing ≤ slotCenter spacing slot' := by
  have hcast : (slot : Rat) + 1 ≤ slot' := by exact_mod_cast h
  have hmul := mul_le_mul_of_nonneg_right hcast hspacing.le
  rw [slotCenter_eq, slotCenter_eq]
  linarith

theorem slotCenter_add_half_le_slotsEnd (hspacing : 0 < spacing) {slot slots : Nat}
    (h : slot < slots) : slotCenter spacing slot + spacing / 2 ≤ slotsEnd spacing slots := by
  have hcast : (slot : Rat) ≤ (max slots 1 - 1 : Nat) := by
    apply Nat.cast_le.mpr
    omega
  have hmul := mul_le_mul_of_nonneg_right hcast hspacing.le
  rw [slotCenter_eq, slotsEnd_eq]
  linarith

/-- The place of a bar in its slot ends before a place further right begins. -/
theorem placeStart_succ_le {groupWidth : Rat} {count : Nat} (hwidth : 0 < groupWidth)
    (hspacing : 0 < spacing) (hfits : groupWidth ≤ spacing) {slot slot' k k' : Nat}
    (hk : k < count) (h : slot < slot' ∨ slot = slot' ∧ k < k') :
    placeStart (slotCenter spacing slot) groupWidth count (k + 1) ≤
      placeStart (slotCenter spacing slot') groupWidth count k' := by
  have hcount : 0 < count := Nat.zero_lt_of_lt hk
  rcases h with hslot | ⟨rfl, hlt⟩
  · calc placeStart (slotCenter spacing slot) groupWidth count (k + 1)
        ≤ slotCenter spacing slot + groupWidth / 2 := placeStart_le_add_half hwidth _ hk
      _ ≤ slotCenter spacing slot' - groupWidth / 2 := by
          have hnext := slotCenter_add_le hspacing hslot
          linarith
      _ ≤ placeStart (slotCenter spacing slot') groupWidth count k' :=
          sub_half_le_placeStart hcount hwidth _ k'
  · exact placeStart_le hcount hwidth _ hlt

end Slots

/-! ## Bars in their places -/

/-- What reaches from `left` to `right` fills the `k`-th of `count` places around `x`. -/
structure StandsAt (x groupWidth : Rat) (count k : Nat) (left right : Rat) : Prop where
  place_lt : k < count
  left_eq : left = placeStart x groupWidth count k
  right_eq : right = placeStart x groupWidth count (k + 1)

theorem standsAt_barCenter {count k : Nat} (h : k < count) (x groupWidth : Rat) :
    StandsAt x groupWidth count k
      (barCenter x (groupWidth / count) count k - groupWidth / count / 2)
      (barCenter x (groupWidth / count) count k + groupWidth / count / 2) :=
  ⟨h, barCenter_sub_half (Nat.zero_lt_of_lt h) x groupWidth k,
    barCenter_add_half (Nat.zero_lt_of_lt h) x groupWidth k⟩

namespace StandsAt

variable {x groupWidth left right : Rat} {count k : Nat}

theorem count_pos (h : StandsAt x groupWidth count k left right) : 0 < count :=
  Nat.zero_lt_of_lt h.place_lt

theorem left_lt_right (h : StandsAt x groupWidth count k left right) (hwidth : 0 < groupWidth) :
    left < right := by
  rw [h.left_eq, h.right_eq]
  exact placeStart_lt_succ h.count_pos hwidth x k

theorem mem_group (h : StandsAt x groupWidth count k left right) (hwidth : 0 < groupWidth) :
    x - groupWidth / 2 ≤ left ∧ right ≤ x + groupWidth / 2 := by
  rw [h.left_eq, h.right_eq]
  exact ⟨sub_half_le_placeStart h.count_pos hwidth x k, placeStart_le_add_half hwidth x h.place_lt⟩

end StandsAt

theorem pairwise_zipIdx {α : Type} (as : List α) : as.zipIdx.Pairwise fun a b ↦ a.2 < b.2 := by
  have h : (as.zipIdx.map Prod.snd).Pairwise (· < ·) := by
    rw [List.zipIdx_map_snd]
    exact List.pairwise_lt_range'
  exact List.pairwise_map.mp h

section Bars

variable {α β : Type} {as : List α} {left right : β → Rat} {x groupWidth spacing : Rat}
  {count : Nat}

/-- The bars of one group stand in order. -/
theorem pairwise_filterMap_zipIdx (hwidth : 0 < groupWidth) {bar : α × Nat → Option β}
    (hbar : ∀ p b, as[p.2]? = some p.1 → bar p = some b →
      StandsAt x groupWidth count p.2 (left b) (right b)) :
    (as.zipIdx.filterMap bar).Pairwise fun b c ↦ right b ≤ left c := by
  rw [List.pairwise_filterMap]
  apply (pairwise_zipIdx as).imp_of_mem
  intro p q hp hq hlt b hb c hc
  have hplace := hbar p b (List.mem_zipIdx_iff_getElem?.mp hp) hb
  have hplace' := hbar q c (List.mem_zipIdx_iff_getElem?.mp hq) hc
  rw [hplace.right_eq, hplace'.left_eq]
  exact placeStart_le hplace.count_pos hwidth x hlt

/-- The bars of groups in slots stand in order if no group is wider than a slot, or there is only
one. -/
theorem pairwise_flatMap_zipIdx (hwidth : 0 < groupWidth) (hspacing : 0 < spacing)
    (hfits : groupWidth ≤ spacing ∨ as.length ≤ 1) {bars : α × Nat → List β}
    (hone : ∀ p, (bars p).Pairwise fun b c ↦ right b ≤ left c)
    (hbars : ∀ p, ∀ b ∈ bars p, ∃ k,
      StandsAt (slotCenter spacing p.2) groupWidth count k (left b) (right b)) :
    (as.zipIdx.flatMap bars).Pairwise fun b c ↦ right b ≤ left c := by
  rw [List.pairwise_flatMap]
  refine ⟨fun p _ ↦ hone p, ?_⟩
  apply (pairwise_zipIdx as).imp_of_mem
  intro p q _ hq hlt b hb c hc
  have hslot := (List.getElem?_eq_some_iff.mp (List.mem_zipIdx_iff_getElem?.mp hq)).1
  have hfits : groupWidth ≤ spacing := hfits.resolve_right (by omega)
  obtain ⟨k, hk⟩ := hbars p b hb
  obtain ⟨k', hk'⟩ := hbars q c hc
  rw [hk.right_eq, hk'.left_eq]
  exact placeStart_succ_le hwidth hspacing hfits hk.place_lt (.inl hlt)

end Bars
end QueryBench
