import Mathlib.Algebra.Order.BigOperators.Group.List
import Mathlib.Data.Rat.Floor
import Mathlib.Tactic.Linarith
import QueryBench.Proofs.LatencyFigure.Grid

/-!
# Shares of a length

A length is divided in proportion to some sizes, and the borders between the parts are rounded
to whole pixels.  Each border is rounded by itself, from the total of the sizes before it, so no
part is off by more than the two roundings at its ends, however many parts there are.  The borders
lie within the length, so integers of 32 bits hold them where they hold the length.
-/

namespace QueryBench

namespace Scalar

theorem pixelOfRat_of_nonneg {x : ℚ} (hx : 0 ≤ x) : pixelOfRat x = ⌊x + 1 / 2⌋ := by
  rw [pixelOfRat, if_neg (not_lt.mpr hx)]
  rfl

theorem pixelOfRat_natCast (n : ℕ) : pixelOfRat n = n := by
  rw [pixelOfRat_of_nonneg (Nat.cast_nonneg n), Int.floor_eq_iff]
  constructor <;> push_cast <;> linarith

theorem pixelOfRat_le_pixelOfRat {x y : ℚ} (hx : 0 ≤ x) (h : x ≤ y) :
    pixelOfRat x ≤ pixelOfRat y := by
  rw [pixelOfRat_of_nonneg hx, pixelOfRat_of_nonneg (hx.trans h)]
  exact Int.floor_le_floor (by linarith)

theorem abs_pixelOfRat_sub_le {x : ℚ} (hx : 0 ≤ x) : |(pixelOfRat x : ℚ) - x| ≤ 1 / 2 := by
  rw [pixelOfRat_of_nonneg hx, abs_le]
  have hlow := Int.floor_le (x + 1 / 2)
  have hhigh := Int.lt_floor_add_one (x + 1 / 2)
  constructor <;> linarith

end Scalar

/-! ## Borders -/

theorem totalSize_eq_sum (sizes : List ℚ) : totalSize sizes = sizes.sum :=
  List.sum_eq_foldl.symm

theorem runningTotals_eq_map (total : ℚ) (sizes : List ℚ) :
    runningTotals total sizes =
      (List.range sizes.length).map fun k ↦ total + (sizes.take (k + 1)).sum := by
  induction sizes generalizing total with
  | nil => rfl
  | cons size rest ih =>
      rw [runningTotals, ih, List.length_cons, List.range_succ_eq_map, List.map_cons, List.map_map]
      simp [Function.comp_def, add_assoc]

/-- The rounded place of the border behind the first `k` of some parts. -/
def border (sizes : List ℚ) (length k : ℕ) : ℤ :=
  Scalar.pixelOfRat ((sizes.take k).sum / sizes.sum * length)

section Borders

variable {sizes : List ℚ}

theorem breakpoints_eq_map (hsum : 0 < sizes.sum) (length : ℕ) :
    breakpoints sizes length =
      (List.range (sizes.length - 1)).map fun k ↦ border sizes length (k + 1) := by
  have htotal : ¬ totalSize sizes ≤ 0 := by
    rw [totalSize_eq_sum]
    exact not_le.mpr hsum
  rw [breakpoints, if_neg htotal, runningTotals_eq_map, totalSize_eq_sum, List.map_map,
    List.length_dropLast]
  apply List.map_congr_left
  intro k hk
  have htake : sizes.dropLast.take (k + 1) = sizes.take (k + 1) := by
    have hlt := List.mem_range.mp hk
    rw [List.dropLast_eq_take, List.take_take, Nat.min_eq_left (by omega)]
  have hstart : (0 : ℚ) + (sizes.take (k + 1)).sum = (sizes.take (k + 1)).sum := zero_add _
  rw [Function.comp_apply, htake]
  exact congrArg (fun total ↦ Scalar.pixelOfRat (total / sizes.sum * length)) hstart

theorem take_sum_nonneg (hsizes : ∀ s ∈ sizes, 0 ≤ s) (k : ℕ) : 0 ≤ (sizes.take k).sum :=
  List.sum_nonneg fun s hs ↦ hsizes s (List.mem_of_mem_take hs)

theorem take_sum_le_take_sum (hsizes : ∀ s ∈ sizes, 0 ≤ s) {k k' : ℕ} (h : k ≤ k') :
    (sizes.take k).sum ≤ (sizes.take k').sum := by
  apply List.Sublist.sum_le_sum (List.take_prefix_take_left h).sublist
  exact fun s hs ↦ hsizes s (List.mem_of_mem_take hs)

theorem place_nonneg (hsizes : ∀ s ∈ sizes, 0 ≤ s) (hsum : 0 < sizes.sum) (length k : ℕ) :
    0 ≤ (sizes.take k).sum / sizes.sum * length :=
  mul_nonneg (div_nonneg (take_sum_nonneg hsizes k) hsum.le) (Nat.cast_nonneg length)

theorem border_zero (sizes : List ℚ) (length : ℕ) : border sizes length 0 = 0 := by
  rw [border, List.take_zero, List.sum_nil, zero_div, zero_mul]
  exact Scalar.pixelOfRat_natCast 0

theorem border_length (hsum : 0 < sizes.sum) (length : ℕ) :
    border sizes length sizes.length = length := by
  rw [border, List.take_length, div_self hsum.ne', one_mul, Scalar.pixelOfRat_natCast]

theorem border_le_border (hsizes : ∀ s ∈ sizes, 0 ≤ s) (hsum : 0 < sizes.sum) (length : ℕ)
    {k k' : ℕ} (h : k ≤ k') : border sizes length k ≤ border sizes length k' := by
  apply Scalar.pixelOfRat_le_pixelOfRat (place_nonneg hsizes hsum length k)
  apply mul_le_mul_of_nonneg_right _ (Nat.cast_nonneg length)
  exact div_le_div_of_nonneg_right (take_sum_le_take_sum hsizes h) hsum.le

theorem abs_border_sub_le (hsizes : ∀ s ∈ sizes, 0 ≤ s) (hsum : 0 < sizes.sum) (length k : ℕ) :
    |(border sizes length k : ℚ) - (sizes.take k).sum / sizes.sum * length| ≤ 1 / 2 :=
  Scalar.abs_pixelOfRat_sub_le (place_nonneg hsizes hsum length k)

theorem length_breakpoints_of_sum_pos (hsum : 0 < sizes.sum) (length : ℕ) :
    (breakpoints sizes length).length + 1 = sizes.length := by
  have hne : sizes ≠ [] := by
    rintro rfl
    exact lt_irrefl 0 hsum
  rw [breakpoints_eq_map hsum, List.length_map, List.length_range]
  exact Nat.sub_add_cancel (List.length_pos_iff.mpr hne)

theorem pairwise_breakpoints (hsizes : ∀ s ∈ sizes, 0 ≤ s) (hsum : 0 < sizes.sum) (length : ℕ) :
    (breakpoints sizes length).Pairwise (· ≤ ·) := by
  rw [breakpoints_eq_map hsum, List.pairwise_map]
  apply List.pairwise_lt_range.imp
  intro k k' hlt
  exact border_le_border hsizes hsum length (Nat.succ_le_succ hlt.le)

theorem breakpoints_bounds (hsizes : ∀ s ∈ sizes, 0 ≤ s) (hsum : 0 < sizes.sum) {length : ℕ}
    {x : ℤ} (hx : x ∈ breakpoints sizes length) : 0 ≤ x ∧ x ≤ length := by
  rw [breakpoints_eq_map hsum] at hx
  obtain ⟨k, hk, rfl⟩ := List.mem_map.mp hx
  have hlast : k + 1 ≤ sizes.length := by
    have hlt := List.mem_range.mp hk
    omega
  have hlow := border_le_border hsizes hsum length (Nat.zero_le (k + 1))
  have hhigh := border_le_border hsizes hsum length hlast
  rw [border_zero] at hlow
  rw [border_length hsum] at hhigh
  exact ⟨hlow, hhigh⟩

end Borders

/-! ## Cells -/

theorem neighbors_map_range (f : ℕ → ℤ) (n : ℕ) :
    neighbors ((List.range (n + 1)).map f) = (List.range n).map fun k ↦ (f k, f (k + 1)) := by
  apply List.ext_getElem
  · simp [neighbors]
  · intro k hk hk'
    simp [neighbors]

theorem intervals_of_ascending {low high : ℤ} {borders : List ℤ} (hle : low ≤ high)
    (hborders : ∀ x ∈ borders, low ≤ x ∧ x ≤ high) (hpairwise : borders.Pairwise (· ≤ ·)) :
    intervals low high borders = neighbors (low :: (borders ++ [high])) := by
  have hascending : (low :: (borders ++ [high])).Pairwise (· ≤ ·) := by
    rw [List.pairwise_cons, List.pairwise_append]
    refine ⟨fun x hx ↦ ?_, hpairwise, List.pairwise_singleton _ _, fun x hx y hy ↦ ?_⟩
    · rcases List.mem_append.mp hx with hx | hx
      · exact (hborders x hx).1
      · rw [List.mem_singleton.mp hx]
        exact hle
    · rw [List.mem_singleton.mp hy]
      exact (hborders x hx).2
  have hperm : (low :: high :: borders).Perm (low :: (borders ++ [high])) :=
    (List.perm_append_singleton high borders).symm.cons low
  have hsorted : ((low :: high :: borders).mergeSort fun a b ↦ decide (a ≤ b)).Pairwise
      fun a b ↦ decide (a ≤ b) = true := by
    apply List.pairwise_mergeSort
    · intro a b c hab hbc
      exact decide_eq_true ((of_decide_eq_true hab).trans (of_decide_eq_true hbc))
    · intro a b
      rw [Bool.or_eq_true, decide_eq_true_iff, decide_eq_true_iff]
      exact le_total a b
  simp only [decide_eq_true_eq] at hsorted
  rw [intervals]
  congr 1
  apply List.Perm.eq_of_pairwise _ hsorted hascending ((List.mergeSort_perm _ _).trans hperm)
  exact fun a b _ _ hab hba ↦ le_antisymm hab hba

/-- The parts of a length that begins at some place. -/
def partsFrom (low : ℤ) (sizes : List ℚ) (length : ℕ) : List (ℤ × ℤ) :=
  intervals low (low + length) ((breakpoints sizes length).map (· + low))

section Parts

variable {sizes : List ℚ}

theorem partsFrom_eq_neighbors (hsizes : ∀ s ∈ sizes, 0 ≤ s) (hsum : 0 < sizes.sum) (low : ℤ)
    (length : ℕ) : partsFrom low sizes length =
      neighbors (low :: ((breakpoints sizes length).map (· + low) ++ [low + length])) := by
  apply intervals_of_ascending
  · omega
  · intro x hx
    obtain ⟨y, hy, rfl⟩ := List.mem_map.mp hx
    have hbounds := breakpoints_bounds hsizes hsum hy
    constructor <;> omega
  · rw [List.pairwise_map]
    apply (pairwise_breakpoints hsizes hsum length).imp
    intro x y hle
    exact Int.add_le_add_right hle low

theorem partsFrom_eq_map (hsizes : ∀ s ∈ sizes, 0 ≤ s) (hsum : 0 < sizes.sum) (low : ℤ)
    (length : ℕ) : partsFrom low sizes length = (List.range sizes.length).map fun k ↦
      (border sizes length k + low, border sizes length (k + 1) + low) := by
  obtain ⟨n, hn⟩ : ∃ n, sizes.length = n + 1 :=
    ⟨_, (length_breakpoints_of_sum_pos hsum length).symm⟩
  have hlast : border sizes length (n + 1) = length := by
    rw [← hn]
    exact border_length hsum length
  rw [partsFrom_eq_neighbors hsizes hsum, breakpoints_eq_map hsum, hn,
    ← neighbors_map_range fun k ↦ border sizes length k + low, List.range_succ,
    List.range_succ_eq_map]
  simp [border_zero, hlast, Function.comp_def, Int.add_comm]

/-- A part is as long as its share, but for a pixel. -/
theorem abs_part_sub_le (hsizes : ∀ s ∈ sizes, 0 ≤ s) (hsum : 0 < sizes.sum) (length : ℕ) {k : ℕ}
    (hk : k < sizes.length) :
    |((border sizes length (k + 1) - border sizes length k : ℤ) : ℚ) -
      length * sizes[k] / sizes.sum| ≤ 1 := by
  have hbegin := abs_le.mp (abs_border_sub_le hsizes hsum length k)
  have hend := abs_le.mp (abs_border_sub_le hsizes hsum length (k + 1))
  have hshare : (sizes.take (k + 1)).sum / sizes.sum * length =
      (sizes.take k).sum / sizes.sum * length + length * sizes[k] / sizes.sum := by
    rw [List.sum_take_succ sizes k hk]
    ring
  rw [hshare] at hend
  push_cast
  rw [abs_le]
  constructor <;> linarith

end Parts

/-- Sizes divide a length in proportion to them.  There is one border less than there are parts,
the borders ascend within the length, and the parts go from border to border.  Each part is as
long as its share, but for a pixel. -/
structure DividesByShares (sizes : List ℚ) (length : ℕ) : Prop where
  count : (breakpoints sizes length).length + 1 = sizes.length
  ascending : (breakpoints sizes length).Pairwise (· ≤ ·)
  inside : ∀ x ∈ breakpoints sizes length, 0 ≤ x ∧ x ≤ length
  consecutive : ∀ low, partsFrom low sizes length =
    neighbors (low :: ((breakpoints sizes length).map (· + low) ++ [low + length]))
  near : ∀ low, List.Forall₂
    (fun part size ↦ |((part.2 - part.1 : ℤ) : ℚ) - length * size / sizes.sum| ≤ 1)
    (partsFrom low sizes length) sizes

theorem dividesByShares {sizes : List ℚ} (hsizes : ∀ s ∈ sizes, 0 ≤ s) (hsum : 0 < sizes.sum)
    (length : ℕ) : DividesByShares sizes length where
  count := length_breakpoints_of_sum_pos hsum length
  ascending := pairwise_breakpoints hsizes hsum length
  inside _ hx := breakpoints_bounds hsizes hsum hx
  consecutive low := partsFrom_eq_neighbors hsizes hsum low length
  near low := by
    rw [partsFrom_eq_map hsizes hsum, List.forall₂_iff_get]
    refine ⟨by simp, fun k hk hk' ↦ ?_⟩
    have hnear := abs_part_sub_le hsizes hsum length hk'
    simpa using hnear

theorem dividesByShares_of_arePositive {sizes : List ℚ} (h : FigureLayout.ArePositive sizes)
    (length : ℕ) : DividesByShares sizes length := by
  cases sizes with
  | nil => exact h.elim
  | cons size rest =>
      obtain ⟨hsize, hrest⟩ := h
      have hnonneg : ∀ s ∈ rest, 0 ≤ s := fun s hs ↦ not_lt.mp (hrest s hs)
      apply dividesByShares
      · exact List.forall_mem_cons.mpr ⟨le_of_lt hsize, hnonneg⟩
      · rw [List.sum_cons]
        exact add_pos_of_pos_of_nonneg hsize (List.sum_nonneg hnonneg)

/-- Sizes that are not negative and have a positive sum divide every length in proportion to them.
The columns and the rows of valid figures are such sizes. -/
theorem sizes_divide_by_shares :
    (∀ sizes : List ℚ, (∀ s ∈ sizes, 0 ≤ s) → 0 < sizes.sum → ∀ length,
      DividesByShares sizes length) ∧
    ∀ f : LatencyFigure ℚ, f.fault? = none → ∀ index : SelectionIndex, ∃ l,
      f.layout index = .ok l ∧ l.columnSpans = partsFrom 0 l.columnWidths l.width ∧
        ∀ length, DividesByShares l.columnWidths length ∧ DividesByShares l.rowHeights length := by
  refine ⟨fun sizes hsizes hsum length ↦ dividesByShares hsizes hsum length, ?_⟩
  intro f hvalid index
  have h := LatencyFigure.consistent_of_fault? hvalid
  rw [LatencyFigure.layout, hvalid]
  refine ⟨_, rfl, ?_, fun length ↦ ⟨?_, ?_⟩⟩
  · simp [FigureLayout.columnSpans, partsFrom]
  · exact dividesByShares_of_arePositive (LatencyFigure.arePositive_columnWidths h) length
  · exact dividesByShares_of_arePositive (LatencyFigure.arePositive_rowHeights h) length

/-- Sizes that no border between them divides evenly, one of them zero. -/
def unevenSizes : List ℚ := [5, 1, 9 / 10, 0, 5, 1]

theorem unevenSizes_divide_by_shares :
    breakpoints unevenSizes 1000 = [388, 465, 535, 535, 922] ∧ DividesByShares unevenSizes 1000 ∧
    partsFrom 0 unevenSizes 1000 =
      [(0, 388), (388, 465), (465, 535), (535, 535), (535, 922), (922, 1000)] ∧
    ∃ l, (LatencyFigure.splitFigure : LatencyFigure ℚ).layout (selectAll []) = .ok l ∧
      DividesByShares l.columnWidths l.width := by
  have hsizes : ∀ s ∈ unevenSizes, 0 ≤ s := by decide +kernel
  have hsum : 0 < unevenSizes.sum := by decide +kernel
  have hvalid : (LatencyFigure.splitFigure : LatencyFigure ℚ).fault? = none := by decide +kernel
  have hborders : breakpoints unevenSizes 1000 = [388, 465, 535, 535, 922] := by decide +kernel
  have hdivides := sizes_divide_by_shares.1 unevenSizes hsizes hsum 1000
  obtain ⟨l, hl, -, hlengths⟩ :=
    sizes_divide_by_shares.2 LatencyFigure.splitFigure hvalid (selectAll [])
  refine ⟨hborders, hdivides, ?_, l, hl, (hlengths l.width).1⟩
  rw [hdivides.consecutive, hborders]
  rfl

end QueryBench
