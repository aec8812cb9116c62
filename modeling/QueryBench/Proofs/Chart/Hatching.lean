import QueryBench.Chart.Hatch

/-!
# Lines of a hatching

A diagonal that passes between the upper left and the lower right corner of a rectangle always
has a part inside it.  So the hatching of a rectangle has a line for each multiple of the spacing
between these corners, and the line is all of its diagonal that the rectangle has.
-/

namespace QueryBench
namespace PixelRect

variable {r : PixelRect} {p : Pixel} {c : Int}

/-- The pixel is in the rectangle, borders included. -/
def Contains (r : PixelRect) (p : Pixel) : Prop :=
  (r.left ≤ p.1 ∧ p.1 ≤ r.right) ∧ r.top ≤ p.2 ∧ p.2 ≤ r.bottom

/-- The pixel is on one of the four borders. -/
def OnBorder (r : PixelRect) (p : Pixel) : Prop :=
  r.Contains p ∧ (p.1 = r.left ∨ p.1 = r.right ∨ p.2 = r.top ∨ p.2 = r.bottom)

/-- The pixel is on a line that rises to the right, between the ends of the line. -/
def OnLine (line : Pixel × Pixel) (p : Pixel) : Prop :=
  p.1 + p.2 = line.1.1 + line.1.2 ∧ line.1.1 ≤ p.1 ∧ p.1 ≤ line.2.1

theorem isEmpty_eq_false_iff : r.isEmpty = false ↔ r.left < r.right ∧ r.top < r.bottom := by
  rw [isEmpty, decide_eq_false_iff_not, not_or, Int.not_le, Int.not_le]

/-! ## One diagonal -/

/-- From the left or lower border to the upper or right one, along the diagonal with sum `c`. -/
def diagonal (r : PixelRect) (c : Int) : Pixel × Pixel :=
  let first := max r.left (c - r.bottom)
  let last := min r.right (c - r.top)
  ((first, c - first), (last, c - last))

/-- No diagonal between the corners is lost to the clipping. -/
theorem diagonal?_eq_some (hproper : r.isEmpty = false) (hlow : r.left + r.top < c)
    (hhigh : c < r.right + r.bottom) : r.diagonal? c = some (r.diagonal c) := by
  obtain ⟨hwidth, hheight⟩ := isEmpty_eq_false_iff.mp hproper
  have hlt : max r.left (c - r.bottom) < min r.right (c - r.top) := by omega
  exact if_pos hlt

/-- A line is the part of the diagonal with sum `c` in the rectangle: it rises to the right from
border to border, and every pixel of the rectangle on the diagonal is on it. -/
structure CoversDiagonal (r : PixelRect) (c : Int) (line : Pixel × Pixel) : Prop where
  first_sum : line.1.1 + line.1.2 = c
  last_sum : line.2.1 + line.2.2 = c
  rises : line.1.1 < line.2.1
  first_onBorder : r.OnBorder line.1
  last_onBorder : r.OnBorder line.2
  onLine_iff : ∀ p, OnLine line p ↔ r.Contains p ∧ p.1 + p.2 = c

theorem diagonal_sum :
    (r.diagonal c).1.1 + (r.diagonal c).1.2 = c ∧ (r.diagonal c).2.1 + (r.diagonal c).2.2 = c := by
  simp only [diagonal]
  omega

theorem diagonal_onBorder (hproper : r.isEmpty = false) (hlow : r.left + r.top < c)
    (hhigh : c < r.right + r.bottom) :
    r.OnBorder (r.diagonal c).1 ∧ r.OnBorder (r.diagonal c).2 := by
  obtain ⟨hwidth, hheight⟩ := isEmpty_eq_false_iff.mp hproper
  simp only [OnBorder, Contains, diagonal]
  omega

theorem onLine_diagonal_iff :
    OnLine (r.diagonal c) p ↔ r.Contains p ∧ p.1 + p.2 = c := by
  simp only [OnLine, Contains, diagonal]
  omega

theorem coversDiagonal_diagonal (hproper : r.isEmpty = false) (hlow : r.left + r.top < c)
    (hhigh : c < r.right + r.bottom) : r.CoversDiagonal c (r.diagonal c) := by
  obtain ⟨hfirst, hlast⟩ := diagonal_onBorder hproper hlow hhigh
  have hrises : (r.diagonal c).1.1 < (r.diagonal c).2.1 := by
    obtain ⟨hwidth, hheight⟩ := isEmpty_eq_false_iff.mp hproper
    simp only [diagonal]
    omega
  exact ⟨diagonal_sum.1, diagonal_sum.2, hrises, hfirst, hlast, fun _ ↦ onLine_diagonal_iff⟩

/-! ## All diagonals -/

variable {step : Nat}

theorem diagonalsFrom_of_le (h : r.right + r.bottom ≤ c) : r.diagonalsFrom step c = [] := by
  rw [diagonalsFrom, dif_neg]
  exact fun hlt ↦ absurd hlt.1 (Int.not_lt.mpr h)

theorem diagonalsFrom_of_lt (hproper : r.isEmpty = false) (hstep : 0 < step)
    (hlow : r.left + r.top < c) (hhigh : c < r.right + r.bottom) :
    r.diagonalsFrom step c = r.diagonal c :: r.diagonalsFrom step (c + step) := by
  rw [diagonalsFrom, dif_pos ⟨hhigh, hstep⟩, diagonal?_eq_some hproper hlow hhigh]
  rfl

theorem add_step_add_mul (c : Int) (step k : Nat) :
    c + step + k * step = c + (k + 1) * step := by
  rw [Int.add_mul, Int.one_mul]
  omega

/-- From a sum that is `n` steps short of the lower right corner there are `n` diagonals. -/
theorem diagonalsFrom_eq_map (hproper : r.isEmpty = false) (hstep : 0 < step)
    {n : Nat} (hlow : r.left + r.top < c) (hend : r.right + r.bottom ≤ c + n * step)
    (hbefore : ∀ k : Nat, k < n → c + k * step < r.right + r.bottom) :
    r.diagonalsFrom step c = (List.range n).map fun (k : Nat) ↦ r.diagonal (c + k * step) := by
  induction n generalizing c with
  | zero => exact diagonalsFrom_of_le (by simpa using hend)
  | succ n ih =>
      have hhigh : c < r.right + r.bottom := by simpa using hbefore 0 (Nat.succ_pos n)
      have hlow' : r.left + r.top < c + step := by omega
      have hend' : r.right + r.bottom ≤ c + step + n * step := by
        rw [add_step_add_mul]
        exact hend
      have hbefore' : ∀ k : Nat, k < n → c + step + k * step < r.right + r.bottom := by
        intro k hk
        rw [add_step_add_mul]
        exact hbefore (k + 1) (Nat.succ_lt_succ hk)
      rw [diagonalsFrom_of_lt hproper hstep hlow hhigh, ih hlow' hend' hbefore',
        List.range_succ_eq_map, List.map_cons, List.map_map]
      congr 1
      · simp
      · apply List.map_congr_left
        intro k _
        rw [add_step_add_mul]
        rfl

/-- How many multiples of the spacing lie between the corners. -/
def lineCount (r : PixelRect) (spacing : Nat) : Nat :=
  ((r.width + r.height - 1) / spacing).toNat

theorem lineCount_eq (hproper : r.isEmpty = false) (spacing : Nat) :
    (r.lineCount spacing : Int) = (r.width + r.height - 1) / spacing := by
  obtain ⟨hwidth, hheight⟩ := isEmpty_eq_false_iff.mp hproper
  apply Int.toNat_of_nonneg
  apply Int.ediv_nonneg _ (Int.natCast_nonneg spacing)
  rw [width, height]
  omega

theorem lt_lineCount_iff (hproper : r.isEmpty = false) {spacing : Nat} (hspacing : 0 < spacing)
    {k : Nat} :
    k < r.lineCount spacing ↔ r.left + r.top + (k + 1) * spacing < r.right + r.bottom := by
  have hpos : (0 : Int) < spacing := Int.natCast_pos.mpr hspacing
  rw [← Int.ofNat_lt, lineCount_eq hproper, ← Int.add_one_le_iff, Int.le_ediv_iff_mul_le hpos,
    width, height]
  omega

theorem hatchLines_eq_map (hproper : r.isEmpty = false) {spacing : Nat} (hspacing : 0 < spacing) :
    r.hatchLines spacing = (List.range (r.lineCount spacing)).map fun (k : Nat) ↦
      r.diagonal (r.left + r.top + (k + 1) * spacing) := by
  rw [hatchLines, if_neg (by simp [hproper]),
    diagonalsFrom_eq_map (n := r.lineCount spacing) hproper hspacing (by omega)]
  · simp only [add_step_add_mul]
  · rw [add_step_add_mul, ← Int.not_lt, ← lt_lineCount_iff hproper hspacing]
    exact Nat.lt_irrefl _
  · intro k hk
    rw [add_step_add_mul]
    exact (lt_lineCount_iff hproper hspacing).mp hk

/-- An empty rectangle has no lines.  The lines of another are as many as multiples of the spacing
lie between its upper left and lower right corner, one for each, and each is all of its diagonal
that lies in the rectangle; so of the pixels on these diagonals none but that corner is left out. -/
theorem hatchLines_cover_diagonals (r : PixelRect) {spacing : Nat} (hspacing : 0 < spacing) :
    (r.isEmpty = true → r.hatchLines spacing = []) ∧
    (r.isEmpty = false →
      ((r.hatchLines spacing).length : Int) = (r.width + r.height - 1) / spacing ∧
      (∀ (k : Nat) (line : Pixel × Pixel), (r.hatchLines spacing)[k]? = some line →
        r.CoversDiagonal (r.left + r.top + (k + 1) * spacing) line) ∧
      ∀ p, r.Contains p → p ≠ (r.right, r.bottom) → ∀ k : Nat,
        p.1 + p.2 = r.left + r.top + (k + 1) * spacing →
          ∃ line, (r.hatchLines spacing)[k]? = some line ∧ OnLine line p) := by
  refine ⟨fun hempty ↦ if_pos hempty, fun hproper ↦ ?_⟩
  have hline : ∀ k < r.lineCount spacing, (r.hatchLines spacing)[k]? =
      some (r.diagonal (r.left + r.top + (k + 1) * spacing)) := by
    intro k hk
    rw [hatchLines_eq_map hproper hspacing, List.getElem?_map, List.getElem?_range hk]
    rfl
  have hlength : (r.hatchLines spacing).length = r.lineCount spacing := by
    rw [hatchLines_eq_map hproper hspacing, List.length_map, List.length_range]
  refine ⟨?count, ?each, ?complete⟩
  case count => rw [hlength, lineCount_eq hproper]
  case each =>
    intro k line hk
    have hlt : k < r.lineCount spacing := hlength ▸ (List.getElem?_eq_some_iff.mp hk).1
    obtain rfl := Option.some.inj ((hline k hlt).symm.trans hk)
    apply coversDiagonal_diagonal hproper _ ((lt_lineCount_iff hproper hspacing).mp hlt)
    have hpos : (0 : Int) < (k + 1) * spacing :=
      Int.mul_pos (Int.natCast_succ_pos k) (Int.natCast_pos.mpr hspacing)
    omega
  case complete =>
    intro p hp hcorner k hk
    have hhigh : p.1 + p.2 < r.right + r.bottom := by
      have hne : ¬ (p.1 = r.right ∧ p.2 = r.bottom) := fun h ↦ hcorner (Prod.ext h.1 h.2)
      unfold Contains at hp
      omega
    rw [hk, ← lt_lineCount_iff hproper hspacing] at hhigh
    exact ⟨_, hline k hhigh, onLine_diagonal_iff.mpr ⟨hp, hk⟩⟩

/-- A rectangle of which one corner is left of the origin; the second of its lines ends on the right
border. -/
theorem hatchLines_of_square :
    0 < 5 ∧ (⟨-3, 2, 4, 9⟩ : PixelRect).isEmpty = false ∧
    ((⟨-3, 2, 4, 9⟩ : PixelRect).hatchLines 5).length = 2 ∧
    ∃ line, ((⟨-3, 2, 4, 9⟩ : PixelRect).hatchLines 5)[1]? = some line ∧
      OnLine line (4, 5) ∧ (⟨-3, 2, 4, 9⟩ : PixelRect).CoversDiagonal 9 line := by
  have hspacing : 0 < 5 := by decide
  have hproper : (⟨-3, 2, 4, 9⟩ : PixelRect).isEmpty = false := by decide
  obtain ⟨hcount, heach, hcomplete⟩ := (hatchLines_cover_diagonals ⟨-3, 2, 4, 9⟩ hspacing).2 hproper
  obtain ⟨line, hline, hmem⟩ :=
    hcomplete (4, 5) (by simp [Contains]) (by decide) 1 (by decide)
  exact ⟨hspacing, hproper, Int.ofNat.inj hcount, line, hline, hmem, heach 1 line hline⟩

end PixelRect
end QueryBench
