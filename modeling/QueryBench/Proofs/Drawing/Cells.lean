import QueryBench.Drawing.Latency
import QueryBench.Proofs.Arithmetic.PositiveSums

/-!
# Cells of a grid

The borders of a grid cut a canvas into one more column and row than there are borders.  The
cells are counted row by row, so the cell of a panel lies in its column and in its row.
-/

namespace QueryBench

/-- Where a list of pieces is cut, if the pieces before have the same length. -/
theorem getElem?_flatMap_of_length {β γ : Type} {l : List β} {f : β → List γ} {n i j : Nat}
    {b : β} {c : γ} (hi : l[i]? = some b) (hn : ∀ b' ∈ l.take i, (f b').length = n)
    (hj : (f b)[j]? = some c) : (l.flatMap f)[i * n + j]? = some c := by
  induction l generalizing i with
  | nil => cases hi
  | cons b' l ih =>
      rw [List.flatMap_cons]
      cases i with
      | zero =>
          obtain rfl : b' = b := by simpa using hi
          obtain ⟨hlt, -⟩ := List.getElem?_eq_some_iff.mp hj
          rw [Nat.zero_mul, Nat.zero_add, List.getElem?_append_left hlt, hj]
      | succ i =>
          have hlength : (f b').length = n := hn b' (by simp)
          have hrest := ih (i := i) (by simpa using hi) fun b'' hb'' ↦ hn b'' (by simp [hb''])
          have hindex : (i + 1) * n + j = (f b').length + (i * n + j) := by
            rw [hlength, Nat.succ_mul]
            omega
          rw [hindex, List.getElem?_append_right (Nat.le_add_right _ _), Nat.add_sub_cancel_left,
            hrest]

/-! ## Borders -/

theorem length_intervals (low high : Int) (borders : List Int) :
    (intervals low high borders).length = borders.length + 1 := by
  simp [intervals, neighbors]

theorem length_runningTotals {α : Type} [Scalar α] (total : α) (sizes : List α) :
    (runningTotals total sizes).length = sizes.length := by
  induction sizes generalizing total with
  | nil => rfl
  | cons size rest ih => rw [runningTotals, List.length_cons, ih, List.length_cons]

theorem getElem?_cells (r : PixelRect) {xs ys : List Int} {i j : Nat} {x y : Int × Int}
    (hx : (intervals r.left r.right xs)[j]? = some x)
    (hy : (intervals r.top r.bottom ys)[i]? = some y) :
    (r.cells xs ys)[i * (xs.length + 1) + j]? = some ⟨x.1, y.1, x.2, y.2⟩ := by
  apply getElem?_flatMap_of_length hy
  · intro y' _
    rw [List.length_map, length_intervals]
  · rw [List.getElem?_map, hx]
    rfl

variable {α : Type} [Scalar α]

section Totals

variable [Scalar.PositiveSums α]

theorem not_foldl_add_le_zero {total : α} (htotal : ¬ total ≤ 0) {sizes : List α}
    (hsizes : ∀ s ∈ sizes, ¬ s < 0) : ¬ sizes.foldl (· + ·) total ≤ 0 := by
  induction sizes generalizing total with
  | nil => exact htotal
  | cons size rest ih =>
      obtain ⟨hsize, hrest⟩ := List.forall_mem_cons.mp hsizes
      exact ih (Scalar.PositiveSums.pos_add htotal hsize) hrest

/-- Sizes of which the first is positive and none is negative have borders between them. -/
theorem length_breakpoints {size : α} (hsize : 0 < size) {rest : List α}
    (hrest : ∀ s ∈ rest, ¬ s < 0) (length : Nat) :
    (breakpoints (size :: rest) length).length = rest.length := by
  have htotal : ¬ totalSize (size :: rest) ≤ 0 :=
    not_foldl_add_le_zero (Scalar.PositiveSums.pos_zero_add hsize) hrest
  rw [breakpoints, if_neg htotal, List.length_map, length_runningTotals, List.length_dropLast]
  rfl

end Totals

/-! ## Cells of panels -/

namespace FigureLayout

/-- The left and right ends of the columns. -/
def columnSpans (l : FigureLayout α) : List (Int × Int) :=
  intervals 0 l.width (breakpoints l.columnWidths l.width)

/-- The upper and lower ends of the rows. -/
def rowSpans (l : FigureLayout α) : List (Int × Int) :=
  intervals legendHeight l.height
    ((breakpoints l.rowHeights l.gridHeight).map fun y ↦ y + (legendHeight : Int))

/-- The sizes of a grid have a first one that is positive, and none that is negative. -/
def ArePositive : List α → Prop
  | [] => False
  | size :: rest => 0 < size ∧ ∀ s ∈ rest, ¬ s < 0

theorem length_breakpoints_add_one [Scalar.PositiveSums α] {sizes : List α}
    (h : ArePositive sizes) (length : Nat) :
    (breakpoints sizes length).length + 1 = sizes.length := by
  cases sizes with
  | nil => exact h.elim
  | cons size rest => rw [length_breakpoints h.1 h.2, List.length_cons]

/-- The cell of a panel is where its column and its row meet. -/
theorem cell?_eq [Scalar.PositiveSums α] {l : FigureLayout α}
    (hcolumns : ArePositive l.columnWidths) (hrows : ArePositive l.rowHeights) {p : Panel α}
    (hcolumn : p.column < l.columnWidths.length) (hrow : p.row < l.rowHeights.length) :
    ∃ x y, l.columnSpans[p.column]? = some x ∧ l.rowSpans[p.row]? = some y ∧
      l.cell? p = some ⟨x.1, y.1, x.2, y.2⟩ := by
  have hcolumnSpans : l.columnSpans.length = l.columnWidths.length := by
    rw [columnSpans, length_intervals, length_breakpoints_add_one hcolumns]
  have hrowSpans : l.rowSpans.length = l.rowHeights.length := by
    rw [rowSpans, length_intervals, List.length_map, length_breakpoints_add_one hrows]
  have hx := List.getElem?_eq_getElem (hcolumnSpans ▸ hcolumn)
  have hy := List.getElem?_eq_getElem (hrowSpans ▸ hrow)
  have hcell := getElem?_cells ⟨0, legendHeight, l.width, l.height⟩ hx hy
  rw [length_breakpoints_add_one hcolumns] at hcell
  exact ⟨_, _, hx, hy, hcell⟩

end FigureLayout

/-! ## Drawings -/

theorem exists_drawAll {β : Type} {draw : β → Except DrawingFault (List Element)} {bs : List β}
    (h : ∀ b ∈ bs, ∃ elements, draw b = .ok elements) :
    ∃ elements, drawAll draw bs = .ok elements := by
  induction bs with
  | nil => exact ⟨[], rfl⟩
  | cons b rest ih =>
      obtain ⟨⟨elements, hb⟩, hrest⟩ := List.forall_mem_cons.mp h
      obtain ⟨others, hothers⟩ := ih hrest
      refine ⟨elements ++ others, ?_⟩
      rw [drawAll, hb, hothers]
      rfl

theorem exists_drawingColor {s : String} (h : Color.parse? s ≠ none) :
    ∃ color, drawingColor s = .ok color := by
  obtain ⟨color, hcolor⟩ := Option.ne_none_iff_exists'.mp h
  refine ⟨color, ?_⟩
  rw [drawingColor, hcolor]

theorem LegendEntry.exists_elements {e : LegendEntry} (h : Color.parse? e.color ≠ none)
    (area : PixelRect) (hatchSpacing : Nat) (x : Int) :
    ∃ elements, e.elements area hatchSpacing x = .ok elements := by
  obtain ⟨color, hcolor⟩ := exists_drawingColor h
  unfold LegendEntry.elements
  rw [hcolor]
  exact ⟨_, rfl⟩

theorem LegendEntry.snd_mem_of_mem_placed {x : Int} {entries : List LegendEntry}
    {q : Int × LegendEntry} (h : q ∈ LegendEntry.placed x entries) : q.2 ∈ entries := by
  induction entries generalizing x with
  | nil => cases h
  | cons e rest ih =>
      rcases List.mem_cons.mp h with rfl | h
      · exact List.mem_cons_self
      · exact List.mem_cons_of_mem e (ih h)

theorem Panel.exists_elements {p : Panel Float} (h : ∀ b ∈ p.bars, Color.parse? b.color ≠ none)
    (canvas cell : PixelRect) (hatchSpacing : Nat) :
    ∃ elements, p.elements canvas cell hatchSpacing = .ok elements := by
  have hbars : ∀ b ∈ p.bars, ∃ elements,
      p.barElements (p.plot canvas cell) hatchSpacing b = .ok elements := by
    intro b hb
    obtain ⟨color, hcolor⟩ := exists_drawingColor (h b hb)
    unfold Panel.barElements
    rw [hcolor]
    exact ⟨_, rfl⟩
  obtain ⟨elements, helements⟩ := exists_drawAll hbars
  unfold Panel.elements
  dsimp only
  rw [helements]
  exact ⟨_, rfl⟩

/-- A layout is drawn if its colors are colors and each of its panels has a cell. -/
theorem FigureLayout.exists_drawing {l : FigureLayout Float}
    (hlegend : ∀ e ∈ l.legend, Color.parse? e.color ≠ none)
    (hbars : ∀ p ∈ l.panels, ∀ b ∈ p.bars, Color.parse? b.color ≠ none)
    (hcells : ∀ p ∈ l.panels, ∃ cell, l.cell? p = some cell) :
    ∃ elements, l.drawing = .ok elements := by
  have hentries : ∃ elements, legendElements l.width l.hatchSpacing l.legend = .ok elements := by
    apply exists_drawAll
    intro q hq
    exact LegendEntry.exists_elements (hlegend q.2 (LegendEntry.snd_mem_of_mem_placed hq)) _ _ _
  have hpanels : ∃ elements, drawAll l.panelElements l.panels = .ok elements := by
    apply exists_drawAll
    intro p hp
    obtain ⟨cell, hcell⟩ := hcells p hp
    unfold FigureLayout.panelElements
    rw [hcell]
    exact Panel.exists_elements (hbars p hp) _ _ _
  obtain ⟨legend, hlegend⟩ := hentries
  obtain ⟨panels, hpanels⟩ := hpanels
  unfold FigureLayout.drawing
  rw [hlegend]
  dsimp only
  rw [hpanels]
  exact ⟨_, rfl⟩

end QueryBench
