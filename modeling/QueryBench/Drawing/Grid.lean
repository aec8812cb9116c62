import QueryBench.Chart.Hatch
import QueryBench.LatencyFigure.Layout

/-!
# The grid of a figure

The canvas below the legend is divided into columns and rows by relative sizes.
The offsets between them are rounded from running totals, so that rounding does
not add up.
-/

namespace QueryBench

variable {α : Type} [Scalar α]

/-- Height of the legend above a figure. -/
def legendHeight : Nat := 48

/-- Running totals of sizes. -/
def runningTotals (total : α) : List α → List α
  | [] => []
  | size :: rest => (total + size) :: runningTotals (total + size) rest

def totalSize (sizes : List α) : α := sizes.foldl (· + ·) 0

/-- Offsets of the borders between parts of some relative sizes; none where the
sizes have no positive sum. -/
def breakpoints (sizes : List α) (length : Nat) : List Int :=
  let total := totalSize sizes
  if total ≤ 0 then []
  else
    (runningTotals 0 sizes.dropLast).map fun t ↦
      Scalar.pixel (t / total * Scalar.ofNat length)

def neighbors (xs : List Int) : List (Int × Int) := xs.zip xs.tail

/-- The intervals between two ends and some borders, all of them in ascending order. -/
def intervals (low high : Int) (borders : List Int) : List (Int × Int) :=
  neighbors ((low :: high :: borders).mergeSort fun a b ↦ decide (a ≤ b))

/-- The cells that vertical and horizontal borders cut a rectangle into, row by row.
Borders beyond the rectangle make cells beyond it. -/
def PixelRect.cells (r : PixelRect) (xs ys : List Int) : List PixelRect :=
  (intervals r.top r.bottom ys).flatMap fun y ↦
    (intervals r.left r.right xs).map fun x ↦ ⟨x.1, y.1, x.2, y.2⟩

namespace FigureLayout

/-- The height below the legend.  Heights are numbers of 32 bits, so that it wraps
around on a canvas lower than the legend. -/
def gridHeight (l : FigureLayout α) : Nat :=
  (UInt32.ofNat l.height - UInt32.ofNat legendHeight).toNat

/-- The cells of the grid, row by row. -/
def cells (l : FigureLayout α) : List PixelRect :=
  PixelRect.cells ⟨0, legendHeight, l.width, l.height⟩ (breakpoints l.columnWidths l.width)
    ((breakpoints l.rowHeights l.gridHeight).map fun y ↦ y + (legendHeight : Int))

/-- The cell of a panel. -/
def cell? (l : FigureLayout α) (p : Panel α) : Option PixelRect :=
  l.cells[p.row * l.columnWidths.length + p.column]?

end FigureLayout
end QueryBench
