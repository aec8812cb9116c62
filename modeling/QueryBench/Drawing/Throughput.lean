import QueryBench.Drawing.Legend
import QueryBench.Drawing.Plot
import QueryBench.ThroughputFigure.Layout

/-!
# Drawing throughput figures

One plot below the legend, with bars from the low end of the axis and a dashed line
at the reference value.
-/

namespace QueryBench
namespace ThroughputLayout

def frame : PlotFrame := ⟨none, 56, 0⟩

def plot (l : ThroughputLayout Float) : Plot :=
  frame.plot ⟨0, 0, l.width, l.height⟩ ⟨0, legendHeight, l.width, l.height⟩ l.xLow l.xHigh
    l.yLow l.yHigh

def barElements (l : ThroughputLayout Float) (b : ThroughputBar Float) :
    Except DrawingFault (List Element) :=
  if b.value ≤ l.yLow then .ok []
  else
    (drawingColor b.color).map fun color ↦
      l.plot.box (l.plot.point (b.x - b.width / 2.0) l.yLow)
        (l.plot.point (b.x + b.width / 2.0) (Scalar.smaller b.value l.yHigh)) color

def groupElements (l : ThroughputLayout Float) (g : ThroughputGroup Float) :
    Except DrawingFault (List Element) :=
  (drawAll l.barElements g.bars).map fun bars ↦
    bars ++ [l.plot.groupLabel g.x l.yLow g.label]

/-- Dashes from `x` on, each followed by a blank of its length; at most `n`. -/
def dashesFrom (l : ThroughputLayout Float) (dash : Float) : Nat → Float → List Element
  | 0, _ => []
  | n + 1, x =>
      if x < l.xHigh then
        .lineIn l.plot.area (l.plot.point x l.referenceLine)
            (l.plot.point (Scalar.smaller (x + dash) l.xHigh) l.referenceLine) 2 ::
          l.dashesFrom dash n (x + 2.0 * dash)
      else []

/-- The line at the reference value, which has about forty dashes. -/
def dashes (l : ThroughputLayout Float) : List Element :=
  l.dashesFrom ((l.xHigh - l.xLow) / 80.0) 80 l.xLow

/-- The drawing of a figure. -/
def drawing (l : ThroughputLayout Float) : Except DrawingFault (List Element) :=
  match legendElements l.width 6 l.legend with
  | .error fault => .error fault
  | .ok legend =>
      (drawAll l.groupElements l.groups).map fun groups ↦
        canvasElements l.width l.height ++ legend ++
          l.plot.axis (some "Relative Throughput") (l.plot.marks 10 (Decimal.fixedText 1)) ++
          groups ++ l.dashes

end ThroughputLayout
end QueryBench
