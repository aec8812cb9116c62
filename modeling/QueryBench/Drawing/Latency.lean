import QueryBench.Drawing.Legend
import QueryBench.Drawing.Plot

/-!
# Drawing latency figures

Each panel is drawn into its cell: the axis, the bars with hatched stalls, the mark
of a broken axis over them, and the labels of the groups.
-/

namespace QueryBench

namespace Panel

def frame (p : Panel Float) : PlotFrame :=
  ⟨p.title, if p.axisOnRight then 0 else 64, if p.axisOnRight then 48 else 0⟩

def plot (p : Panel Float) (canvas cell : PixelRect) : Plot :=
  p.frame.plot canvas cell p.xLow p.xHigh 0.0 p.yTop

/-- The value at a position of the axis. -/
def valueAt (p : Panel Float) (position : Float) : Float :=
  match p.axis with
  | some axis => axis.unproject position
  | none => position

def axisElements (p : Panel Float) (plot : Plot) : List Element :=
  plot.axis (if p.axisOnRight then none else some p.unit.axisLabel)
    (plot.marks 6 fun v ↦ Ticks.latencyText (p.valueAt v))

/-- One segment of a bar. -/
def segmentElements (p : Panel Float) (plot : Plot) (hatchSpacing : Nat) (b : Bar Float)
    (color : Color) (s : Segment Float) : List Element :=
  if 0.0 < s.height then
    let lower := plot.point (b.x - b.width / 2.0) (p.project s.bottom)
    let upper := plot.point (b.x + b.width / 2.0) (p.project s.top)
    plot.box lower upper color ++
      if s.hatched then Element.hatching plot.canvas (.ofCorners lower upper) hatchSpacing else []
  else []

/-- The value of a bar that is cut off. -/
def overflowElements (p : Panel Float) (plot : Plot) (b : Bar Float) : List Element :=
  if b.overflow then
    let place := plot.point b.x p.yTop
    [.textIn plot.canvas (place.1, place.2 + 4) ⟨.middle, .top, 12, .across⟩
      (Decimal.fixedText 1 b.value)]
  else []

def barElements (p : Panel Float) (plot : Plot) (hatchSpacing : Nat) (b : Bar Float) :
    Except DrawingFault (List Element) :=
  (drawingColor b.color).map fun color ↦
    b.segments.flatMap (p.segmentElements plot hatchSpacing b color) ++
      p.overflowElements plot b

/-- The blank band of a broken axis, and a stroke at each of its edges. -/
def tearElements (p : Panel Float) (plot : Plot) : List Element :=
  match p.axis with
  | none => []
  | some axis =>
      let edge := if p.axisOnRight then p.xHigh else p.xLow
      let stroke (position : Float) : Element :=
        let place := plot.point edge position
        .lineIn plot.canvas (place.1 - 6, place.2 + 3) (place.1 + 6, place.2 - 3) 1
      [.filled plot.area (plot.point p.xLow axis.gapStart) (plot.point p.xHigh axis.gapEnd)
        .white, stroke axis.gapStart, stroke axis.gapEnd]

def elements (p : Panel Float) (canvas cell : PixelRect) (hatchSpacing : Nat) :
    Except DrawingFault (List Element) :=
  let plot := p.plot canvas cell
  (drawAll (p.barElements plot hatchSpacing) p.bars).map fun bars ↦
    p.frame.titleElements cell ++ p.axisElements plot ++ bars ++ p.tearElements plot ++
      p.groups.map fun g ↦ plot.groupLabel g.x 0.0 g.label

end Panel

namespace FigureLayout

def panelElements (l : FigureLayout Float) (p : Panel Float) :
    Except DrawingFault (List Element) :=
  match l.cell? p with
  | none => .error (.outsideGrid p.row p.column)
  | some cell => p.elements ⟨0, 0, l.width, l.height⟩ cell l.hatchSpacing

def drawing (l : FigureLayout Float) : Except DrawingFault (List Element) :=
  match legendElements l.width l.hatchSpacing l.legend with
  | .error fault => .error fault
  | .ok legend =>
      (drawAll l.panelElements l.panels).map fun panels ↦
        canvasElements l.width l.height ++ legend ++ panels

end FigureLayout
end QueryBench
