import QueryBench.Drawing.Element
import QueryBench.Drawing.Grid
import QueryBench.Drawing.Ticks

/-!
# Plots

A plot maps values to pixels of a rectangle that is left of a cell once margins,
title and labels have their room.  In a cell too small for that the borders between
its parts change places, and labels stand wherever such a part has pixels.
-/

namespace QueryBench

structure Plot where
  canvas : PixelRect
  /-- The pixels that values are mapped to. -/
  area : PixelRect
  /-- The part left of them. -/
  left : PixelRect
  /-- The part right of them. -/
  right : PixelRect
  xLow : Float
  xHigh : Float
  yLow : Float
  yHigh : Float

structure PlotFrame where
  title : Option String
  /-- Width of the labels at the left. -/
  left : Int
  /-- Width of the labels at the right. -/
  right : Int

namespace PlotFrame

def margin : Int := 8

def titleHeight : Int := 25

def bottomHeight : Int := 28

/-- The cell without its margins. -/
def room (cell : PixelRect) : PixelRect :=
  ⟨cell.left + margin, cell.top + margin, cell.right - margin, cell.bottom - margin⟩

/-- The room below the title. -/
def body (f : PlotFrame) (cell : PixelRect) : PixelRect :=
  let r := room cell
  { r with top := r.top + if f.title.isSome then titleHeight else 0 }

/-- The nine parts that the labels leave of the room below the title. -/
def parts (f : PlotFrame) (cell : PixelRect) : List PixelRect :=
  let r := f.body cell
  r.cells [r.left + f.left, r.right - f.right] [r.top, r.bottom - bottomHeight]

/-- The plot of some ranges in the middle part. -/
def plot (f : PlotFrame) (canvas cell : PixelRect) (xLow xHigh yLow yHigh : Float) : Plot :=
  let part (k : Nat) : PixelRect := ((f.parts cell)[k]?).getD cell
  { canvas := canvas
    area := part 4
    left := part 3
    right := part 5
    xLow := xLow
    xHigh := xHigh
    yLow := yLow
    yHigh := yHigh }

def titleElements (f : PlotFrame) (cell : PixelRect) : List Element :=
  let r := room cell
  match f.title with
  | none => []
  | some title =>
      [.text (r.left + r.width.tdiv 2, r.top + 5) ⟨.middle, .top, 18, .across⟩ title]

end PlotFrame

namespace Plot

/-- An integer of 32 bits. -/
def int32 (pick : Binary → Int) (x : Float) : Int :=
  (FloatClass.ofFloat x).clampedInt pick Int32.minValue.toInt Int32.maxValue.toInt

/-- Where a value of a range stands between two pixels. -/
def position (low high v : Float) (first last : Int) : Int :=
  if high == low then (last - first).tdiv 2
  else
    let share := (v - low) / (high - low)
    let length := last - first
    if length = 0 then last
    else if share.isInf then if 0.0 < share then last else first
    else if 0 < length then first + int32 Binary.floor (Float.ofInt length * share + 0.001)
    else first + int32 Binary.ceil (Float.ofInt length * share - 0.001)

def point (p : Plot) (x y : Float) : Pixel :=
  (position p.xLow p.xHigh x p.area.left (p.area.right - 1),
    position p.yLow p.yHigh y (p.area.bottom - 1) p.area.top)

def tickLength (p : Plot) : Int :=
  min 5 (int32 Binary.nearest (0.05 * Float.ofInt (min p.area.width p.area.height)))

def labelSize : Nat := 14

/-- Marks of the value axis with their texts. -/
def marks (p : Plot) (most : Nat) (text : Float → String) : List (Int × String) :=
  (Ticks.marks p.yLow p.yHigh most).map fun v ↦ ((p.point p.xLow v).2, text v)

def isShown (p : Plot) (mark : Int × String) : Bool :=
  decide (p.area.top ≤ mark.1 ∧ mark.1 ≤ p.area.bottom - 1)

def leftLabel (p : Plot) (mark : Int × String) : Element :=
  .text (p.area.left - 2 * p.tickLength, mark.1) ⟨.«end», .center, labelSize, .across⟩ mark.2

/-- About how wide a text is. -/
def textWidth (size : Nat) (s : String) : Int :=
  int32 Binary.nearest (Float.ofNat size / 1.24 / 1.24 * 0.7 * Float.ofNat s.utf8ByteSize)

/-- The width that labels at the right are aligned to: that of the widest one less
than twice as wide as the narrowest. -/
def alignedWidth (widths : List Int) : Int :=
  let narrowest := max 1 (widths.min?.getD 1)
  let widest := ((widths.filter (· < 2 * narrowest)).max?).getD narrowest
  min (2 * narrowest) widest

def rightLabel (p : Plot) (aligned : Int) (mark : Int × String) : Element :=
  let x := p.area.right + 2 * p.tickLength
  if aligned ≤ textWidth labelSize mark.2 then
    .text (x, mark.1) ⟨.start, .center, labelSize, .across⟩ mark.2
  else .text (x + aligned, mark.1) ⟨.«end», .center, labelSize, .across⟩ mark.2

/-- The caption of the axis, upwards at the left and downwards at the right. -/
def captions (p : Plot) : Option String → List Element
  | none => []
  | some caption =>
      let middle := p.area.top + p.area.height.tdiv 2
      (if p.left.isEmpty then []
        else [.text (p.left.left, middle) ⟨.middle, .top, labelSize, .up⟩ caption]) ++
        if p.right.isEmpty then []
        else [.text (p.right.right, middle) ⟨.middle, .top, labelSize, .down⟩ caption]

/-- The labels at the left, from below. -/
def leftLabels (p : Plot) (marks : List (Int × String)) : List Element :=
  if p.left.isEmpty then [] else (marks.filter p.isShown).map p.leftLabel

/-- The labels at the right, from below. -/
def rightLabels (p : Plot) (marks : List (Int × String)) : List Element :=
  let aligned := alignedWidth (marks.map fun m ↦ textWidth labelSize m.2)
  if p.right.isEmpty then [] else (marks.filter p.isShown).map (p.rightLabel aligned)

def axis (p : Plot) (caption : Option String) (marks : List (Int × String)) : List Element :=
  p.captions caption ++ p.leftLabels marks ++ p.rightLabels marks

/-- The two elements of a box. -/
def box (p : Plot) (a b : Pixel) (color : Color) : List Element :=
  [.filled p.area a b color, .outlined p.area a b]

def groupLabel (p : Plot) (x y : Float) (label : String) : Element :=
  let place := p.point x y
  .textIn p.canvas (place.1, place.2 + 6) ⟨.middle, .top, labelSize, .across⟩ label

end Plot
end QueryBench
