import QueryBench.Drawing.Element
import QueryBench.Drawing.Grid

/-!
# Legends

Swatches and names in a strip above the figure, centered where they fit.
-/

namespace QueryBench

inductive DrawingFault where
  | color (color : String)
  | outsideGrid (row column : Nat)
deriving DecidableEq, Repr

namespace DrawingFault

def message : DrawingFault → String
  | color c => s!"Invalid figure configuration: invalid color '{c}'"
  | outsideGrid row column =>
      s!"Render error: panel at row {row} column {column} is outside the grid"

end DrawingFault

def drawingColor (s : String) : Except DrawingFault Color :=
  match Color.parse? s with
  | some c => .ok c
  | none => .error (.color s)

def drawAll {β : Type} (draw : β → Except DrawingFault (List Element)) :
    List β → Except DrawingFault (List Element)
  | [] => .ok []
  | b :: rest =>
      match draw b with
      | .error fault => .error fault
      | .ok elements => (drawAll draw rest).map (elements ++ ·)

namespace LegendEntry

def swatch : Int := 18

/-- Width of an entry with the blank after it. -/
def width (e : LegendEntry) : Int := swatch + 8 + 8 * e.label.length + 24

/-- An entry whose swatch starts at `x`. -/
def elements (area : PixelRect) (hatchSpacing : Nat) (x : Int) (e : LegendEntry) :
    Except DrawingFault (List Element) :=
  match drawingColor e.color with
  | .error fault => .error fault
  | .ok color =>
      let y := (area.height - swatch).tdiv 2
      let a : Pixel := (x, y)
      let b : Pixel := (x + swatch, y + swatch)
      let hatching :=
        if e.hatched then Element.hatching area (.ofCorners a b) (max (hatchSpacing / 2) 2) else []
      .ok ([.filled area a b color, .outlined area a b] ++ hatching ++
        [.textIn area (x + swatch + 8, y + swatch.tdiv 2) ⟨.start, .center, 15, .across⟩
          e.label])

/-- Entries with the places where they start. -/
def placed (x : Int) : List LegendEntry → List (Int × LegendEntry)
  | [] => []
  | e :: rest => (x, e) :: placed (x + e.width) rest

/-- Width of entries side by side. -/
def totalWidth : List LegendEntry → Int
  | [] => 0
  | e :: rest => e.width + totalWidth rest

end LegendEntry

/-- The legend of a canvas of some width. -/
def legendElements (width hatchSpacing : Nat) (entries : List LegendEntry) :
    Except DrawingFault (List Element) :=
  let area : PixelRect := ⟨0, 0, width, legendHeight⟩
  drawAll (fun p ↦ p.2.elements area hatchSpacing p.1)
    (LegendEntry.placed ((max ((width : Int) - LegendEntry.totalWidth entries) 0).tdiv 2) entries)

def canvasElements (width height : Nat) : List Element :=
  [.canvas width height, .rect ⟨0, 0, width, height⟩ (some .white) none]

end QueryBench
