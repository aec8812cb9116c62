import QueryBench.Chart.Color
import QueryBench.Chart.Hatch

/-!
# Drawing elements

A drawing is a list of rectangles, lines and texts on a canvas, in the order they
are drawn.  Pixel rows are counted downwards.
-/

namespace QueryBench

inductive Anchor where
  | start
  | middle
  | «end»
deriving DecidableEq, Repr

/-- Which line of a text is placed vertically. -/
inductive Baseline where
  | top
  | center
deriving DecidableEq, Repr

/-- Where a text runs. -/
inductive Direction where
  | across
  | up
  | down
deriving DecidableEq, Repr

structure TextStyle where
  anchor : Anchor
  baseline : Baseline
  size : Nat
  direction : Direction
deriving DecidableEq, Repr

inductive Element where
  | canvas (width height : Nat)
  /-- A rectangle that is filled, or outlined by a line of one pixel. -/
  | rect (area : PixelRect) (fill stroke : Option Color)
  | line (first last : Pixel) (width : Nat)
  | text (place : Pixel) (style : TextStyle) (content : String)
deriving DecidableEq, Repr

namespace Element

/-- A filled rectangle, cut to an area. -/
def filled (area : PixelRect) (a b : Pixel) (color : Color) : Element :=
  rect (.ofCorners (area.clamp a) (area.clamp b)) (some color) none

/-- An outlined rectangle, cut to an area. -/
def outlined (area : PixelRect) (a b : Pixel) : Element :=
  rect (.ofCorners (area.clamp a) (area.clamp b)) none (some .black)

/-- A line whose ends are moved into an area. -/
def lineIn (area : PixelRect) (a b : Pixel) (width : Nat) : Element :=
  line (area.clamp a) (area.clamp b) width

/-- A text whose place is moved into an area. -/
def textIn (area : PixelRect) (place : Pixel) (style : TextStyle) (content : String) :
    Element :=
  text (area.clamp place) style content

/-- The hatching of a rectangle, cut to an area. -/
def hatching (area rect : PixelRect) (spacing : Nat) : List Element :=
  (rect.hatchLines spacing).map fun l ↦ lineIn area l.1 l.2 1

end Element
end QueryBench
