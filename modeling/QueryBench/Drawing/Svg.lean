import QueryBench.Decimal.Text
import QueryBench.Drawing.Element
import QueryBench.Text.Bytes

/-!
# Drawings as SVG

Each element of a drawing becomes one line inside an `svg` element.  The size of a
text is that of its box; its letters are smaller by a fixed ratio.
-/

namespace QueryBench

def Anchor.name : Anchor → String
  | start => "start"
  | middle => "middle"
  | «end» => "end"

/-- How far a text is moved down from its place. -/
def Baseline.shift : Baseline → String
  | top => "0.76em"
  | center => "0.5ex"

namespace TextStyle

def fontSize (s : TextStyle) : String := Decimal.plainText (Float.ofNat s.size / 1.24)

end TextStyle

namespace Svg

/-- The written form of a character in text and attributes. -/
def escapeChar : Char → List Char
  | '&' => "&amp;".toList
  | '<' => "&lt;".toList
  | '>' => "&gt;".toList
  | '"' => "&quot;".toList
  | '\x27' => "&apos;".toList
  | c => [c]

def escape (s : String) : String := String.ofList (s.toList.flatMap escapeChar)

def colorText : Option Color → String
  | some c => c.text
  | none => "none"

def setting (name value : String) : String := name ++ "=\"" ++ value ++ "\""

def empty (name : String) (attributes : List (String × String)) : String :=
  "<" ++ " ".intercalate (name :: attributes.map fun a ↦ setting a.1 a.2) ++ "/>"

def pointText (p : Pixel) : String := s!"{p.1},{p.2}"

/-- The turn of a text about its place. -/
def rotation (place : Pixel) : Direction → List (String × String)
  | .across => []
  | .up => [("transform", s!"rotate(270, {place.1}, {place.2})")]
  | .down => [("transform", s!"rotate(90, {place.1}, {place.2})")]

def textElement (place : Pixel) (style : TextStyle) (content : String) : String :=
  let attributes := [("x", toString place.1), ("y", toString place.2),
    ("dy", style.baseline.shift), ("text-anchor", style.anchor.name),
    ("font-family", "sans-serif"), ("font-size", style.fontSize), ("fill", "#000000")] ++
    rotation place style.direction
  "<" ++ " ".intercalate ("text" :: attributes.map fun a ↦ setting a.1 a.2) ++ ">" ++
    escape content ++ "</text>"

/-- The line of an element; the canvas itself has none. -/
def element? : Element → Option String
  | .canvas _ _ => none
  | .rect area fill stroke =>
      some (empty "rect" [("x", toString area.left), ("y", toString area.top),
        ("width", toString area.width), ("height", toString area.height),
        ("fill", colorText fill), ("stroke", colorText stroke)])
  | .line first last width =>
      some (empty "polyline" [("fill", "none"), ("stroke", "#000000"),
        ("stroke-width", toString width), ("points", pointText first ++ " " ++ pointText last)])
  | .text place style content => some (textElement place style content)

def size (drawing : List Element) : Nat × Nat :=
  (drawing.findSome? fun e ↦
    match e with
    | .canvas width height => some (width, height)
    | _ => none).getD (0, 0)

def text (drawing : List Element) : String :=
  let (width, height) := size drawing
  let head := " ".intercalate ["<svg", setting "width" (toString width),
    setting "height" (toString height), setting "viewBox" s!"0 0 {width} {height}"] ++ ">"
  "\n".intercalate (head :: drawing.filterMap element? ++ ["</svg>", ""])

end Svg
end QueryBench
