/-!
# Hatching

A hatched area is covered with diagonals that rise to the right, a fixed number of
pixels apart along the horizontal.  With pixel rows counted downwards the points
of a diagonal have one sum of coordinates.
-/

namespace QueryBench

abbrev Pixel := Int × Int

structure PixelRect where
  left : Int
  top : Int
  right : Int
  bottom : Int
deriving DecidableEq, Repr

namespace PixelRect

/-- The rectangle with two opposite corners. -/
def ofCorners (a b : Pixel) : PixelRect :=
  ⟨min a.1 b.1, min a.2 b.2, max a.1 b.1, max a.2 b.2⟩

/-- The pixel of the rectangle that is nearest. -/
def clamp (r : PixelRect) (p : Pixel) : Pixel :=
  (max (min p.1 r.right) r.left, max (min p.2 r.bottom) r.top)

def width (r : PixelRect) : Int := r.right - r.left

def height (r : PixelRect) : Int := r.bottom - r.top

def isEmpty (r : PixelRect) : Bool := decide (r.right ≤ r.left ∨ r.bottom ≤ r.top)

/-- The part of the diagonal with sum `c` that lies in the rectangle. -/
def diagonal? (r : PixelRect) (c : Int) : Option (Pixel × Pixel) :=
  let first := max r.left (c - r.bottom)
  let last := min r.right (c - r.top)
  if first < last then some ((first, c - first), (last, c - last)) else none

/-- The diagonals from the sum `c` on, up to the lower right corner. -/
def diagonalsFrom (r : PixelRect) (step : Nat) (c : Int) : List (Pixel × Pixel) :=
  if _ : c < r.right + r.bottom ∧ 0 < step then
    (r.diagonal? c).toList ++ r.diagonalsFrom step (c + step)
  else []
termination_by (r.right + r.bottom - c).toNat
decreasing_by omega

/-- The diagonals of the rectangle; the first is one step away from the upper left
corner. -/
def hatchLines (r : PixelRect) (spacing : Nat) : List (Pixel × Pixel) :=
  if r.isEmpty then [] else r.diagonalsFrom spacing (r.left + r.top + spacing)

end PixelRect
end QueryBench
