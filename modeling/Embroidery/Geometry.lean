/-
  Points and bounding boxes in the plane.

  A box is grown point by point (`Bounds.grow`).  A coordinate that is not a number never moves an
  edge, since `least` and `greatest` then keep the other operand.
-/
import Embroidery.Number.Binary64

namespace Embroidery

/-- A position in machine units. -/
structure Point where
  x : Binary64
  y : Binary64
deriving DecidableEq

/-- Where the machine starts. -/
def origin : Point := ⟨0, 0⟩

/-- Both coordinates are numerically zero. -/
def Point.isOrigin (p : Point) : Bool := p.x.eq 0 && p.y.eq 0

/-- The Euclidean distance, each operation rounded. -/
def distance (a b : Point) : Binary64 :=
  let dx := a.x - b.x
  let dy := a.y - b.y
  (dx * dx + dy * dy).sqrt

/-- An axis-parallel box. -/
structure Bounds where
  minX : Binary64
  minY : Binary64
  maxX : Binary64
  maxY : Binary64
deriving DecidableEq

namespace Bounds

/-- The box of a single point. -/
def ofPoint (p : Point) : Bounds := ⟨p.x, p.y, p.x, p.y⟩

/-- The box grown to hold a further point. -/
def grow (b : Bounds) (p : Point) : Bounds where
  minX := b.minX.least p.x
  minY := b.minY.least p.y
  maxX := b.maxX.greatest p.x
  maxY := b.maxY.greatest p.y

/-- A box that may be absent, grown to hold a further point. -/
def extend (b : Option Bounds) (p : Point) : Bounds :=
  match b with
  | some b => b.grow p
  | none => ofPoint p

/-- The box of a list of points; absent when there are none. -/
def ofPoints (points : List Point) : Option Bounds :=
  points.foldl (fun b p => some (extend b p)) none

def width (b : Bounds) : Binary64 := b.maxX - b.minX

def height (b : Bounds) : Binary64 := b.maxY - b.minY

/-- The corners in visiting order: lower left, upper left, upper right, lower right. -/
def corners (b : Bounds) : List Point :=
  [⟨b.minX, b.minY⟩, ⟨b.minX, b.maxY⟩, ⟨b.maxX, b.maxY⟩, ⟨b.maxX, b.minY⟩]

end Bounds
end Embroidery
