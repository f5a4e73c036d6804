import PenScript.Number.Text

/-!
# Geometry

The corner points of the figures that a script can draw.  Angles are in degrees,
and coordinates are rounded to the nearest integer.
-/

namespace PenScript

structure Point where
  x : Int64
  y : Int64
  deriving DecidableEq, Repr

namespace Point

def nearest (x y : Float) : Point :=
  ⟨(Binary64.ofFloat x).nearestInt64, (Binary64.ofFloat y).nearestInt64⟩

def text (point : Point) : String :=
  s!"({intText point.x}, {intText point.y})"

end Point

namespace Geometry

/-- The largest number of sides that a regular polygon may have. -/
def maxSides : Nat := 10000

def pi : Float := 3.141592653589793

/-- The angle of a full turn. -/
def turn : Float := 6.283185307179586

/-- The angle of one degree. -/
def degree : Float := 0.017453292519943295

/-- Points evenly spaced on a circle around the origin, the first at the angle
`rotation`. -/
def regularPolygon (sides : Nat) (radius rotation : Float) : List Point :=
  let start := rotation * degree
  (List.range sides).map fun k =>
    let angle := start + turn * Float.ofNat k / Float.ofNat sides
    .nearest (radius * angle.cos) (radius * angle.sin)

/-- A rectangle with one corner at the origin, turned around it. -/
def rectangle (width height rotation : Float) : List Point :=
  let angle := rotation * degree
  let turned (x y : Float) : Point :=
    .nearest (x * angle.cos - y * angle.sin) (x * angle.sin + y * angle.cos)
  [turned 0.0 0.0, turned width 0.0, turned width height, turned 0.0 height]

/-- The upright rectangle between two opposite corners. -/
def corners (a b : Point) : List Point :=
  [a, ⟨b.x, a.y⟩, b, ⟨a.x, b.y⟩]

/-- A triangle on a horizontal base that starts at the origin, with its tip
above the middle. -/
def triangle (base height : Float) : List Point :=
  [⟨0, 0⟩, .nearest base 0.0, .nearest (base / 2.0) (-height)]

def equilateral (size : Float) : List Point :=
  triangle size (size * (pi / 3.0).sin)

end Geometry

end PenScript
