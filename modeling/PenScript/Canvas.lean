import PenScript.Color
import PenScript.Geometry

/-!
# The canvas

A canvas records every stroke that reaches it, in order.
-/

namespace PenScript

inductive Stroke where
  | moveTo (x y : Int64)
  | lineTo (x y : Int64)
  | polygon (points : List Point)
  | circle (radius : Float)
  | dot
  | penColor (color : Color)
  | penWidth (width : Float)
  | fillColor (color : Color)
  | fill (enabled : Bool)
  | clear
  deriving DecidableEq

def Stroke.text : Stroke → String
  | .moveTo x y => s!"move_to({intText x}, {intText y})"
  | .lineTo x y => s!"line_to({intText x}, {intText y})"
  | .polygon points =>
      let corners := ", ".intercalate (points.map Point.text)
      s!"draw_polygon([{corners}])"
  | .circle radius => s!"draw_circle({doubleText radius})"
  | .dot => "draw_dot()"
  | .penColor color => s!"set_pen_color({color.text})"
  | .penWidth width => s!"set_pen_width({doubleText width})"
  | .fillColor color => s!"set_fill_color({color.text})"
  | .fill enabled => s!"set_fill({enabled})"
  | .clear => "clear()"

/-- The strokes made so far, the latest last. -/
abbrev Canvas := Array Stroke

end PenScript
