import PenScript.Value

/-!
# Commands

A command is one statement of a script.  Its parameters are values, which are
evaluated only when the command is carried out.
-/

namespace PenScript

/-- Where a color comes from. -/
inductive ColorSource where
  | single (color : Value)
  | channels (red green blue : Value) (alpha : Option Value)
  deriving DecidableEq

/-- A polygon, given by its measures or by its corners. -/
inductive Shape where
  | regular (sides radius : Value) (rotation : Option Value)
  | square (size : Value) (rotation : Option Value)
  | rectangle (width height : Value)
  | corners (x₁ y₁ x₂ y₂ : Value)
  | triangle (base : Value) (height : Option Value)
  | path (points : List (Value × Value))
  deriving DecidableEq

inductive Command where
  | moveTo (x y : Value)
  | lineTo (x y : Value)
  | polygon (shape : Shape)
  | circle (radius : Value)
  | dot
  | clear
  | resetPen
  /-- Switches filling on or off, or sets its color. -/
  | fill (setting : Value)
  | fillColor (color : ColorSource)
  | penColor (color : ColorSource)
  | penWidth (width : Value)
  | declare (name : String) (value : Option Value)
  | assign (name : String) (value : Value)
  | ifTrue (guard : Value)
  | whileTrue (guard : Value)
  | forRange (counter : String) (start stop : Value) (step : Option Value)
  | define (name : String)
  | call (name : String)
  | ret
  | endBlock
  deriving DecidableEq

def ColorSource.describe : ColorSource → String
  | .single color => color.describe
  | .channels red green blue alpha =>
      let channels := [red, green, blue] ++ alpha.toList
      let listed := ", ".intercalate (channels.map Value.describe)
      s!"({listed})"

def Shape.describe : Shape → String
  | .regular sides radius _ =>
      s!"Draw a regular polygon with {sides.describe} sides of radius {radius.describe}"
  | .square size _ => s!"Draw a square of size {size.describe}"
  | .rectangle width height =>
      s!"Draw a rectangle {width.describe} by {height.describe}"
  | .corners x₁ y₁ x₂ y₂ =>
      s!"Draw a rectangle from ({x₁.describe}, {y₁.describe}) to ({x₂.describe}, {y₂.describe})"
  | .triangle base _ => s!"Draw a triangle of base {base.describe}"
  | .path points => s!"Draw a polygon through {points.length} points"

namespace Command

def opensBlock : Command → Bool
  | .ifTrue _ | .whileTrue _ | .forRange _ _ _ _ | .define _ => true
  | _ => false

def describe : Command → String
  | .moveTo x y => s!"Move the pen to ({x.describe}, {y.describe})"
  | .lineTo x y => s!"Draw a line to ({x.describe}, {y.describe})"
  | .polygon shape => shape.describe
  | .circle radius => s!"Draw a circle of radius {radius.describe}"
  | .dot => "Draw a dot"
  | .clear => "Clear the canvas"
  | .resetPen => "Move the pen back to the origin"
  | .fill (.literal (.bool true)) => "Enable fill"
  | .fill (.literal (.bool false)) => "Disable fill"
  | .fill setting => s!"Set fill from {setting.describe}"
  | .fillColor color => s!"Set the fill color to {color.describe}"
  | .penColor color => s!"Set the pen color to {color.describe}"
  | .penWidth width => s!"Set the pen width to {width.describe}"
  | .declare name (some value) => s!"Declare {name} as {value.describe}"
  | .declare name none => s!"Declare {name}"
  | .assign name value => s!"Set {name} to {value.describe}"
  | .ifTrue guard => s!"If {guard.describe}"
  | .whileTrue guard => s!"While {guard.describe}"
  | .forRange counter start stop (some step) =>
      s!"For {counter} from {start.describe} to {stop.describe} by {step.describe}"
  | .forRange counter start stop none =>
      s!"For {counter} from {start.describe} to {stop.describe}"
  | .define name => s!"Define procedure {name}"
  | .call name => s!"Call procedure {name}"
  | .ret => "Return from procedure"
  | .endBlock => "End of block"

end Command

end PenScript
