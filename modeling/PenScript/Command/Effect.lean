import PenScript.Canvas
import PenScript.Command
import PenScript.Value.Evaluation

/-!
# Effects of commands

A command reads its parameters and then has at most one effect: it makes a
stroke, or it changes one variable.  If reading fails there is no effect.
-/

namespace PenScript

inductive Effect where
  | draw (stroke : Stroke)
  | assign (name : String) (value : Literal)
  | declare (name : String)
  | idle
  deriving DecidableEq

namespace Value

/-- Reads a measure, which cannot be negative. -/
def readMeasure (value : Value) (measure : Measure) : Reading Float := do
  let x ← value.readDouble
  if x < 0.0 then throw (.outOfRange (.negative measure x)) else return x

/-- Reads an angle, which is zero if it is left out. -/
def readAngle : Option Value → Reading Float
  | some value => value.readDouble
  | none => return 0.0

/-- Reads one channel of a color. -/
def readChannel (value : Value) : Reading UInt8 := do
  let n ← value.readInt
  if 0 ≤ n.toInt ∧ n.toInt ≤ 255 then return UInt8.ofNat n.toInt.toNat
  else throw (.outOfRange (.channel n))

/-- Reads the number of sides of a regular polygon. -/
def readSides (value : Value) : Reading Nat := do
  let n ← value.readInt
  if n.toInt < 3 then throw (.outOfRange (.tooFewSides n))
  else if (Geometry.maxSides : Int) < n.toInt
    then throw (.outOfRange (.tooManySides n))
  else return n.toInt.toNat

def readPoint (x y : Value) : Reading Point := do
  let x ← x.readInt
  let y ← y.readInt
  return ⟨x, y⟩

end Value

open Value (Reading readPoint readAngle)

def ColorSource.read : ColorSource → Reading Color
  | .single color => color.readColor
  | .channels red green blue alpha => do
      let red ← red.readChannel
      let green ← green.readChannel
      let blue ← blue.readChannel
      match alpha with
      | some alpha => return ⟨red, green, blue, ← alpha.readChannel⟩
      | none => return Color.solid red green blue

/-- The corners of a shape. -/
def Shape.points : Shape → Reading (List Point)
  | .regular sides radius rotation => do
      let sides ← sides.readSides
      let radius ← radius.readMeasure .radius
      return Geometry.regularPolygon sides radius (← readAngle rotation)
  | .square size rotation => do
      let size ← size.readMeasure .size
      return Geometry.rectangle size size (← readAngle rotation)
  | .rectangle width height => do
      let width ← width.readMeasure .width
      return Geometry.rectangle width (← height.readMeasure .height) 0.0
  | .corners x₁ y₁ x₂ y₂ => do
      let first ← readPoint x₁ y₁
      return Geometry.corners first (← readPoint x₂ y₂)
  | .triangle base (some height) => do
      let base ← base.readMeasure .base
      return Geometry.triangle base (← height.readMeasure .height)
  | .triangle base none => do
      return Geometry.equilateral (← base.readMeasure .size)
  | .path points => points.mapM fun (x, y) => readPoint x y

/-- Filling is switched by a truth value, and anything else must be its
color. -/
def Literal.fillStroke : Literal → Except ValueFault Stroke
  | .bool enabled => .ok (.fill enabled)
  | other => other.toColor.map .fillColor

namespace Command

/-- The effect of making the stroke that is read. -/
def drawing (stroke : Reading Stroke) : EStateM Fault Store Effect :=
  EStateM.adaptExcept .value do return .draw (← stroke)

/-- The effect of giving a variable the value that is read. -/
def assigning (name : String) (value : Value) : EStateM Fault Store Effect :=
  EStateM.adaptExcept .value do return .assign name (← value.read)

/-- The effect of declaring a variable without a value, unless it is declared
already. -/
def declaring (name : String) : EStateM Fault Store Effect := fun store =>
  if store.contains name then .ok .idle store
  else
    match Name.check name with
    | .ok _ => .ok (.declare name) store
    | .error fault => .error (.name fault) store

/-- What a command does by itself.  Commands that steer the run have no effect
of their own. -/
def effect : Command → EStateM Fault Store Effect
  | .moveTo x y => drawing do
      let point ← readPoint x y
      return .moveTo point.x point.y
  | .lineTo x y => drawing do
      let point ← readPoint x y
      return .lineTo point.x point.y
  | .polygon shape => drawing do return .polygon (← shape.points)
  | .circle radius => drawing do return .circle (← radius.readMeasure .radius)
  | .dot => drawing (return .dot)
  | .clear => drawing (return .clear)
  | .resetPen => drawing (return .moveTo 0 0)
  | .fill setting => drawing do MonadExcept.ofExcept (← setting.read).fillStroke
  | .fillColor color => drawing do return .fillColor (← color.read)
  | .penColor color => drawing do return .penColor (← color.read)
  | .penWidth width =>
      drawing do return .penWidth (← width.readMeasure .penWidth)
  | .declare name (some value) => assigning name value
  | .declare name none => declaring name
  | .assign name value => assigning name value
  | .ifTrue _ | .whileTrue _ | .forRange _ _ _ _ | .define _ | .call _ |
      .ret | .endBlock =>
      return .idle

end Command

end PenScript
