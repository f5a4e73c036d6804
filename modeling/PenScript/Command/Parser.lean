import PenScript.Command
import PenScript.Failure
import PenScript.Line
import PenScript.Store
import PenScript.Value.Parser

/-!
# Reading commands

A line is an assignment, a declaration, or a keyword with its parameters.
Reading it may declare a variable, and such a declaration stays even if the rest
of the line turns out to be wrong.
-/

namespace PenScript.Command

/-- A computation that reads a line: it knows the declared variables, may add to
them, and may find a fault. -/
abbrev Parser := EStateM Fault Store

/-- Reads a value where `fault` says what a bad value means. -/
def readValue (fault : ValueFault → Fault) (text : List Char) : Parser Value :=
  fun store =>
  match Value.parse store.contains text with
  | .ok value => .ok value store
  | .error cause => .error (fault cause) store

def checkName (word : String) : Parser Unit := fun store =>
  match Name.check word with
  | .ok _ => .ok () store
  | .error fault => .error (.name fault) store

/-- Adds a variable without a value. -/
def declareName (name : String) : Parser Unit := fun store =>
  match store.declare name none with
  | .ok store => .ok () store
  | .error fault => .error (.name fault) store

/-! ### Assignments and declarations -/

/-- Reads `name = value` from its tokens, the first of which is `name`. -/
def readAssignment (name : List Char) (value : List Token) : Parser Command := do
  let word := String.ofList name
  if !Name.isIdentifier name then throw (.statement (.notAssignable word))
  if !(← get).contains word then throw (.value (.undeclared word))
  if value.isEmpty then throw (.statement (.missingValue word))
  return .assign word (← readValue .value (Token.join value))

/-- Reads what follows the name in a declaration. -/
def readInitialValue (name : String) : List Token → Parser (Option Value)
  | [] => return none
  | [.operator (.comparison .equal)] =>
      throw (.statement (.missingInitialValue name))
  | .operator (.comparison .equal) :: value => do
      return some (← readValue .value (Token.join value))
  | other :: _ =>
      throw (.statement (.missingEquals name (String.ofList other.text)))

/-- Reads the tokens of a declaration after its keyword. -/
def readDeclaration : List Token → Parser Command
  | [] => throw (.statement .missingName)
  | name :: rest => do
      let word := String.ofList name.text
      if (← get).contains word then throw (.name (.duplicate word))
      checkName word
      let value ← readInitialValue word rest
      declareName word
      return .declare word value

/-! ### Parameters -/

def readParameter (position : Nat) (text : List Char) : Parser Value :=
  readValue (fun fault => .statement (.parameter position fault)) text

/-- Reads a parameter of a certain kind.  Only a kind that is known beforehand
can be wrong. -/
def readTyped (expected : Kind) (position : Nat) (text : List Char) :
    Parser Value := do
  let value ← readParameter position text
  match value.kind? with
  | none => return value
  | some found =>
      if found.coercesTo expected then return value
      else throw (.statement
        (.parameter position (.typeMismatch expected found)))

def readInt : Nat → List Char → Parser Value :=
  readTyped .int

def readDouble : Nat → List Char → Parser Value :=
  readTyped .double

/-- Reads pairs of coordinates; the first one is at `position`. -/
def readPoints (position : Nat) :
    List (List Char × List Char) → Parser (List (Value × Value))
  | [] => return []
  | (x, y) :: rest => do
      let x ← readInt position x
      let y ← readInt (position + 1) y
      return (x, y) :: (← readPoints (position + 2) rest)

def readPath (points : List (List Char × List Char)) : Parser Command := do
  return .polygon (.path (← readPoints 1 points))

/-- Reads the three or four channels of a color. -/
def readChannels (red green blue : List Char) (alpha : Option (List Char)) :
    Parser ColorSource := do
  let red ← readInt 1 red
  let green ← readInt 2 green
  let blue ← readInt 3 blue
  return .channels red green blue (← alpha.mapM (readInt 4))

/-- Reads the setting of the fill: a truth value or a color. -/
def readFillSetting (position : Nat) (text : List Char) : Parser Value := do
  let value ← readParameter position text
  match value.kind? with
  | none | some .bool | some .color => return value
  | some found =>
      throw (.statement (.parameter position (.typeMismatch .color found)))

/-- Whether a parameter subtracts a number, as a negative number without a comma
before it does. -/
def subtractsNumber : List Char → Bool
  | ' ' :: '-' :: ' ' :: rest => Token.startsWithDigit rest
  | _ :: rest => subtractsNumber rest
  | [] => false

/-- The fault of a keyword with a wrong number of parameters. -/
def wrongCount (keyword : Keyword) (word : List Char)
    (parameters : List (List Char)) : Fault :=
  .statement
    (.parameterCount (String.ofList word)
      (keyword.arities?.getD []) parameters.length
    ((parameters.find? subtractsNumber).map String.ofList))

/-! ### Statements -/

/-- Reads the name of a procedure that is called; whether it exists is known
only later. -/
def readProcedureName (text : List Char) : Parser String := do
  let word := String.ofList text
  if Name.isIdentifier text && !Name.isReserved word then return word
  else throw (.statement (.notProcedureName word))

/-- Reads the variable that a loop counts with, and declares it if it is new. -/
def readCounter (text : List Char) : Parser String := do
  let word := String.ofList text
  if !(← get).contains word then declareName word
  return word

def readRange (counter start stop : List Char) (step : Option (List Char)) :
    Parser Command := do
  let counter ← readCounter counter
  let start ← readInt 2 start
  let stop ← readInt 3 stop
  return .forRange counter start stop (← step.mapM (readInt 4))

/-- Reads the statement of a keyword from its parameters.  `wrongCount` is the
fault of a number of parameters that the keyword does not take. -/
def readStatement (wrongCount : Fault) :
    Keyword → List (List Char) → Parser Command
  | .moveTo, [x, y] => do
      let x ← readInt 1 x
      return .moveTo x (← readInt 2 y)
  | .lineTo, [x, y] => do
      let x ← readInt 1 x
      return .lineTo x (← readInt 2 y)
  | .regularPolygon, [sides, radius] => do
      let sides ← readInt 1 sides
      return .polygon (.regular sides (← readDouble 2 radius) none)
  | .regularPolygon, [sides, radius, rotation] => do
      let sides ← readInt 1 sides
      let radius ← readDouble 2 radius
      return .polygon (.regular sides radius (some (← readDouble 3 rotation)))
  | .square, [size] => return .polygon (.square (← readDouble 1 size) none)
  | .square, [size, rotation] => do
      let size ← readDouble 1 size
      return .polygon (.square size (some (← readDouble 2 rotation)))
  | .quadrilateral, [x₁, y₁, x₂, y₂, x₃, y₃, x₄, y₄] =>
      readPath [(x₁, y₁), (x₂, y₂), (x₃, y₃), (x₄, y₄)]
  | .rectangle, [width, height] => do
      let width ← readDouble 1 width
      return .polygon (.rectangle width (← readDouble 2 height))
  | .rectangle, [x₁, y₁, x₂, y₂] => do
      let x₁ ← readInt 1 x₁
      let y₁ ← readInt 2 y₁
      let x₂ ← readInt 3 x₂
      return .polygon (.corners x₁ y₁ x₂ (← readInt 4 y₂))
  | .rectangle, [x₁, y₁, x₂, y₂, x₃, y₃, x₄, y₄] =>
      readPath [(x₁, y₁), (x₂, y₂), (x₃, y₃), (x₄, y₄)]
  | .circle, [radius] => return .circle (← readDouble 1 radius)
  | .triangle, [base] => return .polygon (.triangle (← readDouble 1 base) none)
  | .triangle, [base, height] => do
      let base ← readDouble 1 base
      return .polygon (.triangle base (some (← readDouble 2 height)))
  | .triangle, [x₁, y₁, x₂, y₂, x₃, y₃] =>
      readPath [(x₁, y₁), (x₂, y₂), (x₃, y₃)]
  | .dot, [] => return .dot
  | .clear, [] => return .clear
  | .resetPen, [] => return .resetPen
  | .fillOn, [] => return .fill (.literal (.bool true))
  | .fillOff, [] => return .fill (.literal (.bool false))
  | .fill, [setting] => return .fill (← readFillSetting 1 setting)
  | .fill, [red, green, blue] =>
      return .fillColor (← readChannels red green blue none)
  | .fill, [red, green, blue, alpha] =>
      return .fillColor (← readChannels red green blue (some alpha))
  | .pen, [color] => return .penColor (.single (← readTyped .color 1 color))
  | .pen, [red, green, blue] =>
      return .penColor (← readChannels red green blue none)
  | .pen, [red, green, blue, alpha] =>
      return .penColor (← readChannels red green blue (some alpha))
  | .penWidth, [width] => return .penWidth (← readDouble 1 width)
  | .ifTrue, [guard] => return .ifTrue (← readTyped .bool 1 guard)
  | .whileTrue, [guard] => return .whileTrue (← readTyped .bool 1 guard)
  | .forRange, [counter, start, stop] => readRange counter start stop none
  | .forRange, [counter, start, stop, step] =>
      readRange counter start stop (some step)
  | .define, [name] => do
      let word := String.ofList name
      checkName word
      return .define word
  | .call, [name] => return .call (← readProcedureName name)
  | .ret, [] => return .ret
  | .endBlock, [] => return .endBlock
  | _, _ => throw wrongCount

/-- Reads a line that starts with a command word. -/
def readKeyword (text : List Char) : Parser Command :=
  let (word, rest) := Line.split text
  match Keyword.ofWord? (String.ofList word) with
  | none => throw (.statement (.unknownCommand (String.ofList word)))
  | some .var => readDeclaration (Token.scan rest)
  | some keyword =>
      let parameters := Token.parameters rest
      readStatement (wrongCount keyword word parameters) keyword parameters

/-- Reads the text of a line.  An equals sign after the first token makes it an
assignment, unless that token is a keyword. -/
def ofText (text : List Char) : Parser Command :=
  match Token.scan text with
  | name :: .operator (.comparison .equal) :: value =>
      if (Keyword.ofWord? (String.ofList name.text)).isNone
        then readAssignment name.text value
      else readKeyword text
  | _ => readKeyword text

/-- Reads a line of a script. -/
def ofLine (line : Line) : EStateM Failure Store Command :=
  EStateM.adaptExcept (·.at line.number "") (ofText line.text)

end PenScript.Command
