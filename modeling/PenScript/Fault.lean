import PenScript.Fault.Code
import PenScript.Geometry
import PenScript.Kind
import PenScript.Operator

/-!
# Faults

A fault is the cause of a failure.  Faults are grouped by what was wrong: a
value, a name, a statement, the nesting of blocks, or the course of a run.
Their codes and their wording are fixed here.
-/

namespace PenScript

/-- A measure of a figure or of the pen, which cannot be negative. -/
inductive Measure where
  | radius
  | penWidth
  | size
  | width
  | height
  | base
  deriving DecidableEq, Repr

def Measure.text : Measure → String
  | .radius => "radius"
  | .penWidth => "pen width"
  | .size => "size"
  | .width => "width"
  | .height => "height"
  | .base => "base"

inductive RangeFault where
  | negative (measure : Measure) (got : Float)
  | tooFewSides (got : Int64)
  | tooManySides (got : Int64)
  | channel (got : Int64)
  | zeroStep
  deriving DecidableEq

def RangeFault.message : RangeFault → String
  | .negative measure got =>
      s!"{measure.text} cannot be negative, got {doubleText got}"
  | .tooFewSides got => s!"a polygon needs at least 3 sides, got {intText got}"
  | .tooManySides got =>
      s!"a polygon has at most {Geometry.maxSides} sides, got {intText got}"
  | .channel got => s!"color channel must be 0-255, got {intText got}"
  | .zeroStep => "`for` step cannot be zero"

/-- What can be wrong with a value when it is read or computed. -/
inductive ValueFault where
  | unrecognised (text : String)
  | malformedNumber (text : String)
  | typeMismatch (expected found : Kind)
  | operandMismatch (op : Operator) (left right : Kind)
  | divisionByZero
  | undefinedOperator (op : Operator) (kind : Kind)
  | undeclared (name : String)
  | uninitialised (name : String)
  | overflow
  | outOfRange (fault : RangeFault)
  deriving DecidableEq

namespace ValueFault

def code : ValueFault → Fault.Code
  | .unrecognised _ => .unrecognisedValue
  | .malformedNumber _ => .malformedNumber
  | .typeMismatch _ _ => .typeMismatch
  | .operandMismatch _ _ _ => .typeMismatch
  | .divisionByZero => .divisionByZero
  | .undefinedOperator _ _ => .invalidOperator
  | .undeclared _ => .undeclaredVariable
  | .uninitialised _ => .uninitialisedVariable
  | .overflow => .overflow
  | .outOfRange _ => .outOfRange

def message : ValueFault → String
  | .unrecognised text => s!"`{text}` does not match any value type"
  | .malformedNumber text => s!"`{text}` is not a valid number"
  | .typeMismatch expected found =>
      s!"expected {expected.text}, got {found.text}"
  | .operandMismatch op left right =>
      s!"operands of `{op.symbol}` must share a type, got {left.text} and {right.text}"
  | .divisionByZero => "division by zero"
  | .undefinedOperator op kind =>
      s!"operator `{op.symbol}` is not defined for {kind.text}"
  | .undeclared name => s!"undeclared variable `{name}`"
  | .uninitialised name => s!"variable `{name}` has no value"
  | .overflow => "arithmetic overflow"
  | .outOfRange fault => fault.message

end ValueFault

/-- Why a text cannot be the name of a variable. -/
inductive NameFlaw where
  | empty
  | leadingDigit
  | badCharacter
  | reserved
  | colorLiteral
  deriving DecidableEq, Repr

def NameFlaw.text : NameFlaw → String
  | .empty => "name is empty"
  | .leadingDigit => "names cannot start with a digit"
  | .badCharacter => "only letters, digits and `_` are allowed"
  | .reserved => "name is a reserved keyword"
  | .colorLiteral => "name reads as a color literal"

inductive NameFault where
  | duplicate (name : String)
  | invalid (name : String) (flaw : NameFlaw)
  | undeclared (name : String)
  deriving DecidableEq, Repr

namespace NameFault

def code : NameFault → Fault.Code
  | .duplicate _ => .duplicateVariable
  | .invalid _ _ => .invalidName
  | .undeclared _ => .undeclaredVariable

def message : NameFault → String
  | .duplicate name => s!"`{name}` has already been declared"
  | .invalid name flaw => s!"`{name}` is not a valid variable name: {flaw.text}"
  | .undeclared name => s!"undeclared variable `{name}`"

end NameFault

/-- What can be wrong with the form of a statement. -/
inductive StatementFault where
  | unknownCommand (word : String)
  | parameterCount (word : String) (accepted : List Nat) (got : Nat)
      (merged : Option String)
  | parameter (position : Nat) (fault : ValueFault)
  | missingName
  | missingInitialValue (name : String)
  | missingEquals (name found : String)
  | notAssignable (word : String)
  | missingValue (name : String)
  | notProcedureName (word : String)
  deriving DecidableEq

namespace StatementFault

/-- Alternatives in words, the last one after "or". -/
def alternatives : List Nat → String
  | [] => "no"
  | [one] => toString one
  | many =>
      let first := ", ".intercalate (many.dropLast.map toString)
      s!"{first} or {many.getLastD 0}"

def code : StatementFault → Fault.Code
  | .unknownCommand _ => .unknownCommand
  | .parameterCount _ _ _ _ => .parameterCount
  | .parameter _ fault => fault.code
  | _ => .malformedStatement

def message : StatementFault → String
  | .unknownCommand word => s!"unknown command `{word}`"
  | .parameterCount word accepted got merged =>
      let counts :=
        s!"`{word}` takes {alternatives accepted} parameter(s), got {got}"
      match merged with
      | none => counts
      | some text =>
          counts ++
            s!"; `{text}` was read as one subtraction, separate a negative number with a comma"
  | .parameter position fault => s!"parameter {position}: {fault.message}"
  | .missingName => "`var` needs a variable name"
  | .missingInitialValue name => s!"`var {name} =` needs a value"
  | .missingEquals name found =>
      s!"expected `=` after `var {name}`, found `{found}`"
  | .notAssignable word => s!"cannot assign to `{word}`"
  | .missingValue name => s!"`{name} =` needs a value"
  | .notProcedureName word => s!"`{word}` is not a procedure name"

end StatementFault

/-- What can be wrong with the nesting of blocks. -/
inductive BlockFault where
  | strayEnd
  | unclosed (count : Nat)
  | strayReturn
  | duplicateProcedure (name : String)
  deriving DecidableEq, Repr

namespace BlockFault

def code : BlockFault → Fault.Code
  | .strayEnd => .strayEnd
  | .unclosed _ => .unclosedBlock
  | .strayReturn => .strayReturn
  | .duplicateProcedure _ => .duplicateProcedure

def message : BlockFault → String
  | .strayEnd => "`end` without an open block"
  | .unclosed count =>
      s!"block opened here is never closed ({count} still open)"
  | .strayReturn => "`ret` outside a procedure"
  | .duplicateProcedure name => s!"procedure `{name}` is already defined"

end BlockFault

/-- What can stop a run beside a value. -/
inductive RunFault where
  | undefinedProcedure (name : String)
  | tooManyIterations (limit : Nat)
  | tooDeep (limit : Nat) (name : String)
  deriving DecidableEq, Repr

namespace RunFault

def code : RunFault → Fault.Code
  | .undefinedProcedure _ => .undefinedProcedure
  | .tooManyIterations _ => .iterationLimit
  | .tooDeep _ _ => .depthLimit

def message : RunFault → String
  | .undefinedProcedure name => s!"procedure `{name}` is not defined"
  | .tooManyIterations limit => s!"loop exceeded {limit} iterations"
  | .tooDeep limit name =>
      s!"call depth exceeded {limit} while calling `{name}`"

end RunFault

inductive Fault where
  | value (fault : ValueFault)
  | name (fault : NameFault)
  | statement (fault : StatementFault)
  | block (fault : BlockFault)
  | run (fault : RunFault)
  deriving DecidableEq

namespace Fault

def code : Fault → Code
  | .value fault => fault.code
  | .name fault => fault.code
  | .statement fault => fault.code
  | .block fault => fault.code
  | .run fault => fault.code

def message : Fault → String
  | .value fault => fault.message
  | .name fault => fault.message
  | .statement fault => fault.message
  | .block fault => fault.message
  | .run fault => fault.message

end Fault

end PenScript
