/-!
# Fault codes

Each fault belongs to a class that has a short code and a title, and each class
to a category.
-/

namespace PenScript.Fault

/-- The stage at which a fault can arise, and with it the first letter of its
code. -/
inductive Category where
  | parse
  | name
  | structural
  | evaluation
  | limit
  deriving DecidableEq, Repr

inductive Code where
  | unrecognisedValue
  | malformedNumber
  | parameterCount
  | unknownCommand
  | malformedStatement
  | duplicateVariable
  | invalidName
  | undeclaredVariable
  | duplicateProcedure
  | undefinedProcedure
  | strayEnd
  | unclosedBlock
  | strayReturn
  | typeMismatch
  | divisionByZero
  | invalidOperator
  | uninitialisedVariable
  | overflow
  | outOfRange
  | iterationLimit
  | depthLimit
  deriving DecidableEq, Repr

namespace Code

def text : Code → String
  | .unrecognisedValue => "P001"
  | .malformedNumber => "P002"
  | .parameterCount => "P003"
  | .unknownCommand => "P004"
  | .malformedStatement => "P005"
  | .duplicateVariable => "N001"
  | .invalidName => "N002"
  | .undeclaredVariable => "N003"
  | .duplicateProcedure => "N004"
  | .undefinedProcedure => "N005"
  | .strayEnd => "S001"
  | .unclosedBlock => "S002"
  | .strayReturn => "S003"
  | .typeMismatch => "E001"
  | .divisionByZero => "E002"
  | .invalidOperator => "E003"
  | .uninitialisedVariable => "E004"
  | .overflow => "E005"
  | .outOfRange => "E006"
  | .iterationLimit => "R001"
  | .depthLimit => "R002"

def title : Code → String
  | .unrecognisedValue => "Unrecognised value"
  | .malformedNumber => "Malformed number"
  | .parameterCount => "Wrong number of parameters"
  | .unknownCommand => "Unknown command"
  | .malformedStatement => "Malformed statement"
  | .duplicateVariable => "Variable already declared"
  | .invalidName => "Invalid variable name"
  | .undeclaredVariable => "Undeclared variable"
  | .duplicateProcedure => "Procedure already defined"
  | .undefinedProcedure => "Undefined procedure"
  | .strayEnd => "Unbalanced block"
  | .unclosedBlock => "Unterminated block"
  | .strayReturn => "Return outside procedure"
  | .typeMismatch => "Type mismatch"
  | .divisionByZero => "Division by zero"
  | .invalidOperator => "Invalid operator"
  | .uninitialisedVariable => "Uninitialised variable"
  | .overflow => "Integer overflow"
  | .outOfRange => "Argument out of range"
  | .iterationLimit => "Iteration limit exceeded"
  | .depthLimit => "Call depth exceeded"

def category : Code → Category
  | .unrecognisedValue | .malformedNumber | .parameterCount | .unknownCommand
  | .malformedStatement => .parse
  | .duplicateVariable | .invalidName | .undeclaredVariable |
      .duplicateProcedure
  | .undefinedProcedure => .name
  | .strayEnd | .unclosedBlock | .strayReturn => .structural
  | .typeMismatch | .divisionByZero | .invalidOperator |
      .uninitialisedVariable | .overflow
  | .outOfRange => .evaluation
  | .iterationLimit | .depthLimit => .limit

end Code

end PenScript.Fault
