import PenScript.Literal

/-!
# Values

A value is a literal, a variable, or an operation.  Operations are carried out
when their value is asked for, and remember the answer.
-/

namespace PenScript

inductive Value where
  | literal (result : Literal)
  | reference (name : String)
  /-- An operation that has not been carried out. -/
  | pending (op : Operator) (left right : Value)
  /-- An operation that has been carried out, with its answer. -/
  | settled (result : Literal)
  deriving DecidableEq

namespace Value

/-- The kind of a value, as far as it is known before the value is evaluated. -/
def kind? : Value → Option Kind
  | .literal result => some result.kind
  | .reference _ => none
  | .pending (.comparison _) _ _ => some .bool
  | .pending (.arithmetic _) _ _ => none
  | .settled result => some result.kind

def isEvaluated : Value → Bool
  | .pending _ _ _ => false
  | _ => true

def describe : Value → String
  | .literal result => result.text
  | .reference name => name
  | .pending op left right => s!"({left.describe} {op.symbol} {right.describe})"
  | .settled result => result.text

end Value

end PenScript
