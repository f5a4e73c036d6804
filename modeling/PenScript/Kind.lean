/-!
# Kinds

Every value that a script computes has one of four kinds, and a few kinds stand
in for others.
-/

namespace PenScript

inductive Kind where
  | int
  | double
  | bool
  | color
  deriving DecidableEq, Repr

namespace Kind

def text : Kind → String
  | .int => "int"
  | .double => "double"
  | .bool => "bool"
  | .color => "color"

/-- Whether a value of the first kind may stand where the second is expected. -/
def coercesTo : Kind → Kind → Bool
  | .int, .double => true
  | .int, .bool => true
  | .double, .int => true
  | found, expected => found == expected

end Kind

end PenScript
