/-!
# Operators

Four operators combine two values into a third, and four compare them.
-/

namespace PenScript

inductive Arithmetic where
  | add
  | subtract
  | multiply
  | divide
  deriving DecidableEq, Repr

inductive Comparison where
  | greater
  | less
  | equal
  | notEqual
  deriving DecidableEq, Repr

inductive Operator where
  | arithmetic (op : Arithmetic)
  | comparison (op : Comparison)
  deriving DecidableEq, Repr

def Arithmetic.symbol : Arithmetic → String
  | .add => "+"
  | .subtract => "-"
  | .multiply => "*"
  | .divide => "/"

def Comparison.symbol : Comparison → String
  | .greater => ">"
  | .less => "<"
  | .equal => "="
  | .notEqual => "!="

namespace Operator

def symbol : Operator → String
  | .arithmetic op => op.symbol
  | .comparison op => op.symbol

def ofSymbol? : List Char → Option Operator
  | ['+'] => some (.arithmetic .add)
  | ['-'] => some (.arithmetic .subtract)
  | ['*'] => some (.arithmetic .multiply)
  | ['/'] => some (.arithmetic .divide)
  | ['>'] => some (.comparison .greater)
  | ['<'] => some (.comparison .less)
  | ['='] => some (.comparison .equal)
  | ['!', '='] => some (.comparison .notEqual)
  | _ => none

/-- How tightly an operator binds its operands. -/
inductive Precedence where
  | comparison
  | sum
  | product
  deriving DecidableEq, Repr

def precedence : Operator → Precedence
  | .arithmetic .add => .sum
  | .arithmetic .subtract => .sum
  | .arithmetic .multiply => .product
  | .arithmetic .divide => .product
  | .comparison _ => .comparison

end Operator

end PenScript
