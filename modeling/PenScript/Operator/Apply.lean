import PenScript.Literal

/-!
# Applying operators

Operators work on two literals of the same kind.  Integer results must fit into
64 bits, and results on doubles must be finite.
-/

namespace PenScript

namespace Arithmetic

def applyInt (op : Arithmetic) (a b : Int64) : Except ValueFault Literal :=
  let checked (n : Int) : Except ValueFault Literal :=
    match int64? n with
    | some n => .ok (.int n)
    | none => .error .overflow
  match op with
  | .add => checked (a.toInt + b.toInt)
  | .subtract => checked (a.toInt - b.toInt)
  | .multiply => checked (a.toInt * b.toInt)
  | .divide =>
      if b = 0 then .error .divisionByZero else checked (a.toInt.tdiv b.toInt)

def applyDouble (op : Arithmetic) (a b : Float) : Except ValueFault Literal :=
  let checked (x : Float) : Except ValueFault Literal :=
    if x.isFinite then .ok (.double x) else .error .overflow
  match op with
  | .add => checked (a + b)
  | .subtract => checked (a - b)
  | .multiply => checked (a * b)
  | .divide => if b == 0.0 then .error .divisionByZero else checked (a / b)

/-- On truth values the operators are "or", "either or" and "and"; there is no
division. -/
def applyBool (op : Arithmetic) (a b : Bool) : Except ValueFault Literal :=
  match op with
  | .add => .ok (.bool (a || b))
  | .subtract => .ok (.bool (a ^^ b))
  | .multiply => .ok (.bool (a && b))
  | .divide => .error (.undefinedOperator (.arithmetic op) .bool)

def apply (op : Arithmetic) : Literal → Literal → Except ValueFault Literal
  | .int a, .int b => op.applyInt a b
  | .double a, .double b => op.applyDouble a b
  | .bool a, .bool b => op.applyBool a b
  | .color _, .color _ => .error (.undefinedOperator (.arithmetic op) .color)
  | a, b => .error (.operandMismatch (.arithmetic op) a.kind b.kind)

end Arithmetic

namespace Comparison

def applyInt (op : Comparison) (a b : Int64) : Bool :=
  match op with
  | .greater => b < a
  | .less => a < b
  | .equal => a == b
  | .notEqual => a != b

/-- What is not a number is different from every double, itself included, and in
no order to it. -/
def applyDouble (op : Comparison) (a b : Float) : Bool :=
  match op with
  | .greater => b < a
  | .less => a < b
  | .equal => a == b
  | .notEqual => !(a == b)

/-- Values without an order can only be told apart. -/
def applyEquality (op : Comparison) (same : Bool) (kind : Kind) :
    Except ValueFault Literal :=
  match op with
  | .equal => .ok (.bool same)
  | .notEqual => .ok (.bool !same)
  | _ => .error (.undefinedOperator (.comparison op) kind)

def apply (op : Comparison) : Literal → Literal → Except ValueFault Literal
  | .int a, .int b => .ok (.bool (op.applyInt a b))
  | .double a, .double b => .ok (.bool (op.applyDouble a b))
  | .bool a, .bool b => op.applyEquality (a == b) .bool
  | .color a, .color b => op.applyEquality (a == b) .color
  | a, b => .error (.operandMismatch (.comparison op) a.kind b.kind)

end Comparison

def Operator.apply : Operator → Literal → Literal → Except ValueFault Literal
  | .arithmetic op => op.apply
  | .comparison op => op.apply

end PenScript
