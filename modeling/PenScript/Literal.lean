import PenScript.Color
import PenScript.Fault
import PenScript.Number.Int64
import PenScript.Number.Numeral

/-!
# Literals

A literal is a finished value.  This module writes and reads literals and turns
one kind into another.
-/

namespace PenScript

inductive Literal where
  | int (n : Int64)
  | double (x : Float)
  | bool (b : Bool)
  | color (c : Color)
  deriving DecidableEq

namespace Literal

def kind : Literal → Kind
  | .int _ => .int
  | .double _ => .double
  | .bool _ => .bool
  | .color _ => .color

def text : Literal → String
  | .int n => intText n
  | .double x => doubleText x
  | .bool true => "true"
  | .bool false => "false"
  | .color c => c.text

/-! ### Coercions -/

/-- The integer part of a double, for doubles from `-2 ^ 63` to `2 ^ 63`.  The
upper end itself is one more than the greatest integer, and gives that
integer. -/
def intOfDouble (x : Float) : Except ValueFault Int64 :=
  match (Binary64.ofFloat x).truncate? with
  | some n =>
      if Int64.minValue.toInt ≤ n ∧ n ≤ Int64.maxValue.toInt + 1
        then .ok (Int64.ofIntClamp n)
      else .error .overflow
  | none => .error .overflow

def toInt : Literal → Except ValueFault Int64
  | .int n => .ok n
  | .double x => intOfDouble x
  | other => .error (.typeMismatch .int other.kind)

def toDouble : Literal → Except ValueFault Float
  | .int n => .ok (Float.ofInt n.toInt)
  | .double x => .ok x
  | other => .error (.typeMismatch .double other.kind)

def toBool : Literal → Except ValueFault Bool
  | .bool b => .ok b
  | .int n => .ok (n != 0)
  | other => .error (.typeMismatch .bool other.kind)

def toColor : Literal → Except ValueFault Color
  | .color c => .ok c
  | other => .error (.typeMismatch .color other.kind)

/-! ### Reading -/

def boolOfText? (text : List Char) : Option Bool :=
  if text = ['t', 'r', 'u', 'e'] ∨ text = ['o', 'n'] then some true
  else if text = ['f', 'a', 'l', 's', 'e'] ∨
    text = ['o', 'f', 'f'] then some false
  else none

/-- The literal that a numeral stands for.  An integer out of range is
malformed. -/
def ofNumeral (text : List Char) (numeral : Numeral) :
    Except ValueFault Literal :=
  match numeral.fraction with
  | some fraction => .ok (.double (numeral.nearestFloat fraction))
  | none =>
      match int64? numeral.wholeValue with
      | some n => .ok (.int n)
      | none => .error (.malformedNumber (String.ofList text))

/-- Reads a text that is taken for a number. -/
def ofNumber (text : List Char) : Except ValueFault Literal :=
  match Numeral.ofText? text with
  | some numeral => ofNumeral text numeral
  | none => .error (.malformedNumber (String.ofList text))

/-- Reads a text that has the form of a literal, and answers `none` for any
other text. -/
def ofText? (text : List Char) : Except ValueFault (Option Literal) :=
  if Numeral.isShaped text then (ofNumber text).map some
  else .ok ((Color.ofText? text).map .color <|> (boolOfText? text).map .bool)

end Literal

end PenScript
