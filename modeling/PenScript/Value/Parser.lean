import PenScript.Name
import PenScript.Token
import PenScript.Value

/-!
# Reading values

A value is written as a literal, as the name of a declared variable, or as an
expression of these.  Products bind tighter than sums, sums bind tighter than
comparisons, and operators of one level are grouped from the left.  An
expression holds at most one comparison.
-/

namespace PenScript.Value

/-- The fault of a text that is no value at all: one that starts like a number
is a bad number. -/
def unreadable (text : List Char) : ValueFault :=
  if Token.startsWithDigit (text.dropWhile (· == '-'))
    then .malformedNumber (String.ofList text)
  else .unrecognised (String.ofList text)

/-- Reads a text that is not a literal as the name of a variable. -/
def ofName (declared : String → Bool) (text : List Char) :
    Except ValueFault Value :=
  if Name.isIdentifier text then
    let name := String.ofList text
    if declared name then .ok (.reference name) else .error (.undeclared name)
  else .error (unreadable text)

/-- Reads a single operand. -/
def ofWord (declared : String → Bool) (text : List Char) :
    Except ValueFault Value :=
  match Literal.ofText? text with
  | .error fault => .error fault
  | .ok (some result) => .ok (.literal result)
  | .ok none => ofName declared text

/-! ### Expressions -/

/-- Operands with an operator before each. -/
abbrev Tail := List (Operator × Value)

mutual

/-- Reads tokens from an operand on: the operand, then the operators and
operands after it.  `compared` holds once a comparison has been read, and
`malformed` is the fault of tokens that are in the wrong order. -/
def readOperand (declared : String → Bool) (malformed : ValueFault)
    (compared : Bool) :
    List Token → Except ValueFault (Value × Tail)
  | .word text :: rest =>
      match ofWord declared text with
      | .error fault => .error fault
      | .ok operand =>
          match readTail declared malformed compared rest with
          | .error fault => .error fault
          | .ok tail => .ok (operand, tail)
  | _ => .error malformed

/-- Reads tokens from an operator on. -/
def readTail (declared : String → Bool) (malformed : ValueFault)
    (compared : Bool) :
    List Token → Except ValueFault Tail
  | [] => .ok []
  | .operator op :: rest =>
      let compares := op.precedence = .comparison
      if compared && compares then .error malformed
      else
        match readOperand declared malformed (compared || compares) rest with
        | .error fault => .error fault
        | .ok (operand, tail) => .ok ((op, operand) :: tail)
  | .word _ :: _ => .error malformed

end

/-- Carries the operators of one level into the operands before them, from the
left. -/
def group (level : Operator.Precedence) (first : Value) : Tail → Value × Tail
  | [] => (first, [])
  | (op, operand) :: rest =>
      if op.precedence = level then group level (.pending op first operand) rest
      else
        let (operand, rest) := group level operand rest
        (first, (op, operand) :: rest)

/-- The expression made of a first operand and the operators and operands after
it. -/
def ofOperands (first : Value) (tail : Tail) : Value :=
  let (first, tail) := group .product first tail
  let (first, tail) := group .sum first tail
  (group .comparison first tail).1

/-- Reads the tokens of an expression; `text` is the whole of it. -/
def ofTokens (declared : String → Bool) (text : List Char)
    (tokens : List Token) :
    Except ValueFault Value :=
  match readOperand declared (.unrecognised (String.ofList text))
      false tokens with
  | .error fault => .error fault
  | .ok (first, tail) => .ok (ofOperands first tail)

/-- Reads a text as a value.  `declared` tells which names are variables. -/
def parse (declared : String → Bool) (text : List Char) :
    Except ValueFault Value :=
  let text := Text.trim text
  match Literal.ofText? text with
  | .error fault => .error fault
  | .ok (some result) => .ok (.literal result)
  | .ok none =>
      let tokens := Token.scan text
      if 1 < tokens.length then ofTokens declared text tokens
        else ofName declared text

/-- Reads a text as a literal, where no variable can stand. -/
def parseLiteral (text : List Char) : Except ValueFault Value :=
  let text := Text.trim text
  match Literal.ofText? text with
  | .error fault => .error fault
  | .ok (some result) => .ok (.literal result)
  | .ok none => .error (unreadable text)

end PenScript.Value
