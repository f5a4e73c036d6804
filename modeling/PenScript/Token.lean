import PenScript.Operator
import PenScript.Text.Split

/-!
# Tokens

The text of a statement is a sequence of operators and words.  An operator needs
no blanks around it.  A minus sign belongs to the number after it when no
operand stands before it.
-/

namespace PenScript

inductive Token where
  | operator (op : Operator)
  | word (text : List Char)
  deriving DecidableEq, Repr

namespace Token

def text : Token → List Char
  | .operator op => op.symbol.toList
  | .word text => text

def isOperator : Token → Bool
  | .operator _ => true
  | .word _ => false

/-- A character that is written in operators only. -/
def isGlyph (c : Char) : Bool :=
  ['+', '-', '*', '/', '=', '>', '<', '!'].contains c

/-- The words of a text, where each glyph is a word of its own. -/
def pieces (text : List Char) : List (List Char) :=
  Text.words (text.flatMap fun c => if isGlyph c then [' ', c, ' '] else [c])

def startsWithDigit (text : List Char) : Bool :=
  text.head?.any Char.isDigit

/-- Turns pieces into tokens.  `operandDue` holds at the start and after an
operator.  An exclamation mark means "not equal", whether an equals sign follows
or not. -/
def ofPieces (operandDue : Bool) : List (List Char) → List Token
  | [] => []
  | piece :: rest =>
      if piece = ['!'] then
        match rest with
        | ['='] :: rest =>
            .operator (.comparison .notEqual) :: ofPieces true rest
        | rest => .operator (.comparison .notEqual) :: ofPieces true rest
      else if operandDue && piece = ['-'] then
        match rest with
        | [] => [.operator (.arithmetic .subtract)]
        | next :: others =>
            if startsWithDigit next then .word ('-' :: next) ::
              ofPieces false others
            else .operator (.arithmetic .subtract) :: ofPieces true
              (next :: others)
      else
        match Operator.ofSymbol? piece with
        | some op => .operator op :: ofPieces true rest
        | none => .word piece :: ofPieces false rest

/-- The tokens of a text, from left to right. -/
def scan (text : List Char) : List Token :=
  ofPieces true (pieces text)

/-- Tokens as text, with one space between two of them. -/
def join (tokens : List Token) : List Char :=
  List.intercalate [' '] (tokens.map text)

/-- The expressions in a row of tokens: a new one starts where two words
meet. -/
def expressions (tokens : List Token) : List (List Token) :=
  tokens.splitBy fun left right => left.isOperator || right.isOperator

/-- The parameters in a text.  Commas separate them, and so do blanks between
two words; between two commas there is always at least one parameter, if only an
empty one. -/
def parameters (text : List Char) : List (List Char) :=
  if text.isEmpty then []
  else
    (Text.fields (· == ',') text).flatMap fun segment =>
      match expressions (scan segment) with
      | [] => [[]]
      | found => found.map join

end Token

end PenScript
