import PenScript.Text.Split

/-!
# Numerals

A numeral is an optional minus sign, ASCII digits and at most one point.
Without a point it is an integer, which must fit into 64 bits; with one it is a
double, correctly rounded.  What is taken for a numeral is decided by counting
its digits and points in 32-bit words.
-/

namespace PenScript

/-- A number as it is written.  `fraction` holds the digits after the point, if
there is one. -/
structure Numeral where
  negative : Bool
  whole : List Char
  fraction : Option (List Char)
  deriving DecidableEq, Repr

namespace Numeral

/-- The text behind a minus sign, if there is one. -/
def body : List Char → List Char
  | '-' :: text => text
  | text => text

/-- How many characters are of a kind.  The word that counts them starts over at
zero when it is full. -/
def count (isCounted : Char → Bool) (text : List Char) : UInt32 :=
  text.foldl (fun total c => if isCounted c then total + 1 else total) 0

/-- Whether a text is taken for a number: it is made of digits and points, and
by their counts there is a digit and not more than one point. -/
def isShaped (text : List Char) : Bool :=
  let text := body text
  text.all (fun c => c.isDigit || c == '.') && count Char.isDigit text != 0 &&
    count (· == '.') text ≤ 1

/-- Reads an unsigned numeral; at least one digit stands before or after the
point. -/
def ofUnsigned? (negative : Bool) (text : List Char) : Option Numeral :=
  match Text.fields (· == '.') text with
  | [whole] =>
      if whole.all Char.isDigit && !whole.isEmpty then
        some ⟨negative, whole, none⟩
      else
        none
  | [whole, fraction] =>
      let digits := whole ++ fraction
      if digits.all Char.isDigit && !digits.isEmpty then
        some ⟨negative, whole, some fraction⟩
      else
        none
  | _ => none

def ofText? : List Char → Option Numeral
  | '-' :: text => ofUnsigned? true text
  | text => ofUnsigned? false text

/-- The value of the digits before the point. -/
def wholeValue (numeral : Numeral) : Int :=
  let magnitude := Nat.ofDigitChars 10 numeral.whole 0
  if numeral.negative then -(magnitude : Int) else magnitude

/-- The double nearest to a numeral whose digits after the point are
`fraction`. -/
def nearestFloat (numeral : Numeral) (fraction : List Char) : Float :=
  let magnitude :=
    Float.ofScientific (Nat.ofDigitChars 10 (numeral.whole ++ fraction) 0) true
      fraction.length
  if numeral.negative then -magnitude else magnitude

end Numeral

end PenScript
