import PenScript.Text.Case
import PenScript.Token

/-!
# Lines

A script is read line by line.  Everything after an `@` is a comment, case does
not matter, and lines without code are skipped.
-/

namespace PenScript

/-- A line that holds code. -/
structure Line where
  /-- Its place in the script, counted from one. -/
  number : Nat
  /-- Its code in lower case, without the blanks around it. -/
  text : List Char
  /-- The whole line as written, without the blanks around it. -/
  raw : String
  deriving DecidableEq, Repr

namespace Line

/-- The code on a line of a script: what stands before a comment. -/
def code (line : List Char) : List Char :=
  Text.trim (Text.cut (· == '@') line).1

/-- The line with the given number, if there is code on it. -/
def ofNumbered? (number : Nat) (line : List Char) : Option Line :=
  let code := Line.code line
  if code.isEmpty then none
  else some ⟨number, Text.lower code, String.ofList (Text.trim line)⟩

/-- The lines with code, in order.  A carriage return before a line break is
left as it is: it is a blank, and makes no difference to any line. -/
def ofSource (source : String) : List Line :=
  (Text.fields (· == '\n') source.toList).zipIdx.filterMap fun (line, index) =>
    ofNumbered? (index + 1) line

/-- The first word of a line's text, and the text after it. -/
def split (text : List Char) : List Char × List Char :=
  match Text.cut Text.isBlank text with
  | (word, some rest) => (word, Text.trim rest)
  | (word, none) => (word, [])

end Line

end PenScript
