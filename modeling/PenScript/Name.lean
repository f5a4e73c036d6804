import PenScript.Color
import PenScript.Fault
import PenScript.Keyword

/-!
# Names

Variables and procedures have names made of ASCII letters, digits and
underscores.  A name cannot be mistaken for anything else: not for a keyword, a
truth value or a color.
-/

namespace PenScript.Name

/-- A letter or underscore, followed by letters, digits and underscores. -/
def isIdentifier : List Char → Bool
  | [] => false
  | first :: rest =>
      (first.isAlpha || first == '_') && rest.all fun c =>
        c.isAlphanum || c == '_'

/-- Whether a word is a spelling of a keyword or of a truth value. -/
def isReserved (word : String) : Bool :=
  (Keyword.spellings.map Prod.fst).contains word ||
    ["true", "false", "on", "off"].contains word

/-- The first reason why a word cannot be the name of a variable. -/
def flaw? (word : String) : Option NameFlaw :=
  let text := word.toList
  if text.isEmpty then some .empty
  else if text.head?.any Char.isDigit then some .leadingDigit
  else if !isIdentifier text then some .badCharacter
  else if isReserved word then some .reserved
  else if (Color.ofText? text).isSome then some .colorLiteral
  else none

def check (word : String) : Except NameFault Unit :=
  match flaw? word with
  | some flaw => .error (.invalid word flaw)
  | none => .ok ()

end PenScript.Name
