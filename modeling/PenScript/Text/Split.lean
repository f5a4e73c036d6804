import PenScript.Text.Blank

/-!
# Splitting text

Text is split at every separator into fields, which may be empty, or at every
run of blanks into words, which never are.
-/

namespace PenScript.Text

/-- The parts of a text between its separators, one more than there are
separators. -/
def fields (isSeparator : Char → Bool) (text : List Char) : List (List Char) :=
  text.foldr
    (fun c parts =>
      if isSeparator c then [] :: parts else parts.modifyHead (c :: ·))
    [[]]

/-- The maximal runs of characters that are not blank. -/
def words (text : List Char) : List (List Char) :=
  (fields isBlank text).filter fun field => !field.isEmpty

/-- The part before the first separator, and the part after it if there is
one. -/
def cut (isSeparator : Char → Bool) (text : List Char) :
    List Char × Option (List Char) :=
  (text.takeWhile fun c => !isSeparator c,
    (text.dropWhile fun c => !isSeparator c).tail?)

end PenScript.Text
