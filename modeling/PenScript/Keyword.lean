/-!
# Keywords

The words that a statement can start with, and how many parameters each takes.
-/

namespace PenScript

inductive Keyword where
  | moveTo
  | lineTo
  | regularPolygon
  | square
  | quadrilateral
  | rectangle
  | circle
  | triangle
  | dot
  | clear
  | resetPen
  | fillOn
  | fillOff
  | fill
  | pen
  | penWidth
  | var
  | ifTrue
  | whileTrue
  | forRange
  | define
  | call
  | ret
  | endBlock
  deriving DecidableEq, Repr

namespace Keyword

/-- All spellings of the keywords. -/
def spellings : List (String × Keyword) :=
  [("move", .moveTo), ("moveto", .moveTo), ("drawto", .lineTo),
    ("line", .lineTo), ("lineto", .lineTo), ("regularpolygon", .regularPolygon),
   ("rp", .regularPolygon),
   ("square", .square), ("quadrilateral", .quadrilateral),
   ("rectangle", .rectangle),
   ("circle", .circle), ("triangle", .triangle), ("dot", .dot),
   ("clear", .clear),
   ("reset", .resetPen), ("resetpen", .resetPen), ("fillon", .fillOn),
   ("filloff", .fillOff),
   ("fill", .fill), ("pen", .pen), ("penwidth", .penWidth), ("var", .var),
   ("if", .ifTrue),
   ("while", .whileTrue), ("for", .forRange), ("def", .define), ("call", .call),
   ("ret", .ret), ("end", .endBlock)]

def ofWord? (word : String) : Option Keyword :=
  spellings.lookup word

/-- The numbers of parameters that a keyword takes.  A declaration has a form of
its own. -/
def arities? : Keyword → Option (List Nat)
  | .moveTo | .lineTo => some [2]
  | .regularPolygon => some [2, 3]
  | .square => some [1, 2]
  | .quadrilateral => some [8]
  | .rectangle => some [2, 4, 8]
  | .triangle => some [1, 2, 6]
  | .fill | .pen => some [1, 3, 4]
  | .forRange => some [3, 4]
  | .circle | .penWidth | .ifTrue | .whileTrue | .define | .call => some [1]
  | .dot | .clear | .resetPen | .fillOn | .fillOff | .ret | .endBlock =>
      some [0]
  | .var => none

end Keyword

end PenScript
