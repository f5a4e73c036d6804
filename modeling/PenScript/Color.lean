/-!
# Colors

A color has four channels of one byte.  In scripts it is one of a few names, or
hexadecimal: six digits for an opaque color, or eight with the alpha channel
first.
-/

namespace PenScript

structure Color where
  red : UInt8
  green : UInt8
  blue : UInt8
  alpha : UInt8
  deriving DecidableEq, Repr

namespace Color

/-- A color that hides what is below it. -/
def solid (red green blue : UInt8) : Color :=
  ⟨red, green, blue, 255⟩

/-- The colors that have a name. -/
def palette : List (String × Color) :=
  [("black", solid 0 0 0), ("white", solid 255 255 255), ("red", solid 255 0 0),
   ("green", solid 0 128 0), ("lime", solid 0 255 0), ("blue", solid 0 0 255),
   ("yellow", solid 255 255 0), ("cyan", solid 0 255 255),
   ("magenta", solid 255 0 255),
   ("orange", solid 255 165 0), ("purple", solid 128 0 128),
   ("pink", solid 255 192 203),
   ("brown", solid 165 42 42), ("gray", solid 128 128 128),
   ("grey", solid 128 128 128),
   ("navy", solid 0 0 128), ("teal", solid 0 128 128),
   ("transparent", ⟨255, 255, 255, 0⟩)]

def named? (name : String) : Option Color :=
  palette.lookup name

/-- The value of a hexadecimal digit of either case. -/
def hexDigit? (c : Char) : Option Nat :=
  if c.isDigit then some (c.toNat - '0'.toNat)
  else if 'a' ≤ c ∧ c ≤ 'f' then some (c.toNat - 'a'.toNat + 10)
  else if 'A' ≤ c ∧ c ≤ 'F' then some (c.toNat - 'A'.toNat + 10)
  else none

def byte (high low : Nat) : UInt8 :=
  UInt8.ofNat (16 * high + low)

/-- Reads hexadecimal digits, which a number sign may precede. -/
def ofHex? (text : List Char) : Option Color :=
  let digits := match text with
    | '#' :: digits => digits
    | digits => digits
  match digits.mapM hexDigit? with
  | some [r₁, r₀, g₁, g₀, b₁, b₀] =>
      some (solid (byte r₁ r₀) (byte g₁ g₀) (byte b₁ b₀))
  | some [a₁, a₀, r₁, r₀, g₁, g₀, b₁, b₀] =>
      some ⟨byte r₁ r₀, byte g₁ g₀, byte b₁ b₀, byte a₁ a₀⟩
  | _ => none

/-- Reads a color; a name is tried before hexadecimal. -/
def ofText? (text : List Char) : Option Color :=
  named? (String.ofList text) <|> ofHex? text

def hexPair (value : UInt8) : List Char :=
  [Nat.digitChar (value.toNat / 16), Nat.digitChar (value.toNat % 16)]

/-- All four channels in lower-case hexadecimal, alpha first. -/
def text (color : Color) : String :=
  String.ofList
    ('#' :: hexPair color.alpha ++ hexPair color.red ++ hexPair color.green ++
      hexPair color.blue)

end Color

end PenScript
