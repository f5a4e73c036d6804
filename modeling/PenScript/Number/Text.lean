import PenScript.Number.Shortest

/-!
# Text of numbers

Integers are written in decimal.  Doubles are written with the fewest digits
that read back, never with an exponent, and whole ones without a point.
-/

namespace PenScript

def intText (n : Int64) : String :=
  toString n.toInt

/-- A decimal in positional form: zeros fill the places up to the point. -/
def Decimal.positional (decimal : Decimal) : List Char :=
  let digits := Nat.toDigits 10 decimal.digits
  match decimal.exponent with
  | .ofNat zeros => digits ++ List.replicate zeros '0'
  | .negSucc places =>
      let padded := List.replicate (places + 2 - digits.length) '0' ++ digits
      let whole := padded.length - (places + 1)
      padded.take whole ++ '.' :: padded.drop whole

def Binary64.text : Binary64 → String
  | .notANumber => "NaN"
  | .infinite negative => if negative then "-inf" else "inf"
  | .finite negative significand exponent =>
      let magnitude := (Decimal.shortest significand exponent).positional
      String.ofList (if negative then '-' :: magnitude else magnitude)

def doubleText (x : Float) : String :=
  (Binary64.ofFloat x).text

end PenScript
