/-!
# Exact values of doubles

A double is taken apart into its sign, significand and exponent, so that it can
be truncated, rounded and written in exact integer arithmetic.
-/

namespace PenScript

/-- What a double stands for.  A finite one is `significand * 2 ^ exponent`,
with a sign. -/
inductive Binary64 where
  | notANumber
  | infinite (negative : Bool)
  | finite (negative : Bool) (significand : Nat) (exponent : Int)
  deriving DecidableEq, Repr

namespace Binary64

/-- The weight of the bit in front of the 52 bits of the fraction. -/
def leadingBit : Nat := 0x10000000000000

/-- Takes a double apart into a sign bit, 11 bits of exponent and 52 bits of
fraction.  The least exponent belongs to doubles without a leading bit, and the
greatest to those that are not finite. -/
def ofFloat (x : Float) : Binary64 :=
  let bits := x.toBits.toNat
  let negative : Bool := 0x8000000000000000 ≤ bits
  let exponent : Nat := bits / leadingBit % 0x800
  let fraction : Nat := bits % leadingBit
  if exponent = 0x7FF then
    if fraction = 0 then .infinite negative else .notANumber
  else if exponent = 0 then .finite negative fraction (-1074)
  else .finite negative (leadingBit + fraction) ((exponent : Int) - 1075)

/-- The whole part of `significand * 2 ^ exponent`. -/
def wholePart (significand : Nat) : Int → Nat
  | .ofNat power => significand <<< power
  | .negSucc power => significand >>> (power + 1)

/-- The natural number nearest to `significand * 2 ^ exponent`; a half goes
up. -/
def nearestNat (significand : Nat) : Int → Nat
  | .ofNat power => significand <<< power
  | .negSucc power => (significand + (1 <<< power)) >>> (power + 1)

def signed (negative : Bool) (magnitude : Nat) : Int :=
  if negative then -(magnitude : Int) else magnitude

/-- The integer that remains when the fraction is dropped, if the double is
finite. -/
def truncate? : Binary64 → Option Int
  | .finite negative significand exponent =>
      some (signed negative (wholePart significand exponent))
  | _ => none

/-- The nearest machine integer.  A half goes away from zero, a double beyond
the range gives the last integer on its side, and what is not a number gives
zero. -/
def nearestInt64 : Binary64 → Int64
  | .notANumber => 0
  | .infinite negative => if negative then Int64.minValue else Int64.maxValue
  | .finite negative significand exponent =>
      Int64.ofIntClamp (signed negative (nearestNat significand exponent))

end Binary64

end PenScript
