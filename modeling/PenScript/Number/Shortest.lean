import PenScript.Number.Binary64

/-!
# Shortest decimals

Of all decimals that read back as a given double, the one with the fewest digits
is chosen, and among those the nearest to the double; of two equally near ones,
the larger.

A positive double is a fraction.  The decimals that read back as it lie in an
interval around it, which reaches half way to the neighbouring doubles.
-/

namespace PenScript

/-- A decimal `digits * 10 ^ exponent`. -/
structure Decimal where
  digits : Nat
  exponent : Int
  deriving DecidableEq, Repr

namespace Shortest

/-- A positive double over a common denominator.  Decimals strictly between
`lower` and `upper` read back as `value`, and so do the two ends when `closed`
holds. -/
structure Interval where
  lower : Nat
  value : Nat
  upper : Nat
  denominator : Nat
  closed : Bool

/-- The interval of `significand * 2 ^ exponent`.  Below a power of two the
doubles lie twice as close, unless it is the smallest one. -/
def Interval.ofParts (significand : Nat) (exponent : Int) : Interval :=
  let below := if significand = Binary64.leadingBit ∧ -1074 < exponent
    then 1 else 2
  let shift := exponent.toNat
  { lower := (4 * significand - below) <<< shift
    value := (4 * significand) <<< shift
    upper := (4 * significand + 2) <<< shift
    denominator := 4 <<< (-exponent).toNat
    closed := significand % 2 = 0 }

def powerOfTen (exponent : Nat) : Nat :=
  Nat.pow 10 exponent

/-- Whether `count` steps of `unitNum / unitDen` lie in the interval. -/
def Interval.admits (interval : Interval) (unitNum unitDen count : Nat) :
    Bool :=
  let point := count * unitNum * interval.denominator
  let low := interval.lower * unitDen
  let high := interval.upper * unitDen
  if interval.closed then low ≤ point && point ≤ high
    else low < point && point < high

/-- The decimal nearest to the value among the multiples of `10 ^ exponent` that
read back as it. -/
def Interval.onGrid? (interval : Interval) (exponent : Int) : Option Decimal :=
  let unitNum := powerOfTen exponent.toNat
  let unitDen := powerOfTen (-exponent).toNat
  let scaled := interval.value * unitDen
  let step := unitNum * interval.denominator
  let floor := scaled / step
  match interval.admits unitNum unitDen floor,
      interval.admits unitNum unitDen (floor + 1) with
  | true, true =>
      if 2 * (scaled % step) < step then some ⟨floor, exponent⟩
        else some ⟨floor + 1, exponent⟩
  | true, false => some ⟨floor, exponent⟩
  | false, true => some ⟨floor + 1, exponent⟩
  | false, false => none

/-- The number of digits of the whole part of a fraction, or minus the number of
zeros that follow the point when there is no whole part. -/
def magnitude (numerator denominator : Nat) : Int :=
  if denominator ≤ numerator
    then (Nat.toDigits 10 (numerator / denominator)).length
  else 1 - (Nat.toDigits 10 (denominator / numerator)).length

/-- The first decimal found on finer and finer grids. -/
def search (interval : Interval) : Nat → Int → Decimal
  | 0, exponent =>
      ⟨interval.value * powerOfTen (-exponent).toNat / interval.denominator,
        exponent⟩
  | tries + 1, exponent =>
      match interval.onGrid? exponent with
      | some decimal => decimal
      | none => search interval tries (exponent - 1)

end Shortest

/-- The shortest decimal that reads back as `significand * 2 ^ exponent`.  Of
eighteen grids, from one that is too coarse to one with seventeen digits, some
grid holds it. -/
def Decimal.shortest (significand : Nat) (exponent : Int) : Decimal :=
  if significand = 0 then ⟨0, 0⟩
  else
    let interval := Shortest.Interval.ofParts significand exponent
    Shortest.search interval 18
      (Shortest.magnitude interval.value interval.denominator)

end PenScript
