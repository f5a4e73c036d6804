/-!
# Checked machine integers

Integers of scripts have 64 bits.  An operation on them is carried out on
unbounded integers, and its result counts only if it fits.
-/

namespace PenScript

/-- The machine integer with the given value, if it is in range. -/
def int64? (n : Int) : Option Int64 :=
  if Int64.minValue.toInt ≤ n ∧ n ≤ Int64.maxValue.toInt
    then some (Int64.ofInt n) else none

end PenScript
