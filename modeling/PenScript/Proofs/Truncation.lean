import Mathlib.Data.Rat.Floor
import PenScript.Proofs.Integers

/-!
# Doubles as integers

A finite double is a rational number.  Where an integer is asked for, the double
is truncated towards zero, and refused if the result has more than 64 bits.  One
double escapes this: two to the power of 63 is one more than the greatest
integer, and is taken for it.
-/

namespace PenScript

open Float.Model Float.Model.UnpackedFloat

/-- The rational number that a double stands for, if it is finite. -/
def exactValue? (x : Float) : Option ℚ :=
  match x.toModel.unpack with
  | .zero _ => some 0
  | .finite sign significand exponent _ =>
      some (sign.apply significand * 2 ^ exponent)
  | .infinity _ => none
  | .notANumber => none

/-- The integer next to a rational number on the side of zero. -/
def truncated (q : ℚ) : Int :=
  if 0 ≤ q then ⌊q⌋ else ⌈q⌉

namespace Binary64

/-- The rational number with a sign, significand and exponent. -/
def rational? : Binary64 → Option ℚ
  | .finite negative significand exponent =>
      some (signed negative significand * 2 ^ exponent)
  | _ => none

/-! ### The parts of a double -/

section Parts

variable (bits : BitVec Format.binary64.numBits)

theorem toNat_unpackMantissa :
    (unpackMantissa bits).toNat = bits.toNat % leadingBit := by
  simp [unpackMantissa, BitVec.extractLsb_toNat, leadingBit]

theorem toNat_unpackExponent :
    (unpackExponent bits).toNat = bits.toNat / leadingBit % 0x800 := by
  simp [unpackExponent, BitVec.extractLsb_toNat, Nat.shiftRight_eq_div_pow,
    leadingBit]

theorem unpackSign_eq_zero_iff :
    unpackSign bits = 0#1 ↔ ¬0x8000000000000000 ≤ bits.toNat := by
  have bounded : bits.toNat < 2 ^ 64 := bits.isLt
  have sign : (unpackSign bits).toNat = bits.toNat / 2 ^ 63 % 2 := by
    have last : unpackSign bits = bits.extractLsb 63 63 := rfl
    rw [last, BitVec.extractLsb_toNat, Nat.shiftRight_eq_div_pow]
  rw [← BitVec.toNat_inj, sign, BitVec.toNat_ofNat]
  omega

/-- The leading bit stands before the fraction. -/
theorem toNat_leading_append (fraction : BitVec 52) :
    (1#1 ++ fraction).toNat = leadingBit + fraction.toNat := by
  rw [BitVec.toNat_append, ← Nat.shiftLeft_add_eq_or_of_lt fraction.isLt]
  simp [Nat.shiftLeft_eq, leadingBit]

end Parts

/-- The highest bit is the sign. -/
theorem signed_eq_apply (bits : BitVec Format.binary64.numBits)
    (significand : Nat) :
    signed (0x8000000000000000 ≤ bits.toNat) significand =
      (Sign.ofBitVec (unpackSign bits)).apply significand := by
  by_cases negative : 0x8000000000000000 ≤ bits.toNat
  · have sign : unpackSign bits ≠ 0#1 := fun zero =>
      (unpackSign_eq_zero_iff bits).mp zero negative
    simp [signed, negative, Sign.ofBitVec, sign, Sign.apply]
  · have sign : unpackSign bits = 0#1 :=
      (unpackSign_eq_zero_iff bits).mpr negative
    simp [signed, negative, Sign.ofBitVec, sign, Sign.apply]

/-- Taking a double apart keeps its value. -/
theorem rational?_ofFloat (x : Float) :
    (ofFloat x).rational? = exactValue? x := by
  have value : x.toBits.toNat = x.toModel.toBits.toBitVec.toNat := rfl
  unfold exactValue? ofFloat Float.Model.unpack UnpackedFloat.unpack
  rw [value]
  generalize x.toModel.toBits.toBitVec = bits
  change BitVec Format.binary64.numBits at bits
  have greatest :
      (unpackExponent bits).toNat = 0x7FF ↔ unpackExponent bits = -1#11 :=
    BitVec.toNat_inj (y := -1#11)
  have least : (unpackExponent bits).toNat = 0 ↔ unpackExponent bits = 0#11 :=
    BitVec.toNat_inj (y := 0#11)
  have vanishes :
      (unpackMantissa bits).toNat = 0 ↔ unpackMantissa bits = 0#52 :=
    BitVec.toNat_inj (y := 0#52)
  dsimp only
  rw [← toNat_unpackExponent bits, ← toNat_unpackMantissa bits]
  by_cases special : unpackExponent bits = -1#11
  · rw [if_pos (greatest.mpr special), if_pos special]
    by_cases zero : unpackMantissa bits = 0#52
    · rw [if_pos (vanishes.mpr zero), if_pos zero]
      rfl
    · rw [if_neg (mt vanishes.mp zero), if_neg zero]
      rfl
  · rw [if_neg (mt greatest.mp special), if_neg special]
    by_cases subnormal : unpackExponent bits = 0#11
    · rw [if_pos (least.mpr subnormal), if_pos subnormal]
      by_cases zero : unpackMantissa bits = 0#52
      · rw [dif_pos zero, vanishes.mpr zero]
        simp [rational?, signed]
      · have exponent : (-1074 : Int) =
            (unpackExponent bits).toNat - (Format.binary64.exponentBias +
              (52 : Nat)) + 1 := by
          rw [least.mpr subnormal]
          rfl
        rw [dif_neg zero, rational?, signed_eq_apply, exponent]
    · rw [if_neg (mt least.mp subnormal), if_neg subnormal, rational?,
        signed_eq_apply, ← toNat_leading_append]
      rfl

/-! ### Truncation -/

theorem wholePart_eq_floor (significand : Nat) (exponent : Int) :
    (wholePart significand exponent : Int) =
      ⌊(significand * 2 ^ exponent : ℚ)⌋ := by
  cases exponent with
  | ofNat power =>
      have whole :
          (significand * 2 ^ Int.ofNat power : ℚ) =
            (significand * 2 ^ power : Nat) := by
        simp
      rw [whole, Int.floor_natCast, wholePart, Nat.shiftLeft_eq]
  | negSucc power =>
      have quotient : (significand * 2 ^ Int.negSucc power : ℚ) =
          significand / (2 ^ (power + 1) : Nat) := by
        rw [zpow_negSucc, Nat.cast_pow, Nat.cast_ofNat, div_eq_mul_inv]
      rw [quotient, Rat.floor_natCast_div_natCast, wholePart,
        Nat.shiftRight_eq_div_pow]
      rfl

theorem truncated_of_nonneg {q : ℚ} (nonneg : 0 ≤ q) : truncated q = ⌊q⌋ :=
  if_pos nonneg

theorem truncated_neg_of_nonneg {q : ℚ} (nonneg : 0 ≤ q) :
    truncated (-q) = -⌊q⌋ := by
  rcases nonneg.eq_or_lt with rfl | positive
  · rfl
  · rw [truncated, if_neg (by linarith), Int.ceil_neg]

/-- Shifting the significand truncates. -/
theorem truncate?_eq (number : Binary64) :
    number.truncate? = number.rational?.map truncated := by
  cases number with
  | notANumber => rfl
  | infinite negative => rfl
  | finite negative significand exponent =>
      have nonneg : (0 : ℚ) ≤ significand * 2 ^ exponent :=
        mul_nonneg significand.cast_nonneg (zpow_nonneg zero_le_two exponent)
      rw [truncate?, rational?, Option.map_some]
      cases negative with
      | false => simp [signed, truncated_of_nonneg nonneg, wholePart_eq_floor]
      | true =>
          simp [signed, truncated_neg_of_nonneg nonneg, wholePart_eq_floor]

/-- A double has 53 bits. -/
theorem significand_lt {x : Float} {negative : Bool} {significand : Nat}
    {exponent : Int}
    (parts : ofFloat x = .finite negative significand exponent) :
    significand < 2 ^ 53 := by
  have fraction : x.toBits.toNat % leadingBit < leadingBit :=
    Nat.mod_lt _ (by decide)
  have bound : 2 * leadingBit = 2 ^ 53 := rfl
  unfold ofFloat at parts
  simp only at parts
  split at parts
  · split at parts <;> cases parts
  · split at parts <;> cases parts <;> omega

/-- Large doubles have no fraction. -/
theorem exact_of_truncate? {x : Float} {n : Int} (large : 2 ^ 53 ≤ n)
    (truncation : (ofFloat x).truncate? = some n) :
    (ofFloat x).rational? = some (n : ℚ) := by
  cases parts : ofFloat x with
  | notANumber => rw [parts] at truncation; cases truncation
  | infinite negative => rw [parts] at truncation; cases truncation
  | finite negative significand exponent =>
      have bounded := significand_lt parts
      rw [parts, truncate?, Option.some_inj] at truncation
      subst truncation
      cases negative with
      | true => simp [signed] at large; omega
      | false =>
          cases exponent with
          | ofNat power => simp [signed, rational?, wholePart, Nat.shiftLeft_eq]
          | negSucc power =>
              have whole :
                  (2 : Int) ^ 53 ≤ (significand >>> (power + 1) : Nat) :=
                large
              have less : significand >>> (power + 1) ≤ significand :=
                Nat.shiftRight_le _ _
              omega

end Binary64

/-! ### The integer of a double -/

/-- The double is finite, and truncating it gives the integer. -/
def Truncates (x : Float) (n : Int) : Prop :=
  ∃ q, exactValue? x = some q ∧ truncated q = n

theorem truncate?_eq_some_iff {x : Float} {n : Int} :
    (Binary64.ofFloat x).truncate? = some n ↔ Truncates x n := by
  rw [Binary64.truncate?_eq, Binary64.rational?_ofFloat, Option.map_eq_some_iff]
  rfl

theorem Truncates.unique {x : Float} {n m : Int} (first : Truncates x n)
    (second : Truncates x m) :
    n = m :=
  Option.some.inj
    ((truncate?_eq_some_iff.mpr first).symm.trans
      (truncate?_eq_some_iff.mpr second))

/-- Next to the greatest integer, doubles are whole. -/
theorem truncates_limit_iff {x : Float} :
    Truncates x (2 ^ 63) ↔ exactValue? x = some (2 ^ 63) := by
  constructor
  · intro truncates
    rw [← Binary64.rational?_ofFloat]
    exact_mod_cast Binary64.exact_of_truncate? (by decide)
      (truncate?_eq_some_iff.mpr truncates)
  · intro value
    exact ⟨2 ^ 63, value, by decide +kernel⟩

namespace Literal

variable {x : Float} {n : Int}

theorem intOfDouble_of_fitsWord (truncates : Truncates x n)
    (fits : FitsWord n) :
    intOfDouble x = .ok (Int64.ofInt n) := by
  have above : Int64.minValue.toInt ≤ n := fits.1
  have below : n ≤ Int64.maxValue.toInt := fits.2
  have clamped : Int64.ofIntClamp n = Int64.ofInt n := calc
    Int64.ofIntClamp n = Int64.ofIntLE n above below :=
      Int64.ofIntLE_eq_ofIntClamp.symm
    _ = Int64.ofInt n := Int64.ofIntLE_eq_ofInt above below
  rw [intOfDouble, truncate?_eq_some_iff.mpr truncates]
  simp only [clamped]
  exact if_pos ⟨above, by omega⟩

/-- The comparison lets the first integer above the range pass. -/
theorem intOfDouble_of_limit (value : exactValue? x = some (2 ^ 63)) :
    intOfDouble x = .ok Int64.maxValue := by
  rw [intOfDouble, truncate?_eq_some_iff.mpr (truncates_limit_iff.mpr value)]
  rfl

theorem intOfDouble_of_not_fitsWord (below : exactValue? x ≠ some (2 ^ 63))
    (outside : ∀ n, Truncates x n → ¬FitsWord n) :
    intOfDouble x = .error .overflow := by
  cases truncation : (Binary64.ofFloat x).truncate? with
  | none => rw [intOfDouble, truncation]
  | some n =>
      have truncates := truncate?_eq_some_iff.mp truncation
      have other : n ≠ 2 ^ 63 := by
        rintro rfl
        exact below (truncates_limit_iff.mp truncates)
      have beyond := outside n truncates
      rw [intOfDouble, truncation]
      apply if_neg
      rw [Int64.toInt_minValue, Int64.toInt_maxValue]
      unfold FitsWord at beyond
      omega

/-- Any other double is truncated if the result fits. -/
theorem intOfDouble_eq_ok_iff (below : exactValue? x ≠ some (2 ^ 63))
    {word : Int64} :
    intOfDouble x = .ok word ↔ Truncates x word.toInt := by
  constructor
  · intro read
    by_cases outside : ∀ n, Truncates x n → ¬FitsWord n
    · rw [intOfDouble_of_not_fitsWord below outside] at read
      cases read
    · push Not at outside
      obtain ⟨n, truncates, fits⟩ := outside
      rw [intOfDouble_of_fitsWord truncates fits] at read
      cases read
      rw [int64?_eq_some_iff.mp (int64?_of_fitsWord fits)]
      exact truncates
  · intro truncates
    rw [intOfDouble_of_fitsWord truncates (fitsWord_toInt word),
      Int64.ofInt_toInt]

theorem intOfDouble_eq_error_iff (below : exactValue? x ≠ some (2 ^ 63)) :
    intOfDouble x = .error .overflow ↔ ∀ n, Truncates x n → ¬FitsWord n := by
  constructor
  · intro failed n truncates fits
    rw [intOfDouble_of_fitsWord truncates fits] at failed
    cases failed
  · exact intOfDouble_of_not_fitsWord below

end Literal

/-! ### Integers that commands read -/

namespace Value

open Stateful

section Reading

variable {value : Value} {store after : Store}

theorem ofExcept_eq_ok_iff {α : Type} {outcome : Except ValueFault α}
    {answer : α} :
    (MonadExcept.ofExcept outcome : Reading α) store = .ok answer after ↔
      outcome = .ok answer ∧ store = after := by
  cases outcome with
  | ok found =>
      constructor
      · rintro ⟨⟩
        exact ⟨rfl, rfl⟩
      · rintro ⟨⟨⟩, rfl⟩
        rfl
  | error fault =>
      constructor
      · rintro ⟨⟩
      · rintro ⟨⟨⟩, _⟩

theorem ofExcept_eq_error_iff {α : Type} {outcome : Except ValueFault α}
    {fault : ValueFault} :
    (MonadExcept.ofExcept outcome : Reading α) store = .error fault after ↔
      outcome = .error fault ∧ store = after := by
  cases outcome with
  | ok found =>
      constructor
      · rintro ⟨⟩
      · rintro ⟨⟨⟩, _⟩
  | error found =>
      constructor
      · rintro ⟨⟩
        exact ⟨rfl, rfl⟩
      · rintro ⟨⟨⟩, rfl⟩
        rfl

theorem readInt_of_double {x : Float}
    (read : value.read store = .ok (.double x) after) :
    value.readInt store =
      (MonadExcept.ofExcept (Literal.intOfDouble x) : Reading Int64) after := by
  rw [readInt, bind_of_ok read]
  rfl

/-- A point has the coordinates that are read for it, one after the other. -/
theorem of_readPoint {x y : Value} {point : Point}
    (read : readPoint x y store = .ok point after) :
    ∃ middle, x.readInt store = .ok point.x middle ∧
      y.readInt middle = .ok point.y after := by
  obtain ⟨abscissa, middle, first, rest⟩ := bind_eq_ok_iff.mp read
  obtain ⟨ordinate, last, second, returned⟩ := bind_eq_ok_iff.mp rest
  cases returned
  exact ⟨middle, first, second⟩

/-- A channel is an integer that fits into a byte. -/
theorem of_readChannel {byte : UInt8}
    (read : value.readChannel store = .ok byte after) :
    ∃ n : Int64, value.readInt store = .ok n after ∧ n.toInt = byte.toNat := by
  obtain ⟨n, middle, first, returned⟩ := bind_eq_ok_iff.mp read
  by_cases channel : 0 ≤ n.toInt ∧ n.toInt ≤ 255
  · rw [if_pos channel] at returned
    cases returned
    refine ⟨n, first, ?_⟩
    rw [UInt8.toNat_ofNat']
    omega
  · rw [if_neg channel] at returned
    cases returned

/-- Whatever takes an integer from the value in the store takes the truncated
double: a point for either of its coordinates, and a loop for its bounds and its
step. -/
structure Unsaturated (value : Value) (store : Store) (x : Float) : Prop where
  abscissa : ∀ {other point after},
    readPoint value other store = .ok point after →
    Truncates x point.x.toInt
  ordinate : ∀ {other before point after},
    other.readInt before = .ok point.x store →
    readPoint other value before = .ok point after → Truncates x point.y.toInt
  start : ∀ {stop step range after}, Execution.readRange value stop step store =
    .ok range after →
    Truncates x range.start
  stop : ∀ {start step before n range after},
    start.readInt before = .ok n store →
    Execution.readRange start value step before = .ok range after →
    Truncates x range.stop
  step : ∀ {start stop before n middle m range after},
    start.readInt before = .ok n middle →
    stop.readInt middle = .ok m store →
    Execution.readRange start stop (some value) before = .ok range after →
    Truncates x range.step

theorem unsaturated_of_readInt {x : Float}
    (reads : ∀ {n : Int64} {after}, value.readInt store = .ok n after →
      Truncates x n.toInt) :
    value.Unsaturated store x := by
  constructor
  · intro other point after read
    obtain ⟨middle, first, _⟩ := of_readPoint read
    exact reads first
  · intro other before point after known read
    obtain ⟨middle, first, second⟩ := of_readPoint read
    cases known.symm.trans first
    exact reads second
  · intro stop step range after read
    obtain ⟨n, m, between, last, first, _, start, _⟩ :=
      Execution.readRange_eq_ok read
    rw [start]
    exact reads first
  · intro start step before n range after known read
    obtain ⟨_, m, between, last, first, second, _, stop, _⟩ :=
      Execution.readRange_eq_ok read
    cases known.symm.trans first
    rw [stop]
    exact reads second
  · intro start stop before n middle m range after knownStart knownStop read
    obtain ⟨_, _, between, last, first, second, _, _, third⟩ :=
      Execution.readRange_eq_ok read
    cases knownStart.symm.trans first
    cases knownStop.symm.trans second
    obtain ⟨k, third, step⟩ := third value rfl
    rw [step]
    exact reads third

end Reading

/-- Where an integer is asked for, a double is truncated exactly, or refused if
it is not finite or the result does not fit.  Coordinates and loops get no other
integer.  The one exception is two to the power of 63, which is taken for the
greatest integer; but no channel of a color is. -/
theorem readInt_truncates {value : Value} {store after : Store} {x : Float}
    (read : value.read store = .ok (.double x) after) :
    (exactValue? x ≠ some (2 ^ 63) →
      (∀ n, value.readInt store = .ok n after ↔ Truncates x n.toInt) ∧
      (value.readInt store = .error .overflow after ↔ ∀ n, Truncates x n →
        ¬FitsWord n) ∧
      value.Unsaturated store x) ∧
    (exactValue? x = some (2 ^ 63) →
      value.readInt store = .ok Int64.maxValue after) ∧
    ∀ byte final, value.readChannel store = .ok byte final →
      Truncates x byte.toNat := by
  have limit (value : exactValue? x = some (2 ^ 63)) :=
    Literal.intOfDouble_of_limit value
  refine ⟨?_, ?_, ?_⟩
  · intro below
    refine ⟨?_, ?_, unsaturated_of_readInt ?_⟩
    · intro n
      rw [readInt_of_double read, ofExcept_eq_ok_iff,
        Literal.intOfDouble_eq_ok_iff below]
      exact and_iff_left rfl
    · rw [readInt_of_double read, ofExcept_eq_error_iff,
        Literal.intOfDouble_eq_error_iff below]
      exact and_iff_left rfl
    · intro n final taken
      rw [readInt_of_double read, ofExcept_eq_ok_iff] at taken
      exact (Literal.intOfDouble_eq_ok_iff below).mp taken.1
  · intro value
    rw [readInt_of_double read, ofExcept_eq_ok_iff]
    exact ⟨limit value, rfl⟩
  · intro byte final channel
    obtain ⟨n, taken, same⟩ := of_readChannel channel
    rw [readInt_of_double read, ofExcept_eq_ok_iff] at taken
    rw [← same]
    apply (Literal.intOfDouble_eq_ok_iff ?_).mp taken.1
    intro value
    cases (limit value).symm.trans taken.1
    have small := byte.toNat_lt
    rw [Int64.toInt_maxValue] at same
    omega

/-- Both neighbours of the exception keep the rule, and so does a negative
double. -/
theorem readInt_truncates_neighbours :
    let limit : Float := 9223372036854775808.0
    let less : Float := 9223372036854774784.0
    let more : Float := 9223372036854777856.0
    (Value.literal (.double limit)).read .empty = .ok (.double limit) .empty ∧
    exactValue? limit = some (2 ^ 63) ∧
    (Value.literal (.double limit)).readInt .empty = .ok Int64.maxValue .empty ∧
    (Value.literal (.double less)).readInt .empty =
      .ok 9223372036854774784 .empty ∧
    (Value.literal (.double more)).readInt .empty = .error .overflow .empty ∧
    (Value.literal (.double (-2.5))).readInt .empty = .ok (-2) .empty := by
  intro limit less more
  have read (x : Float) :
      (Value.literal (.double x)).read .empty = .ok (.double x) .empty :=
    rfl
  have value : exactValue? limit = some (2 ^ 63) :=
    truncates_limit_iff.mp (truncate?_eq_some_iff.mp (by decide +kernel))
  have other {x : Float} {n : Int} (truncates : Truncates x n)
      (unequal : n ≠ 2 ^ 63) :
      exactValue? x ≠ some (2 ^ 63) := fun value =>
    unequal (truncates.unique (truncates_limit_iff.mpr value))
  have below : Truncates less 9223372036854774784 :=
    truncate?_eq_some_iff.mp (by decide +kernel)
  have above : Truncates more 9223372036854777856 :=
    truncate?_eq_some_iff.mp (by decide +kernel)
  have negative : Truncates (-2.5) (-2) :=
    truncate?_eq_some_iff.mp (by decide +kernel)
  refine ⟨read limit, value, (readInt_truncates (read limit)).2.1 value, ?_, ?_,
    ?_⟩
  · exact (((readInt_truncates (read less)).1 (other below (by decide))).1
      _).mpr below
  · refine ((readInt_truncates (read more)).1 (other above (by decide))).2.1.mpr
      ?_
    intro n truncates
    rw [truncates.unique above]
    decide
  · exact (((readInt_truncates (read (-2.5))).1 (other negative (by decide))).1
      _).mpr negative

end Value

end PenScript
