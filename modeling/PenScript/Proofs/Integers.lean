import PenScript.Proofs.Reading

/-!
# Expressions of integers

An expression of integers can be worked out without bounds on their size, as
long as no divisor is zero.  Machine integers give the same value if every
result on the way fits into 64 bits, and otherwise the first operation that goes
wrong decides how the expression fails.
-/

namespace PenScript

/-! ### Machine integers -/

/-- The integers that 64 bits can hold. -/
def FitsWord (n : Int) : Prop :=
  -0x8000000000000000 ≤ n ∧ n ≤ 0x7FFFFFFFFFFFFFFF

instance : DecidablePred FitsWord :=
  fun n =>
    inferInstanceAs
      (Decidable (-0x8000000000000000 ≤ n ∧ n ≤ 0x7FFFFFFFFFFFFFFF))

theorem fitsWord_toInt (word : Int64) : FitsWord word.toInt :=
  ⟨word.minValue_le_toInt, word.toInt_le⟩

theorem int64?_of_fitsWord {n : Int} (fits : FitsWord n) :
    int64? n = some (Int64.ofInt n) := by
  rw [int64?, Int64.toInt_minValue, Int64.toInt_maxValue]
  exact if_pos fits

theorem int64?_of_not_fitsWord {n : Int} (outside : ¬FitsWord n) :
    int64? n = none := by
  rw [int64?, Int64.toInt_minValue, Int64.toInt_maxValue]
  exact if_neg outside

theorem int64?_eq_some_iff {n : Int} {word : Int64} :
    int64? n = some word ↔ word.toInt = n := by
  constructor
  · intro found
    by_cases fits : FitsWord n
    · rw [int64?_of_fitsWord fits] at found
      cases found
      exact Int64.toInt_ofInt_of_le fits.1 (Int.lt_of_le_sub_one fits.2)
    · rw [int64?_of_not_fitsWord fits] at found
      cases found
  · rintro rfl
    rw [int64?_of_fitsWord (fitsWord_toInt word), Int64.ofInt_toInt]

/-! ### Operators without bounds -/

namespace Arithmetic

/-- The operator on integers of any size.  Division drops the fraction, and a
division by zero has no result. -/
def unbounded? : Arithmetic → Int → Int → Option Int
  | .add, a, b => some (a + b)
  | .subtract, a, b => some (a - b)
  | .multiply, a, b => some (a * b)
  | .divide, a, b => if b = 0 then none else some (a.tdiv b)

variable {op : Arithmetic} {a b : Int64}

/-- Without a result, an operator has been asked to divide by zero. -/
theorem applyInt_of_undefined
    (undefined : op.unbounded? a.toInt b.toInt = none) :
    op.applyInt a b = .error .divisionByZero := by
  cases op with
  | add => cases undefined
  | subtract => cases undefined
  | multiply => cases undefined
  | divide =>
      have zero : b.toInt = 0 := by simpa [unbounded?] using undefined
      have divisor : b = 0 := Int64.toInt_inj.mp zero
      simp [applyInt, divisor]

/-- A result is checked for its size. -/
theorem applyInt_of_unbounded {n : Int}
    (result : op.unbounded? a.toInt b.toInt = some n) :
    op.applyInt a b = (int64? n).elim (.error .overflow) fun word =>
      .ok (.int word) := by
  cases op with
  | add =>
      cases result
      cases fits : int64? (a.toInt + b.toInt) <;> simp [applyInt, fits]
  | subtract =>
      cases result
      cases fits : int64? (a.toInt - b.toInt) <;> simp [applyInt, fits]
  | multiply =>
      cases result
      cases fits : int64? (a.toInt * b.toInt) <;> simp [applyInt, fits]
  | divide =>
      have divisor : b ≠ 0 := by
        rintro rfl
        cases result
      have nonzero : b.toInt ≠ 0 :=
        fun zero => divisor (Int64.toInt_inj.mp zero)
      rw [unbounded?, if_neg nonzero] at result
      cases result
      cases fits :
        int64? (a.toInt.tdiv b.toInt) <;> simp [applyInt, divisor, fits]

end Arithmetic

/-! ### Expressions -/

namespace Value

/-- An expression of integers.  Its operators are arithmetic and have not been
carried out, and its leaves are integers or variables that hold one. -/
inductive OfIntegers (store : Store) : Value → Prop where
  | literal (n : Int64) : OfIntegers store (.literal (.int n))
  | reference {name : String} {n : Int64}
      (held : store.value? name = some (.literal (.int n))) :
      OfIntegers store (.reference name)
  | operation (op : Arithmetic) {left right : Value}
      (leftIntegers : OfIntegers store left)
      (rightIntegers : OfIntegers store right) :
      OfIntegers store (.pending (.arithmetic op) left right)

/-- The value of an expression of integers where nothing bounds them.  There is
none if a divisor is zero. -/
def unbounded? (store : Store) : Value → Option Int
  | .literal (.int n) => some n.toInt
  | .reference name =>
      match store.value? name with
      | some (.literal (.int n)) => some n.toInt
      | _ => none
  | .pending (.arithmetic op) left right =>
      (left.unbounded? store).bind fun a =>
        (right.unbounded? store).bind (op.unbounded? a)
  | _ => none

/-- The operations of a value, each after those in its operands, and these from
left to right. -/
def operations : Value → List Value
  | .pending op left right =>
      left.operations ++ right.operations ++ [.pending op left right]
  | _ => []

/-- What is wrong with an operation whose operands have a value: it divides by
zero, or its result does not fit. -/
def flaw? (store : Store) : Value → Option ValueFault
  | .pending (.arithmetic op) left right =>
      (left.unbounded? store).bind fun a =>
        (right.unbounded? store).bind fun b =>
        match op.unbounded? a b with
        | none => some .divisionByZero
        | some n => if FitsWord n then none else some .overflow
  | _ => none

/-- An operation whose result, without bounds, is one that fits. -/
def Sound (store : Store) (operation : Value) : Prop :=
  ∃ n, operation.unbounded? store = some n ∧ FitsWord n

variable {store : Store}

theorem Sound.flaw?_eq_none {operation : Value}
    (sound : operation.Sound store) :
    operation.flaw? store = none := by
  obtain ⟨n, result, fits⟩ := sound
  unfold flaw?
  split
  · next op left right =>
      simp only [unbounded?, Option.bind_eq_some_iff] at result
      obtain ⟨a, leftResult, b, rightResult, result⟩ := result
      simp [leftResult, rightResult, result, fits]
  · rfl

theorem of_flaw? {operation : Value} {fault : ValueFault}
    (flaw : operation.flaw? store = some fault) :
    fault = .divisionByZero ∨ fault = .overflow := by
  unfold flaw? at flaw
  split at flaw
  · simp only [Option.bind_eq_some_iff] at flaw
    obtain ⟨a, _, b, _, flaw⟩ := flaw
    split at flaw
    · cases flaw
      exact .inl rfl
    · split at flaw
      · cases flaw
      · cases flaw
        exact .inr rfl
  · cases flaw

theorem unbounded?_of_held {name : String} {n : Int64}
    (held : store.value? name = some (.literal (.int n))) :
    (Value.reference name).unbounded? store = some n.toInt := by
  rw [unbounded?, held]

/-- How an expression of integers ends: with the value it has without bounds, or
by its first flaw. -/
inductive Concludes (store : Store) (value : Value) :
    Except ValueFault Literal → Prop where
  | exactly {n : Int64} (result : value.unbounded? store = some n.toInt)
      (sound : ∀ operation ∈ value.operations, operation.Sound store) :
      Concludes store value (.ok (.int n))
  | failing {fault : ValueFault}
      (first : value.operations.findSome? (flaw? store) = some fault) :
      Concludes store value (.error fault)

theorem findSome?_flaw?_of_sound {operations : List Value}
    (sound : ∀ operation ∈ operations, operation.Sound store) :
    operations.findSome? (flaw? store) = none :=
  List.findSome?_eq_none_iff.mpr fun operation member =>
    (sound operation member).flaw?_eq_none

/-- An operation whose operands have answered applies its operator.  It comes
last, so its flaw is the first one if it has any. -/
theorem concludes_operation {op : Arithmetic} {left right : Value} {a b : Int64}
    (leftResult : left.unbounded? store = some a.toInt)
    (rightResult : right.unbounded? store = some b.toInt)
    (before : ∀ operation ∈ left.operations ++ right.operations,
      operation.Sound store) :
    Concludes store (.pending (.arithmetic op) left right)
      (op.applyInt a b) := by
  have last {fault : ValueFault}
      (flaw :
        (Value.pending (.arithmetic op) left right).flaw? store = some fault) :
      (Value.pending (.arithmetic op) left right).operations.findSome?
        (flaw? store) =
        some fault := by
    rw [operations, List.findSome?_append, findSome?_flaw?_of_sound before]
    simp [flaw]
  cases result : op.unbounded? a.toInt b.toInt with
  | none =>
      rw [Arithmetic.applyInt_of_undefined result]
      apply Concludes.failing
      apply last
      simp [flaw?, leftResult, rightResult, result]
  | some n =>
      have value :
          (Value.pending (.arithmetic op) left right).unbounded? store =
            some n := by
        simp [unbounded?, leftResult, rightResult, result]
      rw [Arithmetic.applyInt_of_unbounded result]
      by_cases fits : FitsWord n
      · have same : (Int64.ofInt n).toInt = n :=
          int64?_eq_some_iff.mp (int64?_of_fitsWord fits)
        rw [int64?_of_fitsWord fits]
        apply Concludes.exactly
        · rw [value, same]
        · refine List.forall_mem_append.mpr
            ⟨before, List.forall_mem_singleton.mpr ?_⟩
          exact ⟨n, value, fits⟩
      · rw [int64?_of_not_fitsWord fits]
        apply Concludes.failing
        apply last
        simp [flaw?, leftResult, rightResult, result, fits]

/-- By induction on the expression: what is wrong in the left operand comes
before what is wrong in the right one, and this before the operation itself. -/
theorem OfIntegers.concludes_plain {value : Value}
    (integers : value.OfIntegers store) :
    Concludes store value (value.plain store.literal) := by
  induction integers with
  | literal n =>
      apply Concludes.exactly rfl
      intro operation member
      cases member
  | reference held =>
      rw [plain, Store.literal_eq_ok_iff.mpr held]
      apply Concludes.exactly (unbounded?_of_held held)
      intro operation member
      cases member
  | @operation op left right _ _ leftConcludes rightConcludes =>
      unfold plain
      generalize left.plain store.literal = leftAnswer at leftConcludes
      generalize right.plain store.literal = rightAnswer at rightConcludes
      cases leftConcludes with
      | failing first =>
          apply Concludes.failing
          simp [operations, first]
      | exactly leftResult leftSound =>
          cases rightConcludes with
          | failing first =>
              apply Concludes.failing
              simp [operations, first, findSome?_flaw?_of_sound leftSound]
          | exactly rightResult rightSound =>
              apply concludes_operation leftResult rightResult
              exact List.forall_mem_append.mpr ⟨leftSound, rightSound⟩

/-- Reading a variable that holds an integer leaves the store alone, whatever
else it holds. -/
theorem OfIntegers.answer_evaluate {value : Value}
    (integers : value.OfIntegers store) :
    (value.evaluate store).answer = value.plain store.literal := by
  refine (evaluateWith_of_variables ?_).1
  intro name member
  have held : ∃ n, store.value? name = some (.literal (.int n)) := by
    induction integers with
    | literal n => cases member
    | reference held =>
        rw [List.mem_singleton.mp member]
        exact ⟨_, held⟩
    | operation op _ _ leftHeld rightHeld =>
        exact (List.mem_append.mp member).elim leftHeld rightHeld
  obtain ⟨n, held⟩ := held
  rw [Store.literal_eq_ok_iff.mpr held, Store.readWithin_of_held held]

/-- An expression of integers answers with an integer just if no divisor is zero
and all results fit where nothing bounds them, and then the integer is the value
that it has there.  Otherwise it fails by a division by zero or an overflow,
whichever is wrong with the first of its operations that goes wrong; operands
come before their operation, and the left one first. -/
theorem exact_or_first_flaw {value : Value}
    (integers : value.OfIntegers store) :
    (∀ n : Int64, (value.evaluate store).answer = .ok (.int n) ↔
      value.unbounded? store = some n.toInt ∧
        ∀ operation ∈ value.operations, operation.Sound store) ∧
    (∀ fault, (value.evaluate store).answer = .error fault ↔
      value.operations.findSome? (flaw? store) = some fault) ∧
    ((∃ n, (value.evaluate store).answer = .ok (.int n)) ∨
      (value.evaluate store).answer = .error .divisionByZero ∨
      (value.evaluate store).answer = .error .overflow) := by
  have concludes := integers.concludes_plain
  rw [← integers.answer_evaluate] at concludes
  generalize (value.evaluate store).answer = answer at concludes
  cases concludes with
  | @exactly m result sound =>
      refine ⟨?_, ?_, .inl ⟨m, rfl⟩⟩
      · intro n
        constructor
        · rintro ⟨⟩
          exact ⟨result, sound⟩
        · rintro ⟨same, _⟩
          rw [Int64.toInt_inj.mp (Option.some.inj (result.symm.trans same))]
      · intro fault
        rw [findSome?_flaw?_of_sound sound]
        constructor <;> rintro ⟨⟩
  | @failing fault first =>
      refine ⟨?_, ?_, ?_⟩
      · intro n
        constructor
        · rintro ⟨⟩
        · rintro ⟨_, sound⟩
          cases (findSome?_flaw?_of_sound sound).symm.trans first
      · intro other
        rw [first]
        constructor <;> rintro ⟨⟩ <;> rfl
      · obtain ⟨operation, _, flaw⟩ := List.exists_of_findSome?_eq_some first
        rcases of_flaw? flaw with rfl | rfl
        · exact .inr (.inl rfl)
        · exact .inr (.inr rfl)

/-- The least integer divided by minus one is too large by one, which a summand
before it mends.  Two flaws are told apart by their order. -/
theorem exact_or_first_flaw_least :
    let store : Store :=
      ⟨[("least", some (.literal (.int Int64.minValue))),
        ("zero", some (.literal (.int 0)))]⟩
    let integer (n : Int64) : Value := .literal (.int n)
    let combine (op : Arithmetic) (left right : Value) : Value :=
      .pending (.arithmetic op) left right
    let negated := combine .divide (.reference "least") (integer (-1))
    let mended :=
      combine .divide (combine .add (.reference "least") (integer 1))
        (integer (-1))
    let undefined := combine .divide (integer 7) (.reference "zero")
    negated.OfIntegers store ∧ mended.OfIntegers store ∧
    undefined.OfIntegers store ∧
    (negated.evaluate store).answer = .error .overflow ∧
    (mended.evaluate store).answer = .ok (.int Int64.maxValue) ∧
    ((combine .subtract negated undefined).evaluate store).answer =
      .error .overflow ∧
    ((combine .subtract undefined negated).evaluate store).answer =
      .error .divisionByZero := by
  intro store integer combine negated mended undefined
  have least : (Value.reference "least").OfIntegers store := .reference rfl
  have zero : (Value.reference "zero").OfIntegers store := .reference rfl
  have isNegated : negated.OfIntegers store := .operation _ least (.literal _)
  have isMended : mended.OfIntegers store :=
    .operation _ (.operation _ least (.literal _)) (.literal _)
  have isUndefined : undefined.OfIntegers store :=
    .operation _ (.literal _) zero
  refine ⟨isNegated, isMended, isUndefined, ?_, ?_, ?_, ?_⟩
  · exact ((exact_or_first_flaw isNegated).2.1 _).mpr rfl
  · refine ((exact_or_first_flaw isMended).1 _).mpr ⟨rfl, ?_⟩
    refine List.forall_mem_cons.mpr ⟨⟨_, rfl, by decide⟩, ?_⟩
    exact List.forall_mem_singleton.mpr ⟨_, rfl, by decide⟩
  · exact ((exact_or_first_flaw (.operation _ isNegated isUndefined)).2.1 _).mpr
      rfl
  · exact ((exact_or_first_flaw (.operation _ isUndefined isNegated)).2.1 _).mpr
      rfl

end Value

end PenScript
