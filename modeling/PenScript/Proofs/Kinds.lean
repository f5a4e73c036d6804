import PenScript.Proofs.Lines

/-!
# Kinds that are known beforehand

When a line is read, the kind of each parameter is compared with what the
command asks for, as far as the kind is known then.  A value that is refused
could never be coerced.  A line whose parameters are literals can, once it is
read, only fail because a number is too large or out of range.
-/

namespace PenScript

open Stateful

/-! ### Coercions of literals -/

/-- A fault that comes from the size of a number. -/
def ValueFault.ofSize : ValueFault → Bool
  | .overflow | .outOfRange _ => true
  | _ => false

namespace Literal

/-- The literal of a kind that another literal stands for. -/
def coerce (result : Literal) : Kind → Except ValueFault Literal
  | .int => result.toInt.map .int
  | .double => result.toDouble.map .double
  | .bool => result.toBool.map .bool
  | .color => result.toColor.map .color

theorem coerce_of_rejected {result : Literal} {expected : Kind}
    (rejected : result.kind.coercesTo expected = false) :
    result.coerce expected = .error (.typeMismatch expected result.kind) := by
  cases result <;> cases expected <;> first | rfl | cases rejected

theorem ofSize_of_intOfDouble {x : Float} {fault : ValueFault}
    (failed : intOfDouble x = .error fault) : fault.ofSize = true := by
  unfold intOfDouble at failed
  split at failed
  · split at failed
    · cases failed
    · cases failed
      rfl
  · cases failed
    rfl

end Literal

namespace Value

/-! ### Kinds of values -/

/-- Reads a value as a literal of a kind. -/
def readAs (value : Value) : Kind → Reading Literal
  | .int => do return .int (← value.readInt)
  | .double => do return .double (← value.readDouble)
  | .bool => do return .bool (← value.readBool)
  | .color => do return .color (← value.readColor)

theorem kind_of_applyEquality {op : Comparison} {same : Bool} {kind : Kind}
    {result : Literal} (applied : op.applyEquality same kind = .ok result) :
    result.kind = .bool := by
  cases op <;> cases applied <;> rfl

theorem kind_of_comparison {op : Comparison} {left right result : Literal}
    (applied : op.apply left right = .ok result) : result.kind = .bool := by
  cases left with
  | int a =>
      cases right with
      | int b => cases applied; rfl
      | _ => cases applied
  | double x =>
      cases right with
      | double y => cases applied; rfl
      | _ => cases applied
  | bool a =>
      cases right with
      | bool b => exact kind_of_applyEquality applied
      | _ => cases applied
  | color a =>
      cases right with
      | color b => exact kind_of_applyEquality applied
      | _ => cases applied

theorem exists_operands {read : VariableReader} {store : Store} {op : Operator}
    {left right : Value} {result : Literal}
    (answered :
      ((Value.pending op left right).evaluateWith read store).answer =
        .ok result) :
    ∃ leftResult rightResult, op.apply leftResult rightResult = .ok result := by
  unfold evaluateWith at answered
  generalize left.evaluateWith read store = leftOutcome at answered
  obtain ⟨leftAnswer, leftValue, leftStore⟩ := leftOutcome
  cases leftAnswer with
  | error fault => cases answered
  | ok leftResult =>
      dsimp only at answered
      generalize right.evaluateWith read leftStore = rightOutcome at answered
      obtain ⟨rightAnswer, rightValue, rightStore⟩ := rightOutcome
      cases rightAnswer with
      | error fault => cases answered
      | ok rightResult =>
          dsimp only at answered
          cases applied : op.apply leftResult rightResult with
          | error fault =>
              rw [applied] at answered
              cases answered
          | ok applicationResult =>
              rw [applied] at answered
              cases answered
              exact ⟨leftResult, rightResult, applied⟩

/-- A kind that is known beforehand is the kind of whatever is read.  The only
operations with a kind are comparisons: whatever they compare, they answer with
a truth value. -/
theorem kind_of_read {value : Value} {found : Kind}
    (known : value.kind? = some found) {store final : Store} {result : Literal}
    (read : value.read store = .ok result final) :
    result.kind = found := by
  cases value with
  | literal own =>
      cases read
      exact Option.some.inj known
  | settled own =>
      cases read
      exact Option.some.inj known
  | reference name => cases known
  | pending op left right =>
      cases op with
      | arithmetic op => cases known
      | comparison op =>
          cases known
          unfold Value.read at read
          dsimp only at read
          split at read
          · next answered =>
              cases read
              obtain ⟨_, _, applied⟩ := exists_operands answered
              exact kind_of_comparison applied
          · cases read

theorem readAs_of_ok {value : Value} {store final : Store} {result : Literal}
    (read : value.read store = .ok result final) (expected : Kind) :
    value.readAs expected store =
      (MonadExcept.ofExcept (result.coerce expected) : Reading Literal)
        final := by
  cases expected with
  | int =>
      rw [readAs, readInt, bind_assoc, bind_of_ok read, Literal.coerce]
      cases result.toInt <;> rfl
  | double =>
      rw [readAs, readDouble, bind_assoc, bind_of_ok read, Literal.coerce]
      cases result.toDouble <;> rfl
  | bool =>
      rw [readAs, readBool, bind_assoc, bind_of_ok read, Literal.coerce]
      cases result.toBool <;> rfl
  | color =>
      rw [readAs, readColor, bind_assoc, bind_of_ok read, Literal.coerce]
      cases result.toColor <;> rfl

theorem readAs_of_error {value : Value} {store final : Store}
    {fault : ValueFault} (unread : value.read store = .error fault final)
    (expected : Kind) :
    value.readAs expected store = .error fault final := by
  cases expected with
  | int => rw [readAs, readInt, bind_assoc, bind_of_error unread]
  | double => rw [readAs, readDouble, bind_assoc, bind_of_error unread]
  | bool => rw [readAs, readBool, bind_assoc, bind_of_error unread]
  | color => rw [readAs, readColor, bind_assoc, bind_of_error unread]

/-- A value whose kind is known and wrong cannot be coerced at any store. -/
theorem readAs_of_rejected {value : Value} {expected found : Kind}
    (known : value.kind? = some found)
    (rejected : found.coercesTo expected = false) (store : Store) :
    ∃ fault final, value.readAs expected store = .error fault final := by
  cases outcome : value.read store with
  | error fault final => exact ⟨fault, final, readAs_of_error outcome expected⟩
  | ok result final =>
      cases kind_of_read known outcome
      refine ⟨.typeMismatch expected result.kind, final, ?_⟩
      rw [readAs_of_ok outcome, Literal.coerce_of_rejected rejected]
      rfl

/-! ### Reading literals -/

/-- A computation that fails only because of the size of a number. -/
def FailsBySize {α : Type} (action : Reading α) : Prop :=
  ∀ ⦃store final : Store⦄ ⦃fault : ValueFault⦄,
    action store = .error fault final →
    fault.ofSize = true

namespace FailsBySize

variable {α β : Type}

theorem returning (answer : α) : FailsBySize (pure answer) := by
  intro store final fault failed
  cases failed

theorem failing {fault : ValueFault} (ofSize : fault.ofSize = true) :
    FailsBySize (throw fault : Reading α) := by
  intro store final other failed
  cases failed
  exact ofSize

theorem sequence {first : Reading α} {next : α → Reading β}
    (fails : FailsBySize first)
    (failsNext : ∀ answer, FailsBySize (next answer)) :
    FailsBySize (first >>= next) := by
  intro store final fault failed
  cases outcome : first store with
  | ok answer middle =>
      rw [bind_of_ok outcome] at failed
      exact failsNext answer failed
  | error cause middle =>
      rw [bind_of_error outcome] at failed
      cases failed
      exact fails outcome

/-- What a literal is coerced to is known without the store. -/
theorem coercing {result : Literal} {convert : Literal → Except ValueFault α}
    (bySize : ∀ fault, convert result = .error fault → fault.ofSize = true) :
    FailsBySize
      ((Value.literal result).read >>= fun known =>
        MonadExcept.ofExcept (convert known)) := by
  have read (store : Store) :
      (Value.literal result).read store = .ok result store :=
    rfl
  intro store final fault failed
  rw [bind_of_ok (read store)] at failed
  cases converted : convert result with
  | ok answer =>
      rw [converted] at failed
      cases failed
  | error cause =>
      rw [converted] at failed
      cases failed
      exact bySize _ converted

/-- Literals of the kinds that a command asks for. -/
def property : CoercionProperty where
  Admits demand value :=
    ∃ result, value = .literal result ∧ demand.accepts result.kind = true
  Holds := FailsBySize
  returning := returning
  refusing _ := failing rfl
  sequence := sequence
  readInt := by
    rintro value ⟨result, rfl, accepted⟩
    apply coercing
    intro fault failed
    cases result with
    | int n => cases failed
    | double x => exact Literal.ofSize_of_intOfDouble failed
    | bool b => cases accepted
    | color c => cases accepted
  readDouble := by
    rintro value ⟨result, rfl, accepted⟩
    apply coercing
    intro fault failed
    cases result with
    | int n => cases failed
    | double x => cases failed
    | bool b => cases accepted
    | color c => cases accepted
  readBool := by
    rintro value ⟨result, rfl, accepted⟩
    apply coercing
    intro fault failed
    cases result with
    | int n => cases failed
    | bool b => cases failed
    | double x => cases accepted
    | color c => cases accepted
  readColor := by
    rintro value ⟨result, rfl, accepted⟩
    apply coercing
    intro fault failed
    cases result with
    | color c => cases failed
    | int n => cases accepted
    | double x => cases accepted
    | bool b => cases accepted
  readSetting := by
    rintro value ⟨result, rfl, accepted⟩
    apply coercing
    intro fault failed
    cases result with
    | bool b => cases failed
    | color c => cases failed
    | int n => cases accepted
    | double x => cases accepted
  reading := by
    rintro value ⟨result, rfl, _⟩ store final fault failed
    cases failed

end FailsBySize

end Value

namespace Command

/-! ### Commands with literal parameters -/

/-- Every parameter of the command is a literal. -/
def Literally (command : Command) : Prop :=
  ∀ value ∈ command.values, ∃ result, value = .literal result

theorem admits_of_checked {command : Command} (checked : command.Checked)
    (literally : command.Literally) :
    ∀ entry ∈ command.demands,
      Value.FailsBySize.property.Admits entry.1 entry.2 := by
  intro entry member
  obtain ⟨result, same⟩ := literally entry.2 (mem_values_of_demands member)
  refine ⟨result, same, checked.fits entry member result.kind ?_⟩
  rw [same]
  rfl

/-- A name was checked when its line was read, so it can be declared wherever it
is missing. -/
theorem ofSize_of_effect {command : Command} (checked : command.Checked)
    (literally : command.Literally) {store final : Store} {fault : Fault}
    (failed : command.effect store = .error fault final) :
    ∃ cause, fault = .value cause ∧ cause.ofSize = true := by
  cases Value.FailsBySize.property.effectForm command
      (admits_of_checked checked literally) with
  | drawing stroke holds form =>
      rw [form] at failed
      obtain ⟨cause, unread, rfl⟩ := adapted_eq_error failed
      exact ⟨cause, rfl, holds unread⟩
  | assigning name value target admitted form =>
      rw [form] at failed
      obtain ⟨cause, unread, rfl⟩ := adapted_eq_error failed
      exact ⟨cause, rfl, Value.FailsBySize.property.reading admitted unread⟩
  | declaring name form =>
      subst form
      rw [effect, declaring, checked.declares name none rfl] at failed
      split at failed <;> cases failed
  | idle form =>
      rw [form] at failed
      cases failed

/-- A parameter that can be read is refused only if its kind is known and
wrong. -/
theorem kind_of_refused {expected : Kind} {position : Nat} {store final : Store}
    {text : List Char} {value : Value} {fault : Fault}
    (parsed : Value.parse store.contains text = .ok value)
    (refused : readTyped expected position text store = .error fault final) :
    ∃ found, value.kind? = some found ∧ found.coercesTo expected = false := by
  have read : readParameter position text store = .ok value store := by
    rw [readParameter, readValue, parsed]
  rw [readTyped, bind_of_ok read] at refused
  cases known : value.kind? with
  | none =>
      rw [known] at refused
      cases refused
  | some found =>
      rw [known] at refused
      dsimp only at refused
      cases coerces : found.coercesTo expected with
      | true =>
          rw [if_pos coerces] at refused
          cases refused
      | false => exact ⟨found, rfl, coerces⟩

end Command

theorem ValueFault.text_of_ofSize {fault : ValueFault}
    (ofSize : fault.ofSize = true) :
    fault.code.text ∈ ["E005", "E006"] := by
  cases fault with
  | overflow => exact List.mem_cons_self
  | outOfRange fault => exact List.mem_cons_of_mem _ List.mem_cons_self
  | _ => cases ofSize

theorem Execution.ofSize_of_reading {α : Type} {action : Value.Reading α}
    (fails : Value.FailsBySize action) {command : Command} {line : Nat}
    {machine final : Machine} {failure : Failure}
    (failed : reading command line action machine = .error failure final) :
    failure.code.text ∈ ["E005", "E006"] := by
  unfold reading at failed
  split at failed
  · cases failed
  · next unread =>
      cases failed
      exact ValueFault.text_of_ofSize (fails unread)

/-- The check of kinds is exact.  A value that it refuses could not be coerced
at any store.  A line that it accepts, with literals as parameters, fails only
by an overflow or by a value out of range: when its command is carried out, when
its guard is read, and when its bounds are read. -/
theorem Command.kinds_checked_exactly :
    (∀ (expected found : Kind) (value : Value), value.kind? = some found →
      found.coercesTo expected = false →
        ∀ store, ∃ fault final,
          value.readAs expected store = .error fault final) ∧
    (∀ (expected : Kind) (position : Nat) (text : List Char)
      (before after : Store) (value : Value)
      (refusal : Fault), Value.parse before.contains text = .ok value →
      readTyped expected position text before = .error refusal after →
        ∀ store, ∃ fault final,
          value.readAs expected store = .error fault final) ∧
    ∀ (line : Line) (before after : Store) (command : Command),
      ofLine line before = .ok command after → command.Literally →
      (∀ machine fault final, command.perform machine = .error fault final →
        fault.code.text ∈ ["E005", "E006"]) ∧
      (∀ guard, command = .ifTrue guard ∨ command = .whileTrue guard →
        ∀ number machine failure final,
          Execution.reading command number guard.readBool machine =
            .error failure final →
            failure.code.text ∈ ["E005", "E006"]) ∧
      ∀ counter start stop step, command = .forRange counter start stop step →
        ∀ number machine failure final,
          Execution.reading command number (Execution.readRange start stop step)
            machine =
              .error failure final →
            failure.code.text ∈ ["E005", "E006"] := by
  refine ⟨fun expected found value => Value.readAs_of_rejected, ?_, ?_⟩
  · intro expected position text before after value refusal parsed refused store
    obtain ⟨found, known, rejected⟩ := kind_of_refused parsed refused
    exact Value.readAs_of_rejected known rejected store
  intro line before after command read literally
  have checked :=
    (answers_ofText line.text before).1 command after (ofText_of_ofLine read)
  have admits := admits_of_checked checked literally
  refine ⟨?_, ?_, ?_⟩
  · intro machine fault final failed
    unfold perform at failed
    split at failed
    · cases failed
    · next unperformed =>
        cases failed
        obtain ⟨cause, rfl, ofSize⟩ :=
          ofSize_of_effect checked literally unperformed
        exact ValueFault.text_of_ofSize ofSize
  · intro guard header number machine failure final failed
    have admitted : Value.FailsBySize.property.Admits (.kind .bool) guard := by
      rcases header with rfl | rfl
      · exact admits _ List.mem_cons_self
      · exact admits _ List.mem_cons_self
    exact Execution.ofSize_of_reading
      (Value.FailsBySize.property.readBool admitted) failed
  · rintro counter start stop step rfl number machine failure final failed
    have bounds : ∀ value ∈ [start, stop] ++ step.toList,
        Value.FailsBySize.property.Admits (.kind .int) value := by
      intro value member
      exact admits (.kind .int, value) (List.mem_map_of_mem member)
    exact Execution.ofSize_of_reading
      (Value.FailsBySize.property.readRange bounds) failed

/-- A number is refused as a color; a step of zero is accepted, and fails when
it is read. -/
theorem Command.kinds_checked_exactly_zero_step :
    let number (n : Int64) : Value := .literal (.int n)
    let line : Line := ⟨1, "for i 1 5 0".toList, ""⟩
    let loop : Command := .forRange "i" (number 1) (number 5) (some (number 0))
    (∀ store, ∃ fault final,
      (number 5).readAs .color store = .error fault final) ∧
    loop.Literally ∧ (∃ after, ofLine line .empty = .ok loop after) ∧
    ∃ failure final,
      Execution.reading loop 1
          (Execution.readRange (number 1) (number 5) (some (number 0)))
          ⟨#[], .empty⟩ =
        .error failure final ∧ failure.code.text ∈ ["E005", "E006"] := by
  intro number line loop
  have parsed : Value.parse Store.empty.contains "5".toList = .ok (number 5) :=
    rfl
  have refused : readTyped .color 1 "5".toList .empty =
      .error (.statement (.parameter 1 (.typeMismatch .color .int))) .empty :=
        rfl
  have answered : answer? (ofLine line .empty) = some loop := by decide +kernel
  obtain ⟨after, read⟩ := answer?_eq_some_iff.mp answered
  have literally : loop.Literally := by
    intro value member
    simp only [loop, values, Option.toList_some, List.cons_append,
      List.nil_append, List.mem_cons, List.not_mem_nil, or_false] at member
    rcases member with rfl | rfl | rfl <;> exact ⟨_, rfl⟩
  have stepless :
      Execution.readRange (number 1) (number 5) (some (number 0)) .empty =
      .error (.outOfRange .zeroStep) .empty := rfl
  obtain ⟨failure, final, failed⟩ : ∃ failure final,
      Execution.reading loop 1
          (Execution.readRange (number 1) (number 5) (some (number 0)))
          ⟨#[], .empty⟩ =
        .error failure final := by
    rw [Execution.reading, stepless]
    exact ⟨_, _, rfl⟩
  obtain ⟨_, rejected, accepted⟩ := kinds_checked_exactly
  obtain ⟨_, _, bounds⟩ := accepted line .empty after loop read literally
  exact ⟨rejected .color 1 "5".toList .empty .empty (number 5) _ parsed refused,
    literally, ⟨after, read⟩, failure, final, failed,
    bounds "i" _ _ _ rfl 1 _ failure final failed⟩

end PenScript
