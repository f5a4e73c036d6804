import PenScript.Proofs.Expression
import PenScript.Proofs.Reading

/-!
# What a failed evaluation leaves behind

An operation that fails stays pending, but the operations inside it that were
carried out on the way are settled.  Evaluated again, it answers like a copy in
which these have been replaced by their answers.  It answers like a copy that
was never evaluated if there are none, or if each of them would have the same
answer again.
-/

namespace PenScript

/-! ### Evaluation declares nothing -/

namespace Store

theorem names_set_of_mem {store : Store} {name : String}
    (declared : name ∈ store.names) (value : Value) :
    (store.set name value).names = store.names := by
  rw [set, names_insert, if_pos declared]

theorem size_eq_of_names_eq {store other : Store}
    (same : store.names = other.names) :
    store.size = other.size := by
  have lengths := congrArg List.length same
  rwa [names, names, List.length_map, List.length_map] at lengths

end Store

theorem Value.names_evaluateWith {read : VariableReader}
    (keeps : ∀ name store, (read name store).2.names = store.names)
    (value : Value) (store : Store) :
    (value.evaluateWith read store).store.names = store.names := by
  induction value generalizing store with
  | literal result => rfl
  | settled result => rfl
  | reference name => exact keeps name store
  | pending op left right leftKeeps rightKeeps =>
      have leftNames := leftKeeps store
      unfold evaluateWith
      generalize left.evaluateWith read store = leftOutcome at leftNames
      obtain ⟨leftAnswer, leftValue, middle⟩ := leftOutcome
      cases leftAnswer with
      | error fault => exact leftNames
      | ok leftAnswer =>
          dsimp only at leftNames ⊢
          have rightNames := rightKeeps middle
          generalize right.evaluateWith read middle = rightOutcome at rightNames
          obtain ⟨rightAnswer, rightValue, final⟩ := rightOutcome
          have names : final.names = store.names := rightNames.trans leftNames
          cases rightAnswer with
          | error fault => exact names
          | ok rightAnswer =>
              dsimp only
              split <;> exact names

theorem Store.names_readWithin (hops : Nat) (name : String) (store : Store) :
    (Store.readWithin hops name store).2.names = store.names := by
  induction hops generalizing name store with
  | zero =>
      unfold Store.readWithin
      split <;> rfl
  | succ hops ih =>
      unfold Store.readWithin
      split
      · rfl
      · rfl
      · rfl
      · next value _ found =>
          have kept := Value.names_evaluateWith ih value store
          have declared : name ∈ store.names :=
            List.mem_map.mpr ⟨_, mem_slots_of_find? found, rfl⟩
          dsimp only
          rw [names_set_of_mem (kept ▸ declared), kept]

namespace Value

theorem size_evaluate (value : Value) (store : Store) :
    (value.evaluate store).store.size = store.size :=
  Store.size_eq_of_names_eq
    (value.names_evaluateWith (Store.names_readWithin _) store)

/-! ### One attempt -/

/-- Whatever the store, an operation that answers is settled, and one that fails
stays pending. -/
theorem evaluateWith_operation (read : VariableReader) (store : Store)
    (op : Operator) (left right : Value) :
    let outcome := (Value.pending op left right).evaluateWith read store
    (∃ result, outcome.answer = .ok result ∧ outcome.value = .settled result) ∨
      ∃ fault left' right', outcome.answer = .error fault ∧
        outcome.value = .pending op left' right' := by
  simp only [evaluateWith]
  split
  · exact .inr ⟨_, _, _, rfl, rfl⟩
  · split
    · exact .inr ⟨_, _, _, rfl, rfl⟩
    · split
      · exact .inr ⟨_, _, _, rfl, rfl⟩
      · exact .inl ⟨_, rfl, rfl⟩

theorem answer_evaluate {store : Store} (literals : store.LiteralOnly)
    (value : Value) :
    (value.evaluate store).answer = value.plain store.literal :=
  (value.evaluateWith_plain (literals.readWithin store.size)).1

/-- An operation that fails does so in its left operand, and then the right one
is not evaluated, or after the left operand has answered. -/
theorem evaluate_pending_of_failed {op : Operator} {left right : Value}
    {store : Store} {fault : ValueFault}
    (failed : ((Value.pending op left right).evaluate store).answer =
      .error fault) :
    ((left.evaluate store).answer = .error fault ∧
      ((Value.pending op left right).evaluate store).value =
        .pending op (left.evaluate store).value right) ∨
    ∃ leftAnswer, (left.evaluate store).answer = .ok leftAnswer ∧
      ((Value.pending op left right).evaluate store).value =
        .pending op (left.evaluate store).value
          (right.evaluate (left.evaluate store).store).value := by
  have size := left.size_evaluate store
  simp only [evaluate, evaluateWith] at failed size ⊢
  generalize left.evaluateWith (Store.readWithin store.size) store =
    leftOutcome at failed size ⊢
  obtain ⟨leftAnswer, leftValue, middle⟩ := leftOutcome
  cases leftAnswer with
  | error leftFault =>
      cases failed
      exact .inl ⟨rfl, rfl⟩
  | ok leftAnswer =>
      refine .inr ⟨leftAnswer, rfl, ?_⟩
      dsimp only at failed size ⊢
      rw [size]
      generalize right.evaluateWith (Store.readWithin store.size) middle =
        rightOutcome at failed ⊢
      obtain ⟨rightAnswer, rightValue, final⟩ := rightOutcome
      cases rightAnswer with
      | error rightFault => rfl
      | ok rightAnswer =>
          dsimp only at failed ⊢
          cases applied : op.apply leftAnswer rightAnswer with
          | error opFault => rfl
          | ok result =>
              rw [applied] at failed
              cases failed

theorem evaluate_pending_of_answered {op : Operator} {left right : Value}
    {store : Store} {result : Literal}
    (answered :
      ((Value.pending op left right).evaluate store).answer = .ok result) :
    ((Value.pending op left right).evaluate store).value = .settled result := by
  rcases evaluateWith_operation (Store.readWithin store.size) store op
      left right with
    ⟨known, same, settled⟩ | ⟨_, _, _, failed, _⟩
  · cases answered.symm.trans same
    exact settled
  · cases answered.symm.trans failed

/-- The operations that an evaluation carries out, without those inside of
others. -/
def carriedOut (store : Store) : Value → List Value
  | .pending op left right =>
      match ((Value.pending op left right).evaluate store).answer with
      | .ok _ => [.pending op left right]
      | .error _ =>
          match (left.evaluate store).answer with
          | .error _ => left.carriedOut store
          | .ok _ =>
              left.carriedOut store ++ right.carriedOut
                (left.evaluate store).store
  | _ => []

/-- The value with its answer in the place of each operation that an evaluation
carries out. -/
def withAnswers (store : Store) : Value → Value
  | .pending op left right =>
      match ((Value.pending op left right).evaluate store).answer with
      | .ok result => .literal result
      | .error _ =>
          match (left.evaluate store).answer with
          | .error _ => .pending op (left.withAnswers store) right
          | .ok _ =>
              .pending op (left.withAnswers store)
                (right.withAnswers (left.evaluate store).store)
  | value => value

theorem withAnswers_of_carriedOut_eq_nil {value : Value} {store : Store}
    (none : value.carriedOut store = []) : value.withAnswers store = value := by
  induction value generalizing store with
  | literal result => rfl
  | reference name => rfl
  | settled result => rfl
  | pending op left right leftSame rightSame =>
      unfold carriedOut at none
      unfold withAnswers
      split at none
      · cases none
      · split at none
        · rw [leftSame none]
        · obtain ⟨leftNone, rightNone⟩ := List.append_eq_nil_iff.mp none
          rw [leftSame leftNone, rightSame rightNone]

theorem carriedOut_of_isEvaluated {value : Value}
    (evaluated : value.isEvaluated = true) (store : Store) :
    value.carriedOut store = [] := by
  cases value with
  | pending op left right => cases evaluated
  | literal result => rfl
  | reference name => rfl
  | settled result => rfl

/-! ### Settled operations and literals -/

/-- The value with a literal in the place of each settled operation. -/
def unsettled : Value → Value
  | .settled result => .literal result
  | .pending op left right => .pending op left.unsettled right.unsettled
  | value => value

/-- That an answer comes from an operation makes no difference to later
evaluations. -/
theorem evaluateWith_unsettled (read : VariableReader) (value : Value)
    (store : Store) :
    (value.unsettled.evaluateWith read store).answer =
      (value.evaluateWith read store).answer ∧
      (value.unsettled.evaluateWith read store).store =
        (value.evaluateWith read store).store := by
  induction value generalizing store with
  | literal result => exact ⟨rfl, rfl⟩
  | reference name => exact ⟨rfl, rfl⟩
  | settled result => exact ⟨rfl, rfl⟩
  | pending op left right leftSame rightSame =>
      have leftSame := leftSame store
      unfold unsettled evaluateWith
      generalize left.evaluateWith read store = leftOutcome at leftSame ⊢
      generalize left.unsettled.evaluateWith read store =
        leftOutcome' at leftSame ⊢
      obtain ⟨leftAnswer, leftValue, middle⟩ := leftOutcome
      obtain ⟨leftAnswer', leftValue', middle'⟩ := leftOutcome'
      obtain ⟨sameAnswer, sameStore⟩ := leftSame
      dsimp only at sameAnswer sameStore
      subst sameAnswer sameStore
      cases leftAnswer' with
      | error fault => exact ⟨rfl, rfl⟩
      | ok leftAnswer =>
          have rightSame := rightSame middle'
          dsimp only
          generalize right.evaluateWith read middle' =
            rightOutcome at rightSame ⊢
          generalize right.unsettled.evaluateWith read middle' =
            rightOutcome' at rightSame ⊢
          obtain ⟨rightAnswer, rightValue, final⟩ := rightOutcome
          obtain ⟨rightAnswer', rightValue', final'⟩ := rightOutcome'
          obtain ⟨sameAnswer, sameStore⟩ := rightSame
          dsimp only at sameAnswer sameStore
          subst sameAnswer sameStore
          cases rightAnswer' with
          | error fault => exact ⟨rfl, rfl⟩
          | ok rightAnswer =>
              dsimp only
              cases op.apply leftAnswer rightAnswer with
              | error fault => exact ⟨rfl, rfl⟩
              | ok result => exact ⟨rfl, rfl⟩

theorem evaluate_congr_unsettled {value other : Value}
    (same : value.unsettled = other.unsettled) (store : Store) :
    (value.evaluate store).answer = (other.evaluate store).answer ∧
      (value.evaluate store).store = (other.evaluate store).store := by
  obtain ⟨answer, kept⟩ :=
    evaluateWith_unsettled (Store.readWithin store.size) value store
  obtain ⟨answer', kept'⟩ :=
    evaluateWith_unsettled (Store.readWithin store.size) other store
  rw [same] at answer kept
  exact ⟨answer.symm.trans answer', kept.symm.trans kept'⟩

theorem unsettled_unsettled (value : Value) :
    value.unsettled.unsettled = value.unsettled := by
  induction value with
  | literal result => rfl
  | reference name => rfl
  | settled result => rfl
  | pending op left right leftSame rightSame =>
      rw [unsettled, unsettled, leftSame, rightSame]

/-- Whether or not it fails, an evaluation leaves the value with the answers it
has found. -/
theorem unsettled_evaluate (value : Value) (store : Store) :
    (value.evaluate store).value.unsettled =
      (value.withAnswers store).unsettled := by
  induction value generalizing store with
  | literal result => rfl
  | reference name => rfl
  | settled result => rfl
  | pending op left right leftSame rightSame =>
      unfold withAnswers
      split
      · next answered =>
          rw [evaluate_pending_of_answered answered]
          rfl
      · next failed =>
          rcases evaluate_pending_of_failed failed with
            ⟨leftFailed, value⟩ | ⟨leftAnswer, leftAnswered, value⟩
          · rw [value, leftFailed, unsettled, unsettled, leftSame]
          · rw [value, leftAnswered, unsettled, unsettled, leftSame, rightSame]

/-! ### The next attempt -/

theorem store_evaluate {store : Store} (literals : store.LiteralOnly)
    (value : Value) :
    (value.evaluate store).store = store :=
  (value.evaluateWith_plain (literals.readWithin store.size)).2

/-- Answers that would be the same at another store can be put in the place of
the operations. -/
theorem plain_withAnswers {store next : Store} (literals : store.LiteralOnly)
    (nextLiterals : next.LiteralOnly) {value : Value}
    (same : ∀ inner ∈ value.carriedOut store,
      (inner.evaluate next).answer = (inner.evaluate store).answer) :
    (value.withAnswers store).plain next.literal =
      value.plain next.literal := by
  induction value with
  | literal result => rfl
  | reference name => rfl
  | settled result => rfl
  | pending op left right leftSame rightSame =>
      unfold carriedOut at same
      unfold withAnswers
      rw [store_evaluate literals] at same ⊢
      split at same
      · next answered =>
          have again := same _ List.mem_cons_self
          rw [answered, answer_evaluate nextLiterals] at again
          exact again.symm
      · split at same
        · simp only [plain, leftSame same]
        · have leftPlain := leftSame fun inner member =>
            same inner (List.mem_append_left _ member)
          have rightPlain := rightSame fun inner member =>
            same inner (List.mem_append_right _ member)
          simp only [plain, leftPlain, rightPlain]

/-- An operation that has failed is still pending.  At whatever store it is
evaluated next, it does what a copy does in which each operation that was
carried out has been replaced by its answer.  If none was carried out, this is
the value as it was; so it is whenever both operands are literals or variables.
On literals, the answer is that of the value as it was also if each operation
that was carried out would have the same answer again. -/
theorem evaluate_after_failure {op : Operator} {left right : Value}
    {store : Store} {fault : ValueFault}
    (failed : ((Value.pending op left right).evaluate store).answer =
      .error fault) :
    let value := Value.pending op left right
    let later := (value.evaluate store).value
    later.isEvaluated = false ∧
    (∀ next,
      (later.evaluate next).answer =
        ((value.withAnswers store).evaluate next).answer ∧
      (later.evaluate next).store =
        ((value.withAnswers store).evaluate next).store) ∧
    (value.carriedOut store = [] → value.withAnswers store = value) ∧
    (left.isEvaluated = true → right.isEvaluated = true →
      value.carriedOut store = []) ∧
    (store.LiteralOnly → ∀ next : Store, next.LiteralOnly →
      (∀ inner ∈ value.carriedOut store,
        (inner.evaluate next).answer = (inner.evaluate store).answer) →
      (later.evaluate next).answer = (value.evaluate next).answer) := by
  intro value later
  have retried (next : Store) :=
    evaluate_congr_unsettled (value.unsettled_evaluate store) next
  refine ⟨?_, retried, withAnswers_of_carriedOut_eq_nil, ?_, ?_⟩
  · rcases evaluate_pending_of_failed failed with ⟨_, pending⟩ | ⟨_, _, pending⟩
    · exact congrArg isEvaluated pending
    · exact congrArg isEvaluated pending
  · intro leftEvaluated rightEvaluated
    have leftNone := carriedOut_of_isEvaluated leftEvaluated
    have rightNone := carriedOut_of_isEvaluated rightEvaluated
    simp only [value, carriedOut, failed, leftNone, rightNone, List.append_nil]
    split <;> rfl
  · intro literals next nextLiterals same
    rw [(retried next).1, answer_evaluate nextLiterals,
      answer_evaluate nextLiterals]
    exact plain_withAnswers literals nextLiterals same

/-- A quotient fails where its divisor is zero, after its sum has been carried
out.  It goes on with the answer of the sum, which is no difference as long as
the summands stay the same. -/
theorem evaluate_after_failure_sum :
    let sum : Value :=
      .pending (.arithmetic .add) (.reference "x") (.reference "x")
    let value : Value := .pending (.arithmetic .divide) sum (.reference "d")
    let store (x d : Int64) : Store :=
      ⟨[("x", some (.literal (.int x))), ("d", some (.literal (.int d)))]⟩
    let later := (value.evaluate (store 1 0)).value
    (value.evaluate (store 1 0)).answer = .error .divisionByZero ∧
    value.carriedOut (store 1 0) = [sum] ∧
    value.withAnswers (store 1 0) =
      .pending (.arithmetic .divide) (.literal (.int 2)) (.reference "d") ∧
    later.isEvaluated = false ∧
    (later.evaluate (store 5 1)).answer = .ok (.int 2) ∧
    (later.evaluate (store 1 2)).answer =
      (value.evaluate (store 1 2)).answer := by
  intro sum value store later
  have failed : (value.evaluate (store 1 0)).answer = .error .divisionByZero :=
    rfl
  have carried : value.carriedOut (store 1 0) = [sum] := rfl
  have literals (x d : Int64) : (store x d).LiteralOnly := by
    intro slot member held filled
    rcases List.mem_cons.mp member with rfl | member
    · exact ⟨.int x, (Option.some.inj filled).symm⟩
    · rw [List.mem_singleton.mp member] at filled
      exact ⟨.int d, (Option.some.inj filled).symm⟩
  obtain ⟨pending, retried, _, _, agrees⟩ := evaluate_after_failure failed
  refine ⟨failed, carried, rfl, pending, (retried (store 5 1)).1, ?_⟩
  refine agrees (literals 1 0) (store 1 2) (literals 1 2) ?_
  intro inner member
  have same : inner = sum := List.mem_singleton.mp (carried ▸ member)
  rw [same]
  rfl

/-- The quotient fails, and then all variables change.  It goes on with the sum
of the old summands, where a copy that was never evaluated takes the new
ones. -/
theorem failed_quotient_keeps_sum :
    let value : Value := .pending (.arithmetic .divide)
      (.pending (.arithmetic .add) (.reference "x") (.reference "x"))
      (.reference "d")
    let store (x d : Int64) : Store :=
      ⟨[("x", some (.literal (.int x))), ("d", some (.literal (.int d)))]⟩
    (value.evaluate (store 1 0)).answer = .error .divisionByZero ∧
    ((value.evaluate (store 1 0)).value.evaluate (store 5 1)).answer =
      .ok (.int 2) ∧
    (value.evaluate (store 5 1)).answer = .ok (.int 10) :=
  ⟨rfl, rfl, rfl⟩

end Value

end PenScript
