import PenScript.Proofs.FailedEvaluation

/-!
# What values remember

A value may be evaluated at several stores, one after the other.  An operation
that has answered keeps its answer.  One that has failed each time is pending,
and keeps the answers of the operations inside it that were carried out on the
way.  What a value answers with such a history is related here to plain
evaluation, which remembers nothing.
-/

namespace PenScript.Value

/-- A value after it has been evaluated at some stores, one after the other.  A
clone is the value as it stands at the moment of cloning, and has a history of
its own from there on. -/
def after (value : Value) (stores : List Store) : Value :=
  stores.foldl (fun current store => (current.evaluate store).value) value

/-- Evaluated at one store after the other, the value fails each time. -/
def FailsAt (value : Value) : List Store → Prop
  | [] => True
  | store :: rest =>
      (∃ fault, (value.evaluate store).answer = .error fault) ∧
        FailsAt (value.evaluate store).value rest

/-- The value with its answer in the place of each operation that is carried out
when the value is evaluated at some stores, one after the other. -/
def withAllAnswers (value : Value) (stores : List Store) : Value :=
  stores.foldl (fun current store => current.withAnswers store) value

/-! ### Histories -/

theorem after_cons (value : Value) (store : Store) (rest : List Store) :
    value.after (store :: rest) = (value.evaluate store).value.after rest := rfl

theorem after_append (value : Value) (earlier later : List Store) :
    value.after (earlier ++ later) = (value.after earlier).after later :=
  List.foldl_append

/-- What is settled stays so. -/
theorem after_settled (result : Literal) (stores : List Store) :
    (Value.settled result).after stores = .settled result := by
  induction stores with
  | nil => rfl
  | cons store rest ih => exact ih

theorem after_pending (op : Operator) (left right : Value)
    (stores : List Store) :
    (∃ result, (Value.pending op left right).after stores = .settled result) ∨
      ∃ left' right', (Value.pending op left right).after stores =
        .pending op left' right' := by
  induction stores generalizing left right with
  | nil => exact .inr ⟨left, right, rfl⟩
  | cons store rest ih =>
      rw [after_cons, evaluate]
      rcases evaluateWith_operation (Store.readWithin store.size) store op
          left right with
        ⟨result, _, settled⟩ | ⟨_, left', right', _, pending⟩
      · exact .inl ⟨result, by rw [settled, after_settled]⟩
      · rw [pending]
        exact ih left' right'

/-- An operation that answers at a store is settled there, whatever has happened
to it before. -/
theorem after_answered {op : Operator} {left right : Value}
    {earlier : List Store} {store : Store} {result : Literal}
    (answered :
      (((Value.pending op left right).after earlier).evaluate store).answer =
        .ok result) :
    (((Value.pending op left right).after earlier).evaluate store).value =
      .settled result := by
  rcases after_pending op left right earlier with ⟨known, same⟩ |
    ⟨left', right', same⟩
  · rw [same] at answered ⊢
    cases answered
    rfl
  · rw [same] at answered ⊢
    rcases evaluateWith_operation (Store.readWithin store.size) store op
        left' right' with
      ⟨known, same, settled⟩ | ⟨fault, _, _, failed, _⟩
    · cases answered.symm.trans same
      exact settled
    · cases answered.symm.trans failed

/-- Evaluations that fail leave an operation pending. -/
theorem pending_after_of_failsAt {op : Operator} {left right : Value}
    {stores : List Store}
    (fails : (Value.pending op left right).FailsAt stores) :
    ∃ left' right', (Value.pending op left right).after stores =
      .pending op left' right' := by
  induction stores generalizing left right with
  | nil => exact ⟨left, right, rfl⟩
  | cons store rest ih =>
      obtain ⟨⟨fault, failed⟩, failsLater⟩ := fails
      rcases evaluateWith_operation (Store.readWithin store.size) store op
          left right with
        ⟨_, answered, _⟩ | ⟨_, left', right', _, pending⟩
      · cases failed.symm.trans answered
      · rw [evaluate, pending] at failsLater
        rw [after_cons, evaluate, pending]
        exact ih failsLater

/-! ### Answers that are kept -/

theorem unsettled_of_unevaluated {value : Value}
    (unevaluated : value.Unevaluated) :
    value.unsettled = value := by
  induction value with
  | literal result => rfl
  | reference name => rfl
  | settled result => cases unevaluated
  | pending op left right leftSame rightSame =>
      rw [unsettled, leftSame unevaluated.1, rightSame unevaluated.2]

theorem withAnswers_unsettled (value : Value) (store : Store) :
    value.unsettled.withAnswers store =
      (value.withAnswers store).unsettled := by
  induction value generalizing store with
  | literal result => rfl
  | reference name => rfl
  | settled result => rfl
  | pending op left right leftSame rightSame =>
      have whole := (evaluate_congr_unsettled
        (Value.pending op left right).unsettled_unsettled store).1
      obtain ⟨leftAnswer, leftStore⟩ :=
        evaluate_congr_unsettled left.unsettled_unsettled store
      rw [unsettled] at whole ⊢
      unfold withAnswers
      rw [whole, leftAnswer, leftStore]
      split
      · rfl
      · split
        · rw [leftSame, unsettled]
        · rw [leftSame, rightSame, unsettled]

/-- A history leaves the answers that its evaluations have found. -/
theorem unsettled_after (value : Value) (stores : List Store) :
    (value.after stores).unsettled = value.unsettled.withAllAnswers stores := by
  induction stores generalizing value with
  | nil => rfl
  | cons store rest ih =>
      rw [after_cons, ih, unsettled_evaluate, ← withAnswers_unsettled]
      rfl

theorem unsettled_after_of_unevaluated {value : Value}
    (unevaluated : value.Unevaluated) (stores : List Store) :
    (value.after stores).unsettled = value.withAllAnswers stores := by
  rw [unsettled_after, unsettled_of_unevaluated unevaluated]

theorem answer_after {value : Value} (unevaluated : value.Unevaluated)
    (earlier : List Store) {next : Store} (literals : next.LiteralOnly) :
    ((value.after earlier).evaluate next).answer =
      (value.withAllAnswers earlier).plain next.literal := by
  rw [← answer_evaluate literals, ← unsettled_after_of_unevaluated unevaluated]
  exact (evaluate_congr_unsettled (unsettled_unsettled _) next).1.symm

/-- The answers found at a store are those that would be found there again. -/
theorem plain_withAllAnswers_replicate {store : Store}
    (literals : store.LiteralOnly) (value : Value) (count : Nat) :
    (value.withAllAnswers (List.replicate count store)).plain store.literal =
      value.plain store.literal := by
  induction count generalizing value with
  | zero => rfl
  | succ count ih =>
      have once : (value.withAnswers store).plain store.literal =
          value.plain store.literal :=
        plain_withAnswers literals literals fun _ _ => rfl
      rw [← once, ← ih (value.withAnswers store), List.replicate_succ]
      rfl

/-- Evaluation agrees with plain evaluation, however often it is repeated at the
same store and whether or not it fails.  An operation that has answered gives
the same answer at every later store, and so does each clone taken from then on.
A clone taken before is still pending.  It has kept the answer of each operation
inside it that the failed evaluations had carried out, and evaluates all others
from scratch at whatever store comes next; it evaluates the whole from scratch
if there had been no evaluation. -/
theorem evaluate_agrees_with_plain {value : Value}
    (unevaluated : value.Unevaluated) :
    (∀ store : Store, store.LiteralOnly → ∀ count,
      ((value.after (List.replicate count store)).evaluate store).answer =
        value.plain store.literal) ∧
    ∀ op left right, value = .pending op left right →
      (∀ earlier store result,
        ((value.after earlier).evaluate store).answer = .ok result →
        ∀ later next,
          ((value.after (earlier ++ store :: later)).evaluate next).answer =
            .ok result) ∧
      ∀ earlier, value.FailsAt earlier →
        (∃ left' right', value.after earlier = .pending op left' right') ∧
        (value.after earlier).unsettled = value.withAllAnswers earlier ∧
        ∀ next : Store, next.LiteralOnly →
          ((value.after earlier).evaluate next).answer =
            (value.withAllAnswers earlier).plain next.literal := by
  refine ⟨?_, ?_⟩
  · intro store literals count
    rw [answer_after unevaluated _ literals,
      plain_withAllAnswers_replicate literals]
  · rintro op left right rfl
    refine ⟨?_, ?_⟩
    · intro earlier store result answered later next
      have settled := after_answered answered
      have history :
          (Value.pending op left right).after (earlier ++ store :: later) =
          .settled result := by
        rw [after_append, after_cons, settled, after_settled]
      rw [history]
      rfl
    · intro earlier fails
      refine ⟨pending_after_of_failsAt fails,
        unsettled_after_of_unevaluated unevaluated earlier, ?_⟩
      intro next literals
      exact answer_after unevaluated earlier literals

/-- A quotient that fails where its divisor is zero.  A clone taken then keeps
the sum.  Where the quotient has answered, it keeps the answer. -/
theorem evaluate_agrees_with_plain_quotient :
    let value : Value := .pending (.arithmetic .divide)
      (.pending (.arithmetic .add) (.reference "x") (.reference "x"))
      (.reference "d")
    let store (x d : Int64) : Store :=
      ⟨[("x", some (.literal (.int x))), ("d", some (.literal (.int d)))]⟩
    let clone := value.after [store 1 0]
    value.Unevaluated ∧ (∀ x d, (store x d).LiteralOnly) ∧
    (clone.evaluate (store 1 0)).answer = .error .divisionByZero ∧
    (value.evaluate (store 5 1)).answer = .ok (.int 10) ∧
    (clone.evaluate (store 1 1)).answer = .ok (.int 2) ∧
    ((value.after [store 1 0, store 1 1, store 5 0]).evaluate
      (store 7 0)).answer =
      .ok (.int 2) ∧
    value.FailsAt [store 1 0] ∧
    clone.unsettled =
      .pending (.arithmetic .divide) (.literal (.int 2)) (.reference "d") ∧
    (clone.evaluate (store 5 1)).answer = .ok (.int 2) := by
  intro value store clone
  have unevaluated : value.Unevaluated := ⟨⟨trivial, trivial⟩, trivial⟩
  have literals (x d : Int64) : (store x d).LiteralOnly := by
    intro slot member held filled
    rcases List.mem_cons.mp member with rfl | member
    · exact ⟨.int x, (Option.some.inj filled).symm⟩
    · rw [List.mem_singleton.mp member] at filled
      exact ⟨.int d, (Option.some.inj filled).symm⟩
  obtain ⟨repeats, operation⟩ := evaluate_agrees_with_plain unevaluated
  obtain ⟨keeps, clones⟩ := operation _ _ _ rfl
  have answered : (clone.evaluate (store 1 1)).answer = .ok (.int 2) := rfl
  have fails : value.FailsAt [store 1 0] := ⟨⟨.divisionByZero, rfl⟩, trivial⟩
  obtain ⟨_, kept, fresh⟩ := clones [store 1 0] fails
  refine ⟨unevaluated, literals, ?_, ?_, answered,
    keeps [store 1 0] _ _ answered [store 5 0] _, fails, kept, ?_⟩
  · exact repeats (store 1 0) (literals 1 0) 1
  · exact repeats (store 5 1) (literals 5 1) 0
  · exact fresh (store 5 1) (literals 5 1)

/-- The quotient is cloned after it has failed and before it answers.  The clone
does not evaluate from scratch: it has kept the sum. -/
theorem clone_after_failure_keeps_operand :
    let value : Value := .pending (.arithmetic .divide)
      (.pending (.arithmetic .add) (.reference "x") (.reference "x"))
      (.reference "d")
    let store (x d : Int64) : Store :=
      ⟨[("x", some (.literal (.int x))), ("d", some (.literal (.int d)))]⟩
    let clone := value.after [store 1 0]
    (clone.evaluate (store 1 1)).answer = .ok (.int 2) ∧
    (clone.evaluate (store 5 1)).answer = .ok (.int 2) ∧
    value.plain (store 5 1).literal = .ok (.int 10) :=
  ⟨rfl, rfl, rfl⟩

end PenScript.Value
