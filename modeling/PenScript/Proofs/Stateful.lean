/-!
# Computations with a state

Reading a value, reading a line and running a program are computations that
change a state and may fail.  These lemmas take a sequence of two computations
apart.
-/

namespace PenScript.Stateful

variable {ε σ α β : Type}

/-- The state in which a computation ends, be it by a failure. -/
def finalState : EStateM.Result ε σ α → σ
  | .ok _ state => state
  | .error _ state => state

@[simp] theorem finalState_ok (answer : α) (state : σ) :
    finalState (.ok answer state : EStateM.Result ε σ α) = state := rfl

@[simp] theorem finalState_error (fault : ε) (state : σ) :
    finalState (.error fault state : EStateM.Result ε σ α) = state := rfl

/-- The answer of a computation, if it succeeds. -/
def answer? : EStateM.Result ε σ α → Option α
  | .ok answer _ => some answer
  | .error _ _ => none

theorem answer?_eq_some_iff {outcome : EStateM.Result ε σ α} {answer : α} :
    answer? outcome = some answer ↔ ∃ state, outcome = .ok answer state := by
  cases outcome with
  | ok given state => simp [answer?]
  | error fault state => simp [answer?]

theorem bind_of_ok {first : EStateM ε σ α} {next : α → EStateM ε σ β}
    {state middle : σ} {answer : α}
    (outcome : first state = .ok answer middle) :
    (first >>= next) state = next answer middle := by
  simp only [bind, EStateM.bind, outcome]

theorem bind_of_error {first : EStateM ε σ α} {next : α → EStateM ε σ β}
    {state middle : σ} {fault : ε}
    (outcome : first state = .error fault middle) :
    (first >>= next) state = .error fault middle := by
  simp only [bind, EStateM.bind, outcome]

/-- A sequence succeeds if both of its parts do. -/
theorem bind_eq_ok_iff {first : EStateM ε σ α} {next : α → EStateM ε σ β}
    {state final : σ} {answer : β} :
    (first >>= next) state = .ok answer final ↔
      ∃ between middle, first state = .ok between middle ∧
        next between middle = .ok answer final := by
  cases outcome : first state with
  | ok between middle =>
      rw [bind_of_ok outcome]
      constructor
      · intro success
        exact ⟨between, middle, rfl, success⟩
      · rintro ⟨_, _, same, success⟩
        cases same
        exact success
  | error fault middle =>
      rw [bind_of_error outcome]
      simp

/-! ### Converting faults -/

variable {ε' : Type} (convert : ε → ε')

theorem adaptExcept_of_ok {computation : EStateM ε σ α} {state final : σ}
    {answer : α} (outcome : computation state = .ok answer final) :
    EStateM.adaptExcept convert computation state = .ok answer final := by
  unfold EStateM.adaptExcept
  rw [outcome]

theorem adaptExcept_of_error {computation : EStateM ε σ α} {state final : σ}
    {fault : ε} (outcome : computation state = .error fault final) :
    EStateM.adaptExcept convert computation state =
      .error (convert fault) final := by
  unfold EStateM.adaptExcept
  rw [outcome]

theorem adaptExcept_eq_error_iff {computation : EStateM ε σ α} {state final : σ}
    {fault : ε'} :
    EStateM.adaptExcept convert computation state = .error fault final ↔
      ∃ cause, computation state = .error cause final ∧
        fault = convert cause := by
  cases outcome : computation state with
  | ok answer middle =>
      rw [adaptExcept_of_ok convert outcome]
      simp
  | error cause middle =>
      rw [adaptExcept_of_error convert outcome]
      constructor
      · rintro ⟨⟩
        exact ⟨cause, rfl, rfl⟩
      · rintro ⟨_, ⟨⟩, rfl⟩
        rfl

theorem adaptExcept_bind (first : EStateM ε σ α) (next : α → EStateM ε σ β) :
    EStateM.adaptExcept convert (first >>= next) =
      EStateM.adaptExcept convert first >>= fun answer =>
        EStateM.adaptExcept convert (next answer) := by
  funext state
  cases outcome : first state with
  | ok answer middle =>
      rw [bind_of_ok (adaptExcept_of_ok convert outcome)]
      unfold EStateM.adaptExcept
      rw [bind_of_ok outcome]
  | error fault middle =>
      rw [bind_of_error (adaptExcept_of_error convert outcome)]
      exact adaptExcept_of_error convert (bind_of_error outcome)

end PenScript.Stateful
