import PenScript.Machine
import PenScript.Proofs.Reading

/-!
# How commands come to their effect

There are four ways: a command draws what it reads, gives a variable what it
reads, declares a variable, or does nothing by itself.  Reading is steady on
literals: it changes nothing, and an answer stays the same when more variables
get a value.
-/

namespace PenScript

open Stateful

/-- The variable that a command declares, sets or counts with. -/
def Command.target? : Command → Option String
  | .declare name _ => some name
  | .assign name _ => some name
  | .forRange counter _ _ _ => some counter
  | _ => none

/-- The name of the procedure that a command defines. -/
def Command.procedureName? : Command → Option String
  | .define name => some name
  | _ => none

/-- The form of a command's effect, where `property` holds of what the command
reads. -/
inductive EffectForm (property : CoercionProperty) (command : Command) :
    Prop where
  | drawing (stroke : Value.Reading Stroke) (holds : property.Holds stroke)
      (form : command.effect = Command.drawing stroke)
  | assigning (name : String) (value : Value)
      (target : command.target? = some name)
      (admitted : property.Admits .anything value)
      (form : command.effect = Command.assigning name value)
  | declaring (name : String) (form : command = .declare name none)
  | idle (form : command.effect = pure .idle)

/-- Each command takes one of the four forms. -/
theorem CoercionProperty.effectForm (property : CoercionProperty)
    (command : Command)
    (admitted : ∀ entry ∈ command.demands, property.Admits entry.1 entry.2) :
    EffectForm property command := by
  cases command with
  | moveTo x y =>
      simp only [Command.demands, List.forall_mem_map, List.forall_mem_cons]
          at admitted
      exact .drawing _
        (property.sequence (property.readPoint admitted.1 admitted.2.1)
          fun _ => property.returning _) rfl
  | lineTo x y =>
      simp only [Command.demands, List.forall_mem_map, List.forall_mem_cons]
          at admitted
      exact .drawing _
        (property.sequence (property.readPoint admitted.1 admitted.2.1)
          fun _ => property.returning _) rfl
  | polygon shape =>
      exact .drawing _ (property.sequence (property.points admitted) fun _ =>
        property.returning _) rfl
  | circle radius =>
      exact .drawing _ (property.sequence
        (property.readMeasure (admitted _ List.mem_cons_self) _) fun _ =>
          property.returning _) rfl
  | dot => exact .drawing _ (property.returning _) rfl
  | clear => exact .drawing _ (property.returning _) rfl
  | resetPen => exact .drawing _ (property.returning _) rfl
  | fill setting =>
      exact .drawing _ (property.readSetting (admitted _ List.mem_cons_self))
        rfl
  | fillColor color =>
      exact .drawing _
          (property.sequence (property.readSource admitted) fun _ =>
        property.returning _) rfl
  | penColor color =>
      exact .drawing _
          (property.sequence (property.readSource admitted) fun _ =>
        property.returning _) rfl
  | penWidth width =>
      exact .drawing _ (property.sequence
        (property.readMeasure (admitted _ List.mem_cons_self) _) fun _ =>
          property.returning _) rfl
  | declare name value =>
      cases value with
      | none => exact .declaring name rfl
      | some value =>
          exact .assigning name value rfl (admitted _ List.mem_cons_self) rfl
  | assign name value =>
      exact .assigning name value rfl (admitted _ List.mem_cons_self) rfl
  | ifTrue guard => exact .idle rfl
  | whileTrue guard => exact .idle rfl
  | forRange counter start stop step => exact .idle rfl
  | define name => exact .idle rfl
  | call name => exact .idle rfl
  | ret => exact .idle rfl
  | endBlock => exact .idle rfl

theorem ReadingProperty.effectForm (property : ReadingProperty)
    (command : Command)
    (admitted : ∀ value ∈ command.values, property.Admits value) :
    EffectForm property.coercions command :=
  property.coercions.effectForm command fun entry member =>
    admitted entry.2 (Command.mem_values_of_demands member)

/-! ### Steady reading -/

/-- Every value of the smaller store is also in the larger one. -/
def Store.Below (smaller larger : Store) : Prop :=
  ∀ name value, smaller.value? name = some value →
    larger.value? name = some value

theorem Value.plain_of_below {smaller larger : Store}
    (below : smaller.Below larger) {value : Value} {result : Literal}
    (answered : value.plain smaller.literal = .ok result) :
    value.plain larger.literal = .ok result := by
  induction value generalizing result with
  | literal literal => exact answered
  | settled literal => exact answered
  | reference name =>
      exact Store.literal_eq_ok_iff.mpr
        (below _ _ (Store.literal_eq_ok_iff.mp answered))
  | pending op left right leftBelow rightBelow =>
      unfold plain at answered ⊢
      cases leftAnswer : left.plain smaller.literal with
      | error fault => simp [leftAnswer] at answered
      | ok leftResult =>
          cases rightAnswer : right.plain smaller.literal with
          | error fault => simp [leftAnswer, rightAnswer] at answered
          | ok rightResult =>
              rw [leftBelow leftAnswer, rightBelow rightAnswer]
              simpa [leftAnswer, rightAnswer] using answered

/-- A computation that leaves a store of literals alone, and whose answer does
not depend on variables without a value. -/
structure Steady {ε α : Type} (action : EStateM ε Store α) : Prop where
  keeps : ∀ {store : Store}, store.LiteralOnly →
    finalState (action store) = store
  grows : ∀ {smaller larger : Store} {answer : α}, smaller.LiteralOnly →
    larger.LiteralOnly →
    smaller.Below larger → action smaller = .ok answer smaller →
      action larger = .ok answer larger

namespace Steady

variable {ε α β : Type}

theorem keeps_ok {action : EStateM ε Store α} (steady : Steady action)
    {store final : Store} {answer : α} (literals : store.LiteralOnly)
    (outcome : action store = .ok answer final) :
    final = store := by
  simpa [outcome] using steady.keeps literals

theorem keeps_error {action : EStateM ε Store α} (steady : Steady action)
    {store final : Store} {fault : ε} (literals : store.LiteralOnly)
    (outcome : action store = .error fault final) :
    final = store := by
  simpa [outcome] using steady.keeps literals

theorem returning (answer : α) : Steady (pure answer : EStateM ε Store α) :=
  ⟨fun _ => rfl, fun _ _ _ outcome => by cases outcome; rfl⟩

theorem failing (fault : ε) : Steady (throw fault : EStateM ε Store α) :=
  ⟨fun _ => rfl, fun _ _ _ outcome => by cases outcome⟩

theorem sequence {first : EStateM ε Store α} {next : α → EStateM ε Store β}
    (steadyFirst : Steady first) (steadyNext : ∀ answer, Steady (next answer)) :
    Steady (first >>= next) := by
  constructor
  · intro store literals
    cases outcome : first store with
    | error fault middle =>
        rw [bind_of_error outcome]
        exact steadyFirst.keeps_error literals outcome
    | ok between middle =>
        rw [bind_of_ok outcome]
        cases steadyFirst.keeps_ok literals outcome
        exact (steadyNext between).keeps literals
  · intro smaller larger answer smallerLiterals largerLiterals below outcome
    obtain ⟨between, middle, firstOutcome, nextOutcome⟩ :=
      bind_eq_ok_iff.mp outcome
    cases steadyFirst.keeps_ok smallerLiterals firstOutcome
    rw [bind_of_ok
      (steadyFirst.grows smallerLiterals largerLiterals below firstOutcome)]
    exact (steadyNext between).grows smallerLiterals largerLiterals
      below nextOutcome

theorem read (value : Value) : Steady value.read := by
  constructor
  · intro store literals
    rw [value.read_of_literalOnly literals]
    cases value.plain store.literal <;> rfl
  · intro smaller larger answer smallerLiterals largerLiterals below outcome
    rw [value.read_of_literalOnly smallerLiterals] at outcome
    rw [value.read_of_literalOnly largerLiterals]
    cases plain : value.plain smaller.literal with
    | error fault =>
        rw [plain] at outcome
        cases outcome
    | ok result =>
        rw [plain] at outcome
        cases outcome
        rw [Value.plain_of_below below plain]
        rfl

/-- Whatever a command reads, it reads steadily. -/
def property : ReadingProperty where
  Admits _ := True
  Holds action := Steady action
  returning := returning
  failing _ := failing _
  sequence := sequence
  reading _ := read _

theorem adaptExcept {ε' : Type} (convert : ε → ε') {action : EStateM ε Store α}
    (steady : Steady action) : Steady (EStateM.adaptExcept convert action) := by
  constructor
  · intro store literals
    have kept := steady.keeps literals
    unfold EStateM.adaptExcept
    cases outcome : action store <;> simpa [outcome] using kept
  · intro smaller larger answer smallerLiterals largerLiterals below outcome
    unfold EStateM.adaptExcept at outcome ⊢
    cases original : action smaller with
    | error fault final =>
        rw [original] at outcome
        cases outcome
    | ok result final =>
        rw [original] at outcome
        cases outcome
        rw [steady.grows smallerLiterals largerLiterals below original]

end Steady

/-! ### Effects -/

namespace Command

/-- The effects that a command may have at a store.  It names a variable only as
its target. -/
inductive Yields (command : Command) (store : Store) : Effect → Prop where
  | draw (stroke : Stroke) : Yields command store (.draw stroke)
  | assign (name : String) (result : Literal)
      (target : command.target? = some name) :
      Yields command store (.assign name result)
  | declare (name : String) (target : command.target? = some name)
      (missing : store.contains name = false) :
        Yields command store (.declare name)
  | idle : Yields command store .idle

/-- What reading gives, an effect is made of. -/
theorem adapted_eq_ok {α : Type} {make : α → Effect} {action : Value.Reading α}
    {store final : Store} {effect : Effect}
    (outcome :
      (EStateM.adaptExcept Fault.value (do return make (← action)) :
        EStateM Fault Store Effect) store = .ok effect final) :
    ∃ answer, effect = make answer := by
  unfold EStateM.adaptExcept at outcome
  split at outcome
  · cases outcome
  · next made =>
      obtain ⟨answer, middle, _, returned⟩ := bind_eq_ok_iff.mp made
      cases outcome
      cases returned
      exact ⟨answer, rfl⟩

theorem adapted_eq_error {α : Type} {make : α → Effect}
    {action : Value.Reading α} {store final : Store} {fault : Fault}
    (failed :
      (EStateM.adaptExcept Fault.value (do return make (← action)) :
        EStateM Fault Store Effect) store = .error fault final) :
    ∃ cause, action store = .error cause final ∧ fault = .value cause := by
  obtain ⟨cause, stopped, rfl⟩ := (adaptExcept_eq_error_iff _).mp failed
  cases outcome : action store with
  | ok answer middle =>
      rw [bind_of_ok outcome] at stopped
      cases stopped
  | error other middle =>
      rw [bind_of_error outcome] at stopped
      cases stopped
      exact ⟨_, rfl, rfl⟩

theorem declaring_eq_ok {name : String} {store final : Store} {effect : Effect}
    (outcome : declaring name store = .ok effect final) :
    final = store ∧ (effect = .idle ∧ store.contains name = true ∨
      effect = .declare name ∧ store.contains name = false) := by
  unfold declaring at outcome
  split at outcome
  · next present =>
      cases outcome
      exact ⟨rfl, .inl ⟨rfl, present⟩⟩
  · next missing =>
      split at outcome
      · cases outcome
        exact ⟨rfl, .inr ⟨rfl, by simpa using missing⟩⟩
      · cases outcome

theorem yields_of_effect {command : Command} {store final : Store}
    {effect : Effect} (outcome : command.effect store = .ok effect final) :
    command.Yields store effect := by
  cases Steady.property.effectForm command fun _ _ => trivial with
  | drawing stroke _ form =>
      rw [form] at outcome
      obtain ⟨made, rfl⟩ := adapted_eq_ok outcome
      exact .draw made
  | assigning name value target _ form =>
      rw [form] at outcome
      obtain ⟨result, rfl⟩ := adapted_eq_ok outcome
      exact .assign name result target
  | declaring name form =>
      subst form
      rcases (declaring_eq_ok outcome).2 with ⟨rfl, _⟩ | ⟨rfl, missing⟩
      · exact .idle
      · exact .declare name rfl missing
  | idle form =>
      rw [form] at outcome
      cases outcome
      exact .idle

/-- Coming to an effect is steady, unless the command declares a variable. -/
theorem steady_effect (command : Command) :
    (Steady command.effect ∧
      ∀ store name final, command.effect store ≠ .ok (.declare name) final) ∨
    ∃ name, command.effect = declaring name := by
  cases Steady.property.effectForm command fun _ _ => trivial with
  | drawing stroke steady form =>
      rw [form]
      refine .inl ⟨(Steady.sequence steady fun _ => .returning _).adaptExcept _,
        ?_⟩
      intro store name final outcome
      obtain ⟨made, same⟩ := adapted_eq_ok outcome
      cases same
  | assigning target value _ _ form =>
      rw [form]
      refine .inl
        ⟨(Steady.sequence (.read value) fun _ => .returning _).adaptExcept _,
          ?_⟩
      intro store name final outcome
      obtain ⟨result, same⟩ := adapted_eq_ok outcome
      cases same
  | declaring name form => exact .inr ⟨name, congrArg effect form⟩
  | idle form =>
      rw [form]
      refine .inl ⟨.returning _, ?_⟩
      intro store name final outcome
      cases outcome

/-- Coming to an effect changes nothing in a store of literals. -/
theorem finalState_effect (command : Command) {store : Store}
    (literals : store.LiteralOnly) :
    finalState (command.effect store) = store := by
  rcases command.steady_effect with ⟨steady, _⟩ | ⟨name, form⟩
  · exact steady.keeps literals
  · rw [form]
    unfold declaring
    split
    · rfl
    · split <;> rfl

end Command

namespace Effect

/-- The strokes that an effect adds to the canvas. -/
def strokes : Effect → Canvas
  | .draw stroke => #[stroke]
  | _ => #[]

theorem canvas_apply (effect : Effect) (machine : Machine) :
    (effect.apply machine).canvas = machine.canvas ++ effect.strokes := by
  cases effect <;> simp [apply, strokes]

end Effect

theorem Execution.performing_eq_ok_iff {command : Command} {line : Nat}
    {machine final : Machine} {flow : Flow} :
    performing command line machine = .ok flow final ↔
      ∃ effect store, command.effect machine.store = .ok effect store ∧
        flow = .next ∧
        final = effect.apply { machine with store } := by
  unfold performing Command.perform
  cases outcome : command.effect machine.store with
  | error fault store => simp
  | ok effect store =>
      constructor
      · rintro ⟨⟩
        exact ⟨effect, store, rfl, rfl, rfl⟩
      · rintro ⟨_, _, ⟨⟩, rfl, rfl⟩
        rfl

end PenScript
