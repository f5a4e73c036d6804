import PenScript.Proofs.Leniency
import PenScript.Proofs.Termination

/-!
# Commands have one effect or none

A command that fails leaves the machine as it was.  One that succeeds makes one
stroke, changes the variable that it names, or does nothing.  So a run that
fails leaves what the commands before the failing one have done.
-/

namespace PenScript

open Stateful

namespace Command

def draws : Command → Bool
  | .moveTo _ _ | .lineTo _ _ | .polygon _ | .circle _ | .dot | .clear |
      .resetPen | .fill _
  | .fillColor _ | .penColor _ | .penWidth _ => true
  | _ => false

/-- A command that only says how the run goes on. -/
def steers : Command → Bool
  | .ifTrue _ | .whileTrue _ | .forRange _ _ _ _ | .define _ | .call _ | .ret |
      .endBlock => true
  | _ => false

/-- A command that declares the variable or gives it a value. -/
def sets (name : String) : Command → Bool
  | .declare target _ | .assign target _ => target = name
  | _ => false

/-- What a command may do to a machine. -/
inductive Acts (command : Command) (machine : Machine) :
    EStateM.Result Fault Machine Unit → Prop where
  | fails (fault : Fault) : Acts command machine (.error fault machine)
  | draws (stroke : Stroke) (drawing : command.draws = true) :
      Acts command machine
        (.ok () { machine with canvas := machine.canvas.push stroke })
  | sets (name : String) (slot : Option Value)
      (setting : command.sets name = true)
      (others : ∀ other, other ≠ name →
        (machine.store.insert name slot).find? other =
          machine.store.find? other) :
      Acts command machine
        (.ok () { machine with store := machine.store.insert name slot })
  | steers (steering : command.steers = true) :
      Acts command machine (.ok () machine)
  | declared (name : String) (form : command = .declare name none)
      (present : machine.store.contains name = true) :
        Acts command machine (.ok () machine)

theorem effect_of_draws {command : Command} (drawing : command.draws = true) :
    ∃ stroke, command.effect = Command.drawing stroke := by
  cases command <;> first | exact ⟨_, rfl⟩ | cases drawing

theorem effect_of_steers {command : Command}
    (steering : command.steers = true) :
    command.effect = pure .idle := by
  cases command <;> first | rfl | cases steering

/-- Commands that neither draw nor steer are declarations and assignments. -/
theorem effect_of_sets {command : Command} (drawing : command.draws = false)
    (steering : command.steers = false) :
    (∃ name, command = .declare name none) ∨
      ∃ name value, command.sets name = true ∧
        command.effect = assigning name value := by
  cases command with
  | declare name value =>
      cases value with
      | none => exact .inl ⟨name, rfl⟩
      | some value => exact .inr ⟨name, value, decide_eq_true rfl, rfl⟩
  | assign name value => exact .inr ⟨name, value, decide_eq_true rfl, rfl⟩
  | _ => first | (cases drawing; done) | cases steering

theorem Acts.insert {command : Command} {name : String}
    (setting : command.sets name = true) (machine : Machine)
    (slot : Option Value) :
    command.Acts machine
      (.ok () { machine with store := machine.store.insert name slot }) := by
  refine .sets name slot setting fun other different => ?_
  rw [Store.find?_insert, if_neg different]

/-- The effect that a command comes to is of its own kind. -/
theorem acts_of_effect {command : Command} {machine : Machine} {store : Store}
    {effect : Effect}
    (outcome : command.effect machine.store = .ok effect store) :
    command.Acts machine (.ok () (effect.apply machine)) := by
  cases drawing : command.draws with
  | true =>
      obtain ⟨reading, form⟩ := effect_of_draws drawing
      rw [form] at outcome
      obtain ⟨stroke, rfl⟩ := adapted_eq_ok outcome
      exact .draws stroke drawing
  | false =>
      cases steering : command.steers with
      | true =>
          rw [effect_of_steers steering] at outcome
          cases outcome
          exact .steers steering
      | false =>
          rcases effect_of_sets drawing steering with ⟨name, rfl⟩ |
            ⟨name, value, setting, form⟩
          · rcases (declaring_eq_ok outcome).2 with ⟨rfl, present⟩ | ⟨rfl, _⟩
            · exact .declared name rfl present
            · have setting : (Command.declare name none).sets name = true :=
                decide_eq_true rfl
              exact .insert setting machine none
          · rw [form] at outcome
            obtain ⟨result, rfl⟩ := adapted_eq_ok outcome
            exact .insert setting machine (some (.literal result))

theorem acts_perform (command : Command) {machine : Machine}
    (literals : machine.store.LiteralOnly) :
    command.Acts machine (command.perform machine) := by
  have unchanged := command.finalState_effect literals
  unfold perform
  cases outcome : command.effect machine.store with
  | ok effect store =>
      rw [outcome, finalState_ok] at unchanged
      subst unchanged
      exact acts_of_effect outcome
  | error fault store =>
      rw [outcome, finalState_error] at unchanged
      subst unchanged
      exact .fails fault

/-- Carries out commands one after the other, each of them by itself. -/
def performAll (commands : List Command) : EStateM Fault Machine Unit :=
  commands.forM perform

theorem performAll_append (first second : List Command) :
    performAll (first ++ second) = performAll first >>= fun _ =>
      performAll second :=
  List.forM_append

theorem performAll_singleton {command : Command} {machine final : Machine}
    (outcome : command.perform machine = .ok () final) :
    performAll [command] machine = .ok () final :=
  bind_of_ok outcome

end Command

namespace Execution

open Command (performAll)

/-! ### The commands of a step -/

/-- The commands that the first step of a task carries out by themselves.  A
loop that counts gives its counter the next value as an assignment does. -/
def Task.commands : Task → List Command
  | .node item => [item.command]
  | .repeating _ _ _ _ => []
  | .counting counter range _ value =>
      if range.covers value
        then [.assign counter (.literal (.int (Int64.ofInt value)))] else []

/-- An execution fails and changes nothing, or it does what the commands do. -/
inductive AllOrNothing {α : Type} (commands : List Command)
    (machine : Machine) :
    EStateM.Result Failure Machine α → Prop where
  | fails (failure : Failure) :
      AllOrNothing commands machine (.error failure machine)
  | succeeds (answer : α) {final : Machine}
      (performed : performAll commands machine = .ok () final) :
      AllOrNothing commands machine (.ok answer final)

namespace AllOrNothing

variable {α β : Type} {commands : List Command} {machine : Machine}

/-- Reading comes before anything is done. -/
theorem reading {command : Command} {line : Nat} {action : Value.Reading α}
    {next : α → Execution β} (literals : machine.store.LiteralOnly)
    (steady : Steady action)
    (later : ∀ answer, AllOrNothing commands machine (next answer machine)) :
    AllOrNothing commands machine
      ((reading command line action >>= next) machine) := by
  have unchanged := finalState_reading command line steady literals
  cases outcome : Execution.reading command line action machine with
  | error failure final =>
      rw [outcome, finalState_error] at unchanged
      rw [bind_of_error outcome, unchanged]
      exact .fails failure
  | ok answer final =>
      rw [outcome, finalState_ok] at unchanged
      rw [bind_of_ok outcome, unchanged]
      exact later answer

theorem performing (command : Command) (line : Nat) (answer : β)
    (literals : machine.store.LiteralOnly) :
    AllOrNothing [command] machine
      ((Execution.performing command line >>= fun _ => pure answer)
        machine) := by
  have acts := command.acts_perform literals
  cases outcome : command.perform machine with
  | ok done final =>
      have performed :
          Execution.performing command line machine = .ok .next final := by
        rw [Execution.performing, outcome]
      rw [bind_of_ok performed]
      exact .succeeds answer (Command.performAll_singleton outcome)
  | error fault final =>
      have performed : Execution.performing command line machine =
          .error (fault.at line command.describe) final := by
        rw [Execution.performing, outcome]
      rw [outcome] at acts
      rw [bind_of_error performed]
      cases acts
      exact .fails _

theorem steers {command : Command} (steering : command.steers = true)
    (answer : α) :
    AllOrNothing [command] machine (.ok answer machine) := by
  refine .succeeds answer (Command.performAll_singleton ?_)
  rw [Command.perform, Command.effect_of_steers steering]
  rfl

end AllOrNothing

section Moves

variable (limits : Limits) (procedures : List Procedure) {machine : Machine}

theorem allOrNothing_leafMove (depth : Nat) (command : Command) (line : Nat)
    (literals : machine.store.LiteralOnly) :
    AllOrNothing [command] machine
      (leafMove limits procedures depth command line machine) := by
  unfold leafMove
  split
  · exact .steers rfl _
  · next name =>
      cases Procedure.find? name procedures with
      | none => exact .fails _
      | some procedure =>
          dsimp only
          split
          · exact .steers rfl _
          · exact .fails _
  · exact .performing command line _ literals

theorem allOrNothing_move (depth : Nat) (task : Task)
    (literals : machine.store.LiteralOnly) :
    AllOrNothing task.commands machine
      (task.move limits procedures depth machine) := by
  cases task with
  | node node =>
      cases node with
      | leaf command line =>
          exact allOrNothing_leafMove limits procedures depth command
            line literals
      | block header line body =>
          unfold Task.move
          dsimp only
          split
          · next guard =>
              apply AllOrNothing.reading literals
                (Steady.property.readBool trivial)
              intro holds
              cases holds <;> exact .steers rfl _
          · exact .steers rfl _
          · apply AllOrNothing.reading literals
              (Steady.property.readRange (fun _ _ => trivial))
            intro range
            exact .steers rfl _
          · exact .steers rfl _
          · exact allOrNothing_leafMove limits procedures depth header
              line literals
  | repeating guard line body rounds =>
      apply AllOrNothing.reading literals (Steady.property.readBool trivial)
      intro holds
      split
      · split
        · exact .succeeds _ rfl
        · exact .fails _
      · exact .succeeds _ rfl
  | counting counter range body value =>
      unfold Task.move Task.commands
      dsimp only
      split
      · exact .succeeds _ rfl
      · exact .succeeds _ rfl

end Moves

/-! ### The commands of a course -/

namespace State

variable {limits : Limits} {procedures : List Procedure}

/-- The commands that the next step of a run carries out by themselves. -/
def commands : State → List Command
  | .running (task :: _) _ _ => task.commands
  | _ => []

/-- A course that has carried out the commands, in this order. -/
inductive Performs (limits : Limits) (procedures : List Procedure)
    (start : State) :
    List Command → State → Prop where
  | start : Performs limits procedures start [] start
  | step {commands : List Command} {before after : State}
      (performs : Performs limits procedures start commands before)
      (steps : Steps limits procedures before after) :
      Performs limits procedures start (commands ++ before.commands) after

theorem Reaches.performs {start state : State}
    (reaches : Reaches limits procedures start state) :
    ∃ commands, Performs limits procedures start commands state := by
  induction reaches with
  | refl => exact ⟨[], .start⟩
  | tail _ steps ih =>
      obtain ⟨commands, performs⟩ := ih
      exact ⟨_, performs.step steps⟩

theorem Performs.reaches {start state : State} {commands : List Command}
    (performs : Performs limits procedures start commands state) :
    Reaches limits procedures start state := by
  induction performs with
  | start => exact .refl
  | step _ steps ih => exact ih.tail steps

theorem Reaches.literalOnly {nodes : List Node} {machine : Machine}
    (literals : machine.store.LiteralOnly) {state : State}
    (reaches : Reaches limits procedures (.start nodes machine) state) :
    state.machine.store.LiteralOnly :=
  (reaches.keeps literalness.keeping (·.store.LiteralOnly)
    (fun _ holds => holds) (fun _ _ _ _ => trivial)
    (admitted_start (fun _ _ => trivial) machine) literals).2

theorem leave_ne_failed (callers : List (List Task)) (machine : Machine)
    (failure : Failure) (final : Machine) :
    leave callers machine ≠ .ended (.error failure final) := by
  intro same
  cases callers <;> cases same

/-- A step does what its commands do, or the run fails there and the step
changes nothing. -/
theorem Steps.performed_or_failed {before after : State}
    (steps : Steps limits procedures before after)
    (literals : before.machine.store.LiteralOnly) :
    (performAll before.commands before.machine = .ok () after.machine ∧
      ∀ failure final, after ≠ .ended (.error failure final)) ∨
    ∃ task rest callers machine failure,
      before = .running (task :: rest) callers machine ∧
      task.move limits procedures callers.length machine =
        .error failure machine ∧
      after = .ended (.error failure machine) := by
  cases before with
  | ended outcome => cases steps
  | running tasks callers machine =>
      cases tasks with
      | nil =>
          cases steps
          rw [machine_leave]
          exact .inl ⟨rfl, leave_ne_failed callers machine⟩
      | cons task rest =>
          have moves : AllOrNothing task.commands machine
              (task.move limits procedures callers.length machine) :=
            allOrNothing_move limits procedures callers.length task literals
          cases steps
          cases moved : task.move limits procedures callers.length machine with
          | error failure final =>
              rw [moved] at moves
              cases moves
              exact .inr ⟨task, rest, callers, machine, failure,
                rfl, moved, rfl⟩
          | ok move final =>
              rw [moved] at moves
              rw [machine_follow]
              cases moves with
              | succeeds _ performed =>
                  refine .inl ⟨performed, fun failure reached same => ?_⟩
                  cases move with
                  | goOn tasks => cases same
                  | enter tasks => cases same
                  | leave =>
                      exact leave_ne_failed callers final failure reached same

/-- As long as the run goes on, the machine is as the commands have left it.
The last step has not failed then, so its commands have been carried out as
well. -/
theorem Performs.performed {nodes : List Node} {machine final : Machine}
    {commands : List Command} {tasks : List Task} {callers : List (List Task)}
    (literals : machine.store.LiteralOnly)
    (performs :
      Performs limits procedures (.start nodes machine) commands
        (.running tasks callers final)) :
    performAll commands machine = .ok () final := by
  generalize reached : State.running tasks callers final = state at performs
  induction performs generalizing tasks callers final with
  | start =>
      cases reached
      rfl
  | @step commands before after earlier steps ih =>
      subst reached
      rcases steps.performed_or_failed
          (earlier.reaches.literalOnly literals) with
        ⟨performed, _⟩ | ⟨_, _, _, _, _, _, _, ended⟩
      · cases before with
        | ended outcome => cases steps
        | running waiting outer middle =>
            rw [Command.performAll_append, bind_of_ok (ih rfl)]
            exact performed
      · cases ended

end State

open State (Performs Reaches)

/-- What a failed run leaves has been done by the commands before the step that
fails. -/
theorem run_eq_error {limits : Limits} {procedures : List Procedure}
    {nodes : List Node} {machine final : Machine} {failure : Failure}
    (literals : machine.store.LiteralOnly)
    (failed : run limits procedures nodes machine = .error failure final) :
    ∃ commands task rest callers,
      Performs limits procedures (.start nodes machine) commands
        (.running (task :: rest) callers final) ∧
      task.move limits procedures callers.length final = .error failure final ∧
      performAll commands machine = .ok () final := by
  have reaches := reaches_run limits procedures nodes machine
  rw [failed] at reaches
  rcases Relation.ReflTransGen.cases_tail reaches with same |
    ⟨last, before, steps⟩
  · cases same
  · rcases steps.performed_or_failed (Reaches.literalOnly literals before) with
      ⟨_, goesOn⟩ | ⟨task, rest, callers, _, _, rfl, moved, ended⟩
    · exact absurd rfl (goesOn failure final)
    · cases ended
      obtain ⟨commands, performs⟩ := Reaches.performs before
      exact ⟨commands, task, rest, callers, performs, moved,
        performs.performed literals⟩

end Execution

namespace Session

open Execution.State (Performs)

/-- Commands are atomic.  At a store of literals, a command by itself fails and
changes neither the canvas nor the store, or it makes one stroke, changes the
slot of the one variable that it names, or does nothing.  So if a script fails
in a lenient session, what is left is just what the commands before the failing
step have done, one after the other. -/
theorem atomic_commands :
    (∀ (command : Command) (machine : Machine), machine.store.LiteralOnly →
      command.Acts machine (command.perform machine)) ∧
    ∀ (session kept : Session) (failure : Failure), session.store.LiteralOnly →
      session.config.leniency = .pardon →
      session.execute = (.error failure, kept) →
      ∃ commands task rest callers,
        Performs session.config.limits session.program.procedures
          session.course commands
          (.running (task :: rest) callers ⟨kept.canvas, kept.store⟩) ∧
        task.move session.config.limits session.program.procedures
            callers.length ⟨kept.canvas, kept.store⟩ =
          .error failure ⟨kept.canvas, kept.store⟩ ∧
        Command.performAll commands ⟨session.canvas, session.store⟩ =
          .ok () ⟨kept.canvas, kept.store⟩ := by
  refine ⟨fun command machine literals => command.acts_perform literals, ?_⟩
  intro session kept failure literals pardon execute
  obtain ⟨final, ended⟩ := session.execute_outcome.1 failure (by rw [execute])
  have same := (execute_of_outcome_error_pardon ended pardon).symm.trans execute
  cases same
  exact Execution.run_eq_error literals ended

/-- The division by zero comes in the second round, with two dots and one circle
made.  What is left can be done by commands without a loop. -/
theorem atomic_commands_in_loop :
    let session := ((new ⟨.pardon, {}⟩ true).load
      "var x = 2\nfor i 1 3\ndot\nx = x - 1\ncircle 6 / x\nend").2
    let left : Machine := ⟨session.execute.2.canvas, session.execute.2.store⟩
    session.store.LiteralOnly ∧ session.config.leniency = .pardon ∧
    Command.dot.Acts ⟨session.canvas, session.store⟩
      (Command.dot.perform ⟨session.canvas, session.store⟩) ∧
    left.canvas = #[.dot, .circle 6, .dot] ∧
    ∃ failure, session.execute = (.error failure, session.execute.2) ∧
      failure.code = .divisionByZero ∧
      ∃ commands task rest callers,
        Performs session.config.limits session.program.procedures
          session.course commands (.running (task :: rest) callers left) ∧
        task.move session.config.limits session.program.procedures
          callers.length left = .error failure left ∧
        Command.performAll commands ⟨session.canvas, session.store⟩ =
          .ok () left := by
  have literals := (fresh_load (new ⟨.pardon, {}⟩ true)
    "var x = 2\nfor i 1 3\ndot\nx = x - 1\ncircle 6 / x\nend").vacant.literalOnly
  have facts : let session := ((new ⟨.pardon, {}⟩ true).load
      "var x = 2\nfor i 1 3\ndot\nx = x - 1\ncircle 6 / x\nend").2
      session.config.leniency = .pardon ∧
      session.execute.2.canvas = #[.dot, .circle 6, .dot] ∧
      session.execute.1 =
        .error ⟨.divisionByZero, 5, "Draw a circle of radius (6 / x)",
          "division by zero"⟩ := by
    decide +kernel
  generalize ((new ⟨.pardon, {}⟩ true).load
    "var x = 2\nfor i 1 3\ndot\nx = x - 1\ncircle 6 / x\nend").2 = session
    at literals facts ⊢
  obtain ⟨pardon, drawn, fails⟩ := facts
  have executes : session.execute = (.error _, session.execute.2) :=
    Prod.ext fails rfl
  exact ⟨literals, pardon, atomic_commands.1 _ _ literals, drawn, _,
    executes, rfl,
    atomic_commands.2 session session.execute.2 _ literals pardon executes⟩

end Session

end PenScript
