import Mathlib.Logic.Relation
import PenScript.Proofs.Integers
import PenScript.Proofs.Run

/-!
# The course of a run

A run goes on in single steps.  Between two steps, what remains to be done is a
list of tasks for each procedure that has been called and has not returned.  No
bound on the number of steps is given beforehand: a loop counts its rounds as it
goes, and a call counts the callers around it.  The course that starts with the
nodes of a program ends with the outcome of its run.
-/

namespace PenScript.Execution

open Stateful

/-- Something that remains to be done. -/
inductive Task where
  | node (node : Node)
  /-- A loop that goes on while its guard holds, after a number of rounds. -/
  | repeating (guard : Value) (line : Nat) (body : List Node) (rounds : Nat)
  /-- A loop that counts, with the value that its counter takes next. -/
  | counting (counter : String) (range : Range) (body : List Node) (value : Int)

/-- How a run goes on behind a task. -/
inductive Move where
  /-- With other tasks in its place. -/
  | goOn (tasks : List Task)
  /-- Inside a procedure. -/
  | enter (tasks : List Task)
  /-- Behind the call of the procedure. -/
  | leave

/-- The round that comes after the one with the given value.  There is none if
the counter would leave the range of machine integers. -/
def nextRound (counter : String) (range : Range) (body : List Node)
    (value : Int) : List Task :=
  match int64? (value + range.step) with
  | some next => [.counting counter range body next.toInt]
  | none => []

/-- Carries out a command that stands by itself, inside `depth` calls. -/
def leafMove (limits : Limits) (procedures : List Procedure) (depth : Nat)
    (command : Command) (line : Nat) : Execution Move :=
  match command with
  | .ret => return .leave
  | .call name =>
      match Procedure.find? name procedures with
      | none =>
          throw (Fault.at (.run (.undefinedProcedure name)) line
            (Command.call name).describe)
      | some procedure =>
          if depth < limits.depth then return .enter (procedure.body.map .node)
          else
            throw (Fault.at (.run (.tooDeep limits.depth name)) line
              (Command.call name).describe)
  | _ => do
      let _ ← performing command line
      return .goOn []

/-- Carries out the first step of a task, inside `depth` calls. -/
def Task.move (limits : Limits) (procedures : List Procedure) (depth : Nat) :
    Task → Execution Move
  | .node (.leaf command line) => leafMove limits procedures depth command line
  | .node (.block header line body) =>
      match header with
      | .ifTrue guard => do
          if ← reading header line guard.readBool
            then return .goOn (body.map .node)
          else return .goOn []
      | .whileTrue guard => return .goOn [.repeating guard line body 0]
      | .forRange counter start stop step => do
          let range ← reading header line (readRange start stop step)
          return .goOn [.counting counter range body range.start]
      | .define _ => return .goOn []
      | _ => leafMove limits procedures depth header line
  | .repeating guard line body rounds => do
      if ← reading (.whileTrue guard) line guard.readBool then
        if rounds < limits.iterations then
          return .goOn
            (body.map .node ++ [.repeating guard line body (rounds + 1)])
        else
          throw (Fault.at (.run (.tooManyIterations limits.iterations)) line
            (Command.whileTrue guard).describe)
      else return .goOn []
  | .counting counter range body value =>
      if range.covers value then do
        setCounter counter value
        return .goOn (body.map .node ++ nextRound counter range body value)
      else return .goOn []

/-- A run between two steps. -/
inductive State where
  /-- The tasks in the current procedure, and those that wait in its callers,
  innermost first. -/
  | running (tasks : List Task) (callers : List (List Task)) (machine : Machine)
  | ended (outcome : EStateM.Result Failure Machine Unit)

namespace State

def start (nodes : List Node) (machine : Machine) : State :=
  .running (nodes.map .node) [] machine

/-- Goes back to the caller, or ends. -/
def leave : List (List Task) → Machine → State
  | [], machine => .ended (.ok () machine)
  | tasks :: callers, machine => .running tasks callers machine

/-- Goes on behind a task. -/
def follow (rest : List Task) (callers : List (List Task)) :
    EStateM.Result Failure Machine Move → State
  | .ok (.goOn tasks) machine => .running (tasks ++ rest) callers machine
  | .ok (.enter tasks) machine => .running tasks (rest :: callers) machine
  | .ok .leave machine => leave callers machine
  | .error failure machine => .ended (.error failure machine)

/-- The next state of a run whose tasks move in the given way, unless it has
ended. -/
def nextBy (move : Nat → Task → Execution Move) : State → Option State
  | .running (task :: rest) callers machine =>
      some (follow rest callers (move callers.length task machine))
  | .running [] callers machine => some (leave callers machine)
  | .ended _ => none

/-- The next state of a run, unless it has ended. -/
def next (limits : Limits) (procedures : List Procedure) :
    State → Option State :=
  nextBy (Task.move limits procedures)

/-- One step of a run. -/
def Steps (limits : Limits) (procedures : List Procedure)
    (before after : State) : Prop :=
  before.next limits procedures = some after

/-- Any number of steps of a run. -/
def Reaches (limits : Limits) (procedures : List Procedure) :
    State → State → Prop :=
  Relation.ReflTransGen (Steps limits procedures)

end State

/-! ### Single steps -/

/-- The moves that a task can make. -/
inductive Task.Allows (limits : Limits) (procedures : List Procedure)
    (depth : Nat) :
    Task → Move → Prop where
  | leave {task : Task} : Allows limits procedures depth task .leave
  | done {task : Task} : Allows limits procedures depth task (.goOn [])
  | enter {task : Task} {procedure : Procedure}
      (member : procedure ∈ procedures) (room : depth < limits.depth) :
      Allows limits procedures depth task (.enter (procedure.body.map .node))
  | body {header : Command} {line : Nat} {body : List Node} :
      Allows limits procedures depth (.node (.block header line body))
        (.goOn (body.map .node))
  | loop {guard : Value} {line : Nat} {body : List Node} :
      Allows limits procedures depth
        (.node (.block (.whileTrue guard) line body))
        (.goOn [.repeating guard line body 0])
  | count {counter : String} {start stop : Value} {step : Option Value}
      {line : Nat} {body : List Node} (range : Range) :
      Allows limits procedures depth
        (.node (.block (.forRange counter start stop step) line body))
        (.goOn [.counting counter range body range.start])
  | loopOn {guard : Value} {line : Nat} {body : List Node} {rounds : Nat}
      (room : rounds < limits.iterations) :
      Allows limits procedures depth (.repeating guard line body rounds)
        (.goOn (body.map .node ++ [.repeating guard line body (rounds + 1)]))
  | countOn {counter : String} {range : Range} {body : List Node} {value : Int}
      (covered : range.covers value = true) :
      Allows limits procedures depth (.counting counter range body value)
        (.goOn (body.map .node ++ nextRound counter range body value))

section Moves

variable {limits : Limits} {procedures : List Procedure} {depth : Nat}

theorem allows_of_leafMove {command : Command} {line : Nat}
    {machine final : Machine} {move : Move}
    (moved : leafMove limits procedures depth command line machine =
      .ok move final) (task : Task) :
    task.Allows limits procedures depth move := by
  unfold leafMove at moved
  split at moved
  · cases moved
    exact .leave
  · next name =>
      cases found : Procedure.find? name procedures with
      | none =>
          rw [found] at moved
          cases moved
      | some procedure =>
          rw [found] at moved
          dsimp only at moved
          split at moved
          · next room =>
              cases moved
              exact .enter (List.mem_of_find?_eq_some found) room
          · cases moved
  · obtain ⟨_, _, _, returned⟩ := bind_eq_ok_iff.mp moved
    cases returned
    exact .done

theorem allows_of_move {task : Task} {machine final : Machine} {move : Move}
    (moved : task.move limits procedures depth machine = .ok move final) :
    task.Allows limits procedures depth move := by
  cases task with
  | node node =>
      cases node with
      | leaf command line => exact allows_of_leafMove moved _
      | block header line body =>
          unfold Task.move at moved
          dsimp only at moved
          split at moved
          · obtain ⟨holds, _, _, returned⟩ := bind_eq_ok_iff.mp moved
            cases holds with
            | true => cases returned; exact .body
            | false => cases returned; exact .done
          · cases moved
            exact .loop
          · obtain ⟨range, _, _, returned⟩ := bind_eq_ok_iff.mp moved
            cases returned
            exact .count range
          · cases moved
            exact .done
          · exact allows_of_leafMove moved _
  | repeating guard line body rounds =>
      obtain ⟨holds, _, _, returned⟩ := bind_eq_ok_iff.mp moved
      cases holds with
      | false => cases returned; exact .done
      | true =>
          rw [if_pos rfl] at returned
          split at returned
          · next room => cases returned; exact .loopOn room
          · cases returned
  | counting counter range body value =>
      unfold Task.move at moved
      dsimp only at moved
      split at moved
      · next covered =>
          obtain ⟨_, _, _, returned⟩ := bind_eq_ok_iff.mp moved
          cases returned
          exact .countOn covered
      · cases moved
        exact .done

end Moves

/-! ### Properties of whole courses -/

section Admitted

variable {Admits : Command → Nat → Prop} {limits : Limits}
    {procedures : List Procedure}

/-- The commands of a task are among those admitted. -/
def Task.Admitted (Admits : Command → Nat → Prop) : Task → Prop
  | .node item => ∀ entry ∈ item.commands, Admits entry.1 entry.2
  | .repeating guard line body _ =>
      Admits (.whileTrue guard) line ∧ ∀ entry ∈ Node.commandsList body,
      Admits entry.1 entry.2
  | .counting counter _ body _ =>
      (∃ start stop step line,
        Admits (.forRange counter start stop step) line) ∧
        ∀ entry ∈ Node.commandsList body, Admits entry.1 entry.2

/-- The command that a task carries out next is among those admitted. -/
def Task.Begins (Admits : Command → Nat → Prop) : Task → Prop
  | .node item => Admits item.command item.line
  | .repeating guard line _ _ => Admits (.whileTrue guard) line
  | .counting counter _ _ _ =>
      ∃ start stop step line, Admits (.forRange counter start stop step) line

theorem Task.Admitted.begins {task : Task} (admitted : task.Admitted Admits) :
    task.Begins Admits := by
  cases task with
  | node node =>
      cases node with
      | leaf command line => exact admitted (command, line) List.mem_cons_self
      | block header line body =>
          exact admitted (header, line) List.mem_cons_self
  | repeating guard line body rounds => exact admitted.1
  | counting counter range body value => exact admitted.1

theorem Task.admitted_nodes {nodes : List Node}
    (admitted : ∀ entry ∈ Node.commandsList nodes, Admits entry.1 entry.2) :
    ∀ task ∈ nodes.map Task.node, task.Admitted Admits := by
  intro task member
  obtain ⟨node, inside, rfl⟩ := List.mem_map.mp member
  intro entry here
  exact admitted entry (Node.mem_commandsList.mpr ⟨node, inside, here⟩)

theorem RunProperty.leafMove (property : RunProperty Admits) (depth : Nat)
    {command : Command} {line : Nat} (admitted : Admits command line) :
    property.Holds (leafMove limits procedures depth command line) := by
  unfold Execution.leafMove
  split
  · exact property.returning _
  · split
    · exact property.stopping _ admitted
    · split
      · exact property.returning _
      · exact property.stopping _ admitted
  · exact property.sequence (property.performing admitted) fun _ =>
      property.returning _

/-- A property that is kept by composition holds of every move. -/
theorem RunProperty.move (property : RunProperty Admits) (depth : Nat)
    {task : Task} (begins : task.Begins Admits) :
    property.Holds (task.move limits procedures depth) := by
  cases task with
  | node node =>
      cases node with
      | leaf command line => exact property.leafMove depth begins
      | block header line body =>
          have admittedHeader : Admits header line := begins
          unfold Task.move
          dsimp only
          split
          · refine property.sequence (property.guarding admittedHeader rfl)
              fun holds => ?_
            split
            · exact property.returning _
            · exact property.returning _
          · exact property.returning _
          · exact property.sequence (property.bounding admittedHeader) fun _ =>
              property.returning _
          · exact property.returning _
          · exact property.leafMove depth admittedHeader
  | repeating guard line body rounds =>
      refine property.sequence (property.guarding begins rfl) fun holds => ?_
      split
      · split
        · exact property.returning _
        · exact property.stopping _ begins
      · exact property.returning _
  | counting counter range body value =>
      obtain ⟨start, stop, step, line, admittedHeader⟩ := begins
      unfold Task.move
      dsimp only
      split
      · exact property.sequence (property.counting value admittedHeader)
          fun _ => property.returning _
      · exact property.returning _

/-- The tasks that a move brings. -/
def Move.tasks : Move → List Task
  | .goOn tasks => tasks
  | .enter tasks => tasks
  | .leave => []

theorem Task.Allows.admitted {depth : Nat} {task : Task} {move : Move}
    (allows : task.Allows limits procedures depth move)
    (admitted : task.Admitted Admits)
    (defined : ∀ procedure ∈ procedures, ∀ entry ∈ procedure.commands,
      Admits entry.1 entry.2) :
    ∀ task ∈ move.tasks, task.Admitted Admits := by
  cases allows with
  | leave =>
      intro task member
      cases member
  | done =>
      intro task member
      cases member
  | enter member room =>
      exact admitted_nodes fun entry inside =>
        defined _ member entry (List.mem_cons_of_mem _ inside)
  | body =>
      exact admitted_nodes fun entry inside =>
        admitted entry (List.mem_cons_of_mem _ inside)
  | @loop guard line body =>
      intro task member
      rw [List.mem_singleton.mp member]
      exact ⟨admitted (.whileTrue guard, line) List.mem_cons_self,
        fun entry inside => admitted entry (List.mem_cons_of_mem _ inside)⟩
  | @count counter start stop step line body range =>
      intro task member
      rw [List.mem_singleton.mp member]
      exact ⟨⟨start, stop, step, line, admitted (_, line) List.mem_cons_self⟩,
        fun entry inside => admitted entry (List.mem_cons_of_mem _ inside)⟩
  | loopOn room =>
      refine List.forall_mem_append.mpr ⟨admitted_nodes admitted.2, ?_⟩
      intro task member
      rw [List.mem_singleton.mp member]
      exact admitted
  | @countOn counter range body value covered =>
      refine List.forall_mem_append.mpr ⟨admitted_nodes admitted.2, ?_⟩
      intro task member
      unfold nextRound at member
      split at member
      · rw [List.mem_singleton.mp member]
        exact admitted
      · cases member

namespace State

def machine : State → Machine
  | .running _ _ machine => machine
  | .ended outcome => finalState outcome

/-- All tasks that remain have a property. -/
def Every (Holds : Task → Prop) : State → Prop
  | .running tasks callers _ =>
      ∀ waiting ∈ tasks :: callers, ∀ task ∈ waiting, Holds task
  | .ended _ => True

theorem every_leave {Holds : Task → Prop} {callers : List (List Task)}
    (every : ∀ waiting ∈ callers, ∀ task ∈ waiting, Holds task)
    (machine : Machine) :
    (leave callers machine).Every Holds := by
  cases callers with
  | nil => trivial
  | cons tasks callers => exact every

/-- A property of tasks that moves hand on is kept by steps. -/
theorem Steps.every {Holds : Task → Prop}
    (handsOn : ∀ {depth task move}, Holds task →
      Task.Allows limits procedures depth task move → ∀ later ∈ move.tasks,
      Holds later)
    {before after : State} (steps : Steps limits procedures before after)
    (every : before.Every Holds) : after.Every Holds := by
  match before with
  | .ended _ => cases steps
  | .running [] callers machine =>
      cases steps
      exact every_leave
        (fun waiting member => every waiting (List.mem_cons_of_mem _ member)) _
  | .running (task :: rest) callers machine =>
      obtain ⟨here, outer⟩ := List.forall_mem_cons.mp every
      obtain ⟨first, later⟩ := List.forall_mem_cons.mp here
      cases steps
      cases moved : task.move limits procedures callers.length machine with
      | error failure final => trivial
      | ok move final =>
          have brought := handsOn first (allows_of_move moved)
          cases move with
          | goOn tasks =>
              exact List.forall_mem_cons.mpr
                ⟨List.forall_mem_append.mpr ⟨brought, later⟩, outer⟩
          | enter tasks =>
              exact List.forall_mem_cons.mpr
                ⟨brought, List.forall_mem_cons.mpr ⟨later, outer⟩⟩
          | leave => exact every_leave outer _

/-- The commands of all tasks that remain are among those admitted. -/
def Admitted (Admits : Command → Nat → Prop) : State → Prop :=
  Every (Task.Admitted Admits)

theorem machine_leave (callers : List (List Task)) (machine : Machine) :
    (leave callers machine).machine = machine := by
  cases callers <;> rfl

theorem machine_follow (rest : List Task) (callers : List (List Task))
    (moved : EStateM.Result Failure Machine Move) :
    (follow rest callers moved).machine = finalState moved := by
  match moved with
  | .ok (.goOn _) _ => rfl
  | .ok (.enter _) _ => rfl
  | .ok .leave machine => exact machine_leave callers machine
  | .error _ _ => rfl

theorem Steps.admitted
    (defined : ∀ procedure ∈ procedures, ∀ entry ∈ procedure.commands,
      Admits entry.1 entry.2) {before after : State}
    (steps : Steps limits procedures before after)
    (admitted : before.Admitted Admits) : after.Admitted Admits :=
  steps.every (fun holds allows => allows.admitted holds defined) admitted

/-- Each step is an execution that has the properties of runs. -/
theorem Steps.execution (property : RunProperty Admits) {before after : State}
    (steps : Steps limits procedures before after)
    (admitted : before.Admitted Admits) :
    ∃ execution : Execution Move, property.Holds execution ∧
      after.machine = finalState (execution before.machine) ∧
      ∀ failure final, after = .ended (.error failure final) →
        execution before.machine = .error failure final := by
  match before with
  | .ended _ => cases steps
  | .running [] callers machine =>
      cases steps
      refine ⟨pure .leave, property.returning _, machine_leave callers machine,
        ?_⟩
      intro failure final same
      cases callers <;> cases same
  | .running (task :: rest) callers machine =>
      have first : task.Admitted Admits :=
        admitted _ List.mem_cons_self task List.mem_cons_self
      cases steps
      refine ⟨task.move limits procedures callers.length,
        property.move _ first.begins, machine_follow _ _ _, ?_⟩
      intro failure final same
      cases moved : task.move limits procedures callers.length machine with
      | error other reached =>
          rw [moved] at same
          cases same
          exact moved
      | ok move reached =>
          rw [moved] at same
          cases move with
          | goOn tasks => cases same
          | enter tasks => cases same
          | leave => cases callers <;> cases same

/-- What executions keep, a course keeps from each of its states to the later
ones. -/
theorem Reaches.keeps (property : RunProperty Admits) (Kept : Machine → Prop)
    (keeps : ∀ execution : Execution Move, property.Holds execution →
      ∀ machine, Kept machine → Kept (finalState (execution machine)))
    (defined : ∀ procedure ∈ procedures, ∀ entry ∈ procedure.commands,
      Admits entry.1 entry.2)
    {before after : State} (reaches : Reaches limits procedures before after)
    (admitted : before.Admitted Admits) (kept : Kept before.machine) :
    after.Admitted Admits ∧ Kept after.machine := by
  induction reaches with
  | refl => exact ⟨admitted, kept⟩
  | tail _ steps ih =>
      obtain ⟨admittedMiddle, keptMiddle⟩ := ih
      refine ⟨steps.admitted defined admittedMiddle, ?_⟩
      obtain ⟨execution, holds, same, _⟩ :=
        steps.execution property admittedMiddle
      rw [same]
      exact keeps execution holds _ keptMiddle

theorem admitted_start {nodes : List Node}
    (admitted : ∀ entry ∈ Node.commandsList nodes, Admits entry.1 entry.2)
    (machine : Machine) :
    (start nodes machine).Admitted Admits := by
  intro waiting member
  rw [List.mem_singleton.mp member]
  exact Task.admitted_nodes admitted

end State

end Admitted

/-! ### Counting -/

/-- The number of rounds that remain for a counter, were its step one. -/
def Range.remaining (range : Range) (value : Int) : Nat :=
  if 0 < range.step then (range.stop + 1 - value).toNat
    else (value + 1 - range.stop).toNat

theorem Range.remaining_pos {range : Range} {value : Int}
    (covered : range.covers value = true) :
    0 < range.remaining value := by
  simp only [covers, Bool.or_eq_true, Bool.and_eq_true, decide_eq_true_eq]
      at covered
  unfold remaining
  split <;> omega

theorem Range.remaining_next {range : Range} {value : Int}
    (covered : range.covers value = true) :
    range.remaining (value + range.step) < range.remaining value := by
  simp only [covers, Bool.or_eq_true, Bool.and_eq_true, decide_eq_true_eq]
      at covered
  unfold remaining
  split <;> omega

theorem Range.remaining_start (range : Range) :
    range.remaining range.start ≤ (range.stop - range.start).natAbs + 1 := by
  unfold remaining
  split <;> omega

/-- A counter that would leave the machine integers has passed the end of its
range. -/
theorem Range.not_covers_of_overflow {range : Range} {stop value : Int64}
    (bounded : range.stop = stop.toInt)
    (covered : range.covers value.toInt = true)
    (overflow : int64? (value.toInt + range.step) = none) :
    range.covers (value.toInt + range.step) = false := by
  have stopAbove := Int64.minValue_le_toInt stop
  have stopBelow := Int64.toInt_le stop
  have valueAbove := Int64.minValue_le_toInt value
  have valueBelow := Int64.toInt_le value
  have outside : ¬(Int64.minValue.toInt ≤ value.toInt + range.step ∧
      value.toInt + range.step ≤ Int64.maxValue.toInt) := by
    intro inside
    rw [int64?, if_pos inside] at overflow
    cases overflow
  simp only [covers, Bool.or_eq_true, Bool.and_eq_true, decide_eq_true_eq]
      at covered
  simp only [covers, Bool.or_eq_false_iff, Bool.and_eq_false_iff,
    decide_eq_false_iff_not]
  omega

theorem forLoop_of_not_covers {range : Range} {round : Int → Execution Flow}
    {rounds : Nat} {value : Int} (passed : range.covers value = false) :
    forLoop range round rounds value = pure .next := by
  cases rounds with
  | zero => rfl
  | succ rounds => rw [forLoop, passed, if_neg Bool.false_ne_true]

/-! ### Active calls -/

/-- The number of calls that are active. -/
def State.activeCalls : State → Nat
  | .running _ callers _ => callers.length
  | .ended _ => 0

section Active

variable {limits : Limits} {procedures : List Procedure}

open State (Steps Reaches leave)

/-- A step makes one call more active, if the limit allows it, or at most one
less. -/
theorem State.Steps.activeCalls_le {before after : State}
    (steps : Steps limits procedures before after)
    (bounded : before.activeCalls ≤ limits.depth) :
    after.activeCalls ≤ limits.depth := by
  have left {callers : List (List Task)} (fewer : callers.length ≤ limits.depth)
      (machine : Machine) :
      (leave callers machine).activeCalls ≤ limits.depth := by
    cases callers with
    | nil => exact Nat.zero_le _
    | cons tasks callers => exact Nat.le_of_succ_le fewer
  match before with
  | .ended _ => cases steps
  | .running [] callers machine =>
      cases steps
      exact left bounded machine
  | .running (task :: rest) callers machine =>
      cases steps
      cases moved : task.move limits procedures callers.length machine with
      | error failure final => exact Nat.zero_le _
      | ok move final =>
          cases move with
          | goOn tasks => exact bounded
          | leave => exact left bounded final
          | enter tasks =>
              cases allows_of_move moved with
              | enter member room => exact room

theorem State.Reaches.activeCalls_le {before after : State}
    (reaches : Reaches limits procedures before after)
    (bounded : before.activeCalls ≤ limits.depth) :
    after.activeCalls ≤ limits.depth := by
  induction reaches with
  | refl => exact bounded
  | tail _ steps ih => exact steps.activeCalls_le ih

end Active

/-! ### The end of the course -/

section Simulation

variable {limits : Limits} {procedures : List Procedure}
    {callers : List (List Task)}

/-- Where a run stands after some of its tasks, given how they ended. -/
def State.resume (rest : List Task) (callers : List (List Task)) :
    EStateM.Result Failure Machine Flow → State
  | .ok .next machine => .running rest callers machine
  | .ok .ret machine => leave callers machine
  | .error failure machine => .ended (.error failure machine)

open State (Reaches resume follow leave)

/-- Tasks that do what an execution does, whatever is to be done after them. -/
def Realizes (limits : Limits) (procedures : List Procedure)
    (callers : List (List Task)) (tasks : List Task)
    (execution : Execution Flow) : Prop :=
  ∀ rest machine,
    Reaches limits procedures (.running (tasks ++ rest) callers machine)
    (resume rest callers (execution machine))

/-- A move that begins what an execution does. -/
def MoveRealizes (limits : Limits) (procedures : List Procedure)
    (callers : List (List Task)) (move : Execution Move)
    (execution : Execution Flow) : Prop :=
  ∀ rest machine, Reaches limits procedures (follow rest callers (move machine))
    (resume rest callers (execution machine))

theorem realizes_of_move {task : Task} {execution : Execution Flow}
    (realizes : MoveRealizes limits procedures callers
      (task.move limits procedures callers.length) execution) :
    Realizes limits procedures callers [task] execution :=
  fun rest machine => .head rfl (realizes rest machine)

theorem Realizes.none : Realizes limits procedures callers [] (pure .next) :=
  fun _ _ => .refl

/-- Tasks one after the other realize one execution after the other. -/
theorem Realizes.append {tasks more : List Task} {first second : Execution Flow}
    (firstRealizes : Realizes limits procedures callers tasks first)
    (secondRealizes : Realizes limits procedures callers more second) :
    Realizes limits procedures callers (tasks ++ more) (do
      match ← first with
      | .next => second
      | .ret => return .ret) := by
  intro rest machine
  have reached := firstRealizes (more ++ rest) machine
  rw [List.append_assoc]
  cases outcome : first machine with
  | error failure middle =>
      rw [outcome] at reached
      rw [bind_of_error outcome]
      exact reached
  | ok flow middle =>
      rw [outcome] at reached
      rw [bind_of_ok outcome]
      cases flow with
      | next => exact reached.trans (secondRealizes rest middle)
      | ret => exact reached

/-- A move that goes on with tasks realizes what the tasks do. -/
theorem Realizes.goOn {tasks : List Task} {execution : Execution Flow}
    (realizes : Realizes limits procedures callers tasks execution) :
    MoveRealizes limits procedures callers (pure (.goOn tasks)) execution :=
  fun rest machine => realizes rest machine

theorem moveRealizes_throw (failure : Failure) :
    MoveRealizes limits procedures callers (throw failure) (throw failure) :=
  fun _ _ => .refl

theorem MoveRealizes.sequence {α : Type} {action : Execution α}
    {move : α → Execution Move} {execution : α → Execution Flow}
    (realizes : ∀ answer before after, action before = .ok answer after →
      MoveRealizes limits procedures callers (move answer) (execution answer)) :
    MoveRealizes limits procedures callers (action >>= move)
      (action >>= execution) := by
  intro rest machine
  cases outcome : action machine with
  | error failure middle =>
      rw [bind_of_error outcome, bind_of_error outcome]
      exact .refl
  | ok answer middle =>
      rw [bind_of_ok outcome, bind_of_ok outcome]
      exact realizes answer machine middle outcome rest middle

/-! #### Loops -/

theorem realizes_repeating {guard : Value} {line : Nat} {body : List Node}
    {bodyExecution : Execution Flow}
    (realizesBody :
      Realizes limits procedures callers (body.map .node) bodyExecution)
    {rounds remaining : Nat} (total : rounds + remaining = limits.iterations) :
    Realizes limits procedures callers [.repeating guard line body rounds]
      (whileLoop (reading (.whileTrue guard) line guard.readBool) bodyExecution
        (Fault.at (.run (.tooManyIterations limits.iterations)) line
          (Command.whileTrue guard).describe) remaining) := by
  induction remaining generalizing rounds with
  | zero =>
      refine realizes_of_move (MoveRealizes.sequence fun holds _ _ _ => ?_)
      cases holds with
      | false => exact Realizes.none.goOn
      | true =>
          rw [if_pos rfl, if_pos rfl, if_neg (by omega)]
          exact moveRealizes_throw _
  | succ remaining ih =>
      refine realizes_of_move (MoveRealizes.sequence fun holds _ _ _ => ?_)
      cases holds with
      | false => exact Realizes.none.goOn
      | true =>
          rw [if_pos rfl, if_pos rfl, if_pos (by omega)]
          have later := @ih (rounds + 1) (by omega)
          exact (realizesBody.append later).goOn

/-- A loop that counts ends by passing its range, before the rounds allowed to
it are used up. -/
theorem realizes_counting {counter : String} {body : List Node}
    {bodyExecution : Execution Flow}
    (realizesBody :
      Realizes limits procedures callers (body.map .node) bodyExecution)
    {range : Range} {stop : Int64} (bounded : range.stop = stop.toInt)
    {value : Int64} {rounds : Nat}
    (enough : range.remaining value.toInt ≤ rounds) :
    Realizes limits procedures callers
      [.counting counter range body value.toInt]
      (forLoop range (fun value => do setCounter counter value; bodyExecution)
        rounds value.toInt) := by
  have passed {word : Int64} {rounds : Nat}
      (outside : range.covers word.toInt = false) :
      Realizes limits procedures callers
        [.counting counter range body word.toInt]
        (forLoop range (fun value => do setCounter counter value; bodyExecution)
          rounds word.toInt) := by
    apply realizes_of_move
    rw [Task.move, forLoop_of_not_covers outside, outside]
    exact Realizes.none.goOn
  induction rounds generalizing value with
  | zero =>
      cases covered : range.covers value.toInt with
      | false => exact passed covered
      | true =>
          have positive := Range.remaining_pos covered
          omega
  | succ rounds ih =>
      cases covered : range.covers value.toInt with
      | false => exact passed covered
      | true =>
          have fewer := Range.remaining_next covered
          have later : Realizes limits procedures callers
              (nextRound counter range body value.toInt)
              (forLoop range
                (fun value => do setCounter counter value; bodyExecution) rounds
                (value.toInt + range.step)) := by
            unfold nextRound
            cases fits : int64? (value.toInt + range.step) with
            | none =>
                have outside :=
                  Range.not_covers_of_overflow bounded covered fits
                rw [forLoop_of_not_covers outside]
                exact Realizes.none
            | some next =>
                rw [← int64?_eq_some_iff.mp fits]
                rw [← int64?_eq_some_iff.mp fits] at fewer
                exact ih (by omega)
          apply realizes_of_move
          rw [Task.move, forLoop, if_pos covered, if_pos covered, bind_assoc]
          exact MoveRealizes.sequence fun _ _ _ _ =>
            (realizesBody.append later).goOn

/-! #### Nodes -/

/-- Calls are realized by entering the procedure. -/
def CallsRealized (limits : Limits) (procedures : List Procedure)
    (callers : List (List Task)) (call : String → Nat → Execution Unit) :
    Prop :=
  ∀ name line, MoveRealizes limits procedures callers
    (leafMove limits procedures callers.length (.call name) line)
    (do call name line; return .next)

variable {call : String → Nat → Execution Unit}

theorem moveRealizes_leaf (calls : CallsRealized limits procedures callers call)
    (command : Command) (line : Nat) :
    MoveRealizes limits procedures callers
      (leafMove limits procedures callers.length command line)
      (runLeaf call command line) := by
  unfold runLeaf
  split
  · exact fun _ _ => .refl
  · exact calls _ line
  · next notReturn notCall =>
      have form : leafMove limits procedures callers.length command line =
          performing command line >>= fun _ => pure (.goOn []) := by
        unfold leafMove
        split
        · exact absurd rfl notReturn
        · exact absurd rfl (notCall _)
        · rfl
      rw [form]
      intro rest machine
      cases outcome : performing command line machine with
      | error failure middle =>
          rw [bind_of_error outcome]
          exact .refl
      | ok flow middle =>
          obtain ⟨_, _, _, rfl, _⟩ := performing_eq_ok_iff.mp outcome
          rw [bind_of_ok outcome]
          exact .refl

theorem reading_eq_ok {α : Type} {command : Command} {line : Nat}
    {action : Value.Reading α} {machine final : Machine} {answer : α}
    (outcome : reading command line action machine = .ok answer final) :
    ∃ store, action machine.store = .ok answer store := by
  unfold reading at outcome
  split at outcome
  · next read =>
      cases outcome
      exact ⟨_, read⟩
  · cases outcome

mutual

theorem realizes_node (calls : CallsRealized limits procedures callers call)
    (node : Node) :
    Realizes limits procedures callers [.node node]
      (runNode limits call node) := by
  cases node with
  | leaf command line =>
      unfold runNode
      exact realizes_of_move (moveRealizes_leaf calls command line)
  | block header line body =>
      have realizesBody := realizes_nodes calls body
      unfold runNode
      split
      · refine realizes_of_move (MoveRealizes.sequence fun holds _ _ _ => ?_)
        cases holds with
        | false => exact Realizes.none.goOn
        | true => exact realizesBody.goOn
      · exact realizes_of_move
          (realizes_repeating realizesBody (Nat.zero_add _)).goOn
      · refine realizes_of_move
          (MoveRealizes.sequence fun range _ _ outcome => ?_)
        obtain ⟨_, read⟩ := reading_eq_ok outcome
        obtain ⟨first, last, _, _, _, _, startsAt, stopsAt, _⟩ :=
          readRange_eq_ok read
        have enough := range.remaining_start
        dsimp only
        rw [startsAt] at enough ⊢
        exact (realizes_counting realizesBody stopsAt enough).goOn
      · exact realizes_of_move Realizes.none.goOn
      · next notIf notWhile notFor notDefine =>
          have form :
              (Task.node (.block header line body)).move limits procedures
                callers.length =
              leafMove limits procedures callers.length header line := by
            rw [Task.move] <;> assumption
          apply realizes_of_move
          rw [form]
          exact moveRealizes_leaf calls header line

theorem realizes_nodes (calls : CallsRealized limits procedures callers call)
    (nodes : List Node) :
    Realizes limits procedures callers (nodes.map .node)
      (runNodes limits call nodes) := by
  cases nodes with
  | nil =>
      unfold runNodes
      exact Realizes.none
  | cons node rest =>
      unfold runNodes
      exact (realizes_node calls node).append (realizes_nodes calls rest)

end

/-- With as many callers as the limit of depth leaves room for, a call is
realized.  The procedure ends at its end or by a return. -/
theorem callsRealized {remaining : Nat}
    (total : callers.length + remaining = limits.depth) :
    CallsRealized limits procedures callers
      (callProcedure limits procedures remaining) := by
  induction remaining generalizing callers with
  | zero =>
      intro name line
      rw [leafMove, callProcedure]
      cases Procedure.find? name procedures with
      | none => exact fun _ _ => .refl
      | some procedure =>
          dsimp only
          rw [if_neg (by omega)]
          exact fun _ _ => .refl
  | succ remaining ih =>
      intro name line rest machine
      rw [leafMove, callProcedure]
      cases Procedure.find? name procedures with
      | none => exact .refl
      | some procedure =>
          dsimp only
          rw [if_pos (by omega), bind_assoc]
          have inside : CallsRealized limits procedures (rest :: callers)
              (callProcedure limits procedures remaining) :=
            ih (by rw [List.length_cons]; omega)
          have reached := realizes_nodes inside procedure.body [] machine
          rw [List.append_nil] at reached
          refine reached.trans ?_
          cases outcome :
            runNodes limits (callProcedure limits procedures remaining)
              procedure.body machine with
          | error failure middle =>
              rw [bind_of_error outcome]
              exact .refl
          | ok flow middle =>
              rw [bind_of_ok outcome]
              cases flow with
              | next => exact .single rfl
              | ret => exact .refl

/-- The course that starts with nodes ends with the outcome of their run. -/
theorem reaches_run (limits : Limits) (procedures : List Procedure)
    (nodes : List Node) (machine : Machine) :
    Reaches limits procedures (.start nodes machine)
      (.ended (run limits procedures nodes machine)) := by
  have calls : CallsRealized limits procedures []
      (callProcedure limits procedures limits.depth) :=
        callsRealized (Nat.zero_add _)
  have reached := realizes_nodes calls nodes [] machine
  rw [List.append_nil] at reached
  refine reached.trans ?_
  unfold run
  cases outcome :
      runNodes limits (callProcedure limits procedures limits.depth)
        nodes machine with
  | error failure middle =>
      rw [bind_of_error outcome]
      exact .refl
  | ok flow middle =>
      rw [bind_of_ok outcome]
      cases flow with
      | next => exact .single rfl
      | ret => exact .refl

end Simulation

end PenScript.Execution
