import PenScript.Execution
import PenScript.Proofs.Effect

/-!
# Composing runs

A run is composed of a few primitive executions: performing a command, reading a
guard or the bounds of a loop, and setting a counter.  A relation between
executions that holds of these and is kept by composition holds between whole
runs, and so does a property of executions.  The induction over the program is
done here once.
-/

namespace PenScript

open Stateful

mutual

/-- The commands in a node with their lines, a block's header before its
body. -/
def Node.commands : Node → List (Command × Nat)
  | .leaf command line => [(command, line)]
  | .block header line body => (header, line) :: Node.commandsList body

/-- List counterpart of `Node.commands`. -/
def Node.commandsList : List Node → List (Command × Nat)
  | [] => []
  | node :: rest => node.commands ++ Node.commandsList rest

end

theorem Node.mem_commandsList {nodes : List Node} {entry : Command × Nat} :
    entry ∈ Node.commandsList nodes ↔ ∃ node ∈ nodes,
    entry ∈ node.commands := by
  induction nodes with
  | nil => simp [commandsList]
  | cons node rest ih => simp [commandsList, ih]

/-- Whether a block with this header may carry out its body. -/
def Command.runsBody : Command → Bool
  | .ifTrue _ => true
  | .whileTrue _ => true
  | .forRange _ _ _ _ => true
  | _ => false

mutual

/-- The commands in a node that a run may come to. -/
def Node.liveCommands : Node → List (Command × Nat)
  | .leaf command line => [(command, line)]
  | .block header line body =>
      (header, line) ::
        if header.runsBody then Node.liveCommandsList body else []

/-- List counterpart of `Node.liveCommands`. -/
def Node.liveCommandsList : List Node → List (Command × Nat)
  | [] => []
  | node :: rest => node.liveCommands ++ Node.liveCommandsList rest

end

mutual

theorem Node.liveCommands_subset (node : Node) :
    node.liveCommands ⊆ node.commands := by
  cases node with
  | leaf command line => exact List.Subset.refl _
  | block header line body =>
      rw [liveCommands, commands]
      split
      · exact List.cons_subset_cons _ (Node.liveCommandsList_subset body)
      · exact List.cons_subset_cons _ (List.nil_subset _)

theorem Node.liveCommandsList_subset (nodes : List Node) :
    liveCommandsList nodes ⊆ commandsList nodes := by
  cases nodes with
  | nil => exact List.Subset.refl _
  | cons node rest =>
      rw [liveCommandsList, commandsList]
      exact List.append_subset.mpr
        ⟨List.subset_append_of_subset_left _ (Node.liveCommands_subset node),
          List.subset_append_of_subset_right _
            (Node.liveCommandsList_subset rest)⟩

end

/-- The commands in a procedure, its definition first. -/
def Procedure.commands (procedure : Procedure) : List (Command × Nat) :=
  (.define procedure.name, procedure.line) :: Node.commandsList procedure.body

/-- The commands in a program: those in the tree, and those in the
procedures. -/
def Program.commands (program : Program) : List (Command × Nat) :=
  Node.commandsList program.items ++ program.procedures.flatMap
    Procedure.commands

theorem Program.forall_mem_commands {program : Program}
    {Holds : Command × Nat → Prop} :
    (∀ entry ∈ program.commands, Holds entry) ↔
      (∀ entry ∈ Node.commandsList program.items, Holds entry) ∧
        ∀ procedure ∈ program.procedures, ∀ entry ∈ procedure.commands,
          Holds entry := by
  rw [commands, List.forall_mem_append, List.forall_mem_flatMap]

namespace Execution

/-! ### Calls -/

/-- The failure of a call, for a reason that is not in the procedure itself. -/
def refusedCall (fault : RunFault) (name : String) (line : Nat) :
    Execution Unit :=
  throw (Fault.at (.run fault) line (Command.call name).describe)

section Calls

variable (limits : Limits) {procedures : List Procedure} {name : String}
    (line : Nat)

theorem callProcedure_of_undefined
    (missing : Procedure.find? name procedures = none) (remaining : Nat) :
    callProcedure limits procedures remaining name line =
      refusedCall (.undefinedProcedure name) name line := by
  cases remaining <;> rw [callProcedure, missing] <;> rfl

variable {procedure : Procedure}
    (found : Procedure.find? name procedures = some procedure)

include found

theorem callProcedure_zero :
    callProcedure limits procedures 0 name line =
      refusedCall (.tooDeep limits.depth name) name line := by
  rw [callProcedure, found]
  rfl

theorem callProcedure_succ (remaining : Nat) :
    callProcedure limits procedures (remaining + 1) name line = (do
      let _ ← runNodes limits (callProcedure limits procedures remaining)
          procedure.body) := by
  rw [callProcedure, found]

end Calls

/-! ### Relations -/

/-- A relation between the executions of one program under two limits.  The
commands of the program are among those admitted. -/
structure RunRelation (Admits : Command → Nat → Prop)
    (limits limits' : Limits) where
  Rel : {α : Type} → Execution α → Execution α → Prop
  returning : ∀ {α : Type} (answer : α), Rel (pure answer) (pure answer)
  sequence :
    ∀ {α β : Type} {first first' : Execution α} {next next' : α → Execution β},
    Rel first first' → (∀ answer, Rel (next answer) (next' answer)) →
      Rel (first >>= next) (first' >>= next')
  performing : ∀ {command : Command} {line : Nat}, Admits command line →
    Rel (performing command line) (performing command line)
  guarding : ∀ {header : Command} {line : Nat} {guard : Value},
    Admits header line →
    header.values = [guard] →
      Rel (reading header line guard.readBool)
        (reading header line guard.readBool)
  bounding : ∀ {counter : String} {start stop : Value} {step : Option Value}
    {line : Nat}, Admits (.forRange counter start stop step) line →
      Rel
        (reading (.forRange counter start stop step) line
          (readRange start stop step))
        (reading (.forRange counter start stop step) line
          (readRange start stop step))
  counting :
    ∀ {counter : String} {start stop : Value} {step : Option Value} {line : Nat}
    (value : Int), Admits (.forRange counter start stop step) line →
      Rel (setCounter counter value) (setCounter counter value)
  repeating : ∀ {guard : Value} {line : Nat} {check check' : Execution Bool}
    {body body' : Execution Flow}, Admits (.whileTrue guard) line →
      Rel check check' → Rel body body' →
        Rel
          (whileLoop check body
            (Fault.at (.run (.tooManyIterations limits.iterations)) line
              (Command.whileTrue guard).describe) limits.iterations)
          (whileLoop check' body'
            (Fault.at (.run (.tooManyIterations limits'.iterations)) line
              (Command.whileTrue guard).describe) limits'.iterations)

namespace RunRelation

variable {Admits : Command → Nat → Prop} {limits limits' : Limits}
  (relation : RunRelation Admits limits limits')

theorem forLoop (range : Range) {round round' : Int → Execution Flow}
    (related : ∀ value, relation.Rel (round value) (round' value))
    (rounds : Nat) (counter : Int) :
    relation.Rel (forLoop range round rounds counter)
      (forLoop range round' rounds counter) := by
  induction rounds generalizing counter with
  | zero => exact relation.returning Flow.next
  | succ rounds ih =>
      unfold Execution.forLoop
      split
      · refine relation.sequence (related counter) fun flow => ?_
        cases flow with
        | next => exact ih (counter + range.step)
        | ret => exact relation.returning Flow.ret
      · exact relation.returning Flow.next

/-- Calls of admitted commands are related. -/
def Calls (call call' : String → Nat → Execution Unit) : Prop :=
  ∀ (name : String) (line : Nat), Admits (.call name) line →
    relation.Rel (call name line) (call' name line)

variable {call call' : String → Nat → Execution Unit}

theorem runLeaf (calls : relation.Calls call call') {command : Command}
    {line : Nat} (admitted : Admits command line) :
    relation.Rel (runLeaf call command line) (runLeaf call' command line) := by
  unfold Execution.runLeaf
  split
  · exact relation.returning Flow.ret
  · exact relation.sequence (calls _ line admitted) fun _ =>
      relation.returning Flow.next
  · exact relation.performing admitted

/-- Blocks with one header are related if their bodies are, or are never carried
out. -/
theorem runBlock (calls : relation.Calls call call') {header : Command}
    {line : Nat} (admitted : Admits header line) {body body' : List Node}
    (related : header.runsBody = true →
      relation.Rel (runNodes limits call body) (runNodes limits' call' body')) :
    relation.Rel (runNode limits call (.block header line body))
      (runNode limits' call' (.block header line body')) := by
  unfold Execution.runNode
  split
  · refine relation.sequence (relation.guarding admitted rfl) fun holds => ?_
    split
    · exact related rfl
    · exact relation.returning Flow.next
  · exact relation.repeating admitted (relation.guarding admitted rfl)
      (related rfl)
  · refine relation.sequence (relation.bounding admitted) fun range => ?_
    refine relation.forLoop range (fun value => ?_) _ _
    exact relation.sequence (relation.counting value admitted) fun _ =>
      related rfl
  · exact relation.returning Flow.next
  · exact relation.runLeaf calls admitted

mutual

theorem runNode (calls : relation.Calls call call') (node : Node)
    (admitted : ∀ entry ∈ node.liveCommands, Admits entry.1 entry.2) :
    relation.Rel (runNode limits call node) (runNode limits' call' node) := by
  cases node with
  | leaf command line =>
      unfold Execution.runNode
      exact relation.runLeaf calls
        (admitted (command, line) (by simp [Node.liveCommands]))
  | block header line body =>
      refine relation.runBlock calls
        (admitted (header, line) (by simp [Node.liveCommands])) ?_
      intro runs
      exact runNodes calls body fun entry member =>
        admitted entry (by simp [Node.liveCommands, runs, member])

theorem runNodes (calls : relation.Calls call call') (nodes : List Node)
    (admitted : ∀ entry ∈ Node.liveCommandsList nodes, Admits entry.1 entry.2) :
    relation.Rel (runNodes limits call nodes)
      (runNodes limits' call' nodes) := by
  cases nodes with
  | nil =>
      unfold Execution.runNodes
      exact relation.returning Flow.next
  | cons node rest =>
      unfold Execution.runNodes
      have first := runNode calls node fun entry member =>
        admitted entry (by simp [Node.liveCommandsList, member])
      refine relation.sequence first fun flow => ?_
      cases flow with
      | next =>
          exact runNodes calls rest fun entry member =>
            admitted entry (by simp [Node.liveCommandsList, member])
      | ret => exact relation.returning Flow.ret

end

/-- Calls are related if one of an undefined procedure is related to itself, and
one that is cut off for its depth to any other. -/
theorem callProcedure {procedures : List Procedure}
    (defined : ∀ procedure ∈ procedures, ∀ entry ∈ procedure.commands,
      Admits entry.1 entry.2)
    (undefined : ∀ (name : String) (line : Nat), Admits (.call name) line →
      relation.Rel (refusedCall (.undefinedProcedure name) name line)
        (refusedCall (.undefinedProcedure name) name line))
    (tooDeep : ∀ (name : String) (line remaining : Nat),
      Admits (.call name) line →
      relation.Rel (refusedCall (.tooDeep limits.depth name) name line)
        (callProcedure limits' procedures remaining name line))
    {remaining remaining' : Nat} (le : remaining ≤ remaining') :
    relation.Calls (callProcedure limits procedures remaining)
      (callProcedure limits' procedures remaining') := by
  have undefinedCall (remaining remaining' : Nat) {name : String} {line : Nat}
      (missing : Procedure.find? name procedures = none)
      (admitted : Admits (.call name) line) :
      relation.Rel
        (Execution.callProcedure limits procedures remaining name line)
        (Execution.callProcedure limits' procedures remaining' name line) := by
    rw [callProcedure_of_undefined limits line missing,
      callProcedure_of_undefined limits' line missing]
    exact undefined name line admitted
  induction remaining generalizing remaining' with
  | zero =>
      intro name line admitted
      cases found : Procedure.find? name procedures with
      | none => exact undefinedCall 0 remaining' found admitted
      | some procedure =>
          rw [callProcedure_zero limits line found]
          exact tooDeep name line remaining' admitted
  | succ remaining ih =>
      cases remaining' with
      | zero => exact absurd le (Nat.not_succ_le_zero remaining)
      | succ remaining' =>
          intro name line admitted
          cases found : Procedure.find? name procedures with
          | none =>
              exact undefinedCall (remaining + 1)
                (remaining' + 1) found admitted
          | some procedure =>
              have member : procedure ∈ procedures :=
                List.mem_of_find?_eq_some found
              have bodies :=
                relation.runNodes (ih (Nat.le_of_succ_le_succ le))
                  procedure.body
                fun entry inside => defined procedure member entry
                  (List.mem_cons_of_mem _
                    (Node.liveCommandsList_subset _ inside))
              rw [callProcedure_succ limits line found,
                callProcedure_succ limits' line found]
              exact relation.sequence bodies fun _ => relation.returning ()

end RunRelation

/-- A property of executions that is kept by composition.  The commands of the
program are among those admitted. -/
structure RunProperty (Admits : Command → Nat → Prop) where
  Holds : {α : Type} → Execution α → Prop
  returning : ∀ {α : Type} (answer : α), Holds (pure answer)
  sequence : ∀ {α β : Type} {first : Execution α} {next : α → Execution β},
    Holds first → (∀ answer, Holds (next answer)) → Holds (first >>= next)
  stopping : ∀ {α : Type} (fault : RunFault) {command : Command} {line : Nat},
    Admits command line →
      Holds (throw (Fault.at (.run fault) line command.describe) : Execution α)
  performing : ∀ {command : Command} {line : Nat}, Admits command line →
    Holds (performing command line)
  guarding : ∀ {header : Command} {line : Nat} {guard : Value},
    Admits header line →
    header.values = [guard] → Holds (reading header line guard.readBool)
  bounding : ∀ {counter : String} {start stop : Value} {step : Option Value}
    {line : Nat}, Admits (.forRange counter start stop step) line →
      Holds
        (reading (.forRange counter start stop step) line
          (readRange start stop step))
  counting :
    ∀ {counter : String} {start stop : Value} {step : Option Value} {line : Nat}
    (value : Int), Admits (.forRange counter start stop step) line →
      Holds (setCounter counter value)

namespace RunProperty

variable {Admits : Command → Nat → Prop} (property : RunProperty Admits)

theorem whileLoop {check : Execution Bool} {body : Execution Flow}
    {overrun : Failure} (holdsCheck : property.Holds check)
    (holdsBody : property.Holds body)
    (holdsOverrun : property.Holds (throw overrun : Execution Flow))
    (remaining : Nat) :
    property.Holds (whileLoop check body overrun remaining) := by
  induction remaining with
  | zero =>
      refine property.sequence holdsCheck fun holds => ?_
      split
      · exact holdsOverrun
      · exact property.returning Flow.next
  | succ remaining ih =>
      refine property.sequence holdsCheck fun holds => ?_
      split
      · refine property.sequence holdsBody fun flow => ?_
        cases flow with
        | next => exact ih
        | ret => exact property.returning Flow.ret
      · exact property.returning Flow.next

/-- A property of executions as a relation: the two are equal, and have the
property. -/
def toRelation (limits : Limits) : RunRelation Admits limits limits where
  Rel first second := first = second ∧ property.Holds first
  returning answer := ⟨rfl, property.returning answer⟩
  sequence := by
    rintro α β first _ next next' ⟨rfl, holdsFirst⟩ related
    cases funext fun answer => (related answer).1
    exact ⟨rfl, property.sequence holdsFirst fun answer => (related answer).2⟩
  performing admitted := ⟨rfl, property.performing admitted⟩
  guarding admitted reads := ⟨rfl, property.guarding admitted reads⟩
  bounding admitted := ⟨rfl, property.bounding admitted⟩
  counting value admitted := ⟨rfl, property.counting value admitted⟩
  repeating := by
    rintro guard line check _ body _ admitted ⟨rfl, holdsCheck⟩ ⟨rfl, holdsBody⟩
    exact ⟨rfl,
      property.whileLoop holdsCheck holdsBody (property.stopping _ admitted) _⟩

variable {procedures : List Procedure}

section Closed

/-- What a call leads to is admitted if the call is. -/
def Closed (Admits : Command → Nat → Prop) (procedures : List Procedure) :
    Prop :=
  ∀ {name : String} {line : Nat} {procedure : Procedure},
    Admits (.call name) line →
    Procedure.find? name procedures = some procedure →
      ∀ entry ∈ Node.liveCommandsList procedure.body, Admits entry.1 entry.2

variable (closed : Closed Admits procedures)

include closed

theorem callProcedure_of_closed (limits : Limits) (remaining : Nat)
    {name : String} {line : Nat} (admitted : Admits (.call name) line) :
    property.Holds (callProcedure limits procedures remaining name line) := by
  induction remaining generalizing name line with
  | zero =>
      cases found : Procedure.find? name procedures with
      | none =>
          rw [callProcedure_of_undefined limits line found]
          exact property.stopping _ admitted
      | some procedure =>
          rw [callProcedure_zero limits line found]
          exact property.stopping _ admitted
  | succ remaining ih =>
      cases found : Procedure.find? name procedures with
      | none =>
          rw [callProcedure_of_undefined limits line found]
          exact property.stopping _ admitted
      | some procedure =>
          have related := (property.toRelation limits).runNodes
            (fun _ _ admitted => ⟨rfl, ih admitted⟩) procedure.body
              (closed admitted found)
          rw [callProcedure_succ limits line found]
          exact property.sequence related.2 fun _ => property.returning ()

theorem runNodes_of_closed (limits : Limits) (remaining : Nat)
    {nodes : List Node}
    (admitted : ∀ entry ∈ Node.liveCommandsList nodes, Admits entry.1 entry.2) :
    property.Holds
      (Execution.runNodes limits (callProcedure limits procedures remaining)
        nodes) := by
  have related := (property.toRelation limits).runNodes
    (fun _ _ admitted =>
      ⟨rfl, property.callProcedure_of_closed closed limits remaining admitted⟩)
    nodes admitted
  exact related.2

/-- A property that is kept by composition holds of every run. -/
theorem run_of_closed (limits : Limits) {nodes : List Node}
    (admitted : ∀ entry ∈ Node.liveCommandsList nodes, Admits entry.1 entry.2) :
    property.Holds (run limits procedures nodes) :=
  property.sequence
    (property.runNodes_of_closed closed limits limits.depth admitted) fun _ =>
    property.returning ()

end Closed

variable (defined : ∀ procedure ∈ procedures, ∀ entry ∈ procedure.commands,
  Admits entry.1 entry.2)

include defined

theorem closed_of_defined : Closed Admits procedures := by
  intro name line procedure _ found entry inside
  exact defined procedure (List.mem_of_find?_eq_some found) entry
    (List.mem_cons_of_mem _ (Node.liveCommandsList_subset _ inside))

theorem callProcedure (limits : Limits) (remaining : Nat) {name : String}
    {line : Nat} (admitted : Admits (.call name) line) :
    property.Holds (callProcedure limits procedures remaining name line) :=
  property.callProcedure_of_closed (closed_of_defined defined) limits
    remaining admitted

theorem runNodes (limits : Limits) (remaining : Nat) {nodes : List Node}
    (admitted : ∀ entry ∈ Node.commandsList nodes, Admits entry.1 entry.2) :
    property.Holds
      (runNodes limits (Execution.callProcedure limits procedures remaining)
        nodes) :=
  property.runNodes_of_closed (closed_of_defined defined) limits remaining
    fun entry member =>
    admitted entry (Node.liveCommandsList_subset nodes member)

theorem run (limits : Limits) {nodes : List Node}
    (admitted : ∀ entry ∈ Node.commandsList nodes, Admits entry.1 entry.2) :
    property.Holds (run limits procedures nodes) :=
  property.run_of_closed (closed_of_defined defined) limits fun entry member =>
    admitted entry (Node.liveCommandsList_subset nodes member)

end RunProperty

/-! ### Stores -/

/-- Reading on behalf of a command changes nothing where the store holds
literals. -/
theorem finalState_reading {α : Type} (command : Command) (line : Nat)
    {action : Value.Reading α} (steady : Steady action) {machine : Machine}
    (literals : machine.store.LiteralOnly) :
    finalState (reading command line action machine) = machine := by
  rw [reading]
  cases outcome : action machine.store with
  | ok answer store => rw [steady.keeps_ok literals outcome, finalState_ok]
  | error fault store =>
      rw [steady.keeps_error literals outcome, finalState_error]

/-- A property of stores of literals that is kept when an admitted command
changes its variable. -/
structure StoreInvariant (Admits : Command → Nat → Prop) where
  Holds : Store → Prop
  literals : ∀ {store : Store}, Holds store → store.LiteralOnly
  setting : ∀ {command : Command} {line : Nat} {name : String} {store : Store}
    (result : Literal), Admits command line → command.target? = some name →
    Holds store →
      Holds (store.set name (.literal result))
  declaring :
    ∀ {command : Command} {line : Nat} {name : String} {store : Store},
    Admits command line → command.target? = some name → Holds store →
      Holds (store.insert name none)

namespace StoreInvariant

variable {Admits : Command → Nat → Prop} (invariant : StoreInvariant Admits)

/-- An execution that keeps the invariant, even if it fails. -/
def Keeps {α : Type} (execution : Execution α) : Prop :=
  ∀ machine, invariant.Holds machine.store →
    invariant.Holds (finalState (execution machine)).store

theorem performing {command : Command} {line : Nat}
    (admitted : Admits command line) :
    invariant.Keeps (performing command line) := by
  intro machine holds
  have same := command.finalState_effect (invariant.literals holds)
  unfold Execution.performing Command.perform
  cases outcome : command.effect machine.store with
  | error fault store =>
      rw [outcome] at same
      cases same
      exact holds
  | ok effect store =>
      rw [outcome] at same
      cases same
      cases Command.yields_of_effect outcome with
      | draw stroke => exact holds
      | assign name result target =>
          exact invariant.setting result admitted target holds
      | declare name target _ => exact invariant.declaring admitted target holds
      | idle => exact holds

theorem reading {α : Type} (command : Command) (line : Nat)
    {action : Value.Reading α} (steady : Steady action) :
    invariant.Keeps (reading command line action) := by
  intro machine holds
  rw [finalState_reading command line steady (invariant.literals holds)]
  exact holds

def keeping : RunProperty Admits where
  Holds execution := invariant.Keeps execution
  returning _ _ holds := holds
  sequence := by
    intro α β first next keepsFirst keepsNext machine holds
    have middleHolds := keepsFirst machine holds
    cases outcome : first machine with
    | error failure middle =>
        simpa [bind_of_error outcome, outcome] using middleHolds
    | ok answer middle =>
        rw [bind_of_ok outcome]
        rw [outcome] at middleHolds
        exact keepsNext answer middle middleHolds
  stopping _ _ _ _ _ holds := holds
  performing admitted := invariant.performing admitted
  guarding _ _ := invariant.reading _ _ (Steady.property.readBool trivial)
  bounding _ :=
    invariant.reading _ _ (Steady.property.readRange fun _ _ => trivial)
  counting _ admitted _ holds := invariant.setting _ admitted rfl holds

end StoreInvariant

end Execution

end PenScript
