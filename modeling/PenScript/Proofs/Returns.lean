import PenScript.Proofs.Run

/-!
# Nodes without a return

A `ret` ends the nodes around it up to the call of the procedure.  Nodes without
one are carried out one after the other to the last of them, however they are
nested and whatever they call.
-/

namespace PenScript

open Stateful

/-- No `ret` stands among the nodes, at any depth. -/
def Node.ReturnFree (nodes : List Node) : Prop :=
  ∀ entry ∈ Node.commandsList nodes, entry.1 ≠ .ret

namespace Node.ReturnFree

variable {node : Node} {rest : List Node}

theorem head (returnFree : ReturnFree (node :: rest)) :
    ∀ entry ∈ node.commands, entry.1 ≠ .ret :=
  fun entry member => returnFree entry (List.mem_append_left _ member)

theorem tail (returnFree : ReturnFree (node :: rest)) : ReturnFree rest :=
  fun entry member => returnFree entry (List.mem_append_right _ member)

end Node.ReturnFree

namespace Execution

/-- An execution behind which the run goes on at the next node. -/
def GoesOn (execution : Execution Flow) : Prop :=
  ∀ machine flow final, execution machine = .ok flow final → flow = .next

namespace GoesOn

theorem returning : GoesOn (pure .next) := by
  intro machine flow final outcome
  cases outcome
  rfl

theorem failing (failure : Failure) : GoesOn (throw failure) := by
  intro machine flow final outcome
  cases outcome

theorem sequence {α : Type} {first : Execution α} {next : α → Execution Flow}
    (goesOn : ∀ answer, GoesOn (next answer)) : GoesOn (first >>= next) := by
  intro machine flow final outcome
  obtain ⟨answer, middle, _, rest⟩ := bind_eq_ok_iff.mp outcome
  exact goesOn answer middle flow final rest

theorem performing (command : Command) (line : Nat) :
    GoesOn (performing command line) := by
  intro machine flow final outcome
  obtain ⟨_, _, _, same, _⟩ := performing_eq_ok_iff.mp outcome
  exact same

/-- What follows on an execution that goes on is always what follows on
`next`. -/
theorem bind_eq {α : Type} {first : Execution Flow} (goesOn : GoesOn first)
    (after : Flow → Execution α) :
    first >>= after = first >>= fun _ => after .next := by
  funext machine
  cases outcome : first machine with
  | error failure middle => rw [bind_of_error outcome, bind_of_error outcome]
  | ok flow middle =>
      rw [bind_of_ok outcome, bind_of_ok outcome,
        goesOn machine flow middle outcome]

theorem whileLoop {check : Execution Bool} {body : Execution Flow}
    (goesOn : GoesOn body) (overrun : Failure) (remaining : Nat) :
    GoesOn (whileLoop check body overrun remaining) := by
  induction remaining with
  | zero =>
      apply sequence
      intro holds
      split
      · exact failing overrun
      · exact returning
  | succ remaining ih =>
      apply sequence
      intro holds
      split
      · rw [goesOn.bind_eq]
        exact sequence fun _ => ih
      · exact returning

theorem forLoop {round : Int → Execution Flow}
    (goesOn : ∀ value, GoesOn (round value)) (range : Range) (rounds : Nat)
    (counter : Int) :
    GoesOn (forLoop range round rounds counter) := by
  induction rounds generalizing counter with
  | zero => exact returning
  | succ rounds ih =>
      unfold Execution.forLoop
      split
      · rw [(goesOn counter).bind_eq]
        exact sequence fun _ => ih (counter + range.step)
      · exact returning

variable {limits : Limits} {call : String → Nat → Execution Unit}

theorem runNodes_cons {node : Node} (goesOn : GoesOn (runNode limits call node))
    (rest : List Node) :
    runNodes limits call (node :: rest) =
      runNode limits call node >>= fun _ => runNodes limits call rest := by
  rw [Execution.runNodes, goesOn.bind_eq]

theorem runLeaf {command : Command} (stays : command ≠ .ret) (line : Nat) :
    GoesOn (runLeaf call command line) := by
  unfold Execution.runLeaf
  split
  · exact absurd rfl stays
  · exact sequence fun _ => returning
  · exact performing command line

variable (limits call)

mutual

theorem runNode (node : Node)
    (stays : ∀ entry ∈ node.commands, entry.1 ≠ .ret) :
    GoesOn (runNode limits call node) := by
  cases node with
  | leaf command line =>
      unfold Execution.runNode
      exact runLeaf (stays (command, line) (by simp [Node.commands])) line
  | block header line body =>
      have inside : GoesOn (Execution.runNodes limits call body) :=
        runNodes body fun entry member =>
          stays entry (List.mem_cons_of_mem _ member)
      unfold Execution.runNode
      split
      · apply sequence
        intro holds
        split
        · exact inside
        · exact returning
      · exact whileLoop inside _ _
      · apply sequence
        intro range
        exact forLoop (fun value => sequence fun _ => inside) range _ _
      · exact returning
      · exact runLeaf (stays (header, line) List.mem_cons_self) line

/-- Nodes without a `ret` never return. -/
theorem runNodes (nodes : List Node) (returnFree : Node.ReturnFree nodes) :
    GoesOn (runNodes limits call nodes) := by
  cases nodes with
  | nil =>
      unfold Execution.runNodes
      exact returning
  | cons node rest =>
      rw [(runNode node returnFree.head).runNodes_cons rest]
      exact sequence fun _ => runNodes rest returnFree.tail

end

end GoesOn

/-- Nodes are carried out in order, each of them to its end. -/
inductive Completes (limits : Limits) (call : String → Nat → Execution Unit) :
    List Node → Machine → Machine → Prop where
  | nil {machine : Machine} : Completes limits call [] machine machine
  | cons {node : Node} {rest : List Node} {machine middle final : Machine}
      (first : runNode limits call node machine = .ok .next middle)
      (later : Completes limits call rest middle final) :
      Completes limits call (node :: rest) machine final

/-- A run over nodes goes on behind them just if it has carried out all of
them. -/
theorem completes_iff {limits : Limits} {call : String → Nat → Execution Unit}
    {nodes : List Node} {machine final : Machine} :
    Completes limits call nodes machine final ↔
      runNodes limits call nodes machine = .ok .next final := by
  induction nodes generalizing machine with
  | nil =>
      rw [runNodes]
      constructor
      · intro completes
        cases completes
        rfl
      · intro outcome
        cases outcome
        exact .nil
  | cons node rest ih =>
      rw [runNodes, bind_eq_ok_iff]
      constructor
      · intro completes
        cases completes with
        | cons first later => exact ⟨.next, _, first, ih.mp later⟩
      · rintro ⟨flow, middle, first, later⟩
        cases flow with
        | next => exact .cons first (ih.mpr later)
        | ret => cases later

end Execution

end PenScript
