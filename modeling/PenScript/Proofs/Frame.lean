import PenScript.Proofs.Run

/-!
# What a run leaves alone

A run changes variables by declarations, assignments and counting loops only.
The commands that it may come to are those in its nodes, those in the procedures
that are called there, and so on; a variable that none of them has as its target
keeps its slot, however the run ends.
-/

namespace PenScript

theorem Store.find?_insert_of_ne {name other : String} (apart : other ≠ name)
    (store : Store) (value : Option Value) :
    (store.insert other value).find? name = store.find? name := by
  rw [find?_insert, if_neg apart.symm]

namespace Execution

open Stateful

/-- The commands that a run of the nodes may come to.  Procedures may call each
other, or themselves, so this is the least set that is closed under calls. -/
inductive MayRun (procedures : List Procedure) (nodes : List Node) :
    Command → Nat → Prop where
  | here {command : Command} {line : Nat}
      (member : (command, line) ∈ Node.liveCommandsList nodes) :
      MayRun procedures nodes command line
  | called {name : String} {callLine : Nat} {procedure : Procedure}
      {command : Command}
      {line : Nat} (call : MayRun procedures nodes (.call name) callLine)
      (found : Procedure.find? name procedures = some procedure)
      (member : (command, line) ∈ Node.liveCommandsList procedure.body) :
      MayRun procedures nodes command line

theorem closed_mayRun (procedures : List Procedure) (nodes : List Node) :
    RunProperty.Closed (MayRun procedures nodes) procedures := by
  intro name line procedure call found entry member
  exact .called call found member

/-- A slot that is not the target of an admitted command stays as it is. -/
def framing {Admits : Command → Nat → Prop} (name : String)
    (slot : Option (Option Value))
    (untouched : ∀ command line, Admits command line →
      command.target? ≠ some name) :
    StoreInvariant Admits where
  Holds store := store.LiteralOnly ∧ store.find? name = slot
  literals holds := holds.1
  setting := by
    intro command line other store result admitted target holds
    have apart : other ≠ name := by
      rintro rfl
      exact untouched command line admitted target
    refine ⟨holds.1.set other result, ?_⟩
    rw [Store.set, Store.find?_insert_of_ne apart, holds.2]
  declaring := by
    intro command line other store admitted target holds
    have apart : other ≠ name := by
      rintro rfl
      exact untouched command line admitted target
    refine ⟨holds.1.insert_none other, ?_⟩
    rw [Store.find?_insert_of_ne apart, holds.2]

/-- A variable that is no target in the nodes, nor in the procedures that can be
called from there, has the same slot after a run as before it. -/
theorem run_keeps_slot (limits : Limits) (procedures : List Procedure)
    (nodes : List Node)
    (machine : Machine) (literals : machine.store.LiteralOnly) (name : String)
    (untouched : ∀ command line, MayRun procedures nodes command line →
      command.target? ≠ some name) :
    (finalState (run limits procedures nodes machine)).store.find? name =
      machine.store.find? name := by
  have keeps :=
    (framing name (machine.store.find? name) untouched).keeping.run_of_closed
    (closed_mayRun procedures nodes) limits fun entry member => .here member
  exact (keeps machine ⟨literals, rfl⟩).2

/-- A procedure that calls itself from a loop is cut off.  By then its own
variable has a new value, but not the one that belongs to a procedure which is
never called. -/
theorem run_keeps_slot_recursion :
    let number (n : Int64) : Value := .literal (.int n)
    let procedures : List Procedure :=
      [⟨"p", 1, [.leaf (.assign "y" (number 3)) 2, .leaf (.call "p") 3]⟩,
        ⟨"q", 5, [.leaf (.assign "x" (number 4)) 6]⟩]
    let nodes : List Node :=
      [.block (.forRange "i" (number 1) (number 2) none) 8
      [.leaf (.call "p") 9]]
    let machine : Machine :=
      ⟨#[], (Store.empty.set "x" (number 7)).insert "y" none⟩
    (machine.store.LiteralOnly ∧
      ∀ command line, MayRun procedures nodes command line →
        command.target? ≠ some "x") ∧
    ∃ failure final,
      run ⟨10, 2⟩ procedures nodes machine = .error failure final ∧
      failure.code = .depthLimit ∧ final.store.find? "y" =
        some (some (number 3)) ∧
      final.store.find? "x" = some (some (number 7)) := by
  intro number procedures nodes machine
  have literals : machine.store.LiteralOnly :=
    (Store.literalOnly_empty.set "x" (.int 7)).insert_none "y"
  let body : List Node :=
    [.leaf (.assign "y" (number 3)) 2, .leaf (.call "p") 3]
  have among {command : Command} {line : Nat}
      (may : MayRun procedures nodes command line) :
      (command, line) ∈ Node.liveCommandsList nodes ++ Node.liveCommandsList
        body := by
    induction may with
    | here member => exact List.mem_append_left _ member
    | @called name callLine _ _ _ _ found member ih =>
        have same : name = "p" := by
          have either :
              name = "p" ∧ callLine = 9 ∨ name = "p" ∧ callLine = 3 := by
            simpa [nodes, body, Node.liveCommandsList, Node.liveCommands,
              Command.runsBody] using ih
          exact either.elim And.left And.left
        subst same
        cases found
        exact List.mem_append_right _ member
  have untouched : ∀ command line, MayRun procedures nodes command line →
      command.target? ≠ some "x" := by
    intro command line may
    have tried : (Node.liveCommandsList nodes ++ Node.liveCommandsList body).all
        (fun entry => entry.1.target? != some "x") = true := rfl
    simpa using List.all_eq_true.mp tried _ (among may)
  have kept :=
    run_keeps_slot ⟨10, 2⟩ procedures nodes machine literals "x" untouched
  exact ⟨⟨literals, untouched⟩, _, _, rfl, rfl, rfl, kept⟩

end Execution

end PenScript
