import PenScript.Proofs.Course

/-!
# Counting rounds in a word

A loop with a guard counts its rounds in a 64-bit word and compares the count
with the cap.  The count can pass every cap but the greatest word.  Below that
cap, a run takes the course of one that counts without bound.  At it, the word
starts over at zero when it is full, and no loop is ever cut off.
-/

namespace PenScript

/-- The word that counts the rounds of a loop can pass the cap. -/
def Limits.Passable (limits : Limits) : Prop :=
  limits.iterations < 18446744073709551615

namespace Execution

open Stateful

/-- Carries out the first step of a task, inside `depth` calls.  A loop with a
guard counts its rounds in a word. -/
def Task.countedMove (limits : Limits) (procedures : List Procedure)
    (depth : Nat) : Task → Execution Move
  | .repeating guard line body rounds => do
      if ← reading (.whileTrue guard) line guard.readBool then
        if limits.iterations < (UInt64.ofNat rounds + 1).toNat then
          throw (Fault.at (.run (.tooManyIterations limits.iterations)) line
            (Command.whileTrue guard).describe)
        else
          return .goOn
            (body.map .node ++ [.repeating guard line body (rounds + 1)])
      else return .goOn []
  | task => task.move limits procedures depth

namespace State

/-- One step of a run that counts rounds in words. -/
def CountedSteps (limits : Limits) (procedures : List Procedure)
    (before after : State) : Prop :=
  before.nextBy (Task.countedMove limits procedures) = some after

/-- Any number of steps of a run that counts rounds in words. -/
def CountedReaches (limits : Limits) (procedures : List Procedure) :
    State → State → Prop :=
  Relation.ReflTransGen (CountedSteps limits procedures)

end State

/-! ### Caps that can be passed -/

/-- The rounds of a loop have not passed the cap. -/
def Task.Within (limits : Limits) : Task → Prop
  | .repeating _ _ _ rounds => rounds ≤ limits.iterations
  | _ => True

section Passable

variable {limits : Limits} {procedures : List Procedure}

theorem Task.countedMove_eq (passable : limits.Passable) {task : Task}
    (within : task.Within limits) (depth : Nat) :
    task.countedMove limits procedures depth =
      task.move limits procedures depth := by
  cases task with
  | node node => rfl
  | counting counter range body value => rfl
  | repeating guard line body rounds =>
      have bound : rounds ≤ limits.iterations := within
      have counter : (UInt64.ofNat rounds + 1).toNat = rounds + 1 := by
        unfold Limits.Passable at passable
        rw [UInt64.toNat_add, UInt64.toNat_ofNat', UInt64.toNat_one]
        omega
      rw [countedMove, move]
      refine bind_congr fun holds => ?_
      cases holds with
      | false => rfl
      | true =>
          rw [if_pos rfl, if_pos rfl, counter]
          by_cases room : rounds < limits.iterations
          · rw [if_pos room, if_neg (by omega)]
          · rw [if_neg room, if_pos (by omega)]

theorem Task.within_nodes (nodes : List Node) :
    ∀ task ∈ nodes.map Task.node, task.Within limits := by
  intro task member
  obtain ⟨node, _, rfl⟩ := List.mem_map.mp member
  trivial

theorem Task.Allows.within {depth : Nat} {task : Task} {move : Move}
    (allows : task.Allows limits procedures depth move) :
    ∀ later ∈ move.tasks, later.Within limits := by
  cases allows with
  | leave =>
      intro later member
      cases member
  | done =>
      intro later member
      cases member
  | enter member room => exact within_nodes _
  | body => exact within_nodes _
  | loop => exact List.forall_mem_singleton.mpr (Nat.zero_le _)
  | count range => exact List.forall_mem_singleton.mpr trivial
  | loopOn room =>
      exact List.forall_mem_append.mpr
        ⟨within_nodes _, List.forall_mem_singleton.mpr room⟩
  | countOn covered =>
      refine List.forall_mem_append.mpr ⟨within_nodes _, ?_⟩
      intro later member
      unfold nextRound at member
      split at member
      · rw [List.mem_singleton.mp member]
        trivial
      · cases member

namespace State

theorem Steps.within {before after : State}
    (steps : Steps limits procedures before after)
    (within : before.Every (Task.Within limits)) :
    after.Every (Task.Within limits) :=
  steps.every (fun _ allows => allows.within) within

theorem within_start (nodes : List Node) (machine : Machine) :
    (start nodes machine).Every (Task.Within limits) := by
  intro waiting member
  rw [List.mem_singleton.mp member]
  exact Task.within_nodes nodes

theorem countedSteps_iff (passable : limits.Passable) {before after : State}
    (within : before.Every (Task.Within limits)) :
    CountedSteps limits procedures before after ↔
      Steps limits procedures before after := by
  match before with
  | .ended _ => exact Iff.rfl
  | .running [] callers machine => exact Iff.rfl
  | .running (task :: rest) callers machine =>
      have first := within _ List.mem_cons_self task List.mem_cons_self
      have same : task.countedMove limits procedures callers.length =
          task.move limits procedures callers.length :=
        Task.countedMove_eq passable first _
      rw [CountedSteps, nextBy, same]
      exact Iff.rfl

/-- Where the cap can be passed, it makes no difference that rounds are counted
in words. -/
theorem countedReaches_iff (passable : limits.Passable) {before after : State}
    (within : before.Every (Task.Within limits)) :
    CountedReaches limits procedures before after ↔
      Reaches limits procedures before after := by
  constructor
  · intro counted
    induction counted using Relation.ReflTransGen.head_induction_on with
    | refl => exact .refl
    | head steps _ ih =>
        have plain := (countedSteps_iff passable within).mp steps
        exact .head plain (ih (plain.within within))
  · intro reaches
    induction reaches using Relation.ReflTransGen.head_induction_on with
    | refl => exact .refl
    | head steps _ ih =>
        exact .head ((countedSteps_iff passable within).mpr steps)
          (ih (steps.within within))

theorem CountedReaches.within (passable : limits.Passable)
    {before after : State}
    (counted : CountedReaches limits procedures before after)
    (within : before.Every (Task.Within limits)) :
    after.Every (Task.Within limits) := by
  induction counted with
  | refl => exact within
  | tail _ steps ih => exact ((countedSteps_iff passable ih).mp steps).within ih

end State

end Passable

/-! ### The cap that cannot be passed -/

section Unpassable

variable {limits : Limits} {procedures : List Procedure}

/-- A loop whose guard holds goes on, whatever number of rounds it has had. -/
theorem State.countedSteps_of_holds (unpassable : ¬limits.Passable)
    {guard : Value} {line : Nat} {before checked : Machine}
    (holds : reading (.whileTrue guard) line guard.readBool before =
      .ok true checked) (body : List Node) (rounds : Nat) (rest : List Task)
    (callers : List (List Task)) :
    CountedSteps limits procedures
      (.running (.repeating guard line body rounds :: rest) callers before)
      (.running
        (body.map .node ++ .repeating guard line body (rounds + 1) :: rest)
          callers checked) := by
  have counter := (UInt64.ofNat rounds + 1).toNat_lt
  have kept : ¬limits.iterations < (UInt64.ofNat rounds + 1).toNat := by
    unfold Limits.Passable at unpassable
    omega
  rw [CountedSteps, nextBy, Task.countedMove, bind_of_ok holds, if_pos rfl,
    if_neg kept]
  simp [follow, pure, EStateM.pure]

/-- The states of a loop without an end. -/
def State.endless (line : Nat) (machine : Machine) : Nat → State
  | 0 => .start [.block (.whileTrue (.literal (.bool true))) line []] machine
  | rounds + 1 =>
      .running [.repeating (.literal (.bool true)) line [] rounds] [] machine

theorem State.countedSteps_endless (unpassable : ¬limits.Passable) (line : Nat)
    (machine : Machine) (step : Nat) :
    CountedSteps limits procedures (endless line machine step)
      (endless line machine (step + 1)) := by
  cases step with
  | zero => rfl
  | succ rounds =>
      have holds : reading (.whileTrue (.literal (.bool true))) line
          (Value.literal (.bool true)).readBool machine = .ok true machine :=
        rfl
      exact countedSteps_of_holds unpassable holds [] rounds [] []

end Unpassable

end Execution

end PenScript
