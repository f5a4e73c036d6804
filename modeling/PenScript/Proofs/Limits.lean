import PenScript.Proofs.Effect
import PenScript.Proofs.Run

/-!
# Limits only cut runs off

A run that ends within its limits ends in the same way under larger ones.  A run
that is cut off has made the first strokes of the longer run.  The second part
rests on canvases only ever growing.
-/

namespace PenScript

open Stateful

/-- A canvas with the strokes of an earlier one, and then perhaps more. -/
def Canvas.Extends (later earlier : Canvas) : Prop :=
  ∃ strokes, later = earlier ++ strokes

namespace Canvas.Extends

theorem refl (canvas : Canvas) : Canvas.Extends canvas canvas :=
  ⟨#[], by simp⟩

theorem trans {first second third : Canvas}
    (later : Canvas.Extends third second)
    (earlier : Canvas.Extends second first) : Canvas.Extends third first := by
  obtain ⟨strokes, rfl⟩ := earlier
  obtain ⟨more, rfl⟩ := later
  exact ⟨strokes ++ more, Array.append_assoc⟩

end Canvas.Extends

/-- A failure by a limit. -/
def Failure.CutOff (failure : Failure) : Prop :=
  failure.code = .iterationLimit ∨ failure.code = .depthLimit

namespace Execution

/-- An execution that only adds to the canvas, even if it fails. -/
def Appends {α : Type} (execution : Execution α) : Prop :=
  ∀ machine, (finalState (execution machine)).canvas.Extends machine.canvas

theorem appends_reading {α : Type} (command : Command) (line : Nat)
    (action : Value.Reading α) : Appends (reading command line action) := by
  intro machine
  unfold reading
  split <;> exact .refl _

theorem appends_performing (command : Command) (line : Nat) :
    Appends (performing command line) := by
  intro machine
  unfold performing Command.perform
  cases command.effect machine.store with
  | ok effect store => exact ⟨effect.strokes, effect.canvas_apply _⟩
  | error fault store => exact .refl _

def appending : RunProperty (fun _ _ => True) where
  Holds execution := Appends execution
  returning _ _ := .refl _
  sequence := by
    intro α β first next appendsFirst appendsNext machine
    have firstPart := appendsFirst machine
    cases outcome : first machine with
    | error failure middle =>
        simpa [bind_of_error outcome, outcome] using firstPart
    | ok answer middle =>
        rw [bind_of_ok outcome]
        rw [outcome] at firstPart
        exact (appendsNext answer middle).trans firstPart
  stopping _ _ _ _ _ := .refl _
  performing _ := appends_performing _ _
  guarding _ _ := appends_reading _ _ _
  bounding _ := appends_reading _ _ _
  counting _ _ _ := .refl _

/-- An execution that ends in a failure by a limit. -/
def EndsCutOff {α : Type} : EStateM.Result Failure Machine α → Prop
  | .ok _ _ => False
  | .error failure _ => failure.CutOff

/-- The shorter execution does what the longer one does, but may be cut off on
the way. -/
structure CutsOff {α : Type} (shorter longer : Execution α) : Prop where
  appends : Appends longer
  agrees : ∀ machine, ¬EndsCutOff (shorter machine) →
    longer machine = shorter machine
  prolongs : ∀ machine, EndsCutOff (shorter machine) →
    (finalState (longer machine)).canvas.Extends
      (finalState (shorter machine)).canvas

namespace CutsOff

variable {α β : Type}

theorem refl {execution : Execution α} (appends : Appends execution) :
    CutsOff execution execution :=
  ⟨appends, fun _ _ => rfl, fun _ _ => .refl _⟩

/-- What is cut off at once is a beginning of anything. -/
theorem stopped {failure : Failure} {longer : Execution α}
    (cutOff : failure.CutOff) (appends : Appends longer) :
    CutsOff (throw failure) longer :=
  ⟨appends, fun _ ends => absurd cutOff ends, fun machine _ => appends machine⟩

/-- The two go on from the same machine unless the first part fails. -/
theorem sequence {shorter longer : Execution α} {next next' : α → Execution β}
    (first : CutsOff shorter longer)
    (rest : ∀ answer, CutsOff (next answer) (next' answer)) :
    CutsOff (shorter >>= next) (longer >>= next') := by
  have appends : Appends (longer >>= next') :=
    appending.sequence first.appends fun answer => (rest answer).appends
  have split : ∀ machine,
      (∃ answer middle, (shorter >>= next) machine = next answer middle ∧
        (longer >>= next') machine = next' answer middle) ∨
      (∃ failure middle, shorter machine = .error failure middle ∧
        (shorter >>= next) machine = .error failure middle) := by
    intro machine
    cases outcome : shorter machine with
    | ok answer middle =>
        have same : longer machine = .ok answer middle := by
          rw [← outcome]
          exact first.agrees machine (by simp [outcome, EndsCutOff])
        exact .inl ⟨answer, middle, bind_of_ok outcome, bind_of_ok same⟩
    | error failure middle =>
        exact .inr ⟨failure, middle, rfl, bind_of_error outcome⟩
  refine ⟨appends, ?_, ?_⟩
  · intro machine ends
    rcases split machine with ⟨answer, middle, left, right⟩ |
      ⟨failure, middle, outcome, left⟩
    · rw [left] at ends ⊢
      rw [right]
      exact (rest answer).agrees middle ends
    · rw [left] at ends ⊢
      have same := first.agrees machine (by rwa [outcome])
      rw [outcome] at same
      exact bind_of_error same
  · intro machine ends
    rcases split machine with ⟨answer, middle, left, right⟩ |
      ⟨failure, middle, outcome, left⟩
    · rw [left] at ends ⊢
      rw [right]
      exact (rest answer).prolongs middle ends
    · rw [left] at ends ⊢
      have begun := first.prolongs machine (by rwa [outcome])
      rw [outcome] at begun
      refine Canvas.Extends.trans ?_ begun
      cases reached : longer machine with
      | error failure final => rw [bind_of_error reached]; exact .refl _
      | ok answer final =>
          rw [bind_of_ok reached]; exact (rest answer).appends final

/-- A loop that may go on longer. -/
theorem whileLoop {check check' : Execution Bool} {body body' : Execution Flow}
    {overrun overrun' : Failure} (cutOff : overrun.CutOff)
    (checks : CutsOff check check') (bodies : CutsOff body body')
    {remaining remaining' : Nat} (le : remaining ≤ remaining') :
    CutsOff (whileLoop check body overrun remaining)
      (whileLoop check' body' overrun' remaining') := by
  have appends (rounds : Nat) :
      Appends (Execution.whileLoop check' body' overrun' rounds) :=
    appending.whileLoop checks.appends bodies.appends (fun _ => .refl _) rounds
  induction remaining generalizing remaining' with
  | zero =>
      cases remaining' with
      | zero =>
          refine checks.sequence fun holds => ?_
          split
          · exact stopped cutOff fun _ => .refl _
          · exact refl (appending.returning _)
      | succ remaining' =>
          refine checks.sequence fun holds => ?_
          split
          · refine stopped cutOff
              (appending.sequence bodies.appends fun flow => ?_)
            cases flow with
            | next => exact appends remaining'
            | ret => exact appending.returning _
          · exact refl (appending.returning _)
  | succ remaining ih =>
      cases remaining' with
      | zero => exact absurd le (Nat.not_succ_le_zero remaining)
      | succ remaining' =>
          refine checks.sequence fun holds => ?_
          split
          · refine bodies.sequence fun flow => ?_
            cases flow with
            | next => exact ih (Nat.le_of_succ_le_succ le)
            | ret => exact refl (appending.returning _)
          · exact refl (appending.returning _)

/-- Executions under some limits and under larger ones. -/
def relation {limits larger : Limits}
    (iterations : limits.iterations ≤ larger.iterations) :
    RunRelation (fun _ _ => True) limits larger where
  Rel shorter longer := CutsOff shorter longer
  returning answer := refl (appending.returning answer)
  sequence := sequence
  performing _ := refl (appends_performing _ _)
  guarding _ _ := refl (appends_reading _ _ _)
  bounding _ := refl (appends_reading _ _ _)
  counting _ _ := refl fun _ => .refl _
  repeating _ checks bodies := whileLoop (.inl rfl) checks bodies iterations

theorem callProcedure {limits larger : Limits}
    (iterations : limits.iterations ≤ larger.iterations)
    (procedures : List Procedure) {remaining remaining' : Nat}
    (le : remaining ≤ remaining') (name : String) (line : Nat) :
    CutsOff (callProcedure limits procedures remaining name line)
      (callProcedure larger procedures remaining' name line) := by
  have appends (name : String) (line remaining : Nat) :
      Appends (Execution.callProcedure larger procedures remaining name line) :=
    appending.callProcedure (fun _ _ _ _ => trivial) larger remaining trivial
  refine (relation iterations).callProcedure (fun _ _ _ _ => trivial) ?_ ?_ le
    name line trivial
  · intro name line _
    exact refl fun _ => .refl _
  · intro name line remaining _
    exact stopped (.inr rfl) (appends name line remaining)

end CutsOff

/-- Limits never change what a run does.  A run that is not cut off has the same
outcome and leaves the same machine under larger limits, and the strokes of one
that is cut off are the first strokes of the longer run. -/
theorem run_of_larger_limits (procedures : List Procedure) (nodes : List Node)
    (machine : Machine) {limits larger : Limits}
    (iterations : limits.iterations ≤ larger.iterations)
    (depth : limits.depth ≤ larger.depth) :
    (¬EndsCutOff (run limits procedures nodes machine) →
      run larger procedures nodes machine =
        run limits procedures nodes machine) ∧
    (EndsCutOff (run limits procedures nodes machine) →
      ∃ strokes more,
        (finalState (run limits procedures nodes machine)).canvas =
          machine.canvas ++ strokes ∧
        (finalState (run larger procedures nodes machine)).canvas =
          machine.canvas ++ (strokes ++ more)) := by
  have calls : (CutsOff.relation iterations).Calls
      (callProcedure limits procedures limits.depth)
      (callProcedure larger procedures larger.depth) := fun name line _ =>
    CutsOff.callProcedure iterations procedures depth name line
  have cutOff :
      CutsOff (run limits procedures nodes) (run larger procedures nodes) :=
    CutsOff.sequence
      ((CutsOff.relation iterations).runNodes calls nodes fun _ _ => trivial)
      fun _ => .refl (appending.returning ())
  refine ⟨cutOff.agrees machine, fun ends => ?_⟩
  have appends : Appends (run limits procedures nodes) :=
    appending.run (fun _ _ _ _ => trivial) limits fun _ _ => trivial
  obtain ⟨strokes, made⟩ := appends machine
  obtain ⟨more, prolonged⟩ := cutOff.prolongs machine ends
  exact ⟨strokes, more, made, by rw [prolonged, made, Array.append_assoc]⟩

/-- An endless loop that draws a dot in each round makes one dot under a limit
of one round, and goes on from there under a limit of two. -/
theorem run_of_larger_limits_endless_loop :
    EndsCutOff (run ⟨1, 0⟩ []
      [.block (.whileTrue (.literal (.bool true))) 1 [.leaf .dot 2]]
      ⟨#[], .empty⟩) ∧
    ∃ strokes more,
      (finalState
        (run ⟨1, 0⟩ []
          [.block (.whileTrue (.literal (.bool true))) 1 [.leaf .dot 2]]
        ⟨#[], .empty⟩)).canvas = #[] ++ strokes ∧
      (finalState
        (run ⟨2, 1⟩ []
          [.block (.whileTrue (.literal (.bool true))) 1 [.leaf .dot 2]]
        ⟨#[], .empty⟩)).canvas = #[] ++ (strokes ++ more) := by
  have cutOff : EndsCutOff (run ⟨1, 0⟩ []
      [.block (.whileTrue (.literal (.bool true))) 1 [.leaf .dot 2]]
      ⟨#[], .empty⟩) := .inl rfl
  exact ⟨cutOff,
    (run_of_larger_limits [] _ ⟨#[], .empty⟩ (by decide) (by decide)).2 cutOff⟩

end Execution

end PenScript
