import PenScript.Proofs.Sessions

/-!
# What came before

A run draws on the canvas and never looks at it, and loading a script replaces
the program and the store.  So whatever has been done with a session before, a
script that it runs ends as it would in a new session, and adds the same strokes
and diagnostics.
-/

namespace PenScript

open Stateful

namespace Execution

/-- The outcome of an execution, had it started on a canvas with earlier
strokes. -/
def onto {α : Type} (canvas : Canvas) :
    EStateM.Result Failure Machine α → EStateM.Result Failure Machine α
  | .ok answer machine =>
      .ok answer { machine with canvas := canvas ++ machine.canvas }
  | .error failure machine =>
      .error failure { machine with canvas := canvas ++ machine.canvas }

theorem onto_ok {α : Type} (canvas : Canvas) (answer : α) (store : Store) :
    onto canvas (.ok answer ⟨#[], store⟩) = .ok answer ⟨canvas, store⟩ := by
  simp [onto]

theorem onto_error {α : Type} (canvas : Canvas) (failure : Failure)
    (store : Store) :
    onto canvas (.error failure ⟨#[], store⟩) =
      (.error failure ⟨canvas, store⟩ :
      EStateM.Result Failure Machine α) := by
  simp [onto]

theorem onto_onto {α : Type} (first second : Canvas)
    (outcome : EStateM.Result Failure Machine α) :
    onto first (onto second outcome) = onto (first ++ second) outcome := by
  cases outcome <;> simp [onto, Array.append_assoc]

/-- An execution that adds to the canvas without looking at it. -/
def Oblivious {α : Type} (execution : Execution α) : Prop :=
  ∀ canvas store,
    execution ⟨canvas, store⟩ = onto canvas (execution ⟨#[], store⟩)

theorem oblivious_sequence {α β : Type} {first : Execution α}
    {next : α → Execution β} (obliviousFirst : Oblivious first)
    (obliviousNext : ∀ answer, Oblivious (next answer)) :
    Oblivious (first >>= next) := by
  intro canvas store
  have moved := obliviousFirst canvas store
  cases outcome : first ⟨#[], store⟩ with
  | error failure middle =>
      rw [outcome] at moved
      rw [bind_of_error moved, bind_of_error outcome]
      rfl
  | ok answer middle =>
      rw [outcome] at moved
      rw [bind_of_ok moved, bind_of_ok outcome]
      calc
        next answer ⟨canvas ++ middle.canvas, middle.store⟩
          = onto (canvas ++ middle.canvas) (next answer ⟨#[], middle.store⟩) :=
            obliviousNext answer _ _
        _ =
          onto canvas (onto middle.canvas (next answer ⟨#[], middle.store⟩)) :=
            (onto_onto _ _ _).symm
        _ = onto canvas (next answer middle) := by
            rw [← obliviousNext answer middle.canvas middle.store]

theorem oblivious_performing (command : Command) (line : Nat) :
    Oblivious (performing command line) := by
  intro canvas store
  unfold performing Command.perform
  dsimp only
  cases command.effect store with
  | error fault final => exact (onto_error canvas _ final).symm
  | ok effect final => cases effect <;> simp [onto, Effect.apply]

theorem oblivious_reading {α : Type} (command : Command) (line : Nat)
    (action : Value.Reading α) : Oblivious (reading command line action) := by
  intro canvas store
  unfold reading
  dsimp only
  cases action store with
  | ok answer final => exact (onto_ok canvas answer final).symm
  | error fault final => exact (onto_error canvas _ final).symm

/-- No run looks at its canvas. -/
def obliviousness : RunProperty (fun _ _ => True) where
  Holds execution := Oblivious execution
  returning answer canvas store := (onto_ok canvas answer store).symm
  sequence := oblivious_sequence
  stopping _ _ _ _ canvas store := (onto_error canvas _ store).symm
  performing _ := oblivious_performing _ _
  guarding _ _ := oblivious_reading _ _ _
  bounding _ := oblivious_reading _ _ _
  counting _ _ canvas _ := (onto_ok canvas () _).symm

theorem oblivious_run (limits : Limits) (procedures : List Procedure)
    (nodes : List Node) :
    Oblivious (run limits procedures nodes) :=
  obliviousness.run (fun _ _ _ _ => trivial) limits fun _ _ => trivial

end Execution

namespace Session

/-! ### Two sessions side by side -/

/-- Two sessions that differ at most in what they have drawn and reported. -/
structure Alike (first second : Session) : Prop where
  config : first.config = second.config
  program : first.program = second.program
  store : first.store = second.store

/-- The same thing done in two sessions.  It has the same answer, the sessions
end alike, and the same strokes and diagnostics have been added to what each of
them had. -/
structure Parallel {α : Type} (first second : Session)
    (outcome outcome' : α × Session) : Prop where
  answer : outcome.1 = outcome'.1
  alike : outcome.2.Alike outcome'.2
  strokes : ∃ strokes, outcome.2.canvas = first.canvas ++ strokes ∧
    outcome'.2.canvas = second.canvas ++ strokes
  diagnostics : ∃ diagnostics,
    outcome.2.log = first.log.map (· ++ diagnostics) ∧
    outcome'.2.log = second.log.map (· ++ diagnostics)

namespace Parallel

variable {α β : Type} {first second : Session} {outcome outcome' : α × Session}

/-- Replacing the program and the store is no stroke and no diagnostic. -/
theorem replaced (same : first.config = second.config) (program : Program)
    (store : Store) (answer : α) :
    Parallel first second (answer, { first with program, store })
      (answer, { second with program, store }) where
  answer := rfl
  alike := ⟨same, rfl, rfl⟩
  strokes := ⟨#[], by simp, by simp⟩
  diagnostics := ⟨#[], by simp, by simp⟩

/-- Drawing the same strokes and leaving the same store. -/
theorem drawn (alike : first.Alike second) (strokes : Canvas) (store : Store)
    (answer : α) :
    Parallel first second
      (answer, { first with canvas := first.canvas ++ strokes, store })
      (answer, { second with canvas := second.canvas ++ strokes, store }) where
  answer := rfl
  alike := ⟨alike.config, alike.program, rfl⟩
  strokes := ⟨strokes, rfl, rfl⟩
  diagnostics := ⟨#[], by simp, by simp⟩

theorem report (parallel : Parallel first second outcome outcome')
    (failure : Failure) :
    Parallel first second (outcome.1, outcome.2.report failure)
      (outcome'.1, outcome'.2.report failure) where
  answer := parallel.answer
  alike := ⟨parallel.alike.config, parallel.alike.program, parallel.alike.store⟩
  strokes := parallel.strokes
  diagnostics := by
    obtain ⟨diagnostics, log, log'⟩ := parallel.diagnostics
    refine ⟨diagnostics.push (diagnose outcome.2.config failure), ?_, ?_⟩
    · simp [Session.report, log, Function.comp_def]
    · simp [Session.report, log', parallel.alike.config, Function.comp_def]

theorem answering (parallel : Parallel first second outcome outcome')
    (answer : β) :
    Parallel first second (answer, outcome.2) (answer, outcome'.2) :=
  ⟨rfl, parallel.alike, parallel.strokes, parallel.diagnostics⟩

theorem trans {later later' : β × Session}
    (parallel : Parallel first second outcome outcome')
    (after : Parallel outcome.2 outcome'.2 later later') :
    Parallel first second later later' := by
  obtain ⟨strokes, drawn, drawn'⟩ := parallel.strokes
  obtain ⟨more, drawnMore, drawnMore'⟩ := after.strokes
  obtain ⟨diagnostics, log, log'⟩ := parallel.diagnostics
  obtain ⟨others, logMore, logMore'⟩ := after.diagnostics
  refine ⟨after.answer, after.alike, ⟨strokes ++ more, ?_, ?_⟩,
    ⟨diagnostics ++ others, ?_, ?_⟩⟩
  · rw [drawnMore, drawn, Array.append_assoc]
  · rw [drawnMore', drawn', Array.append_assoc]
  · simp [logMore, log, Function.comp_def]
  · simp [logMore', log', Function.comp_def]

end Parallel

/-- Loading a script asks for nothing but the configuration. -/
theorem load_parallel {first second : Session}
    (same : first.config = second.config) (source : String) :
    Parallel first second (first.load source) (second.load source) := by
  unfold load
  dsimp only
  split
  · exact .replaced same _ _ _
  · next failure _ =>
      rw [show first.config.leniency = second.config.leniency by rw [same]]
      cases second.config.leniency with
      | strict =>
          exact (Parallel.replaced same _ _ (Except.error failure)).report
            failure
      | pardon =>
          exact (Parallel.replaced same _ _ (Except.error failure)).report
            failure

/-- Executing a script asks for nothing but the configuration, the program and
the store. -/
theorem Alike.execute {first second : Session} (alike : first.Alike second) :
    Parallel first second first.execute second.execute := by
  obtain ⟨config, canvas, store, program, log⟩ := first
  obtain ⟨_, canvas', _, _, log'⟩ := second
  obtain ⟨rfl, rfl, rfl⟩ := alike
  have alike :
      Alike ⟨config, canvas, store, program, log⟩
        ⟨config, canvas', store, program, log'⟩ :=
    ⟨rfl, rfl, rfl⟩
  have oblivious :=
    Execution.oblivious_run config.limits program.procedures program.items
  unfold Session.execute
  dsimp only
  rw [oblivious canvas store, oblivious canvas' store]
  cases Execution.run config.limits program.procedures program.items
      ⟨#[], store⟩ with
  | ok answer final =>
      exact .drawn alike final.canvas final.store (Except.ok ())
  | error failure final =>
      dsimp only [Execution.onto]
      cases config.leniency with
      | strict =>
          rw [← Array.append_push, ← Array.append_push]
          exact (Parallel.drawn alike (final.canvas.push .clear) .empty
            (Except.error failure)).report failure
      | pardon =>
          exact (Parallel.drawn alike final.canvas final.store
            (Except.error failure)).report failure

/-- Running a script asks for nothing but the configuration. -/
theorem run_parallel {first second : Session}
    (same : first.config = second.config) (source : String) :
    Parallel first second (first.run source) (second.run source) := by
  have loading := load_parallel same source
  have executing := loading.trans loading.alike.execute
  obtain ⟨answer, loaded, load⟩ : ∃ answer loaded,
      first.load source = (answer, loaded) :=
    ⟨_, _, rfl⟩
  obtain ⟨answer', loaded', load'⟩ : ∃ answer loaded,
      second.load source = (answer, loaded) :=
    ⟨_, _, rfl⟩
  rw [load, load'] at loading executing
  obtain rfl : answer = answer' := loading.answer
  cases answer with
  | ok count =>
      rw [run_of_load_ok load, run_of_load_ok load']
      exact executing
  | error failure =>
      have lenient : loaded.config.leniency = loaded'.config.leniency := by
        rw [loading.alike.config]
      cases leniency : loaded'.config.leniency with
      | strict =>
          rw [run_of_load_error_strict load (lenient.trans leniency),
            run_of_load_error_strict load' leniency]
          exact loading.answering (Except.error failure)
      | pardon =>
          rw [run_of_load_error_pardon load (lenient.trans leniency),
            run_of_load_error_pardon load' leniency, executing.answer]
          exact executing.answering _

/-! ### Sessions that have been used -/

/-- What a session is set up with: its configuration, and whether somebody
listens. -/
def setup (session : Session) : Config × Bool :=
  (session.config, session.log.isSome)

theorem setup_load (session : Session) (source : String) :
    (session.load source).2.setup = session.setup := by
  unfold load
  dsimp only
  split
  · rfl
  · cases session.config.leniency <;> simp [setup, report]

theorem setup_execute (session : Session) :
    session.execute.2.setup = session.setup := by
  unfold execute
  dsimp only
  split
  · rfl
  · cases session.config.leniency <;> simp [setup, report]

theorem setup_perform (session : Session) (action : Action) :
    (session.perform action).setup = session.setup := by
  cases action with
  | load source => exact session.setup_load source
  | execute => exact session.setup_execute
  | run source =>
      rcases session.run_session source with same | same
      · exact (congrArg setup same).trans (session.setup_load source)
      · exact (congrArg setup same).trans
          ((setup_execute _).trans (session.setup_load source))
  | reset => rfl
  | draw stroke => rfl

theorem setup_after (session : Session) (actions : List Action) :
    (session.after actions).setup = session.setup := by
  induction actions generalizing session with
  | nil => rfl
  | cons action rest ih =>
      exact (ih (session.perform action)).trans (session.setup_perform action)

/-- Whatever has been done with a session, a script that it runs next gives the
same result as in a new session, and leaves the same program and the same store.
The same strokes come after those that are on the canvas, and the same
diagnostics after those that have been reported. -/
theorem run_after_actions (config : Config) (listened : Bool)
    (actions : List Action) (source : String) :
    let fresh := new config listened
    let used := fresh.after actions
    (used.run source).1 = (fresh.run source).1 ∧
    (used.run source).2.program = (fresh.run source).2.program ∧
    (used.run source).2.store = (fresh.run source).2.store ∧
    (∃ strokes, (fresh.run source).2.canvas = fresh.canvas ++ strokes ∧
      (used.run source).2.canvas = used.canvas ++ strokes) ∧
    used.log.isSome = listened ∧
    ∃ diagnostics, (fresh.run source).2.log = fresh.log.map (· ++ diagnostics) ∧
      (used.run source).2.log = used.log.map (· ++ diagnostics) := by
  intro fresh used
  have setup : used.setup = (config, listened) := by
    refine (setup_after fresh actions).trans ?_
    cases listened <;> rfl
  have same : fresh.config = used.config := (congrArg Prod.fst setup).symm
  have parallel := run_parallel same source
  exact ⟨parallel.answer.symm, parallel.alike.program.symm,
    parallel.alike.store.symm,
    parallel.strokes, congrArg Prod.snd setup, parallel.diagnostics⟩

end Session

end PenScript
