import PenScript.Proofs.ClosedNames

/-!
# Strict and lenient sessions

A strict session and a lenient one do the same until something fails.  They
differ in what is left of a script that cannot be read and of a run that has
failed.  A lenient session also executes the part of a script that could be
read, and a failure in there hides the one that ended the reading.
-/

namespace PenScript

theorem Program.compile_eq_error_iff {source : String} {failure : Failure} :
    compile source = .error failure ↔
      (parse source .empty).failure = some failure := by
  unfold compile
  dsimp only
  split
  · next stopped => simp [stopped]
  · next complete => simp [complete]

theorem Program.compile_eq_ok_iff {source : String} {program : Program} :
    compile source = .ok program ↔
      (parse source .empty).failure = none ∧ (parse source .empty).program =
        program := by
  unfold compile
  dsimp only
  split
  · next stopped => simp [stopped]
  · next complete => simp [complete]

namespace Session

/-! ### Loading and executing -/

theorem load_of_compile_ok {source : String} {program : Program}
    (read : Program.compile source = .ok program) (session : Session) :
    session.load source = (.ok program.items.length,
      { session with program, store :=
        (Program.parse source .empty).store }) := by
  obtain ⟨complete, rfl⟩ := Program.compile_eq_ok_iff.mp read
  unfold load
  dsimp only
  rw [complete]

theorem load_of_compile_error_strict {source : String} {failure : Failure}
    (unread : Program.compile source = .error failure) {session : Session}
    (strict : session.config.leniency = .strict) :
    session.load source =
      (.error failure,
        report failure { session with program := .empty, store :=
          .empty }) := by
  unfold load
  dsimp only
  rw [Program.compile_eq_error_iff.mp unread, strict]

theorem load_of_compile_error_pardon {source : String} {failure : Failure}
    (unread : Program.compile source = .error failure) {session : Session}
    (pardon : session.config.leniency = .pardon) :
    session.load source = (.error failure, report failure
      { session with
        program := (Program.parse source .empty).program
        store := (Program.parse source .empty).store }) := by
  unfold load
  dsimp only
  rw [Program.compile_eq_error_iff.mp unread, pardon]

theorem execute_of_outcome_ok {session : Session} {final : Machine}
    (ended : session.outcome = .ok () final) :
    session.execute =
      (.ok (), { session with canvas := final.canvas, store := final.store }) :=
  execute_eq_ok_iff.mpr ⟨final, ended, rfl⟩

theorem execute_of_outcome_error_strict {session : Session} {failure : Failure}
    {final : Machine} (ended : session.outcome = .error failure final)
    (strict : session.config.leniency = .strict) :
    session.execute = (.error failure,
      report failure { session with canvas := final.canvas.push .clear, store :=
        .empty }) := by
  unfold outcome at ended
  unfold execute
  dsimp only
  rw [ended, strict]

theorem execute_of_outcome_error_pardon {session : Session} {failure : Failure}
    {final : Machine} (ended : session.outcome = .error failure final)
    (pardon : session.config.leniency = .pardon) :
    session.execute = (.error failure,
      report failure { session with canvas := final.canvas, store :=
        final.store }) := by
  unfold outcome at ended
  unfold execute
  dsimp only
  rw [ended, pardon]

/-! ### Scripts that cannot be read -/

theorem run_of_compile_error_strict {source : String} {failure : Failure}
    (unread : Program.compile source = .error failure) {session : Session}
    (strict : session.config.leniency = .strict) :
    session.run source =
      (.error failure,
        report failure { session with program := .empty, store := .empty }) :=
  run_of_load_error_strict (load_of_compile_error_strict unread strict) strict

theorem run_of_compile_error_pardon {source : String} {failure : Failure}
    (unread : Program.compile source = .error failure) {session : Session}
    (pardon : session.config.leniency = .pardon) :
    let loaded := (session.load source).2
    loaded.program = (Program.parse source .empty).program ∧
    session.run source =
      (loaded.execute.1 >>= fun _ => .error failure, loaded.execute.2) := by
  have load := load_of_compile_error_pardon unread pardon
  simp only [load]
  exact ⟨rfl, run_of_load_error_pardon load pardon⟩

/-- A script that cannot be read never runs well. -/
theorem run_ne_ok_of_compile_error {source : String} {failure : Failure}
    (unread : Program.compile source = .error failure) (session : Session) :
    (session.run source).1 ≠ .ok () := by
  cases leniency : session.config.leniency with
  | strict =>
      rw [run_of_compile_error_strict unread leniency]
      intro succeeded
      cases succeeded
  | pardon =>
      rw [(run_of_compile_error_pardon unread leniency).2]
      cases (session.load source).2.execute.1 with
      | ok _ =>
          intro succeeded
          cases succeeded
      | error other =>
          intro succeeded
          cases succeeded

/-- What comes of running a script that cannot be read.  A strict session
reports the failure that ended the reading.  A lenient one executes what could
be read, and reports that failure only if the execution succeeds; if it fails,
its own failure is all that is returned. -/
theorem run_of_unreadable_source {source : String} {failure : Failure}
    (unread : Program.compile source = .error failure) (session : Session) :
    (session.config.leniency = .strict →
      (session.run source).1 = .error failure) ∧
    (session.config.leniency = .pardon →
      let loaded := (session.load source).2
      loaded.program = (Program.parse source .empty).program ∧
      (session.run source).2 = loaded.execute.2 ∧
      (loaded.execute.1 = .ok () → (session.run source).1 = .error failure) ∧
      ∀ other, loaded.execute.1 = .error other →
        (session.run source).1 = .error other) := by
  constructor
  · intro strict
    rw [run_of_compile_error_strict unread strict]
  · intro pardon loaded
    obtain ⟨program, ran⟩ := run_of_compile_error_pardon unread pardon
    refine ⟨program, by rw [ran], ?_, ?_⟩
    · intro succeeded
      simp only [ran, loaded] at succeeded ⊢
      rw [succeeded]
      rfl
    · intro other failed
      simp only [ran, loaded] at failed ⊢
      rw [failed]
      rfl

/-- A division by zero in the part that could be read hides the unknown command
behind it. -/
theorem run_of_unreadable_source_division :
    ∃ unknown division,
      Program.compile "dot\nvar x = 1 / 0\nbogus" = .error unknown ∧
      unknown.code = .unknownCommand ∧ unknown.line = 3 ∧
      ((new ⟨.pardon, {}⟩ true).run "dot\nvar x = 1 / 0\nbogus").1 =
        .error division ∧
      division.code = .divisionByZero ∧ division.line = 2 := by
  have stops : (Program.parse "dot\nvar x = 1 / 0\nbogus" .empty).failure =
      some ⟨.unknownCommand, 3, "bogus", "unknown command `bogus`"⟩ := by
      decide +kernel
  have reads := Program.compile_eq_error_iff.mpr stops
  have executes :
      ((new ⟨.pardon, {}⟩ true).load "dot\nvar x = 1 / 0\nbogus").2.execute.1 =
      .error ⟨.divisionByZero, 2, "Declare x as (1 / 0)",
        "division by zero"⟩ := by decide +kernel
  have ran := (run_of_unreadable_source reads (new ⟨.pardon, {}⟩ true)).2 rfl
  exact ⟨_, _, reads, rfl, rfl, ran.2.2.2 _ executes, rfl, rfl⟩

/-! ### Scripts that fail as they run -/

/-- Two sessions in which the loaded script runs in the same way. -/
theorem execute_strict_or_pardon {strict pardon : Session}
    (strictly : strict.config.leniency = .strict)
    (leniently : pardon.config.leniency = .pardon)
    (same : strict.outcome = pardon.outcome)
    (program : strict.program = pardon.program) :
    strict.execute.1 = pardon.execute.1 ∧
    (strict.execute.1 = .ok () →
      strict.execute.2.canvas = pardon.execute.2.canvas ∧
      strict.execute.2.store = pardon.execute.2.store ∧
      strict.execute.2.program = pardon.execute.2.program) ∧
    ∀ failure, strict.execute.1 = .error failure →
      strict.execute.2.canvas = pardon.execute.2.canvas.push .clear ∧
      strict.execute.2.store = .empty := by
  cases ended : strict.outcome with
  | ok answer final =>
      rw [execute_of_outcome_ok ended, execute_of_outcome_ok (same ▸ ended)]
      refine ⟨rfl, fun _ => ⟨rfl, rfl, program⟩, ?_⟩
      intro failure failed
      cases failed
  | error failure final =>
      rw [execute_of_outcome_error_strict ended strictly,
        execute_of_outcome_error_pardon (same ▸ ended) leniently]
      refine ⟨rfl, ?_, fun _ _ => ⟨rfl, rfl⟩⟩
      intro succeeded
      cases succeeded

/-- Leniency only changes what is left after a failure.  A script runs well in a
new strict session if it does so in a new lenient one, and then leaves the same
behind.  If a script that can be read fails, both report the same failure; the
strict session has the strokes of the lenient one, clears the canvas after them,
and has given up the store.  A script that cannot be read leaves nothing at all
in a strict session. -/
theorem run_strict_or_pardon (limits : Limits) (listened : Bool)
    (source : String) :
    let strict := (new ⟨.strict, limits⟩ listened).run source
    let pardon := (new ⟨.pardon, limits⟩ listened).run source
    (strict.1 = .ok () ↔ pardon.1 = .ok ()) ∧
    (strict.1 = .ok () → strict.2.canvas = pardon.2.canvas ∧
      strict.2.store = pardon.2.store ∧
      strict.2.program = pardon.2.program) ∧
    (∀ program, Program.compile source = .ok program → strict.1 = pardon.1 ∧
      ∀ failure, strict.1 = .error failure →
        strict.2.canvas = pardon.2.canvas.push .clear ∧
        strict.2.store = .empty) ∧
    (∀ failure, Program.compile source = .error failure →
      strict.2.canvas = #[] ∧ strict.2.program = .empty ∧
      strict.2.store = .empty) := by
  intro strict pardon
  cases compiled : Program.compile source with
  | ok program =>
      let loaded (leniency : Leniency) : Session :=
        { new ⟨leniency, limits⟩ listened with
          program, store := (Program.parse source .empty).store }
      have ran (leniency : Leniency) :
          (new ⟨leniency, limits⟩ listened).run source =
            (loaded leniency).execute :=
        run_of_load_ok (load_of_compile_ok compiled _)
      have executed :=
        @execute_strict_or_pardon (loaded .strict)
          (loaded .pardon) rfl rfl rfl rfl
      rw [← ran, ← ran] at executed
      obtain ⟨answers, succeeded, failed⟩ := executed
      refine ⟨by rw [answers], succeeded, fun _ _ => ⟨answers, failed⟩, ?_⟩
      intro failure unread
      cases unread
  | error failure =>
      have strictFails :=
        run_ne_ok_of_compile_error compiled (new ⟨.strict, limits⟩ listened)
      have pardonFails :=
        run_ne_ok_of_compile_error compiled (new ⟨.pardon, limits⟩ listened)
      refine ⟨iff_of_false strictFails pardonFails,
        fun succeeded => absurd succeeded strictFails, ?_, ?_⟩
      · intro program read
        cases read
      · intro _ _
        have ran :=
          @run_of_compile_error_strict _ _ compiled
            (new ⟨.strict, limits⟩ listened) rfl
        simp only [strict, ran]
        exact ⟨rfl, rfl, rfl⟩

/-- A stroke before a division by zero stays on the canvas of the lenient
session. -/
theorem run_strict_or_pardon_division :
    let strict :=
      (new ⟨.strict, {}⟩ true).run "var r = 0\nmove 1 1\ncircle 10 / r"
    let pardon :=
      (new ⟨.pardon, {}⟩ true).run "var r = 0\nmove 1 1\ncircle 10 / r"
    strict.1 = pardon.1 ∧ pardon.2.canvas = #[.moveTo 1 1] ∧
      strict.2.canvas = #[.moveTo 1 1, .clear] ∧ strict.2.store = .empty := by
  have facts :
      (Program.parse "var r = 0\nmove 1 1\ncircle 10 / r" .empty).failure =
        none ∧
      ((new ⟨.strict, {}⟩ true).run "var r = 0\nmove 1 1\ncircle 10 / r").1 =
        .error ⟨.divisionByZero, 3, "Draw a circle of radius (10 / r)",
          "division by zero"⟩ ∧
      ((new ⟨.pardon, {}⟩ true).run
        "var r = 0\nmove 1 1\ncircle 10 / r").2.canvas =
        #[.moveTo 1 1] := by decide +kernel
  obtain ⟨complete, fails, drawn⟩ := facts
  obtain ⟨_, _, runs, _⟩ :=
    run_strict_or_pardon {} true "var r = 0\nmove 1 1\ncircle 10 / r"
  obtain ⟨answers, left⟩ :=
    runs _ (Program.compile_eq_ok_iff.mpr ⟨complete, rfl⟩)
  obtain ⟨canvas, store⟩ := left _ fails
  refine ⟨answers, drawn, ?_, store⟩
  rw [canvas, drawn]
  rfl

end Session

end PenScript
