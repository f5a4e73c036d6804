import PenScript.CommandLine
import PenScript.Proofs.Formatting
import PenScript.Proofs.History
import PenScript.Proofs.LineNumbers

/-!
# What is reported

Whoever listens to a session hears of every failure, and of each one once.  Only
a lenient run can have two of them to report: that a script could not be read to
its end, and that the part before failed.  On the command line this means that a
run ends well just when nothing is written beside its output, and the output has
one row for each stroke.
-/

namespace PenScript

/-! ### Sessions -/

namespace Session

/-- The diagnostics of a result: one for a failure, and none otherwise. -/
def diagnostics {α : Type} (config : Config) :
    Except Failure α → Array Diagnostic
  | .ok _ => #[]
  | .error failure => #[diagnose config failure]

/-- What an action reports.  A run reports on loading its script, and then on
executing it if it does so. -/
def reports (session : Session) : Action → Array Diagnostic
  | .load source => diagnostics session.config (session.load source).1
  | .execute => diagnostics session.config session.execute.1
  | .run source =>
      match (session.load source).1, session.config.leniency with
      | .error failure, .strict => #[diagnose session.config failure]
      | loading, _ =>
          diagnostics session.config loading ++
            diagnostics session.config (session.load source).2.execute.1
  | .reset => #[]
  | .draw _ => #[]

/-- What a number of actions report, one after the other. -/
def transcript (session : Session) : List Action → Array Diagnostic
  | [] => #[]
  | action :: rest =>
      session.reports action ++ (session.perform action).transcript rest

/-- Two additions to a log are one. -/
theorem map_append_map_append (log : Option (Array Diagnostic))
    (first second : Array Diagnostic) :
    (log.map (· ++ first)).map (· ++ second) =
      log.map (· ++ (first ++ second)) := by
  cases log with
  | none => rfl
  | some entries => exact congrArg some Array.append_assoc

theorem log_report (session : Session) (failure : Failure) :
    (session.report failure).log =
      session.log.map (· ++ #[diagnose session.config failure]) := by
  simp [report]

theorem log_load (session : Session) (source : String) :
    (session.load source).2.log =
      session.log.map
        (· ++ diagnostics session.config (session.load source).1) := by
  cases read : Program.compile source with
  | ok program =>
      rw [load_of_compile_ok read]
      simp [diagnostics]
  | error failure =>
      cases leniency : session.config.leniency with
      | strict =>
          rw [load_of_compile_error_strict read leniency]
          exact log_report _ failure
      | pardon =>
          rw [load_of_compile_error_pardon read leniency]
          exact log_report _ failure

theorem log_execute (session : Session) :
    session.execute.2.log =
      session.log.map (· ++ diagnostics session.config session.execute.1) := by
  cases ended : session.outcome with
  | ok answer final =>
      rw [execute_of_outcome_ok ended]
      simp [diagnostics]
  | error failure final =>
      cases leniency : session.config.leniency with
      | strict =>
          rw [execute_of_outcome_error_strict ended leniency]
          exact log_report _ failure
      | pardon =>
          rw [execute_of_outcome_error_pardon ended leniency]
          exact log_report _ failure

theorem config_load (session : Session) (source : String) :
    (session.load source).2.config = session.config :=
  congrArg Prod.fst (session.setup_load source)

/-- Executing what has been loaded adds to the report on the loading. -/
theorem log_load_execute (session : Session) (source : String) :
    (session.load source).2.execute.2.log =
      session.log.map
        (· ++ (diagnostics session.config (session.load source).1 ++
        diagnostics session.config (session.load source).2.execute.1)) := by
  rw [log_execute, log_load, config_load, map_append_map_append]

theorem log_run (session : Session) (source : String) :
    (session.run source).2.log =
      session.log.map (· ++ session.reports (.run source)) := by
  have both := session.log_load_execute source
  cases read : Program.compile source with
  | ok program =>
      have load := load_of_compile_ok read session
      rw [run_of_load_ok load]
      simp only [reports, load] at both ⊢
      exact both
  | error failure =>
      cases leniency : session.config.leniency with
      | strict =>
          rw [run_of_compile_error_strict read leniency, log_report]
          simp only [reports, load_of_compile_error_strict read leniency,
            leniency]
      | pardon =>
          rw [(run_of_compile_error_pardon read leniency).2]
          simp only [reports, load_of_compile_error_pardon read leniency,
            leniency] at both ⊢
          exact both

/-- An action adds its report to the log, and nothing else. -/
theorem log_perform (session : Session) (action : Action) :
    (session.perform action).log =
      session.log.map (· ++ session.reports action) := by
  cases action with
  | load source => exact session.log_load source
  | execute => exact session.log_execute
  | run source => exact session.log_run source
  | reset => simp [perform, reset, draw, reports]
  | draw stroke => simp [perform, draw, reports]

/-- The log is what the actions have reported, in their order. -/
theorem log_after (session : Session) (actions : List Action) :
    (session.after actions).log =
      session.log.map (· ++ session.transcript actions) := by
  induction actions generalizing session with
  | nil => simp [after, transcript]
  | cons action rest ih =>
      have later := ih (session.perform action)
      rw [log_perform, map_append_map_append] at later
      exact later

/-! ### Runs -/

/-- A lenient run of a script that cannot be read to its end, and the part
before fails as well. -/
def FailsTwice (session : Session) (source : String) : Prop :=
  session.config.leniency = .pardon ∧
    (∃ unread, Program.compile source = .error unread) ∧
    ∃ failure, (session.load source).2.execute.1 = .error failure

theorem reports_run_of_ok {session : Session} {source : String}
    (succeeded : (session.run source).1 = .ok ()) :
    session.reports (.run source) = #[] := by
  cases read : Program.compile source with
  | error unread =>
      exact absurd succeeded (run_ne_ok_of_compile_error read session)
  | ok program =>
      have load := load_of_compile_ok read session
      rw [run_of_load_ok load] at succeeded
      simp only [reports, load, diagnostics, succeeded, Array.append_empty]

/-- A run that fails twice reports first that its script could not be read. -/
theorem reports_run_of_pardon {session : Session} {source : String}
    {unread failure : Failure} (pardon : session.config.leniency = .pardon)
    (read : Program.compile source = .error unread)
    (failed : (session.load source).2.execute.1 = .error failure) :
    session.reports (.run source) =
      #[diagnose session.config unread, diagnose session.config failure] := by
  simp only [reports, session.load_eq_error_iff.mpr read, pardon, failed,
    diagnostics]
  rfl

/-- Any other run that fails reports what it returns. -/
theorem reports_run_of_error {session : Session} {source : String}
    {failure : Failure} (failed : (session.run source).1 = .error failure)
    (once : ¬session.FailsTwice source) :
    session.reports (.run source) = #[diagnose session.config failure] := by
  cases read : Program.compile source with
  | ok program =>
      have load := load_of_compile_ok read session
      rw [run_of_load_ok load] at failed
      simp only [reports, load, diagnostics, failed, Array.empty_append]
  | error unread =>
      have load := session.load_eq_error_iff.mpr read
      cases leniency : session.config.leniency with
      | strict =>
          rw [run_of_compile_error_strict read leniency] at failed
          cases failed
          simp only [reports, load, leniency]
      | pardon =>
          rw [(run_of_compile_error_pardon read leniency).2] at failed
          cases executed : (session.load source).2.execute.1 with
          | error other =>
              exact absurd ⟨leniency, ⟨unread, read⟩, other, executed⟩ once
          | ok answer =>
              rw [executed] at failed
              cases failed
              simp only [reports, load, leniency, executed, diagnostics,
                Array.append_empty]

theorem reports_run_eq_empty_iff (session : Session) (source : String) :
    session.reports (.run source) = #[] ↔ (session.run source).1 = .ok () := by
  constructor
  · intro silent
    cases ran : (session.run source).1 with
    | ok answer => rfl
    | error failure =>
        by_cases twice : session.FailsTwice source
        · obtain ⟨pardon, ⟨unread, read⟩, other, failed⟩ := twice
          rw [reports_run_of_pardon pardon read failed] at silent
          simp at silent
        · rw [reports_run_of_error ran twice] at silent
          simp at silent
  · exact reports_run_of_ok

theorem failsTwice_iff (session : Session) (source : String) :
    session.FailsTwice source ↔ (session.reports (.run source)).size = 2 := by
  constructor
  · rintro ⟨pardon, ⟨unread, read⟩, failure, failed⟩
    rw [reports_run_of_pardon pardon read failed]
    rfl
  · intro two
    by_contra once
    cases ran : (session.run source).1 with
    | ok answer =>
        rw [reports_run_of_ok ran] at two
        cases two
    | error failure =>
        rw [reports_run_of_error ran once] at two
        cases two

end Session

/-! ### Rows of the output -/

/-- A text without a line break. -/
def OneRow (text : String) : Prop :=
  '\n' ∉ text.toList

instance (text : String) : Decidable (OneRow text) :=
  inferInstanceAs (Decidable ('\n' ∉ text.toList))

namespace OneRow

theorem append {first second : String} (oneFirst : OneRow first)
    (oneSecond : OneRow second) :
    OneRow (first ++ second) := by
  intro member
  rw [String.toList_append] at member
  rcases List.mem_append.mp member with before | after
  · exact oneFirst before
  · exact oneSecond after

theorem ofList {text : List Char} (free : '\n' ∉ text) :
    OneRow (String.ofList text) := by
  rwa [OneRow, String.toList_ofList]

theorem intercalate {separator : String} {texts : List String}
    (oneSeparator : OneRow separator) (oneEach : ∀ text ∈ texts, OneRow text) :
    OneRow (separator.intercalate texts) := by
  induction texts with
  | nil => exact List.not_mem_nil
  | cons first rest ih =>
      obtain ⟨oneFirst, oneRest⟩ := List.forall_mem_cons.mp oneEach
      cases rest with
      | nil => simpa using oneFirst
      | cons second others =>
          rw [String.intercalate_cons_cons]
          exact (oneFirst.append oneSeparator).append (ih oneRest)

/-! #### Numbers and colors -/

theorem not_mem_toDigits (n : Nat) : '\n' ∉ Nat.toDigits 10 n := by
  intro member
  have digit := Nat.isDigit_of_mem_toDigits (by decide) (by decide) member
  cases digit

theorem intText (n : Int64) : OneRow (intText n) := by
  have natural (m : Nat) : OneRow m.repr := ofList (not_mem_toDigits m)
  unfold PenScript.intText
  cases n.toInt with
  | ofNat m => exact natural m
  | negSucc m => exact append (by decide) (natural (m + 1))

theorem not_mem_positional (decimal : Decimal) : '\n' ∉ decimal.positional := by
  have digits := not_mem_toDigits decimal.digits
  unfold Decimal.positional
  dsimp only
  split
  · simp [digits]
  · next places _ =>
      have padded : '\n' ∉ List.replicate
          (places + 2 - (Nat.toDigits 10 decimal.digits).length) '0' ++
            Nat.toDigits 10 decimal.digits := by
        simp [digits]
      intro member
      rcases List.mem_append.mp member with whole | fraction
      · exact padded (List.mem_of_mem_take whole)
      · rcases List.mem_cons.mp fraction with point | rest
        · cases point
        · exact padded (List.mem_of_mem_drop rest)

theorem doubleText (x : Float) : OneRow (doubleText x) := by
  unfold PenScript.doubleText Binary64.text
  split
  · decide
  · split <;> decide
  · next negative significand exponent _ =>
      have magnitude :=
        not_mem_positional (Decimal.shortest significand exponent)
      apply ofList
      split
      · simp [magnitude]
      · exact magnitude

theorem colorText (color : Color) : OneRow color.text := by
  have digit : ∀ n < 16, '\n' ≠ Nat.digitChar n := by decide
  have pair (value : UInt8) : '\n' ∉ Color.hexPair value := by
    have bound := value.toNat_lt
    simp only [Color.hexPair, List.mem_cons, List.not_mem_nil, or_false, not_or]
    exact ⟨digit _ (by omega), digit _ (by omega)⟩
  apply ofList
  simp [pair]

/-! #### Strokes -/

theorem enclosed {before text after : String} (oneBefore : OneRow before)
    (one : OneRow text) (oneAfter : OneRow after) :
    OneRow (before ++ text ++ after) :=
  (oneBefore.append one).append oneAfter

theorem coordinates {before : String} (oneBefore : OneRow before)
    (x y : Int64) :
    OneRow
      (before ++ PenScript.intText x ++ ", " ++ PenScript.intText y ++ ")") :=
  enclosed (enclosed oneBefore (intText x) (by decide)) (intText y) (by decide)

theorem strokeText (stroke : Stroke) : OneRow stroke.text := by
  cases stroke with
  | moveTo x y => exact coordinates (by decide) x y
  | lineTo x y => exact coordinates (by decide) x y
  | polygon points =>
      refine enclosed (by decide) (intercalate (by decide) ?_) (by decide)
      refine List.forall_mem_map.mpr ?_
      intro point _
      exact coordinates (by decide) point.x point.y
  | circle radius => exact enclosed (by decide) (doubleText radius) (by decide)
  | dot => decide
  | penColor color => exact enclosed (by decide) (colorText color) (by decide)
  | penWidth width => exact enclosed (by decide) (doubleText width) (by decide)
  | fillColor color => exact enclosed (by decide) (colorText color) (by decide)
  | fill enabled => cases enabled <;> decide
  | clear => decide

end OneRow

/-- Texts that are written with a line break behind each are the rows of what is
written. -/
theorem Line.rows_join {texts : List String}
    (oneEach : ∀ text ∈ texts, OneRow text) :
    rows (String.join (texts.map (· ++ "\n"))) =
      texts.map String.toList ++ [[]] := by
  induction texts with
  | nil => rfl
  | cons text rest ih =>
      obtain ⟨one, oneRest⟩ := List.forall_mem_cons.mp oneEach
      have plain : ∀ c ∈ text.toList, (c == '\n') = false := by
        intro c member
        rw [beq_eq_false_iff_ne]
        rintro rfl
        exact one member
      have divided : (String.join ((text :: rest).map (· ++ "\n"))).toList =
          text.toList ++ '\n' ::
            (String.join (rest.map (· ++ "\n"))).toList := by
        rw [List.map_cons, String.join_cons, String.toList_append,
          String.toList_append, List.append_assoc]
        rfl
      rw [rows, divided, Text.fields_append_cons plain rfl]
      exact congrArg _ (ih oneRest)

namespace CommandLine

theorem diagnosticText_ne_empty (diagnostic : Diagnostic) :
    diagnosticText diagnostic ≠ "" := by
  intro empty
  have lineBreak : "\n" = "" := (String.append_eq_empty_iff.mp empty).2
  exact absurd lineBreak (by decide)

/-- Nothing is written just when there are no diagnostics. -/
theorem join_diagnosticText_eq_empty_iff (diagnostics : Array Diagnostic) :
    String.join (diagnostics.toList.map diagnosticText) = "" ↔
      diagnostics = #[] := by
  obtain ⟨entries⟩ := diagnostics
  cases entries with
  | nil => simp
  | cons first rest =>
      simp [String.join_cons, diagnosticText_ne_empty]

section Script

variable (request : Request) (source : String)

theorem exit_runScript :
    (runScript request source).exit = 0 ↔
      ((Session.new request.config true).run source).1 = .ok () := by
  unfold runScript
  cases (Session.new request.config true).run source with
  | mk result session => cases result <;> simp

theorem errors_runScript :
    (runScript request source).errors = String.join
      ((((Session.new request.config true).run source).2.log.getD #[]).toList.map
        diagnosticText) := by
  unfold runScript
  cases (Session.new request.config true).run source with
  | mk result session => rfl

theorem output_runScript :
    (runScript request source).output = String.join
      ((((Session.new request.config true).run source).2.canvas.toList.map
        Stroke.text).map (· ++ "\n")) := by
  unfold runScript
  cases (Session.new request.config true).run source with
  | mk result session =>
      rw [List.map_map]
      rfl

end Script

end CommandLine

open Session in
/-- Whatever is done with a session that somebody listens to, its log is what
the actions have reported one after the other.  A load and an execution report
nothing if they succeed, and else their failure.  A run reports nothing just if
it succeeds, and else its failure; only if it fails twice are there two reports,
first that the script could not be read and then the failure of its execution.
So the command line answers a script that could be found with the exit code zero
just if it writes no diagnostic, and the rows of its output are the strokes on
the canvas. -/
theorem failures_reported_once :
    (∀ (config : Config) (actions : List Action),
      let session := (new config true).after actions
      let log := (new config true).transcript actions
      session.log = some log ∧
      (∀ action,
        (session.perform action).log = some (log ++ session.reports action)) ∧
      (∀ source count, (session.load source).1 = .ok count →
        session.reports (.load source) = #[]) ∧
      (∀ source failure, (session.load source).1 = .error failure →
        session.reports (.load source) = #[diagnose config failure]) ∧
      (session.execute.1 = .ok () → session.reports .execute = #[]) ∧
      (∀ failure, session.execute.1 = .error failure →
        session.reports .execute = #[diagnose config failure]) ∧
      ∀ source,
        (session.reports (.run source) = #[] ↔
          (session.run source).1 = .ok ()) ∧
        ((session.reports (.run source)).size = 2 ↔ session.FailsTwice source) ∧
        (∀ failure, (session.run source).1 = .error failure →
          ¬session.FailsTwice source →
          session.reports (.run source) = #[diagnose config failure]) ∧
        ∀ unread failure, config.leniency = .pardon →
          Program.compile source = .error unread →
          (session.load source).2.execute.1 = .error failure →
          session.reports (.run source) =
            #[diagnose config unread, diagnose config failure]) ∧
    ∀ (request : CommandLine.Request) (source : String),
      let outcome := (new request.config true).run source
      let response := CommandLine.respond request (.ok source)
      (response.exit = 0 ↔ response.errors = "") ∧
      (∃ diagnostics, outcome.2.log = some diagnostics ∧
        response.errors =
          String.join (diagnostics.toList.map CommandLine.diagnosticText) ∧
        (response.exit = 0 ↔ diagnostics = #[])) ∧
      Line.rows response.output =
        outcome.2.canvas.toList.map (fun stroke => stroke.text.toList) ++
          [[]] := by
  refine ⟨?_, ?_⟩
  · intro config actions session log
    have logged : session.log = some log := by
      refine (log_after (new config true) actions).trans ?_
      simp [new, log]
    have configured : session.config = config :=
      congrArg Prod.fst (setup_after (new config true) actions)
    refine ⟨logged, ?_, ?_, ?_, ?_, ?_, ?_⟩
    · intro action
      rw [log_perform, logged]
      rfl
    · intro source count succeeded
      simp only [reports, succeeded, diagnostics]
    · intro source failure failed
      simp only [reports, failed, diagnostics, configured]
    · intro succeeded
      simp only [reports, succeeded, diagnostics]
    · intro failure failed
      simp only [reports, failed, diagnostics, configured]
    · intro source
      refine ⟨session.reports_run_eq_empty_iff source,
        (session.failsTwice_iff source).symm, ?_, ?_⟩
      · intro failure failed once
        rw [reports_run_of_error failed once, configured]
      · intro unread failure pardon read failed
        rw [reports_run_of_pardon (configured ▸ pardon) read failed, configured]
  · intro request source outcome response
    have logged :
        outcome.2.log =
          some ((new request.config true).reports (.run source)) := by
      refine (log_run (new request.config true) source).trans ?_
      simp [new]
    have errors :
        response.errors = String.join (((new request.config true).reports
        (.run source)).toList.map CommandLine.diagnosticText) := by
      refine (CommandLine.errors_runScript request source).trans ?_
      rw [logged, Option.getD_some]
    have silent := (CommandLine.exit_runScript request source).trans
      (reports_run_eq_empty_iff (new request.config true) source).symm
    refine ⟨?_, ⟨_, logged, errors, silent⟩, ?_⟩
    · rw [errors, CommandLine.join_diagnosticText_eq_empty_iff]
      exact silent
    · refine (congrArg Line.rows
        (CommandLine.output_runScript request source)).trans ?_
      rw [Line.rows_join
        (List.forall_mem_map.mpr fun stroke _ => OneRow.strokeText stroke),
        List.map_map]
      rfl

open Session in
/-- A lenient run of a script that draws a dot, divides by zero and is not read
to its end.  Both failures are reported behind the one of an earlier load. -/
theorem failures_reported_once_pardoned :
    let source := "dot\nvar x = 1 / 0\nbogus"
    let session := (new ⟨.pardon, {}⟩ true).after [.load "nonsense"]
    let response := CommandLine.respond { pardon := true } (.ok source)
    (∃ unread failure log, session.log = some log ∧ log.size = 1 ∧
      (session.run source).2.log =
        some
          (log ++ #[diagnose ⟨.pardon, {}⟩ unread,
            diagnose ⟨.pardon, {}⟩ failure]) ∧
      unread.code = .unknownCommand ∧ failure.code = .divisionByZero) ∧
    response.exit = 1 ∧ response.errors ≠ "" ∧
    Line.rows response.output = ["draw_dot()".toList, []] := by
  intro source session response
  have facts :
      (Program.parse source .empty).failure =
        some ⟨.unknownCommand, 3, "bogus", "unknown command `bogus`"⟩ ∧
      (session.load source).2.execute.1 =
        .error ⟨.divisionByZero, 2, "Declare x as (1 / 0)",
          "division by zero"⟩ ∧
      ((new ⟨.pardon, {}⟩ true).transcript [.load "nonsense"]).size = 1 ∧
      response.exit = 1 ∧
      ((new ({ pardon := true } : CommandLine.Request).config true).run
        source).2.canvas =
        #[.dot] := by decide +kernel
  obtain ⟨stops, failed, one, exit, canvas⟩ := facts
  obtain ⟨logged, performed, _, _, _, _, runs⟩ :=
    failures_reported_once.1 ⟨.pardon, {}⟩ [.load "nonsense"]
  obtain ⟨exits, _, rows⟩ := failures_reported_once.2 { pardon := true } source
  have twice :=
    (runs source).2.2.2 _ _ rfl (Program.compile_eq_error_iff.mpr stops) failed
  have ran := performed (.run source)
  rw [twice] at ran
  refine ⟨⟨_, _, _, logged, one, ran, rfl, rfl⟩, exit, ?_, ?_⟩
  · intro silent
    rw [exits.mpr silent] at exit
    cases exit
  · rw [rows, canvas]
    rfl

end PenScript
