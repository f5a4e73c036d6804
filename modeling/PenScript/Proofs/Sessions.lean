import PenScript.Session
import PenScript.Proofs.Parsing
import PenScript.Proofs.Run

/-!
# What a session holds

However a session is used, its store holds literals under proper names, and its
program is as it was read: no operation in it has been carried out.  A run keeps
the store so because it sets no other variables than those that its commands
name.
-/

namespace PenScript

/-- A store as sessions keep it. -/
structure Store.Sound (store : Store) : Prop where
  literals : store.LiteralOnly
  proper : ∀ name ∈ store.names, Name.Proper name

theorem Store.Fresh.sound {store : Store} (fresh : store.Fresh) : store.Sound :=
  ⟨fresh.vacant.literalOnly, fresh.proper⟩

namespace Command

/-- A command as programs keep it. -/
structure Sound (command : Command) : Prop where
  unevaluated : ∀ value ∈ command.values, value.Unevaluated
  target : ∀ name, command.target? = some name → Name.Proper name
  defines : ∀ name, command.procedureName? = some name → Name.Proper name

theorem WellRead.sound {store : Store} {command : Command} (fresh : store.Fresh)
    (read : WellRead store command) : command.Sound where
  unevaluated value member := (read.values value member).unevaluated
  target name found :=
    fresh.proper name (Store.contains_iff_mem_names.mp (read.target name found))
  defines := read.defines

end Command

/-- Runs of sound commands keep a store sound. -/
def Execution.soundness : StoreInvariant (fun command _ => command.Sound) where
  Holds store := store.Sound
  literals sound := sound.literals
  setting result admitted target sound :=
    ⟨sound.literals.set _ result,
      Store.proper_insert sound.proper (admitted.target _ target) _⟩
  declaring admitted target sound :=
    ⟨sound.literals.insert_none _,
      Store.proper_insert sound.proper (admitted.target _ target) _⟩

/-- A program as sessions keep it. -/
def Program.Sound (program : Program) : Prop :=
  ∀ entry ∈ program.commands, entry.1.Sound

theorem Program.sound_empty : Program.empty.Sound := by
  intro entry member
  cases member

theorem Program.Parsed.WellRead.sound {parsed : Parsed}
    (read : parsed.WellRead) :
    parsed.program.Sound :=
  fun entry member => (read.read entry member).sound read.fresh

theorem Program.Sound.procedure {program : Program} (sound : program.Sound)
    {procedure : Procedure} (member : procedure ∈ program.procedures) :
    ∀ entry ∈ procedure.commands, entry.1.Sound :=
  (Program.forall_mem_commands.mp sound).2 procedure member

namespace Session

/-! ### Using a session -/

inductive Action where
  | load (source : String)
  | execute
  | run (source : String)
  | reset
  | draw (stroke : Stroke)

/-- Does something with a session, whether or not it succeeds. -/
def perform (session : Session) : Action → Session
  | .load source => (session.load source).2
  | .execute => session.execute.2
  | .run source => (session.run source).2
  | .reset => session.reset
  | .draw stroke => session.draw stroke

/-- The session after a number of actions. -/
def after (session : Session) (actions : List Action) : Session :=
  actions.foldl perform session

/-- What holds of a session at all times. -/
structure Sound (session : Session) : Prop where
  store : session.store.Sound
  program : session.program.Sound

theorem sound_new (config : Config) (listened : Bool) :
    (new config listened).Sound :=
  ⟨Store.fresh_empty.sound, Program.sound_empty⟩

/-- Loading leaves what has been read of the script, or nothing at all. -/
theorem load_session (session : Session) (source : String) :
    let loaded := (session.load source).2
    loaded.program = (Program.parse source .empty).program ∧
        loaded.store = (Program.parse source .empty).store ∨
      loaded.program = .empty ∧ loaded.store = .empty := by
  unfold load
  dsimp only
  split
  · exact .inl ⟨rfl, rfl⟩
  · split
    · exact .inr ⟨rfl, rfl⟩
    · exact .inl ⟨rfl, rfl⟩

/-- A script that has just been loaded has no values yet, even if it could not
be read. -/
theorem fresh_load (session : Session) (source : String) :
    (session.load source).2.store.Fresh := by
  rcases session.load_session source with ⟨_, parsed⟩ | ⟨_, empty⟩
  · rw [parsed]
    exact (Program.wellRead_parse source Store.fresh_empty).fresh
  · rw [empty]
    exact Store.fresh_empty

theorem sound_load (session : Session) (source : String) :
    (session.load source).2.Sound := by
  refine ⟨(session.fresh_load source).sound, ?_⟩
  rcases session.load_session source with ⟨parsed, _⟩ | ⟨empty, _⟩
  · rw [parsed]
    exact (Program.wellRead_parse source Store.fresh_empty).sound
  · rw [empty]
    exact Program.sound_empty

theorem execute_eq_ok_iff {session after : Session} :
    session.execute = (.ok (), after) ↔
      ∃ final : Machine,
        Execution.run session.config.limits session.program.procedures
          session.program.items ⟨session.canvas, session.store⟩ = .ok () final ∧
        after = { session with canvas := final.canvas, store :=
          final.store } := by
  unfold execute
  dsimp only
  split
  · next final outcome =>
      constructor
      · rintro ⟨⟩
        exact ⟨final, outcome, rfl⟩
      · rintro ⟨_, same, rfl⟩
        cases outcome.symm.trans same
        rfl
  · next outcome =>
      constructor
      · rintro ⟨⟩
      · rintro ⟨_, same, _⟩
        cases outcome.symm.trans same

theorem sound_execute {session : Session} (sound : session.Sound) :
    session.execute.2.Sound := by
  have kept := Execution.soundness.keeping.run
    (fun procedure member => sound.program.procedure member)
      session.config.limits
    (fun entry member => sound.program entry (List.mem_append_left _ member))
    ⟨session.canvas, session.store⟩ sound.store
  unfold execute
  dsimp only
  split
  · next outcome =>
      rw [outcome] at kept
      exact ⟨kept, sound.program⟩
  · next outcome =>
      rw [outcome] at kept
      split
      · exact ⟨Store.fresh_empty.sound, sound.program⟩
      · exact ⟨kept, sound.program⟩

/-- Running a script loads it, and then either executes it or leaves it at
that. -/
theorem run_session (session : Session) (source : String) :
    (session.run source).2 = (session.load source).2 ∨
      (session.run source).2 = (session.load source).2.execute.2 := by
  unfold run
  split
  · next loaded =>
      rw [loaded]
      exact .inr rfl
  · next loaded =>
      rw [loaded]
      split
      · exact .inl rfl
      · split
        · next executed => exact .inr (congrArg Prod.snd executed).symm
        · exact .inr rfl

theorem run_of_load_ok {session loaded : Session} {source : String}
    {count : Nat} (load : session.load source = (.ok count, loaded)) :
    session.run source = loaded.execute := by
  simp only [run, load]

theorem run_of_load_error_strict {session loaded : Session} {source : String}
    {failure : Failure} (load : session.load source = (.error failure, loaded))
    (strict : loaded.config.leniency = .strict) :
    session.run source = (.error failure, loaded) := by
  simp only [run, load, strict]

/-- A script that could be read in part is executed, and its failure comes after
that. -/
theorem run_of_load_error_pardon {session loaded : Session} {source : String}
    {failure : Failure} (load : session.load source = (.error failure, loaded))
    (pardon : loaded.config.leniency = .pardon) :
    session.run source =
      (loaded.execute.1 >>= fun _ => .error failure, loaded.execute.2) := by
  simp only [run, load, pardon]
  cases executed : loaded.execute with
  | mk answer after => cases answer <;> rfl

theorem sound_run (session : Session) (source : String) :
    (session.run source).2.Sound := by
  have loaded := session.sound_load source
  rcases session.run_session source with same | same
  · rw [same]
    exact loaded
  · rw [same]
    exact sound_execute loaded

theorem sound_perform {session : Session} (sound : session.Sound)
    (action : Action) :
    (session.perform action).Sound := by
  cases action with
  | load source => exact session.sound_load source
  | execute => exact sound_execute sound
  | run source => exact session.sound_run source
  | reset => exact ⟨Store.fresh_empty.sound, Program.sound_empty⟩
  | draw stroke => exact ⟨sound.store, sound.program⟩

theorem sound_after {session : Session} (sound : session.Sound)
    (actions : List Action) :
    (session.after actions).Sound := by
  induction actions generalizing session with
  | nil => exact sound
  | cons action rest ih => exact ih (sound_perform sound action)

/-- In whatever way a session has been used, and whatever has failed: its values
are literals, no operation in its program has been carried out, and the names of
its variables and procedures are proper.  A script that is loaded next starts
without values. -/
theorem state_after_actions (config : Config) (listened : Bool)
    (actions : List Action) :
    let session := (new config listened).after actions
    (∀ slot ∈ session.store.slots, ∀ value, slot.2 = some value →
      ∃ result, value = .literal result) ∧
    (∀ entry ∈ session.program.commands, ∀ value ∈ entry.1.values,
      value.Unevaluated) ∧
    (∀ name ∈ session.store.names, Name.Proper name) ∧
    (∀ procedure ∈ session.program.procedures, Name.Proper procedure.name) ∧
    ∀ source, ∀ slot ∈ (session.load source).2.store.slots, slot.2 = none := by
  intro session
  have sound : session.Sound := sound_after (sound_new config listened) actions
  refine ⟨sound.store.literals, ?_, sound.store.proper, ?_, ?_⟩
  · intro entry member
    exact (sound.program entry member).unevaluated
  · intro procedure member
    exact (sound.program.procedure member
      (.define procedure.name, procedure.line) List.mem_cons_self).defines _ rfl
  · intro source
    exact (session.fresh_load source).vacant

/-- After a script with a procedure has been executed, its variable holds a
literal, and both names are proper. -/
theorem state_after_actions_with_procedure :
    let session := (new {} true).after
      [.load "var x = 1\ndef p\nx = x + 1\nend\ncall p", .execute]
    session.store.slots = [("x", some (.literal (.int 2)))] ∧
    session.program.procedures.map Procedure.name = ["p"] ∧
    Name.Proper "x" ∧ Name.Proper "p" := by
  have state := state_after_actions {} true
    [.load "var x = 1\ndef p\nx = x + 1\nend\ncall p", .execute]
  have slots : ((new {} true).after
      [.load "var x = 1\ndef p\nx = x + 1\nend\ncall p",
        .execute]).store.slots =
        [("x", some (.literal (.int 2)))] := by decide +kernel
  have procedures : ((new {} true).after
      [.load "var x = 1\ndef p\nx = x + 1\nend\ncall p",
        .execute]).program.procedures.map
        Procedure.name = ["p"] := by decide +kernel
  generalize (new {} true).after
    [.load "var x = 1\ndef p\nx = x + 1\nend\ncall p", .execute] = session
    at state slots procedures ⊢
  obtain ⟨_, _, declared, defined, _⟩ := state
  refine ⟨slots, procedures, declared "x" (by simp [Store.names, slots]), ?_⟩
  obtain ⟨procedure, member, named⟩ : ∃ procedure ∈ session.program.procedures,
      procedure.name = "p" := List.mem_map.mp (by simp [procedures])
  rw [← named]
  exact defined procedure member

end Session

end PenScript
