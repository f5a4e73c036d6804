import PenScript.Proofs.Course
import PenScript.Proofs.Sessions

/-!
# Closed names

Every variable that a script mentions is declared when its line is read.  A run
then has nothing to declare: it keeps the names that it starts with, and a
variable that has a value never loses it.  What fails is an evaluation, a limit,
or the call of a procedure that does not exist.
-/

namespace PenScript

open Stateful

/-- The variables that a command mentions. -/
def Command.variables (command : Command) : List String :=
  command.target?.toList ++ command.values.flatMap Value.variables

/-- The variables of a command are among the given names. -/
def Command.Within (names : List String) (command : Command) (_line : Nat) :
    Prop :=
  ∀ name ∈ command.variables, name ∈ names

theorem Command.Within.target {names : List String} {command : Command}
    {line : Nat} (within : command.Within names line) {name : String}
    (target : command.target? = some name) :
    name ∈ names :=
  within name (List.mem_append_left _ (Option.mem_toList.mpr target))

theorem Command.Within.values {names : List String} {command : Command}
    {line : Nat} (within : command.Within names line) :
    ∀ value ∈ command.values, ∀ name ∈ value.variables, name ∈ names :=
  fun value member name inside =>
    within name
      (List.mem_append_right _ (List.mem_flatMap.mpr ⟨value, member, inside⟩))

theorem Value.Written.variables {declared : String → Bool} {value : Value}
    (written : value.Written declared) :
    ∀ name ∈ value.variables, declared name = true := by
  induction value with
  | literal =>
      intro name member
      cases member
  | settled =>
      intro name member
      cases member
  | reference name =>
      intro other member
      rw [List.mem_singleton.mp member]
      exact written
  | pending op left right ihLeft ihRight =>
      exact List.forall_mem_append.mpr ⟨ihLeft written.1, ihRight written.2⟩

theorem Command.WellRead.variables {store : Store} {command : Command}
    (read : command.WellRead store) (line : Nat) :
    command.Within store.names line := by
  refine List.forall_mem_append.mpr ⟨?_, ?_⟩
  · intro name member
    exact Store.contains_iff_mem_names.mp
      (read.target name (Option.mem_toList.mp member))
  · intro name member
    obtain ⟨value, inside, mentioned⟩ := List.mem_flatMap.mp member
    exact Store.contains_iff_mem_names.mp
      ((read.values value inside).variables name mentioned)

/-! ### Faults of evaluation -/

theorem Arithmetic.ofComputation_of_apply {op : Arithmetic}
    {left right : Literal} {fault : ValueFault}
    (failed : op.apply left right = .error fault) :
    fault.ofComputation = true := by
  unfold apply at failed
  split at failed
  · cases op <;> simp only [applyInt] at failed <;> grind
      [ValueFault.ofComputation]
  · cases op <;> simp only [applyDouble] at failed <;> grind
      [ValueFault.ofComputation]
  · cases op <;> cases failed
    rfl
  · cases failed
    rfl
  · cases failed
    rfl

theorem Comparison.ofComputation_of_apply {op : Comparison}
    {left right : Literal} {fault : ValueFault}
    (failed : op.apply left right = .error fault) :
    fault.ofComputation = true := by
  unfold apply at failed
  split at failed
  · cases failed
  · cases failed
  · cases op <;> cases failed <;> rfl
  · cases op <;> cases failed <;> rfl
  · cases failed
    rfl

/-- An operator does not look at variables. -/
theorem Operator.ofComputation_of_apply {op : Operator} {left right : Literal}
    {fault : ValueFault} (failed : op.apply left right = .error fault) :
    fault.ofComputation = true := by
  cases op with
  | arithmetic op => exact Arithmetic.ofComputation_of_apply failed
  | comparison op => exact Comparison.ofComputation_of_apply failed

theorem Store.category_of_literal {store : Store} {name : String}
    (declared : name ∈ store.names) {fault : ValueFault}
    (failed : store.literal name = .error fault) :
    fault.code.category = .evaluation := by
  rw [← Store.contains_iff_mem_names, Store.contains] at declared
  unfold Store.literal at failed
  split at failed
  · next missing =>
      rw [missing] at declared
      cases declared
  · cases failed
  · cases failed
    rfl

/-- Where all its variables are declared, a value can only fail by its
evaluation. -/
theorem Value.category_of_plain {store : Store} {value : Value}
    (declared : ∀ name ∈ value.variables, name ∈ store.names)
    {fault : ValueFault} (failed : value.plain store.literal = .error fault) :
    fault.code.category = .evaluation := by
  induction value with
  | literal => cases failed
  | settled => cases failed
  | reference name =>
      exact Store.category_of_literal (declared name List.mem_cons_self) failed
  | pending op left right ihLeft ihRight =>
      obtain ⟨declaredLeft, declaredRight⟩ := List.forall_mem_append.mp declared
      unfold plain at failed
      split at failed
      · next leftFailed =>
          cases failed
          exact ihLeft declaredLeft leftFailed
      · split at failed
        · next rightFailed =>
            cases failed
            exact ihRight declaredRight rightFailed
        · exact ValueFault.category_of_ofComputation
            (Operator.ofComputation_of_apply failed)

/-! ### Closed stores -/

/-- A store of literals that declares the given names. -/
structure Store.Closed (names : List String) (store : Store) : Prop where
  literals : store.LiteralOnly
  declares : store.names = names

/-- A computation that leaves a closed store alone, and can only fail by an
evaluation. -/
structure ReadsClosed (names : List String) {α : Type}
    (action : Value.Reading α) : Prop where
  steady : Steady action
  fails : ∀ {store final : Store} {fault : ValueFault}, store.Closed names →
    action store = .error fault final → fault.code.category = .evaluation

/-- Values whose variables are declared are read so. -/
def ReadsClosed.property (names : List String) : ReadingProperty where
  Admits value := ∀ name ∈ value.variables, name ∈ names
  Holds action := ReadsClosed names action
  returning answer := ⟨.returning answer, fun _ failed => by cases failed⟩
  failing computed := ⟨.failing _, fun _ failed => by
    cases failed
    exact ValueFault.category_of_ofComputation computed⟩
  sequence := by
    intro α β first next closedFirst closedNext
    refine ⟨closedFirst.steady.sequence fun answer =>
      (closedNext answer).steady, ?_⟩
    intro store final fault closed failed
    cases outcome : first store with
    | error cause middle =>
        rw [bind_of_error outcome] at failed
        cases failed
        exact closedFirst.fails closed outcome
    | ok answer middle =>
        rw [bind_of_ok outcome] at failed
        cases closedFirst.steady.keeps_ok closed.literals outcome
        exact (closedNext answer).fails closed failed
  reading := by
    intro value declared
    refine ⟨.read value, ?_⟩
    intro store final fault closed failed
    rw [value.read_of_literalOnly closed.literals] at failed
    cases answered : value.plain store.literal with
    | ok result =>
        rw [answered] at failed
        cases failed
    | error cause =>
        rw [answered] at failed
        cases failed
        exact Value.category_of_plain (closed.declares ▸ declared) answered

/-- What can fail in a run of a script that has been read. -/
def Fault.Code.OfRun (code : Fault.Code) : Prop :=
  code = .undefinedProcedure ∨ code.category = .evaluation ∨
  code.category = .limit

/-- A variable that has a value in the first store has one in the second,
too. -/
def Store.FilledIn (before after : Store) : Prop :=
  ∀ name, (before.value? name).isSome = true → (after.value? name).isSome = true

theorem Store.FilledIn.refl (store : Store) : store.FilledIn store :=
  fun _ filled => filled

theorem Store.filledIn_set (store : Store) (name : String) (value : Value) :
    store.FilledIn (store.set name value) := by
  intro other filled
  rw [value?_set]
  split
  · rfl
  · exact filled

theorem Store.Closed.set {names : List String} {store : Store}
    (closed : store.Closed names) {name : String} (declared : name ∈ names)
    (result : Literal) :
    (store.set name (.literal result)).Closed names where
  literals := closed.literals.set name result
  declares := by
    rw [← closed.declares] at declared
    rw [Store.set, Store.names_insert, if_pos declared]
    exact closed.declares

namespace Execution

/-- What comes of running commands with declared variables at a closed store. -/
structure ClosedOutcome (names : List String) (before : Store) {α : Type}
    (outcome : EStateM.Result Failure Machine α) : Prop where
  closed : (finalState outcome).store.Closed names
  filled : before.FilledIn (finalState outcome).store
  fails : ∀ {failure : Failure} {final : Machine},
    outcome = .error failure final →
    failure.code.OfRun

namespace ClosedOutcome

variable {names : List String} {α : Type} {before : Store} {machine : Machine}

theorem ok (answer : α) (closed : machine.store.Closed names)
    (filled : before.FilledIn machine.store) :
    ClosedOutcome names before (.ok answer machine :
      EStateM.Result Failure Machine α) :=
  ⟨closed, filled, fun failed => by cases failed⟩

theorem error {failure : Failure} (closed : machine.store.Closed names)
    (ofRun : failure.code.OfRun) :
    ClosedOutcome names machine.store (.error failure machine :
      EStateM.Result Failure Machine α) :=
  ⟨closed, .refl _, fun failed => by cases failed; exact ofRun⟩

theorem earlier {outcome : EStateM.Result Failure Machine α} {first : Store}
    (later : ClosedOutcome names before outcome)
    (filled : first.FilledIn before) :
    ClosedOutcome names first outcome :=
  ⟨later.closed, fun name first => later.filled name (filled name first),
    later.fails⟩

end ClosedOutcome

/-- An execution that keeps a closed store closed. -/
def StaysClosed (names : List String) {α : Type} (execution : Execution α) :
    Prop :=
  ∀ machine, machine.store.Closed names →
    ClosedOutcome names machine.store (execution machine)

section Closed

variable {names : List String}

theorem staysClosed_reading {α : Type} (command : Command) (line : Nat)
    {action : Value.Reading α} (reads : ReadsClosed names action) :
    StaysClosed names (reading command line action) := by
  intro machine closed
  unfold reading
  cases outcome : action machine.store with
  | ok answer store =>
      cases reads.steady.keeps_ok closed.literals outcome
      exact .ok answer closed (.refl _)
  | error fault store =>
      cases reads.steady.keeps_error closed.literals outcome
      exact .error closed (.inr (.inl (reads.fails closed outcome)))

theorem category_of_effect {command : Command} {line : Nat}
    (declared : command.Within names line) {store final : Store} {fault : Fault}
    (closed : store.Closed names)
    (failed : command.effect store = .error fault final) :
    fault.code.category = .evaluation := by
  cases (ReadsClosed.property names).effectForm command declared.values with
  | drawing stroke reads form =>
      rw [form] at failed
      obtain ⟨cause, unread, rfl⟩ := Command.adapted_eq_error failed
      exact reads.fails closed unread
  | assigning name value target admitted form =>
      rw [form] at failed
      obtain ⟨cause, unread, rfl⟩ := Command.adapted_eq_error failed
      exact ((ReadsClosed.property names).reading admitted).fails closed unread
  | declaring name form =>
      subst form
      have present : store.contains name = true := by
        rw [Store.contains_iff_mem_names, closed.declares]
        exact declared.target rfl
      rw [Command.effect, Command.declaring, if_pos present] at failed
      cases failed
  | idle form =>
      rw [form] at failed
      cases failed

/-- Reading a line has declared its variable, so running it finds nothing to
declare. -/
theorem staysClosed_performing {command : Command} {line : Nat}
    (declared : command.Within names line) :
    StaysClosed names (performing command line) := by
  intro machine closed
  have same := command.finalState_effect closed.literals
  unfold performing Command.perform
  cases outcome : command.effect machine.store with
  | error fault store =>
      rw [outcome] at same
      cases same
      exact .error closed
        (.inr (.inl (category_of_effect declared closed outcome)))
  | ok effect store =>
      rw [outcome] at same
      cases same
      cases Command.yields_of_effect outcome with
      | draw stroke => exact .ok _ closed (.refl _)
      | assign name result target =>
          exact .ok _ (closed.set (declared.target target) result)
            (machine.store.filledIn_set name (.literal result))
      | declare name target missing =>
          have present := declared.target target
          rw [← closed.declares, ← Store.contains_iff_mem_names, missing]
              at present
          cases present
      | idle => exact .ok _ closed (.refl _)

/-- Runs of commands whose variables are declared keep a closed store closed. -/
def closedness (names : List String) : RunProperty (Command.Within names) where
  Holds execution := StaysClosed names execution
  returning answer machine closed := .ok answer closed (.refl _)
  sequence := by
    intro α β first next staysFirst staysNext machine closed
    have middleClosed := staysFirst machine closed
    cases outcome : first machine with
    | error failure middle =>
        rw [bind_of_error outcome]
        rw [outcome] at middleClosed
        exact (ClosedOutcome.error middleClosed.closed
          (middleClosed.fails rfl)).earlier middleClosed.filled
    | ok answer middle =>
        rw [bind_of_ok outcome]
        rw [outcome] at middleClosed
        exact (staysNext answer middle middleClosed.closed).earlier
          middleClosed.filled
  stopping fault _ _ _ machine closed := by
    refine .error closed ?_
    cases fault with
    | undefinedProcedure name => exact .inl rfl
    | tooManyIterations limit => exact .inr (.inr rfl)
    | tooDeep limit name => exact .inr (.inr rfl)
  performing declared := staysClosed_performing declared
  guarding := by
    intro header line guard declared reads
    have member : guard ∈ header.values := by simp [reads]
    exact staysClosed_reading header line
      ((ReadsClosed.property names).readBool (declared.values guard member))
  bounding := by
    intro counter start stop step line declared
    exact staysClosed_reading _ line
      ((ReadsClosed.property names).readRange declared.values)
  counting value declared machine closed :=
    .ok _ (closed.set (declared.target rfl) _) (machine.store.filledIn_set _ _)

/-- What one state of a course has in common with all later ones. -/
theorem State.Reaches.closed {limits : Limits} {procedures : List Procedure}
    (defined : ∀ procedure ∈ procedures, ∀ entry ∈ procedure.commands,
      entry.1.Within names entry.2)
    {before after : State} (reaches : Reaches limits procedures before after)
    (admitted : before.Admitted (Command.Within names))
    (closed : before.machine.store.Closed names) :
    after.Admitted (Command.Within names) ∧ after.machine.store.Closed names ∧
      before.machine.store.FilledIn after.machine.store := by
  refine reaches.keeps (closedness names)
    (fun machine => machine.store.Closed names ∧
      before.machine.store.FilledIn machine.store)
    ?_ defined admitted ⟨closed, .refl _⟩
  rintro execution stays machine ⟨closedHere, filled⟩
  have outcome := (stays machine closedHere).earlier filled
  exact ⟨outcome.closed, outcome.filled⟩

end Closed

end Execution

/-! ### Sessions -/

theorem Fault.Code.text_of_ofRun {code : Fault.Code} (ofRun : code.OfRun) :
    code.text ∈ ["N005", "E001", "E002", "E003", "E004", "E005", "E006", "R001",
      "R002"] := by
  unfold OfRun at ofRun
  revert ofRun
  cases code <;> decide

namespace Session

open Execution.State (Reaches)

/-- Every variable in a script that has been loaded, as a whole or in part, is
declared. -/
theorem within_load (session : Session) (source : String) :
    let loaded := (session.load source).2
    ∀ entry ∈ loaded.program.commands,
      entry.1.Within loaded.store.names entry.2 := by
  intro loaded entry member
  rcases session.load_session source with ⟨program, store⟩ | ⟨empty, _⟩
  · rw [program] at member
    rw [store]
    exact ((Program.wellRead_parse source Store.fresh_empty).read entry
      member).variables _
  · rw [empty] at member
    cases member

/-- The course of the loaded script, before its first step. -/
def course (session : Session) : Execution.State :=
  .start session.program.items ⟨session.canvas, session.store⟩

/-- One state of the course of the loaded script comes after another one. -/
def Leads (session : Session) : Execution.State → Execution.State → Prop :=
  Reaches session.config.limits session.program.procedures

def outcome (session : Session) : EStateM.Result Failure Machine Unit :=
  Execution.run session.config.limits session.program.procedures
    session.program.items ⟨session.canvas, session.store⟩

theorem leads_outcome (session : Session) :
    session.Leads session.course (.ended session.outcome) :=
  Execution.reaches_run _ _ _ _

/-- Execution fails if the run does.  Only a strict session that fails gives up
the store. -/
theorem execute_outcome (session : Session) :
    (∀ failure, session.execute.1 = .error failure →
      ∃ final, session.outcome = .error failure final) ∧
    (session.execute.2.store = (finalState session.outcome).store ∨
      session.config.leniency = .strict ∧
      (∃ failure, session.execute.1 = .error failure) ∧
        session.execute.2.store = .empty) := by
  unfold execute outcome
  dsimp only
  split
  · next machine ended =>
      rw [ended]
      refine ⟨?_, .inl rfl⟩
      intro failure failed
      cases failed
  · next failure machine ended =>
      rw [ended]
      constructor
      · intro other failed
        cases failed
        exact ⟨machine, rfl⟩
      · cases session.config.leniency with
        | strict => exact .inr ⟨rfl, ⟨failure, rfl⟩, rfl⟩
        | pardon => exact .inl rfl

/-- Once a script has been loaded, as a whole or in part, every variable in it
is declared.  When it is executed, only evaluations, limits and calls of
procedures that do not exist can fail.  On its course no name is declared or
lost, and no variable with a value becomes one without; its store is what
remains, unless a strict session has failed. -/
theorem closed_names_after_load (session : Session) (source : String) :
    let loaded := (session.load source).2
    (∀ entry ∈ loaded.program.commands, ∀ name ∈ entry.1.variables,
      name ∈ loaded.store.names) ∧
    (∀ failure, loaded.execute.1 = .error failure → failure.code.text ∈
      ["N005", "E001", "E002", "E003", "E004", "E005", "E006",
        "R001", "R002"]) ∧
    (∀ earlier later, loaded.Leads loaded.course earlier →
      loaded.Leads earlier later →
      later.machine.store.names = loaded.store.names ∧
      ∀ name, (earlier.machine.store.value? name).isSome = true →
        (later.machine.store.value? name).isSome = true) ∧
    loaded.Leads loaded.course (.ended loaded.outcome) ∧
    (loaded.execute.2.store = (finalState loaded.outcome).store ∧
        loaded.execute.2.store.names = loaded.store.names ∨
      loaded.config.leniency = .strict ∧
      (∃ failure, loaded.execute.1 = .error failure) ∧
        loaded.execute.2.store = .empty) := by
  intro loaded
  have within := session.within_load source
  have defined :
      ∀ procedure ∈ loaded.program.procedures, ∀ entry ∈ procedure.commands,
      entry.1.Within loaded.store.names entry.2 :=
        fun procedure member entry inside =>
    within entry
      (List.mem_append_right _
        (List.mem_flatMap.mpr ⟨procedure, member, inside⟩))
  have items : ∀ entry ∈ Node.commandsList loaded.program.items,
      entry.1.Within loaded.store.names entry.2 := fun entry member =>
    within entry (List.mem_append_left _ member)
  have closed : loaded.store.Closed loaded.store.names :=
    ⟨(session.fresh_load source).vacant.literalOnly, rfl⟩
  have course {state : Execution.State}
      (leads : loaded.Leads loaded.course state) :=
    leads.closed defined (Execution.State.admitted_start items _) closed
  obtain ⟨failed, store⟩ := loaded.execute_outcome
  refine ⟨within, ?_, ?_, loaded.leads_outcome, ?_⟩
  · intro failure reported
    obtain ⟨final, ended⟩ := failed failure reported
    have ran :=
      (Execution.closedness loaded.store.names).run defined loaded.config.limits
        items ⟨loaded.canvas, loaded.store⟩ closed
    exact Fault.Code.text_of_ofRun (ran.fails ended)
  · intro earlier later leadsEarlier leadsLater
    obtain ⟨admitted, closedEarlier, _⟩ := course leadsEarlier
    obtain ⟨_, closedLater, filled⟩ :=
      leadsLater.closed defined admitted closedEarlier
    exact ⟨closedLater.declares, filled⟩
  · refine store.imp_left fun same => ⟨same, ?_⟩
    rw [same]
    exact (course loaded.leads_outcome).2.1.declares

/-- A pardoned script that declares a variable in a loop, and then calls a
procedure whose definition is never closed. -/
theorem closed_names_after_load_partial_script :
    let loaded := ((new ⟨.pardon, {}⟩ false).load
      "var x = 1\nwhile x < 3\nvar y\ny = x\nx = x + 1\nend\ncall p\ndef p").2
    loaded.store.names = ["x", "y"] ∧
    loaded.execute.2.store.names = ["x", "y"] ∧
    ∃ failure, loaded.execute.1 = .error failure ∧ failure.code.text ∈
      ["N005", "E001", "E002", "E003", "E004", "E005", "E006", "R001",
        "R002"] := by
  have closed := closed_names_after_load (new ⟨.pardon, {}⟩ false)
    "var x = 1\nwhile x < 3\nvar y\ny = x\nx = x + 1\nend\ncall p\ndef p"
  have facts : let loaded := ((new ⟨.pardon, {}⟩ false).load
      "var x = 1\nwhile x < 3\nvar y\ny = x\nx = x + 1\nend\ncall p\ndef p").2
      loaded.store.names = ["x", "y"] ∧ loaded.config.leniency = .pardon ∧
        loaded.execute.1.isOk = false := by decide +kernel
  generalize ((new ⟨.pardon, {}⟩ false).load
    "var x = 1\nwhile x < 3\nvar y\ny = x\nx = x + 1\nend\ncall p\ndef p").2 =
      loaded at closed facts ⊢
  obtain ⟨names, pardons, fails⟩ := facts
  obtain ⟨_, codes, _, _, kept⟩ := closed
  refine ⟨names, ?_, ?_⟩
  · rcases kept with ⟨_, same⟩ | ⟨strict, _⟩
    · exact same.trans names
    · cases pardons.symm.trans strict
  · cases outcome : loaded.execute.1 with
    | ok _ =>
        rw [outcome] at fails
        cases fails
    | error failure => exact ⟨failure, rfl, codes failure outcome⟩

end Session

end PenScript
