import PenScript.Proofs.History
import PenScript.Proofs.Leniency
import PenScript.Proofs.Termination

/-!
# Executing a script after a rollback

A strict session that has failed keeps its program and gives up its store, and
with it the variables that were declared when the script was read.  If the
script is executed again, it takes the same course and fails at the same place.
At each moment the store is that of the first run without the variables that
have no value, unless the course has come to the line that declares them.  So
only a variable that is read before it has a value can tell the two runs apart.
-/

namespace PenScript

open Stateful

/-- The variable that a command declares without a value. -/
def Command.announced : Command → List String
  | .declare name none => [name]
  | _ => []

theorem Command.eq_declare_of_announced {command : Command}
    (announces : command.announced ≠ []) :
    ∃ name, command = .declare name none := by
  unfold Command.announced at announces
  split at announces
  · next name => exact ⟨name, rfl⟩
  · exact absurd rfl announces

/-! ### Stores without the variables that have no value -/

/-- `pruned` is what is left of `full` without the variables that have no value,
apart from those that are announced. -/
structure Store.Prunes (announced : List String) (full pruned : Store) :
    Prop where
  literals : pruned.LiteralOnly
  keeps : ∀ {name}, (full.value? name).isSome = true ∨ name ∈ announced →
    pruned.find? name = full.find? name
  drops : ∀ {name}, full.value? name = none → name ∉ announced →
    pruned.find? name = none

namespace Store.Prunes

variable {announced : List String} {full pruned : Store}

/-- Nothing is left of a store without values. -/
theorem of_vacant (vacant : full.Vacant) : full.Prunes [] .empty where
  literals := Store.literalOnly_empty
  keeps kept := by simp [vacant.value?_eq_none] at kept
  drops _ _ := rfl

theorem below (prunes : full.Prunes announced pruned) : full.Below pruned := by
  intro name value found
  have kept : pruned.find? name = full.find? name :=
    prunes.keeps (.inl (by rw [found]; rfl))
  rw [Store.value?_eq_some_iff] at found ⊢
  exact kept.trans found

theorem set (prunes : full.Prunes announced pruned) (name : String)
    (result : Literal) :
    (full.set name (.literal result)).Prunes announced
      (pruned.set name (.literal result)) where
  literals := prunes.literals.set name result
  keeps := by
    intro other kept
    simp only [Store.value?_set] at kept
    simp only [Store.set, Store.find?_insert]
    split
    · rfl
    · next different => exact prunes.keeps (by simpa [different] using kept)
  drops := by
    intro other missing unannounced
    rw [Store.value?_set] at missing
    split at missing
    · cases missing
    · next different =>
        rw [Store.set, Store.find?_insert, if_neg different]
        exact prunes.drops missing unannounced

/-- A variable that is in the pruned store is there as it is in the full one. -/
theorem find?_of_contains (prunes : full.Prunes announced pruned)
    {name : String} (present : pruned.contains name = true) :
    pruned.find? name = full.find? name := by
  by_cases kept : (full.value? name).isSome = true ∨ name ∈ announced
  · exact prunes.keeps kept
  · obtain ⟨novalue, unannounced⟩ := not_or.mp kept
    have missing :=
      prunes.drops (Option.not_isSome_iff_eq_none.mp novalue) unannounced
    simp [Store.contains, missing] at present

theorem value?_of_not_contains (prunes : full.Prunes announced pruned)
    {name : String} (missing : pruned.contains name = false) :
    full.value? name = none := by
  cases found : full.value? name with
  | none => rfl
  | some value =>
      have present := Store.contains_of_value? (prunes.below name value found)
      rw [missing] at present
      cases present

/-- Announcing a variable adds it to the pruned store, if it is not there
already. -/
theorem announce (prunes : full.Prunes announced pruned) {name : String}
    (declared : name ∈ full.names) :
    full.Prunes (announced ++ [name])
      (if pruned.contains name then pruned else pruned.insert name none) := by
  split
  · next present =>
      refine ⟨prunes.literals, ?_, ?_⟩
      · intro other kept
        by_cases here : other = name
        · rw [here]
          exact prunes.find?_of_contains present
        · exact prunes.keeps (by simpa [here] using kept)
      · intro other novalue unannounced
        exact prunes.drops novalue fun earlier =>
          unannounced (List.mem_append_left _ earlier)
  · next missing =>
      have novalue :=
        prunes.value?_of_not_contains (Bool.not_eq_true _ ▸ missing)
      have slot : full.find? name = some none := by
        rw [← Store.contains_iff_mem_names] at declared
        obtain ⟨held, found⟩ := Option.isSome_iff_exists.mp declared
        cases held with
        | none => exact found
        | some value => simp [Store.value?, found] at novalue
      refine ⟨prunes.literals.insert_none name, ?_, ?_⟩
      · intro other kept
        rw [Store.find?_insert]
        split
        · next here => rw [here, slot]
        · next different => exact prunes.keeps (by simpa [different] using kept)
      · intro other otherNovalue unannounced
        simp only [List.mem_append, List.mem_singleton, not_or] at unannounced
        rw [Store.find?_insert, if_neg unannounced.2]
        exact prunes.drops otherNovalue unannounced.1

end Store.Prunes

/-! ### Reading from a pruned store -/

/-- The fault at the pruned store, where the one at the full store is given. -/
def ValueFault.echo (announced : List String) : ValueFault → ValueFault
  | .uninitialised name =>
      if name ∈ announced then .uninitialised name else .undeclared name
  | fault => fault

theorem ValueFault.echo_of_ofComputation {announced : List String}
    {fault : ValueFault} (computed : fault.ofComputation = true) :
    fault.echo announced = fault := by
  cases fault <;> first | rfl | cases computed

section Reading

variable {names announced : List String} {full pruned : Store}

/-- A declared variable fails to be read only if it has no value. -/
theorem Store.Closed.literal_eq_error (closed : full.Closed names)
    {name : String} (declared : name ∈ names) {fault : ValueFault}
    (failed : full.literal name = .error fault) :
    full.find? name = some none ∧ fault = .uninitialised name := by
  rw [← closed.declares, ← Store.contains_iff_mem_names] at declared
  obtain ⟨slot, found⟩ := Option.isSome_iff_exists.mp declared
  cases slot with
  | none =>
      rw [Store.literal, found] at failed
      cases failed
      exact ⟨found, rfl⟩
  | some value =>
      obtain ⟨result, rfl⟩ :=
        closed.literals.value?_literal (Store.value?_eq_some_iff.mpr found)
      rw [Store.literal, found] at failed
      cases failed

theorem Store.Prunes.literal_eq_error (closed : full.Closed names)
    (prunes : full.Prunes announced pruned) {name : String}
    (declared : name ∈ names) {fault : ValueFault}
    (failed : full.literal name = .error fault) :
    pruned.literal name = .error (fault.echo announced) := by
  obtain ⟨slot, rfl⟩ := closed.literal_eq_error declared failed
  have novalue : full.value? name = none := by rw [Store.value?, slot]; rfl
  by_cases told : name ∈ announced
  · rw [Store.literal, prunes.keeps (.inr told), slot, ValueFault.echo,
      if_pos told]
  · rw [Store.literal, prunes.drops novalue told, ValueFault.echo, if_neg told]

theorem Value.plain_eq_error_of_prunes {value : Value}
    (closed : full.Closed names) (prunes : full.Prunes announced pruned)
    (declared : ∀ name ∈ value.variables, name ∈ names) {fault : ValueFault}
    (failed : value.plain full.literal = .error fault) :
    value.plain pruned.literal = .error (fault.echo announced) := by
  induction value with
  | literal => cases failed
  | settled => cases failed
  | reference name =>
      exact prunes.literal_eq_error closed (declared name List.mem_cons_self)
        failed
  | pending op left right ihLeft ihRight =>
      obtain ⟨declaredLeft, declaredRight⟩ := List.forall_mem_append.mp declared
      unfold plain at failed ⊢
      cases leftAnswer : left.plain full.literal with
      | error cause =>
          rw [leftAnswer] at failed
          cases failed
          rw [ihLeft declaredLeft leftAnswer]
      | ok leftResult =>
          rw [leftAnswer] at failed
          rw [plain_of_below prunes.below leftAnswer]
          cases rightAnswer : right.plain full.literal with
          | error cause =>
              rw [rightAnswer] at failed
              cases failed
              dsimp only
              rw [ihRight declaredRight rightAnswer]
          | ok rightResult =>
              rw [rightAnswer] at failed
              rw [plain_of_below prunes.below rightAnswer,
                ValueFault.echo_of_ofComputation
                  (Operator.ofComputation_of_apply failed)]
              exact failed

/-- A computation that fails at the pruned store as it does at the full one. -/
structure EchoesReading (names announced : List String) {α : Type}
    (action : Value.Reading α) :
    Prop where
  steady : Steady action
  echoes : ∀ {full pruned final : Store} {fault : ValueFault},
    full.Closed names →
    full.Prunes announced pruned → action full = .error fault final →
      action pruned = .error (fault.echo announced) pruned

namespace EchoesReading

theorem sequence {α β : Type} {first : Value.Reading α}
    {next : α → Value.Reading β}
    (echoesFirst : EchoesReading names announced first)
    (echoesNext : ∀ answer, EchoesReading names announced (next answer)) :
    EchoesReading names announced (first >>= next) := by
  refine ⟨echoesFirst.steady.sequence fun answer => (echoesNext answer).steady,
    ?_⟩
  intro full pruned final fault closed prunes failed
  cases outcome : first full with
  | error cause middle =>
      rw [bind_of_error outcome] at failed
      cases failed
      exact bind_of_error (echoesFirst.echoes closed prunes outcome)
  | ok answer middle =>
      cases echoesFirst.steady.keeps_ok closed.literals outcome
      rw [bind_of_ok outcome] at failed
      have answered :=
        echoesFirst.steady.grows closed.literals prunes.literals
          prunes.below outcome
      rw [bind_of_ok answered]
      exact (echoesNext answer).echoes closed prunes failed

theorem read {value : Value}
    (declared : ∀ name ∈ value.variables, name ∈ names) :
    EchoesReading names announced value.read := by
  refine ⟨.read value, ?_⟩
  intro full pruned final fault closed prunes failed
  rw [value.read_of_literalOnly closed.literals] at failed
  rw [value.read_of_literalOnly prunes.literals]
  cases answered : value.plain full.literal with
  | ok result =>
      rw [answered] at failed
      cases failed
  | error cause =>
      rw [answered] at failed
      cases failed
      rw [Value.plain_eq_error_of_prunes closed prunes declared answered]
      rfl

/-- Values whose variables are declared in the full store are read so. -/
def property (names announced : List String) : ReadingProperty where
  Admits value := ∀ name ∈ value.variables, name ∈ names
  Holds action := EchoesReading names announced action
  returning answer := ⟨.returning answer, fun _ _ failed => by cases failed⟩
  failing computed := ⟨.failing _, fun _ _ failed => by
    cases failed
    rw [ValueFault.echo_of_ofComputation computed]
    rfl⟩
  sequence := sequence
  reading := read

end EchoesReading

end Reading

/-! ### Running on a pruned store -/

/-- The failure at the pruned store, where the one at the full store is
given. -/
inductive Failure.Echoes (announced : List String) :
    Failure → Failure → Prop where
  | value (fault : ValueFault) (line : Nat) (context : String) :
      Echoes announced (Fault.at (.value fault) line context)
        (Fault.at (.value (fault.echo announced)) line context)
  | run (fault : RunFault) (line : Nat) (context : String) :
      Echoes announced (Fault.at (.run fault) line context)
        (Fault.at (.run fault) line context)

/-- A command with declared variables that announces none. -/
def Command.Silent (names : List String) (command : Command) (line : Nat) :
    Prop :=
  command.Within names line ∧ command.announced = []

namespace Execution

/-- What comes of an execution at the full store and at the pruned one. -/
inductive EchoedOutcome (names announced : List String) {α : Type} :
    EStateM.Result Failure Machine α → EStateM.Result Failure Machine α →
    Prop where
  | ok (answer : α) (canvas : Canvas) {full pruned : Store}
      (closed : full.Closed names) (prunes : full.Prunes announced pruned) :
      EchoedOutcome names announced (.ok answer ⟨canvas, full⟩)
        (.ok answer ⟨canvas, pruned⟩)
  | error {failure failure' : Failure}
      (echoes : failure.Echoes announced failure')
      (canvas : Canvas) (full pruned : Store) :
      EchoedOutcome names announced (.error failure ⟨canvas, full⟩)
        (.error failure' ⟨canvas, pruned⟩)

/-- An execution that goes at the pruned store as it does at the full one. -/
def Echoed (names announced : List String) {α : Type}
    (execution : Execution α) : Prop :=
  ∀ canvas full pruned, full.Closed names → full.Prunes announced pruned →
    EchoedOutcome names announced (execution ⟨canvas, full⟩)
      (execution ⟨canvas, pruned⟩)

section Echoed

variable {names announced : List String}

theorem EchoedOutcome.sequence {α β : Type} {first : Execution α}
    {next : α → Execution β} {before before' : Machine}
    (outcomes : EchoedOutcome names announced (first before) (first before'))
    (echoedNext : ∀ answer, Echoed names announced (next answer)) :
    EchoedOutcome names announced ((first >>= next) before)
      ((first >>= next) before') := by
  generalize outcome : first before = atFull at outcomes
  generalize outcome' : first before' = atPruned at outcomes
  cases outcomes with
  | ok answer canvas closed prunes =>
      rw [bind_of_ok outcome, bind_of_ok outcome']
      exact echoedNext answer canvas _ _ closed prunes
  | error echoes canvas full pruned =>
      rw [bind_of_error outcome, bind_of_error outcome']
      exact .error echoes canvas full pruned

theorem echoed_reading {α : Type} (command : Command) (line : Nat)
    {action : Value.Reading α} (echoes : EchoesReading names announced action) :
    Echoed names announced (reading command line action) := by
  intro canvas full pruned closed prunes
  unfold reading
  cases outcome : action full with
  | ok answer final =>
      cases echoes.steady.keeps_ok closed.literals outcome
      rw [echoes.steady.grows closed.literals prunes.literals
        prunes.below outcome]
      exact .ok answer canvas closed prunes
  | error fault final =>
      rw [echoes.echoes closed prunes outcome]
      exact .error (.value fault line _) canvas final pruned

/-- A command whose effect is made of what it reads. -/
theorem echoed_performing_of_reading {α : Type} {command : Command} (line : Nat)
    {make : α → Effect} {action : Value.Reading α}
    (echoes : EchoesReading names announced action)
    (form :
      command.effect =
        EStateM.adaptExcept Fault.value (do return make (← action)))
    (applied : ∀ answer, Echoed names announced
      fun machine => .ok Flow.next ((make answer).apply machine)) :
    Echoed names announced (performing command line) := by
  intro canvas full pruned closed prunes
  unfold performing Command.perform
  rw [form]
  unfold EStateM.adaptExcept
  cases outcome : action full with
  | ok answer final =>
      cases echoes.steady.keeps_ok closed.literals outcome
      rw [bind_of_ok outcome,
        bind_of_ok
          (echoes.steady.grows closed.literals prunes.literals
            prunes.below outcome)]
      exact applied answer canvas full pruned closed prunes
  | error fault final =>
      rw [bind_of_error outcome,
        bind_of_error (echoes.echoes closed prunes outcome)]
      exact .error (.value fault line _) canvas final pruned

theorem echoed_performing {command : Command} {line : Nat}
    (silent : command.Silent names line) :
    Echoed names announced (performing command line) := by
  obtain ⟨declared, unannounced⟩ := silent
  cases (EchoesReading.property names announced).effectForm command
      declared.values with
  | drawing stroke echoes form =>
      refine echoed_performing_of_reading line echoes form fun made => ?_
      intro canvas full pruned closed prunes
      exact .ok _ (canvas.push made) closed prunes
  | assigning name value target admitted form =>
      refine echoed_performing_of_reading line (.read admitted) form
        fun result => ?_
      intro canvas full pruned closed prunes
      exact .ok _ canvas (closed.set (declared.target target) result)
        (prunes.set name result)
  | declaring name form =>
      rw [form] at unannounced
      cases unannounced
  | idle form =>
      intro canvas full pruned closed prunes
      unfold performing Command.perform
      rw [form]
      exact .ok _ canvas closed prunes

/-- Runs of commands that announce no variable. -/
def echoing (names announced : List String) :
    RunProperty (Command.Silent names) where
  Holds execution := Echoed names announced execution
  returning answer canvas _ _ closed prunes := .ok answer canvas closed prunes
  sequence first next canvas full pruned closed prunes :=
    (first canvas full pruned closed prunes).sequence next
  stopping fault _ _ _ canvas full pruned _ _ :=
    .error (.run fault _ _) canvas full pruned
  performing silent := echoed_performing silent
  guarding := by
    intro header line guard silent reads
    have member : guard ∈ header.values := by simp [reads]
    exact echoed_reading header line
      ((EchoesReading.property names announced).readBool
        (silent.1.values guard member))
  bounding := by
    intro counter start stop step line silent
    exact echoed_reading _ line
      ((EchoesReading.property names announced).readRange silent.1.values)
  counting value silent canvas _ _ closed prunes :=
    .ok _ canvas (closed.set (silent.1.target rfl) _) (prunes.set _ _)

/-- A command that announces a variable finds it declared in the full store, and
declares it in the pruned one. -/
theorem echoed_announcement {name : String} (line : Nat)
    (declared : name ∈ names) (valid : Name.check name = .ok ())
    {full pruned : Store} (canvas : Canvas) (closed : full.Closed names)
    (prunes : full.Prunes announced pruned) :
    EchoedOutcome names (announced ++ [name])
      (performing (.declare name none) line ⟨canvas, full⟩)
      (performing (.declare name none) line ⟨canvas, pruned⟩) := by
  rw [← closed.declares] at declared
  have present : full.contains name = true :=
    Store.contains_iff_mem_names.mpr declared
  have added := prunes.announce declared
  unfold performing Command.perform Command.effect Command.declaring
  simp only [present, valid, if_true]
  split at added
  · next known =>
      rw [if_pos known]
      exact .ok _ canvas closed added
  · next unknown =>
      rw [if_neg unknown]
      exact .ok _ canvas closed added

end Echoed

/-! ### The course on a pruned store -/

/-- The variable that the next step of a task announces. -/
def Task.announced : Task → List String
  | .node item => item.command.announced
  | _ => []

/-- The variable that the next step of a state announces. -/
def State.announced : State → List String
  | .running (task :: _) _ _ => task.announced
  | _ => []

/-- A command that can be carried out on a pruned store: its variables are
declared in the full one, and what it announces has a valid name. -/
def Fits (names : List String) (command : Command) (line : Nat) : Prop :=
  command.Within names line ∧ ∀ name ∈ command.announced,
  Name.check name = .ok ()

section Course

variable {names announced : List String} {limits : Limits}
    {procedures : List Procedure}

theorem Task.Begins.silent {task : Task} (begins : task.Begins (Fits names))
    (silent : task.announced = []) : task.Begins (Command.Silent names) := by
  cases task with
  | node node => exact ⟨begins.1, silent⟩
  | repeating guard line body rounds => exact ⟨begins.1, rfl⟩
  | counting counter range body value =>
      obtain ⟨start, stop, step, line, fits⟩ := begins
      exact ⟨start, stop, step, line, fits.1, rfl⟩

/-- A task that announces a variable does nothing else. -/
theorem Task.Begins.announcement {task : Task}
    (begins : task.Begins (Fits names)) (announces : task.announced ≠ [])
    (depth : Nat) :
    ∃ name line, task.announced = [name] ∧
      Fits names (.declare name none) line ∧
      task.move limits procedures depth = (do
        let _ ← performing (.declare name none) line
        return .goOn []) := by
  cases task with
  | repeating guard line body rounds => exact absurd rfl announces
  | counting counter range body value => exact absurd rfl announces
  | node node =>
      obtain ⟨name, same⟩ := Command.eq_declare_of_announced announces
      cases node with
      | leaf command line =>
          cases same
          exact ⟨name, line, rfl, begins, rfl⟩
      | block header line body =>
          cases same
          exact ⟨name, line, rfl, begins, rfl⟩

/-- Where the announced variables change, the step is not one of `echoing`. -/
theorem echoed_move {task : Task} (begins : task.Begins (Fits names))
    (depth : Nat) (canvas : Canvas) {full pruned : Store}
    (closed : full.Closed names) (prunes : full.Prunes announced pruned) :
    EchoedOutcome names (announced ++ task.announced)
      (task.move limits procedures depth ⟨canvas, full⟩)
      (task.move limits procedures depth ⟨canvas, pruned⟩) := by
  by_cases silent : task.announced = []
  · rw [silent, List.append_nil]
    exact (echoing names announced).move depth (begins.silent silent) canvas
      full pruned closed prunes
  · obtain ⟨name, line, announces, fits, moves⟩ :=
      begins.announcement silent depth
    rw [announces, moves]
    have declared : name ∈ names := fits.1.target rfl
    have valid : Name.check name = .ok () := fits.2 name List.mem_cons_self
    have first := echoed_announcement line declared valid canvas closed prunes
    exact first.sequence fun _ => (echoing names _).returning _

namespace State

/-- A course from `start`, with the variables that are announced on it. -/
inductive Announces (limits : Limits) (procedures : List Procedure)
    (start : State) :
    List String → State → Prop where
  | start : Announces limits procedures start [] start
  | step {announced : List String} {before after : State}
      (announces : Announces limits procedures start announced before)
      (steps : Steps limits procedures before after) :
      Announces limits procedures start (announced ++ before.announced) after

theorem Reaches.announces {start state : State}
    (reaches : Reaches limits procedures start state) :
    ∃ announced, Announces limits procedures start announced state := by
  induction reaches with
  | refl => exact ⟨[], .start⟩
  | tail _ steps ih =>
      obtain ⟨announced, announces⟩ := ih
      exact ⟨_, announces.step steps⟩

theorem Announces.reaches {start state : State}
    (announces : Announces limits procedures start announced state) :
    Reaches limits procedures start state := by
  induction announces with
  | start => exact .refl
  | step _ steps ih => exact ih.tail steps

/-- What has been announced was announced by a state of the course. -/
theorem Announces.exists_state {start state : State}
    (announces : Announces limits procedures start announced state)
    {name : String} (member : name ∈ announced) :
    ∃ earlier, Reaches limits procedures start earlier ∧
      name ∈ earlier.announced := by
  induction announces with
  | start => cases member
  | @step _ before _ announces _ ih =>
      rcases List.mem_append.mp member with earlier | last
      · exact ih earlier
      · exact ⟨before, announces.reaches, last⟩

/-- A state of the course is still to come, or what it announces has been
announced.  There is one next state, so what comes after the one before comes
after this one. -/
theorem Announces.later_or_subset {start state other : State}
    (announces : Announces limits procedures start announced state)
    (reaches : Reaches limits procedures start other) :
    Reaches limits procedures state other ∨ other.announced ⊆ announced := by
  induction announces with
  | start => exact .inl reaches
  | @step _ before after _ steps ih =>
      rcases ih with toCome | told
      · rcases Relation.ReflTransGen.cases_head toCome with rfl |
          ⟨next, stepsOn, later⟩
        · exact .inr (List.subset_append_right _ _)
        · have same : after = next := Option.some.inj (steps.symm.trans stepsOn)
          exact .inl (same ▸ later)
      · exact .inr (List.subset_append_of_subset_left _ told)

/-- Two states that differ in the store only: it is full in the first and pruned
in the second. -/
inductive Shadows (names announced : List String) : State → State → Prop where
  | running (tasks : List Task) (callers : List (List Task)) (canvas : Canvas)
      {full pruned : Store} (closed : full.Closed names)
      (prunes : full.Prunes announced pruned) :
      Shadows names announced (.running tasks callers ⟨canvas, full⟩)
        (.running tasks callers ⟨canvas, pruned⟩)
  | ended {outcome outcome' : EStateM.Result Failure Machine Unit}
      (echoed : EchoedOutcome names announced outcome outcome') :
      Shadows names announced (.ended outcome) (.ended outcome')

theorem shadows_leave (callers : List (List Task)) (canvas : Canvas)
    {full pruned : Store} (closed : full.Closed names)
    (prunes : full.Prunes announced pruned) :
    Shadows names announced (leave callers ⟨canvas, full⟩)
      (leave callers ⟨canvas, pruned⟩) := by
  cases callers with
  | nil => exact .ended (.ok () canvas closed prunes)
  | cons tasks callers => exact .running tasks callers canvas closed prunes

theorem shadows_follow (rest : List Task) (callers : List (List Task))
    {moved moved' : EStateM.Result Failure Machine Move}
    (echoed : EchoedOutcome names announced moved moved') :
    Shadows names announced (follow rest callers moved)
      (follow rest callers moved') := by
  cases echoed with
  | error echoes canvas full pruned =>
      exact .ended (.error echoes canvas full pruned)
  | ok move canvas closed prunes =>
      cases move with
      | goOn tasks =>
          exact .running (tasks ++ rest) callers canvas closed prunes
      | enter tasks =>
          exact .running tasks (rest :: callers) canvas closed prunes
      | leave => exact shadows_leave callers canvas closed prunes

/-- The two courses go on side by side. -/
theorem Steps.shadow {before after shadow : State}
    (steps : Steps limits procedures before after)
    (admitted : before.Admitted (Fits names))
    (shadows : Shadows names announced before shadow) :
    ∃ next, Steps limits procedures shadow next ∧
      Shadows names (announced ++ before.announced) after next := by
  cases shadows with
  | ended => cases steps
  | running tasks callers canvas closed prunes =>
      cases tasks with
      | nil =>
          cases steps
          refine ⟨_, rfl, ?_⟩
          change Shadows names (announced ++ []) _ _
          rw [List.append_nil]
          exact shadows_leave callers canvas closed prunes
      | cons task rest =>
          have first : task.Admitted (Fits names) :=
            admitted _ List.mem_cons_self task List.mem_cons_self
          cases steps
          exact ⟨_, rfl, shadows_follow rest callers
            (echoed_move first.begins callers.length canvas closed prunes)⟩

theorem Announces.shadow
    (defined : ∀ procedure ∈ procedures, ∀ entry ∈ procedure.commands,
      Fits names entry.1 entry.2) {start state shadow : State}
    (announces : Announces limits procedures start announced state)
    (admitted : start.Admitted (Fits names))
    (shadows : Shadows names [] start shadow) :
    state.Admitted (Fits names) ∧
      ∃ later, Reaches limits procedures shadow later ∧
        Shadows names announced state later := by
  induction announces with
  | start => exact ⟨admitted, shadow, .refl, shadows⟩
  | step _ steps ih =>
      obtain ⟨admittedBefore, later, reaches, shadowsBefore⟩ := ih
      obtain ⟨next, stepsOn, shadowsAfter⟩ :=
        steps.shadow admittedBefore shadowsBefore
      exact ⟨steps.admitted defined admittedBefore, next, reaches.tail stepsOn,
        shadowsAfter⟩

end State

open State (Announces Reaches)

/-- A run from a pruned store takes the course of the run from the full one, and
ends likewise. -/
theorem run_of_prunes {nodes : List Node}
    (defined : ∀ procedure ∈ procedures, ∀ entry ∈ procedure.commands,
      Fits names entry.1 entry.2)
    (admitted : ∀ entry ∈ Node.commandsList nodes, Fits names entry.1 entry.2)
    (canvas : Canvas) {full pruned : Store} (closed : full.Closed names)
    (prunes : full.Prunes [] pruned) :
    ∃ announced,
      Announces limits procedures (.start nodes ⟨canvas, full⟩) announced
        (.ended (run limits procedures nodes ⟨canvas, full⟩)) ∧
      EchoedOutcome names announced (run limits procedures nodes ⟨canvas, full⟩)
        (run limits procedures nodes ⟨canvas, pruned⟩) := by
  obtain ⟨announced, announces⟩ :=
    (reaches_run limits procedures nodes ⟨canvas, full⟩).announces
  obtain ⟨_, later, reaches, shadows⟩ := announces.shadow defined
    (State.admitted_start admitted _) (.running _ [] canvas closed prunes)
  refine ⟨announced, announces, ?_⟩
  cases shadows with
  | ended echoed =>
      have ends :=
        (reaches_run limits procedures nodes ⟨canvas, pruned⟩).ends reaches
      cases ends.eq_ended
      exact echoed

end Course

end Execution

/-! ### Execution after a rollback -/

/-- The failure is that a variable without a value has been read. -/
def Failure.Unset (failure : Failure) (name : String) : Prop :=
  failure.code = .uninitialisedVariable ∧
    failure.message = (ValueFault.uninitialised name).message

theorem ValueFault.name_of_message {name other : String}
    (same : (uninitialised name).message = (uninitialised other).message) :
    name = other := by
  change "variable `" ++ name ++ "` has no value" =
    "variable `" ++ other ++ "` has no value" at same
  exact (String.append_right_inj _).mp ((String.append_left_inj _).mp same)

namespace Failure.Echoes

variable {announced : List String} {failure failure' : Failure}

theorem of_unset (echoes : failure.Echoes announced failure') {name : String}
    (unset : failure.Unset name) (unannounced : name ∉ announced) :
    failure' = { failure with
      code := .undeclaredVariable, message :=
        (ValueFault.undeclared name).message } := by
  obtain ⟨code, message⟩ := unset
  cases echoes with
  | run fault line context => cases fault <;> cases code
  | value fault line context =>
      cases fault with
      | uninitialised other =>
          cases ValueFault.name_of_message message
          rw [ValueFault.echo, if_neg unannounced]
          rfl
      | _ => cases code

theorem same (echoes : failure.Echoes announced failure')
    (told : ∀ name, failure.Unset name → name ∈ announced) :
    failure' = failure := by
  cases echoes with
  | run fault line context => rfl
  | value fault line context =>
      cases fault with
      | uninitialised name =>
          rw [ValueFault.echo, if_pos (told name ⟨rfl, rfl⟩)]
      | _ => rfl

end Failure.Echoes

namespace Session

/-- The run of the loaded script comes to a line that declares the variable
without a value. -/
def Announces (session : Session) (name : String) : Prop :=
  ∃ state, session.Leads session.course state ∧ name ∈ state.announced

/-- What a run has announced at its end is what the script announces. -/
theorem announces_iff {session : Session} {announced : List String}
    (announces :
      Execution.State.Announces session.config.limits session.program.procedures
      session.course announced (.ended session.outcome)) (name : String) :
    session.Announces name ↔ name ∈ announced := by
  constructor
  · rintro ⟨state, leads, inside⟩
    rcases announces.later_or_subset leads with later | told
    · rw [later.eq_ended] at inside
      cases inside
    · exact told inside
  · exact announces.exists_state

theorem fits_load (session : Session) (source : String) :
    let loaded := (session.load source).2
    ∀ entry ∈ loaded.program.commands,
      Execution.Fits loaded.store.names entry.1 entry.2 := by
  intro loaded entry member
  refine ⟨session.within_load source entry member, ?_⟩
  intro name announced
  have target : entry.1.target? = some name := by
    obtain ⟨other, same⟩ :=
      Command.eq_declare_of_announced (List.ne_nil_of_mem announced)
    rw [same] at announced ⊢
    rw [List.mem_singleton.mp announced]
    rfl
  exact Name.check_of_proper
    (((session.sound_load source).program entry member).target name target)

/-- The run of a script that has just been loaded, and the run from an empty
store. -/
theorem echoed_load (session : Session) (source : String) :
    let loaded := (session.load source).2
    ∃ announced, (∀ name, loaded.Announces name ↔ name ∈ announced) ∧
      Execution.EchoedOutcome loaded.store.names announced loaded.outcome
        { loaded with store := .empty }.outcome := by
  intro loaded
  obtain ⟨items, procedures⟩ :=
    Program.forall_mem_commands.mp (session.fits_load source)
  have vacant := (session.fresh_load source).vacant
  obtain ⟨announced, announces, echoed⟩ :=
    Execution.run_of_prunes procedures items
    loaded.canvas ⟨vacant.literalOnly, rfl⟩ (Store.Prunes.of_vacant vacant)
  exact ⟨announced, announces_iff announces, echoed⟩

/-- If a script has been loaded and then fails in a strict session, its program
stays.  When it is executed again, it draws the same and fails at the same line,
in the same way but for one case: the script has read a variable that has no
value, without coming to a line that declares this variable without one.  The
rollback has removed such a variable, so it is then not declared. -/
theorem execute_after_rollback {session loaded failed : Session}
    {source : String} {count : Nat} {failure : Failure}
    (strict : session.config.leniency = .strict)
    (load : session.load source = (.ok count, loaded))
    (execute : loaded.execute = (.error failure, failed)) :
    failed.program = loaded.program ∧
    ∃ strokes failure' again,
      failed.canvas = loaded.canvas ++ strokes ∧
      failed.execute = (.error failure', again) ∧
      again.canvas = failed.canvas ++ strokes ∧
      (∀ name, failure.Unset name → ¬loaded.Announces name →
        failure' = { failure with
          code := .undeclaredVariable, message :=
            (ValueFault.undeclared name).message }) ∧
      ((∀ name, failure.Unset name → loaded.Announces name) →
        failure' = failure) := by
  have just : loaded = (session.load source).2 := by rw [load]
  obtain ⟨announced, announces, echoed⟩ := session.echoed_load source
  have config : loaded.config = session.config := by
    rw [just]
    exact congrArg Prod.fst (session.setup_load source)
  rw [← just] at announces echoed
  rw [← config] at strict
  obtain ⟨final, ended⟩ := loaded.execute_outcome.1 failure (by rw [execute])
  have rollback : failed = report failure _ :=
    congrArg Prod.snd
      (execute.symm.trans (execute_of_outcome_error_strict ended strict))
  have alike : { loaded with store := .empty }.Alike failed := by
    rw [rollback]
    exact ⟨rfl, rfl, rfl⟩
  have drawn : failed.canvas = final.canvas.push .clear := by
    rw [rollback]
    rfl
  have parallel := alike.execute
  rw [ended] at echoed
  generalize fromEmpty :
    { loaded with store := .empty }.outcome = outcome at echoed
  cases echoed with
  | error echoes canvas full pruned =>
      rw [execute_of_outcome_error_strict fromEmpty strict] at parallel
      obtain ⟨strokes, drawnFromEmpty, drawnAgain⟩ := parallel.strokes
      refine ⟨alike.program.symm, strokes, _, failed.execute.2,
        drawn.trans drawnFromEmpty,
        Prod.ext parallel.answer.symm rfl, drawnAgain, ?_, ?_⟩
      · intro name unset quiet
        exact echoes.of_unset unset fun told =>
          quiet ((announces name).mpr told)
      · intro told
        exact echoes.same fun name unset =>
          (announces name).mp (told name unset)

/-- A script that divides by zero after its first stroke does the same when it
is executed again. -/
theorem execute_after_rollback_division :
    let loaded :=
      ((new ⟨.strict, {}⟩ false).load "var r = 0\nmove 1 1\ncircle 10 / r").2
    ∃ failure strokes, failure.code = .divisionByZero ∧
      loaded.execute.1 = .error failure ∧ loaded.execute.2.canvas = strokes ∧
      loaded.execute.2.execute.1 = .error failure ∧
      loaded.execute.2.execute.2.canvas = strokes ++ strokes := by
  have facts : let outcome :=
    (new ⟨.strict, {}⟩ false).load "var r = 0\nmove 1 1\ncircle 10 / r"
      outcome.1 = .ok 3 ∧ outcome.2.canvas = #[] ∧ outcome.2.execute.1 =
        .error ⟨.divisionByZero, 3, "Draw a circle of radius (10 / r)",
          "division by zero"⟩ := by
    decide +kernel
  have strict : (new ⟨.strict, {}⟩ false).config.leniency = .strict := rfl
  generalize load :
    (new ⟨.strict, {}⟩ false).load "var r = 0\nmove 1 1\ncircle 10 / r" =
      outcome at facts ⊢
  obtain ⟨answer, loaded⟩ := outcome
  obtain ⟨rfl, blank, fails⟩ := facts
  obtain ⟨_, strokes, failure, again, drawn, execute, drawnAgain, _, same⟩ :=
    execute_after_rollback strict load (Prod.ext fails rfl)
  rw [blank, Array.empty_append] at drawn
  refine ⟨_, strokes, rfl, fails, drawn, ?_, ?_⟩
  · rw [execute, same fun name unset => by cases unset.1]
  · rw [execute, drawnAgain, drawn]

/-- A variable whose declaration is passed over has no value at first, and is
not declared after the rollback. -/
theorem execute_after_rollback_skipped_declaration :
    let loaded :=
      ((new ⟨.strict, {}⟩ false).load "if false\nvar x = 1\nend\nmove x x").2
    loaded.execute.1 =
      .error ⟨.uninitialisedVariable, 4, "Move the pen to (x, x)",
      "variable `x` has no value"⟩ ∧
    loaded.execute.2.execute.1 =
      .error ⟨.undeclaredVariable, 4, "Move the pen to (x, x)",
      "undeclared variable `x`"⟩ := by
  decide +kernel

end Session

end PenScript
