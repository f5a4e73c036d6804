import PenScript.Program.Parser
import PenScript.Proofs.Effect
import PenScript.Proofs.Expression
import PenScript.Proofs.Run
import PenScript.Proofs.Spelling
import PenScript.Proofs.Statements

/-!
# What reading a script leaves behind

Reading a line declares at most one variable, and never gives it a value.  The
values of a command are texts that were read at that moment, its variable is
declared, and the names are proper.  Lines are then followed into the assembled
program.
-/

namespace PenScript

open Stateful Text

theorem Value.Written.insert {store : Store} {value : Value}
    (written : value.Written store.contains) (name : String) :
    value.Written (store.insert name none).contains :=
  written.mono fun other known => by simp [Store.contains_insert, known]

namespace Command

/-! ### Readers that declare nothing -/

/-- Read at `store`, a part of a line declares nothing, and what it stands for
satisfies `post`. -/
def ReadsAt {α : Type} (store : Store) (parser : Parser α) (post : α → Prop) :
    Prop :=
  match parser store with
  | .ok answer final => final = store ∧ post answer
  | .error _ final => final = store

namespace ReadsAt

variable {α β : Type} {store : Store} {post : β → Prop}

theorem returning {answer : β} (holds : post answer) :
    ReadsAt store (pure answer) post :=
  ⟨rfl, holds⟩

theorem failing (fault : Fault) : ReadsAt store (throw fault) post :=
  rfl

theorem of_ok {reader : Parser β} (reads : ReadsAt store reader post)
    {answer : β} {final : Store} (read : reader store = .ok answer final) :
    final = store ∧ post answer := by
  unfold ReadsAt at reads
  rw [read] at reads
  exact reads

theorem of_error {reader : Parser β} (reads : ReadsAt store reader post)
    {fault : Fault} {final : Store}
    (failed : reader store = .error fault final) : final = store := by
  unfold ReadsAt at reads
  rw [failed] at reads
  exact reads

theorem sequence {first : Parser α} {next : α → Parser β} {middle : α → Prop}
    (reads : ReadsAt store first middle)
    (thenReads : ∀ answer, middle answer → ReadsAt store (next answer) post) :
    ReadsAt store (first >>= next) post := by
  unfold ReadsAt
  cases outcome : first store with
  | error fault final =>
      rw [bind_of_error outcome]
      exact reads.of_error outcome
  | ok answer final =>
      rw [bind_of_ok outcome]
      obtain ⟨rfl, holds⟩ := reads.of_ok outcome
      exact thenReads answer holds

theorem readValue {Admits : Value → Prop}
    (parsed : ∀ {text : List Char} {value : Value},
      Value.parse store.contains text = .ok value → Admits value)
    (fault : ValueFault → Fault) (text : List Char) :
    ReadsAt store (readValue fault text) Admits := by
  unfold ReadsAt Command.readValue
  cases outcome : Value.parse store.contains text with
  | ok value => exact ⟨rfl, parsed outcome⟩
  | error cause => rfl

/-- At a store, the values that are read are written with its variables. -/
def logic (store : Store) : ReaderLogic where
  Admits := Value.Written store.contains
  Holds := ReadsAt store
  literal _ := trivial
  returning := returning
  failing _ := failing _
  sequence := sequence
  reading _ := readValue Value.written_parse _

end ReadsAt

/-! ### Lines -/

/-- What reading a line guarantees of its command. -/
structure WellRead (store : Store) (command : Command) : Prop where
  values : ∀ value ∈ command.values, value.Written store.contains
  target : ∀ name, command.target? = some name → store.contains name = true
  defines : ∀ name, command.procedureName? = some name → Name.Proper name

/-- At most one variable is declared, by a proper name and without a value. -/
def Declares (before after : Store) : Prop :=
  after = before ∨
    ∃ name, Name.Proper name ∧ before.contains name = false ∧
      after = before.insert name none

/-- Read at `store`, a line declares at most one variable, and its command is
well read. -/
def ReadsLine (store : Store) (parser : Parser Command) : Prop :=
  match parser store with
  | .ok command final => Declares store final ∧ WellRead final command
  | .error _ final => Declares store final

section Lines

variable {store : Store}

theorem ReadsAt.readsLine {parser : Parser Command} {post : Command → Prop}
    (reads : ReadsAt store parser post)
    (wellRead : ∀ command, post command → WellRead store command) :
    ReadsLine store parser := by
  unfold ReadsLine
  cases outcome : parser store with
  | error fault final => exact .inl (reads.of_error outcome)
  | ok command final =>
      obtain ⟨rfl, holds⟩ := reads.of_ok outcome
      exact ⟨.inl rfl, wellRead command holds⟩

theorem wellRead_of_stated {parameters : List (List Char)} {command : Command}
    (lower : ∀ parameter ∈ parameters, Lowercase parameter)
    (read : (ReadsAt.logic store).Stated parameters command) :
    WellRead store command where
  values value member := by
    rw [← command.map_demands] at member
    obtain ⟨entry, demanded, rfl⟩ := List.mem_map.mp member
    exact (read.demands entry demanded).1
  target name found := by
    rw [read.target] at found
    cases found
  defines name same := by
    obtain ⟨checked, member⟩ := read.defines name same
    exact Name.proper_of_check (lower _ member) checked

theorem readsAt_readAssignment (name : List Char) (value : List Token) :
    ReadsAt store (readAssignment name value) (WellRead store) := by
  unfold ReadsAt
  rcases readAssignment_apply name value store with ⟨fault, _, refused⟩ |
    ⟨declared, read⟩
  · rw [refused]
  · rw [read]
    refine ReadsAt.sequence (.readValue Value.written_parse _ _) fun value
      admitted => ?_
    refine .returning ⟨by simpa [values] using admitted, ?_, nofun⟩
    intro target same
    cases same
    exact declared

theorem ReadsAt.thenLine {α : Type} {first : Parser α} {middle : α → Prop}
    {next : α → Parser Command} (reads : ReadsAt store first middle)
    (thenReads : ∀ answer, middle answer → ReadsLine store (next answer)) :
    ReadsLine store (first >>= next) := by
  unfold ReadsLine
  cases outcome : first store with
  | error fault final =>
      rw [bind_of_error outcome]
      exact .inl (reads.of_error outcome)
  | ok answer final =>
      rw [bind_of_ok outcome]
      obtain ⟨rfl, holds⟩ := reads.of_ok outcome
      exact thenReads answer holds

/-- A line that first declares a new name and then declares nothing more. -/
theorem ReadsAt.readsLine_grown {name : String} (lower : Lowercase name.toList)
    (checked : Name.check name = .ok ()) (missing : store.contains name = false)
    {parser next : Parser Command}
    (goes : parser store = next (store.insert name none))
    {post : Command → Prop} (reads : ReadsAt (store.insert name none) next post)
    (wellRead : ∀ command, post command →
      WellRead (store.insert name none) command) :
    ReadsLine store parser := by
  have grown : Declares store (store.insert name none) :=
    .inr ⟨name, Name.proper_of_check lower checked, missing, rfl⟩
  unfold ReadsLine
  rw [goes]
  cases outcome : next (store.insert name none) with
  | error fault final =>
      rw [reads.of_error outcome]
      exact grown
  | ok command final =>
      obtain ⟨rfl, holds⟩ := reads.of_ok outcome
      exact ⟨grown, wellRead command holds⟩

theorem readsLine_readDeclaration {name : Token} {rest : List Token}
    (lower : Lowercase name.text) :
    ReadsLine store (readDeclaration (name :: rest)) := by
  have lowerWord : Lowercase (String.ofList name.text).toList := by
    simpa using lower
  unfold ReadsLine
  rcases readDeclaration_apply name rest store with ⟨fault, _, refused⟩ |
    ⟨missing, checked, read⟩
  · rw [refused]
    exact .inl rfl
  · rw [read]
    generalize String.ofList name.text = word at lowerWord missing checked
    have reads := (ReadsAt.logic store).readInitialValue word rest
    refine ReadsAt.thenLine reads fun value admitted => ?_
    refine ReadsAt.readsLine_grown lowerWord checked missing
      (bind_of_ok (declareName_of_check missing checked)) (.returning rfl) ?_
    rintro command rfl
    refine ⟨fun given member => (admitted given member).insert word, ?_, nofun⟩
    intro target same
    cases same
    simp [Store.contains_insert]

theorem wellRead_of_bounds {counter : String}
    (declared : store.contains counter = true) {command : Command}
    (bounds : (∃ start stop step, command = .forRange counter start stop step) ∧
      ∀ entry ∈ command.demands, (ReadsAt.logic store).Meets entry.1 entry.2) :
    WellRead store command := by
  obtain ⟨⟨start, stop, step, rfl⟩, meets⟩ := bounds
  refine ⟨?_, ?_, nofun⟩
  · intro value member
    exact (meets (.kind .int, value) (List.mem_map_of_mem member)).1
  · intro target same
    cases same
    exact declared

theorem readsLine_readRange {counter : List Char} (lower : Lowercase counter)
    (start stop : List Char) (step : Option (List Char)) :
    ReadsLine store (readRange counter start stop step) := by
  have lowerWord : Lowercase (String.ofList counter).toList := by
    simpa using lower
  rw [readRange_eq]
  rcases readCounter_apply counter store with
    ⟨declared, read⟩ | ⟨missing, ⟨⟨fault, refused⟩, _⟩ | ⟨checked, read⟩⟩
  · unfold ReadsLine
    rw [bind_of_ok read]
    exact ReadsAt.readsLine ((ReadsAt.logic store).readBounds _ start stop step)
      fun _ => wellRead_of_bounds declared
  · unfold ReadsLine
    rw [bind_of_error refused]
    exact .inl rfl
  · exact ReadsAt.readsLine_grown lowerWord checked missing (bind_of_ok read)
      ((ReadsAt.logic _).readBounds _ start stop step) fun _ =>
        wellRead_of_bounds (by simp [Store.contains_insert])

/-- Reading a line declares at most one variable, and its command is well
read. -/
theorem readsLine_ofText {text : List Char} (lower : Lowercase text) :
    ReadsLine store (ofText text) := by
  have lowerRest := lower.of_subset (Line.split_rest_subset text)
  have lowerParameters := Token.lowercase_parameters lowerRest
  have form := lineForm_ofText text
  generalize ofText text = reader at form
  cases form with
  | refused fault ofLine => exact .inl rfl
  | assigning name value =>
      exact (readsAt_readAssignment name value).readsLine fun _ read => read
  | declaring name rest tokens =>
      have lowerTokens := Token.lowercase_scan lowerRest
      rw [tokens] at lowerTokens
      exact readsLine_readDeclaration (lowerTokens name List.mem_cons_self)
  | counting counter start stop step _ parameters =>
      rw [parameters] at lowerParameters
      exact readsLine_readRange (lowerParameters counter List.mem_cons_self)
        start stop step
  | stating wrongCount ofLine keyword noLoop =>
      exact ReadsAt.readsLine
        ((ReadsAt.logic store).readStatement ofLine noLoop _)
        fun _ read => wellRead_of_stated lowerParameters read

end Lines

theorem WellRead.declares {before after : Store} {command : Command}
    (read : WellRead before command) (grown : Declares before after) :
    WellRead after command := by
  rcases grown with rfl | ⟨name, _, _, rfl⟩
  · exact read
  · exact
      { values := fun value member => (read.values value member).insert name
        target := fun other found => by
          simp [Store.contains_insert, read.target other found]
        defines := read.defines }

end Command

/-- A store that has only seen declarations. -/
structure Store.Fresh (store : Store) : Prop where
  vacant : store.Vacant
  distinct : store.names.Nodup
  proper : ∀ name ∈ store.names, Name.Proper name

theorem Store.fresh_empty : Store.empty.Fresh where
  vacant := vacant_empty
  distinct := List.nodup_nil
  proper _ member := by cases member

theorem Store.proper_insert {store : Store}
    (proper : ∀ name ∈ store.names, Name.Proper name) {name : String}
    (new : Name.Proper name) (value : Option Value) :
    ∀ other ∈ (store.insert name value).names, Name.Proper other := by
  intro other member
  rcases mem_names_insert member with rfl | old
  · exact new
  · exact proper other old

theorem Store.Fresh.declares {before after : Store} (fresh : before.Fresh)
    (grown : Command.Declares before after) : after.Fresh := by
  rcases grown with rfl | ⟨name, proper, _, rfl⟩
  · exact fresh
  · exact
      { vacant := fresh.vacant.insert_none name
        distinct := nodup_names_insert fresh.distinct name none
        proper := proper_insert fresh.proper proper none }

/-! ### Programs -/

/-- The commands in an open block, its header first. -/
def OpenBlock.commands (block : OpenBlock) : List (Command × Nat) :=
  (block.header, block.line) :: Node.commandsList block.body

namespace Assembly

/-- The commands that have been added so far, wherever they have gone. -/
def commands (assembly : Assembly) : List (Command × Nat) :=
  Node.commandsList assembly.items ++
    assembly.unclosed.flatMap OpenBlock.commands ++
    assembly.procedures.flatMap Procedure.commands

theorem mem_commands_attach {node : Node} {assembly : Assembly}
    {entry : Command × Nat} (member : entry ∈ (assembly.attach node).commands) :
    entry ∈ node.commands ∨ entry ∈ assembly.commands := by
  unfold attach at member
  split at member
  · next block outer unclosed =>
      simp only [commands, unclosed, List.flatMap_cons, OpenBlock.commands,
        List.mem_append, List.mem_cons, Node.commandsList] at member ⊢
      tauto
  · next unclosed =>
      simp only [commands, unclosed, Node.commandsList, List.mem_append]
          at member ⊢
      tauto

theorem mem_insert {procedure other : Procedure} {procedures : List Procedure}
    (member : other ∈ procedure.insert procedures) :
    other = procedure ∨ other ∈ procedures := by
  induction procedures with
  | nil => exact .inl (by simpa [Procedure.insert] using member)
  | cons first rest ih =>
      unfold Procedure.insert at member
      split at member
      · rcases List.mem_cons.mp member with same | later
        · exact .inl same
        · exact .inr (List.mem_cons_of_mem _ later)
      · rcases List.mem_cons.mp member with same | later
        · exact .inr (by simp [same])
        · exact (ih later).imp_right (List.mem_cons_of_mem _)

theorem mem_commands_closeBlock {block : OpenBlock} {assembly : Assembly}
    {entry : Command × Nat}
    (member : entry ∈ (assembly.closeBlock block).commands) :
    entry ∈ block.commands ∨ entry ∈ assembly.commands := by
  have inBody : entry ∈ Node.commandsList block.body.reverse →
      entry ∈ Node.commandsList block.body := by
    simp [Node.mem_commandsList]
  unfold closeBlock at member
  dsimp only at member
  split at member
  · next name header =>
      rcases List.mem_append.mp member with old | inProcedures
      · exact .inr (List.mem_append_left _ old)
      · obtain ⟨procedure, listed, inside⟩ := List.mem_flatMap.mp inProcedures
        rcases mem_insert listed with rfl | old
        · rcases List.mem_cons.mp inside with same | later
          · exact .inl (by simp [OpenBlock.commands, header, same])
          · exact .inl (List.mem_cons_of_mem _ (inBody later))
        · exact .inr
            (List.mem_append_right _
              (List.mem_flatMap.mpr ⟨procedure, old, inside⟩))
  · rcases mem_commands_attach member with inBlock | old
    · rcases List.mem_cons.mp inBlock with same | later
      · exact .inl (by simp [OpenBlock.commands, same])
      · exact .inl (List.mem_cons_of_mem _ (inBody later))
    · exact .inr old

/-- Adding a command brings no other command in. -/
theorem mem_commands_add {command : Command} {line : Nat}
    {assembly next : Assembly} (added : assembly.add command line = .ok next)
    {entry : Command × Nat} (member : entry ∈ next.commands) :
    entry = (command, line) ∨ entry ∈ assembly.commands := by
  have opened : entry ∈ (assembly.openBlock command line).commands →
      entry = (command, line) ∨ entry ∈ assembly.commands := by
    simp only [openBlock, commands, List.flatMap_cons, OpenBlock.commands,
      Node.commandsList, List.mem_append, List.mem_singleton]
    tauto
  have attached : entry ∈ (assembly.attach (.leaf command line)).commands →
      entry = (command, line) ∨ entry ∈ assembly.commands := by
    intro inside
    exact (mem_commands_attach inside).imp_left (by simp [Node.commands])
  unfold add at added
  split at added
  · split at added
    · cases added
    · next block outer unclosed =>
        cases added
        refine .inr ?_
        rcases mem_commands_closeBlock member with inBlock | old
        · simp [commands, unclosed, inBlock]
        · simp only [commands, unclosed, List.flatMap_cons, List.mem_append]
              at old ⊢
          tauto
  · split at added
    · cases added
    · cases added
      exact opened member
  · split at added
    · cases added
      exact attached member
    · cases added
  · split at added
    · cases added
      exact opened member
    · cases added
      exact attached member

theorem mem_commands_of_mem_completed {assembly : Assembly}
    {entry : Command × Nat} (member : entry ∈ assembly.completed.commands) :
    entry ∈ assembly.commands := by
  simp only [Program.commands, completed, commands, List.mem_append,
    Node.mem_commandsList, List.mem_reverse] at member ⊢
  exact member.imp_left .inl

end Assembly

namespace Program

/-- What a script that has been read consists of. -/
structure Parsed.WellRead (parsed : Parsed) : Prop where
  fresh : parsed.store.Fresh
  read : ∀ entry ∈ parsed.program.commands,
    Command.WellRead parsed.store entry.1

theorem readsLine_ofLine {line : Line} (store : Store)
    (lower : Text.Lowercase line.text) :
    match Command.ofLine line store with
    | .ok command after =>
        Command.Declares store after ∧ Command.WellRead after command
    | .error _ after => Command.Declares store after := by
  have reads : Command.ReadsLine store (Command.ofText line.text) :=
    Command.readsLine_ofText lower
  unfold Command.ReadsLine at reads
  unfold Command.ofLine EStateM.adaptExcept
  cases result : Command.ofText line.text store with
  | ok command after => simpa only [result] using reads
  | error fault after => simpa only [result] using reads

theorem wellRead_parseLines {lines : List Line}
    (lower : ∀ line ∈ lines, Text.Lowercase line.text) {assembly : Assembly}
    {store : Store} (fresh : store.Fresh)
    (read : ∀ entry ∈ assembly.commands, Command.WellRead store entry.1) :
    (parseLines assembly store lines).WellRead := by
  induction lines generalizing assembly store with
  | nil =>
      have completed : Parsed.WellRead ⟨assembly.completed, none, store⟩ :=
        ⟨fresh,
          fun entry member =>
            read entry (Assembly.mem_commands_of_mem_completed member)⟩
      unfold parseLines Assembly.finish
      split
      · next program finished =>
          split at finished <;> cases finished
          exact completed
      · exact ⟨completed.fresh, completed.read⟩
  | cons line rest ih =>
      have lineReads := readsLine_ofLine store (lower line (by simp))
      have kept {after : Store} (grown : Command.Declares store after) :
          ∀ entry ∈ assembly.commands, Command.WellRead after entry.1 :=
        fun entry member => (read entry member).declares grown
      unfold parseLines
      split
      · next failure after stopped =>
          rw [stopped] at lineReads
          exact ⟨fresh.declares lineReads, fun entry member =>
            kept lineReads entry
              (Assembly.mem_commands_of_mem_completed member)⟩
      · next command after parsed =>
          rw [parsed] at lineReads
          obtain ⟨grown, wellRead⟩ := lineReads
          split
          · exact ⟨fresh.declares grown, fun entry member =>
              kept grown entry (Assembly.mem_commands_of_mem_completed member)⟩
          · next next added =>
              refine ih
                (fun other member =>
                  lower other (List.mem_cons_of_mem _ member))
                (fresh.declares grown) fun entry member => ?_
              rcases Assembly.mem_commands_add added member with rfl | old
              · exact wellRead
              · exact kept grown entry old

/-- Whatever the script, and whether or not it can be read to its end, its
commands are well read and its variables are declared and nothing more. -/
theorem wellRead_parse (source : String) {store : Store}
    (fresh : store.Fresh) : (parse source store).WellRead :=
  wellRead_parseLines (fun _ => Line.lowercase_of_mem_ofSource) fresh
    (by simp [Assembly.commands, Assembly.empty, Node.commandsList])

end Program

end PenScript
