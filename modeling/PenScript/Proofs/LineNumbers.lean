import PenScript.Proofs.Leniency
import PenScript.Proofs.Nesting

/-!
# Where nodes and failures are

Every node and every procedure of a program is at a line of its script that
holds code, and so is every failure, whether the script cannot be read or its
run fails.  Nodes that follow each other are at increasing lines.
-/

namespace PenScript

open Stateful
open Node (Derives withoutDefinitionsList)

/-! ### Lines with code -/

namespace Line

/-- There is code on the line with the given number. -/
def HasCode (source : String) (number : Nat) : Prop :=
  ∃ line ∈ ofSource source, line.number = number

theorem exists_ofNumbered?_iff (number : Nat) {row : List Char} :
    (∃ line, ofNumbered? number row = some line) ↔ code row ≠ [] := by
  unfold ofNumbered?
  dsimp only
  split
  · next blank => simpa using blank
  · next filled => simpa using filled

theorem hasCode_iff {source : String} {number : Nat} :
    HasCode source number ↔
      ∃ index row, number = index + 1 ∧ (rows source)[index]? = some row ∧
        code row ≠ [] := by
  simp only [← exists_ofNumbered?_iff number]
  constructor
  · rintro ⟨line, member, rfl⟩
    obtain ⟨⟨row, index⟩, inside, made⟩ := List.mem_filterMap.mp member
    have numbered := number_of_ofNumbered? made
    refine ⟨index, row, numbered, List.mem_zipIdx_iff_getElem?.mp inside, line,
      ?_⟩
    rw [numbered]
    exact made
  · rintro ⟨index, row, rfl, found, line, made⟩
    refine ⟨line, ?_, number_of_ofNumbered? made⟩
    exact List.mem_filterMap.mpr
      ⟨(row, index), List.mem_zipIdx_iff_getElem?.mpr found, made⟩

end Line

/-! ### Increasing lines -/

namespace Node

/-- Of two nodes that follow each other, here or in a block anywhere inside, the
second one is at a later line. -/
inductive Ascending : List Node → Prop where
  | mk {nodes : List Node}
      (siblings : nodes.Pairwise fun first second => first.line < second.line)
      (inside : ∀ header line body, .block header line body ∈ nodes →
        Ascending body) :
      Ascending nodes

theorem Ascending.nil : Ascending [] :=
  .mk .nil fun _ _ _ member => by cases member

theorem Ascending.cons_leaf {command : Command} {line : Nat} {rest : List Node}
    (before : ∀ node ∈ rest, line < node.line) (ascending : Ascending rest) :
    Ascending (.leaf command line :: rest) := by
  obtain ⟨siblings, inside⟩ := ascending
  refine .mk (.cons before siblings) ?_
  intro header number body member
  rcases List.mem_cons.mp member with same | later
  · cases same
  · exact inside header number body later

theorem Ascending.cons_block {header : Command} {line : Nat}
    {body rest : List Node} (before : ∀ node ∈ rest, line < node.line)
    (ascendingBody : Ascending body) (ascending : Ascending rest) :
    Ascending (.block header line body :: rest) := by
  obtain ⟨siblings, inside⟩ := ascending
  refine .mk (.cons before siblings) ?_
  intro other number nodes member
  rcases List.mem_cons.mp member with same | later
  · cases same
    exact ascendingBody
  · exact inside other number nodes later

namespace Derives

variable {word : List (Command × Nat)} {forest : List Node}

/-- Each node of a forest comes from a command at its line. -/
theorem mem_word (derives : Derives word forest) :
    ∀ node ∈ withoutDefinitionsList forest,
      (node.command, node.line) ∈ word := by
  induction derives with
  | nil =>
      intro node member
      cases member
  | leaf _ _ _ ih =>
      rw [withoutDefinitionsList, withoutDefinitions]
      refine List.forall_mem_cons.mpr ⟨List.mem_cons_self, ?_⟩
      intro node member
      exact List.mem_cons_of_mem _ (ih node member)
  | block _ _ _ _ ihRest =>
      rw [withoutDefinitionsList, withoutDefinitions]
      refine List.forall_mem_append.mpr ⟨?_, ?_⟩
      · split
        · intro node member
          cases member
        · intro node member
          cases List.mem_singleton.mp member
          exact List.mem_cons_self
      · intro node member
        simp [ihRest node member]

/-- If the lines of the commands increase, so do those of the nodes. -/
theorem ascending (derives : Derives word forest)
    (increasing : word.Pairwise fun first second => first.2 < second.2) :
    Ascending (withoutDefinitionsList forest) := by
  induction derives with
  | nil => exact .nil
  | @leaf command line word forest _ _ rest ih =>
      obtain ⟨before, increasingRest⟩ := List.pairwise_cons.mp increasing
      rw [withoutDefinitionsList, withoutDefinitions]
      refine .cons_leaf ?_ (ih increasingRest)
      intro node member
      exact before _ (rest.mem_word node member)
  | @block header line endLine inner word body forest _ _ rest
      ihInside ihRest =>
      obtain ⟨before, increasingRest⟩ := List.pairwise_cons.mp increasing
      obtain ⟨increasingInner, increasingBehind, _⟩ :=
        List.pairwise_append.mp increasingRest
      have ascending := ihRest (List.pairwise_cons.mp increasingBehind).2
      rw [withoutDefinitionsList, withoutDefinitions]
      split
      · exact ascending
      · refine .cons_block ?_ (ihInside increasingInner) ascending
        intro node member
        have behind :
            (node.command, node.line) ∈
              inner ++ (.endBlock, endLine) :: word := by
          simp [rest.mem_word node member]
        exact before _ behind

end Derives

end Node

/-! ### Programs -/

namespace Assembly

/-- Adding commands brings no other command in. -/
theorem mem_commands_addAll {word : List (Command × Nat)}
    {assembly next : Assembly} (added : assembly.addAll word = (next, none))
    {entry : Command × Nat} (member : entry ∈ next.commands) :
    entry ∈ word ∨ entry ∈ assembly.commands := by
  induction word generalizing assembly with
  | nil =>
      cases added
      exact .inr member
  | cons first rest ih =>
      obtain ⟨command, line⟩ := first
      rw [addAll] at added
      split at added
      · cases added
      · next middle step =>
          rcases ih added with later | earlier
          · exact .inl (List.mem_cons_of_mem _ later)
          · rcases mem_commands_add step earlier with rfl | old
            · exact .inl List.mem_cons_self
            · exact .inr old

end Assembly

namespace Program

theorem Reads.pairwise_line {store final : Store} {lines : List Line}
    {word : List (Command × Nat)} (reads : Reads store lines word final)
    (increasing :
      lines.Pairwise fun first second => first.number < second.number) :
    word.Pairwise fun first second => first.2 < second.2 := by
  induction reads with
  | nil => exact .nil
  | cons _ rest ih =>
      obtain ⟨before, increasingRest⟩ := List.pairwise_cons.mp increasing
      refine .cons ?_ (ih increasingRest)
      rintro ⟨command, number⟩ member
      obtain ⟨line, listed, rfl, _⟩ := rest.of_mem member
      exact before line listed

/-- Every command that has been assembled was read from a line. -/
theorem Reads.of_mem_commands {store final : Store} {lines : List Line}
    {word : List (Command × Nat)} (reads : Reads store lines word final)
    {assembly : Assembly}
    (added : Assembly.empty.addAll word = (assembly, none))
    {entry : Command × Nat} (member : entry ∈ assembly.commands) :
    ∃ line ∈ lines, line.number = entry.2 ∧
      ∃ before after, Command.ofLine line before = .ok entry.1 after := by
  rcases Assembly.mem_commands_addAll added member with inWord | none
  · exact reads.of_mem inWord
  · cases none

/-- Nodes, procedures and the failure, if there is one, are at lines with
code. -/
theorem hasCode_of_parse (source : String) (store : Store) :
    (∀ entry ∈ (parse source store).program.commands,
      Line.HasCode source entry.2) ∧
    ∀ failure, (parse source store).failure = some failure →
      Line.HasCode source failure.line := by
  obtain ⟨before, rest, word, middle, assembly, lines, reads, added,
      program, stops⟩ :=
    parseLines_reads .empty store (Line.ofSource source)
  have assembled :
      ∀ entry ∈ assembly.commands, Line.HasCode source entry.2 := by
    intro entry member
    obtain ⟨line, listed, same, _⟩ := reads.of_mem_commands added member
    exact ⟨line, lines ▸ List.mem_append_left _ listed, same⟩
  constructor
  · intro entry member
    have inProgram : entry ∈ assembly.completed.commands := program ▸ member
    exact assembled entry (Assembly.mem_commands_of_mem_completed inProgram)
  · intro failure failed
    rw [show (parseLines .empty store (Line.ofSource source)).failure =
      some failure from failed] at stops
    cases stops with
    | @unclosed block outer opened =>
        have heading : (block.header, block.line) ∈ assembly.commands := by
          simp [Assembly.commands, OpenBlock.commands, opened]
        exact assembled _ heading
    | @refused line after _ atLine _ =>
        have listed : line ∈ Line.ofSource source := by simp [lines]
        exact ⟨line, listed, atLine.symm⟩

theorem ascending_of_parse (source : String) (store : Store) :
    Node.Ascending (parse source store).program.items ∧
    ∀ procedure ∈ (parse source store).program.procedures,
      Node.Ascending procedure.body := by
  obtain ⟨before, rest, word, middle, assembly, lines, reads, added,
      program, _⟩ :=
    parseLines_reads .empty store (Line.ofSource source)
  have increasingLines := Line.pairwise_number_ofSource source
  rw [lines] at increasingLines
  have increasing :=
    reads.pairwise_line (List.pairwise_append.mp increasingLines).1
  rw [show (parse source store).program = assembly.completed from program]
  constructor
  · obtain ⟨outer, inner, forest, split, ⟨derives, _⟩, items⟩ :=
      Assembly.exists_wellFormed_of_addAll added
    rw [split, List.pairwise_append] at increasing
    rw [items]
    exact derives.ascending increasing.1
  · intro procedure member
    obtain ⟨ahead, inner, after, endLine, body, split, inside, pruned⟩ :=
      Assembly.defines_of_mem_procedures added procedure member
    have within : inner.Sublist word := by
      rw [split]
      exact ((List.sublist_append_left inner _).cons _).trans
        (List.sublist_append_right ahead _)
    rw [pruned]
    exact inside.ascending (increasing.sublist within)

end Program

/-! ### Runs and sessions -/

namespace Execution

/-- An execution that can only fail at an admitted line. -/
def FailsAt {α : Type} (Admitted : Nat → Prop) (execution : Execution α) :
    Prop :=
  ∀ machine failure final, execution machine = .error failure final →
    Admitted failure.line

namespace FailsAt

variable {Admitted : Nat → Prop} {line : Nat}

theorem performing (command : Command) (admitted : Admitted line) :
    FailsAt Admitted (performing command line) := by
  intro machine failure final failed
  unfold Execution.performing at failed
  split at failed
  · cases failed
  · cases failed
    exact admitted

theorem reading {α : Type} (command : Command) (action : Value.Reading α)
    (admitted : Admitted line) :
    FailsAt Admitted (reading command line action) := by
  intro machine failure final failed
  unfold Execution.reading at failed
  split at failed
  · cases failed
  · cases failed
    exact admitted

/-- A run fails at the line of one of its commands. -/
def property (Admitted : Nat → Prop) :
    RunProperty (fun _ line => Admitted line) where
  Holds execution := FailsAt Admitted execution
  returning _ _ _ _ failed := by cases failed
  sequence := by
    intro α β first next failsFirst failsNext machine failure final failed
    cases outcome : first machine with
    | error cause middle =>
        rw [bind_of_error outcome] at failed
        cases failed
        exact failsFirst machine failure final outcome
    | ok answer middle =>
        rw [bind_of_ok outcome] at failed
        exact failsNext answer middle failure final failed
  stopping _ _ _ admitted _ _ _ failed := by
    cases failed
    exact admitted
  performing admitted := performing _ admitted
  guarding admitted _ := reading _ _ admitted
  bounding admitted := reading _ _ admitted
  counting _ _ _ _ _ failed := by cases failed

end FailsAt

end Execution

namespace Session

theorem load_eq_error_iff (session : Session) {source : String}
    {failure : Failure} :
    (session.load source).1 = .error failure ↔
      Program.compile source = .error failure := by
  cases read : Program.compile source with
  | ok program => simp [load_of_compile_ok read]
  | error cause =>
      cases leniency : session.config.leniency with
      | strict => simp [load_of_compile_error_strict read leniency]
      | pardon => simp [load_of_compile_error_pardon read leniency]

/-- What is loaded of a script is at lines with code. -/
theorem hasCode_of_load (session : Session) (source : String) :
    ∀ entry ∈ (session.load source).2.program.commands,
      Line.HasCode source entry.2 := by
  rcases session.load_session source with ⟨program, _⟩ | ⟨empty, _⟩
  · rw [program]
    exact (Program.hasCode_of_parse source .empty).1
  · rw [empty]
    intro entry member
    cases member

theorem execute_failsAt {session : Session} {Admitted : Nat → Prop}
    (admitted : ∀ entry ∈ session.program.commands, Admitted entry.2)
    {failure : Failure} (failed : session.execute.1 = .error failure) :
    Admitted failure.line := by
  obtain ⟨final, ended⟩ := session.execute_outcome.1 failure failed
  obtain ⟨items, procedures⟩ := Program.forall_mem_commands.mp admitted
  exact (Execution.FailsAt.property Admitted).run procedures _ items _ _ _ ended

/-- A run fails as its script is read, or as it is executed. -/
theorem run_eq_error {session : Session} {source : String} {failure : Failure}
    (failed : (session.run source).1 = .error failure) :
    Program.compile source = .error failure ∨
      (session.load source).2.execute.1 = .error failure := by
  cases read : Program.compile source with
  | ok program =>
      rw [run_of_load_ok (load_of_compile_ok read session)] at failed
      rw [load_of_compile_ok read session]
      exact .inr failed
  | error cause =>
      cases leniency : session.config.leniency with
      | strict =>
          rw [run_of_compile_error_strict read leniency] at failed
          cases failed
          exact .inl rfl
      | pardon =>
          rw [(run_of_compile_error_pardon read leniency).2] at failed
          cases executed : (session.load source).2.execute.1 with
          | ok _ =>
              rw [executed] at failed
              cases failed
              exact .inl rfl
          | error other =>
              rw [executed] at failed
              cases failed
              exact .inr rfl

/-- Every failure to read, load or run a script is at a line of it that holds
code, and so is every node and every procedure of its program, even if it could
be read only in part.  Among the nodes of the program, and in every block and
every procedure, the lines increase. -/
theorem lines_with_code (source : String) :
    (∀ failure, Program.compile source = .error failure →
      Line.HasCode source failure.line) ∧
    (∀ (session : Session) (failure : Failure),
      (session.load source).1 = .error failure ∨
      (session.run source).1 = .error failure →
        Line.HasCode source failure.line) ∧
    (∀ store : Store,
      let program := (Program.parse source store).program
      (∀ entry ∈ program.commands, Line.HasCode source entry.2) ∧
      Node.Ascending program.items ∧
      ∀ procedure ∈ program.procedures, Node.Ascending procedure.body) ∧
    ∀ number, Line.HasCode source number ↔
      ∃ index row, number = index + 1 ∧ (Line.rows source)[index]? = some row ∧
        Line.code row ≠ [] := by
  have compiling (failure : Failure)
      (unread : Program.compile source = .error failure) :
      Line.HasCode source failure.line :=
    (Program.hasCode_of_parse source .empty).2 failure
      (Program.compile_eq_error_iff.mp unread)
  refine ⟨compiling, ?_, ?_, fun number => Line.hasCode_iff⟩
  · rintro session failure (loading | running)
    · exact compiling failure (session.load_eq_error_iff.mp loading)
    · rcases run_eq_error running with unread | executing
      · exact compiling failure unread
      · exact execute_failsAt (session.hasCode_of_load source) executing
  · intro store
    exact ⟨(Program.hasCode_of_parse source store).1,
      Program.ascending_of_parse source store⟩

/-- A script with blank lines and comments.  It divides by zero in a
procedure. -/
theorem lines_with_code_division :
    let source := "@ start\n\ndef p\n\n  var x = 1 / 0 @ fails\nend\n\ncall p"
    ∃ failure, ((new {} false).run source).1 = .error failure ∧
      failure.line = 5 ∧
      Line.HasCode source failure.line ∧ ¬Line.HasCode source 4 := by
  intro source
  have fails : ((new {} false).run source).1 =
      .error ⟨.divisionByZero, 5, "Declare x as (1 / 0)",
        "division by zero"⟩ := by
    decide +kernel
  have blank : ∀ line ∈ Line.ofSource source, line.number ≠ 4 := by
    decide +kernel
  refine ⟨_, fails, rfl, (lines_with_code source).2.1 _ _ (.inr fails), ?_⟩
  rintro ⟨line, member, same⟩
  exact blank line member same

end Session

end PenScript
