import Mathlib.Data.List.Nodup
import PenScript.Proofs.Blocks
import PenScript.Proofs.Lines
import PenScript.Session

/-!
# Scripts that cannot be read to their end

Of such a script the nodes remain that stand before the outermost block still
open at the failure, as if the script had been cut there.  Procedures remain
wherever they have been closed before it.
-/

namespace PenScript

open Node (Derives ReturnsEnclosedList withoutDefinitionsList definitionsList)

/-! ### Definitions in a word -/

/-- A procedure that is defined in a word: its heading and its `end` stand there
with a forest in between. -/
def Defines (word : List (Command × Nat)) (procedure : Procedure) : Prop :=
  ∃ before inner after endLine body,
    word = before ++ (.define procedure.name, procedure.line) ::
      (inner ++ (.endBlock, endLine) :: after) ∧
    Derives inner body ∧ procedure.body = withoutDefinitionsList body

namespace Defines

variable {word : List (Command × Nat)} {procedure : Procedure}

theorem append_right (defines : Defines word procedure)
    (more : List (Command × Nat)) :
    Defines (word ++ more) procedure := by
  obtain ⟨before, inner, after, endLine, body, rfl, derives, same⟩ := defines
  exact ⟨before, inner, after ++ more, endLine, body, by simp, derives, same⟩

theorem append_left (defines : Defines word procedure)
    (more : List (Command × Nat)) :
    Defines (more ++ word) procedure := by
  obtain ⟨before, inner, after, endLine, body, rfl, derives, same⟩ := defines
  exact ⟨more ++ before, inner, after, endLine, body, by simp, derives, same⟩

theorem of_mem_definitionsList {forest : List Node}
    (derives : Derives word forest)
    (member : procedure ∈ definitionsList forest) : Defines word procedure := by
  induction derives with
  | nil => cases member
  | @leaf command line word forest _ _ _ ih =>
      exact (ih member).append_left [(command, line)]
  | @block header line endLine inner word body forest opens inside _
      ihInside ihRest =>
      simp only [definitionsList, Node.definitions, List.mem_append] at member
      rcases member with (inBody | own) | later
      · exact ((ihInside inBody).append_right _).append_left [(header, line)]
      · split at own
        · next name defines =>
            cases List.mem_singleton.mp own
            cases Command.procedureName?_eq_some_iff.mp defines
            exact ⟨[], inner, word, endLine, body, rfl, inside, rfl⟩
        · cases own
      · have behind := (ihRest later).append_left
          ((header, line) :: (inner ++ [(.endBlock, endLine)]))
        simpa using behind

end Defines

mutual

/-- Inside a definition a `ret` can stand anywhere. -/
theorem Node.returnsEnclosed_true (node : Node) :
    node.ReturnsEnclosed true := by
  cases node with
  | leaf command line => exact fun _ => rfl
  | block header line body => exact Node.returnsEnclosedList_true body

theorem Node.returnsEnclosedList_true (forest : List Node) :
    ReturnsEnclosedList true forest := by
  cases forest with
  | nil => trivial
  | cons node rest =>
      exact ⟨Node.returnsEnclosed_true node, Node.returnsEnclosedList_true rest⟩

end

namespace Assembly

theorem exists_of_addAll_append {assembly final : Assembly}
    {word more : List (Command × Nat)}
    (added : assembly.addAll (word ++ more) = (final, none)) :
    ∃ middle, assembly.addAll word = (middle, none) ∧
      middle.addAll more = (final, none) := by
  induction word generalizing assembly with
  | nil => exact ⟨assembly, rfl, added⟩
  | cons entry rest ih =>
      obtain ⟨command, line⟩ := entry
      cases step : assembly.add command line with
      | error fault => simp [addAll, step] at added
      | ok next =>
          have later (word : List (Command × Nat)) :
              assembly.addAll ((command, line) :: word) = next.addAll word := by
            simp [addAll, step]
          rw [List.cons_append, later] at added
          rw [later]
          exact ih added

theorem tracks_of_addAll {assembly : Assembly} {word : List (Command × Nat)}
    (added : empty.addAll word = (assembly, none)) :
    Tracks word assembly ∧ Clean word := by
  rcases tracks_empty.addAll clean_nil word with
    ⟨final, same, tracks, clean⟩ | ⟨_, _, _, _, _, _, _, refused, _⟩
  · cases added.symm.trans same
    exact ⟨tracks, clean⟩
  · cases added.symm.trans refused

/-- The procedures, be they complete or open, have different names. -/
def Apart (assembly : Assembly) : Prop :=
  (assembly.procedures.map Procedure.name ++
    definedNames assembly.headings).Nodup

theorem apart_empty : empty.Apart := List.nodup_nil

variable {assembly next : Assembly}

theorem Apart.openBlock (apart : assembly.Apart) {header : Command} (line : Nat)
    (fresh : ∀ name, header.procedureName? = some name → ¬assembly.defines name) :
    (assembly.openBlock header line).Apart := by
  unfold Apart at apart ⊢
  rw [headings_openBlock, definedNames_cons]
  cases defines : header.procedureName? with
  | none => exact apart
  | some name =>
      have new := fresh name defines
      rw [defines_iff, not_or] at new
      refine List.nodup_middle.mpr (List.nodup_cons.mpr ⟨?_, apart⟩)
      intro member
      rcases List.mem_append.mp member with complete | opened
      · exact new.1 complete
      · obtain ⟨heading, inside, named⟩ := List.mem_filterMap.mp opened
        exact new.2 (List.mem_map.mpr
          ⟨heading, inside, Command.procedureName?_eq_some_iff.mp named⟩)

theorem Apart.closeBlock (apart : assembly.Apart) {block : OpenBlock}
    {outer : List OpenBlock} (unclosed : assembly.unclosed = block :: outer) :
    (Assembly.closeBlock block { assembly with unclosed := outer }).Apart ∧
      assembly.procedures <+:
        (Assembly.closeBlock block { assembly with unclosed :=
          outer }).procedures := by
  unfold Apart at apart ⊢
  rw [headings, unclosed, List.map_cons, definedNames_cons] at apart
  rw [headings_closeBlock]
  unfold Assembly.closeBlock
  dsimp only
  split
  · next name header =>
      rw [header] at apart
      have fresh : name ∉ assembly.procedures.map Procedure.name := by
        intro member
        exact (List.nodup_append.mp apart).2.2 name member name
          (by simp [Command.procedureName?]) rfl
      rw [insert_of_fresh fresh]
      refine ⟨?_, List.prefix_append _ _⟩
      simpa [Command.procedureName?, headings] using apart
  · next notDefine =>
      rw [Command.procedureName?_eq_none notDefine] at apart
      rw [procedures_attach]
      exact ⟨apart, List.prefix_rfl⟩

theorem Apart.attach (apart : assembly.Apart) (node : Node) :
    (assembly.attach node).Apart ∧ assembly.procedures <+:
      (assembly.attach node).procedures := by
  unfold Apart
  rw [headings_attach, procedures_attach]
  exact ⟨apart, List.prefix_rfl⟩

/-- Adding a command keeps the names apart, and no procedure is lost or
replaced. -/
theorem Apart.add (apart : assembly.Apart) {command : Command} {line : Nat}
    (added : assembly.add command line = .ok next) :
    next.Apart ∧ assembly.procedures <+: next.procedures := by
  unfold Assembly.add at added
  split at added
  · split at added
    · cases added
    · next block outer unclosed =>
        cases added
        exact apart.closeBlock unclosed
  · next name =>
      split at added
      · cases added
      · next missing =>
          cases added
          refine ⟨apart.openBlock line ?_, List.prefix_rfl⟩
          rintro _ ⟨⟩
          exact missing
  · split at added
    · cases added
      exact apart.attach _
    · cases added
  · next notDefine _ =>
      split at added
      · cases added
        refine ⟨apart.openBlock line ?_, List.prefix_rfl⟩
        intro name defines
        exact (notDefine name
          (Command.procedureName?_eq_some_iff.mp defines)).elim
      · cases added
        exact apart.attach _

theorem Apart.addAll (apart : assembly.Apart) {word : List (Command × Nat)}
    (added : assembly.addAll word = (next, none)) :
    next.Apart ∧ assembly.procedures <+: next.procedures := by
  induction word generalizing assembly with
  | nil =>
      cases added
      exact ⟨apart, List.prefix_rfl⟩
  | cons entry rest ih =>
      unfold Assembly.addAll at added
      split at added
      · cases added
      · next step =>
          obtain ⟨apartMiddle, before⟩ := apart.add step
          obtain ⟨apartNext, after⟩ := ih apartMiddle added
          exact ⟨apartNext, before.trans after⟩

/-- A definition that has been closed stays among the procedures.  From then on
the procedures are only added to. -/
theorem mem_procedures_of_defines {word : List (Command × Nat)}
    {procedure : Procedure} (added : empty.addAll word = (assembly, none))
    (defines : Defines word procedure) :
    procedure ∈ assembly.procedures := by
  obtain ⟨before, inner, after, endLine, body, rfl, derives, same⟩ := defines
  have block : Derives
      ((.define procedure.name, procedure.line) ::
        (inner ++ [(.endBlock, endLine)]))
      [.block (.define procedure.name) procedure.line body] :=
        .block rfl derives .nil
  have distinct := nodup_definedNames_of_clean (tracks_of_addAll added).2
  rw [show before ++ (.define procedure.name, procedure.line) ::
    (inner ++ (.endBlock, endLine) :: after) =
      before ++
        ((.define procedure.name, procedure.line) ::
          (inner ++ [(.endBlock, endLine)]) ++ after) by simp] at added distinct
  obtain ⟨middle, addedBefore, addedRest⟩ := exists_of_addAll_append added
  have tracks := (tracks_of_addAll addedBefore).1
  rw [definedNames_append, definedNames_append] at distinct
  obtain ⟨_, distinctRest, apartRest⟩ := List.nodup_append.mp distinct
  have addedBlock : middle.addAll
      ((.define procedure.name, procedure.line) ::
        (inner ++ [(.endBlock, endLine)])) =
        (middle.extend [.block (.define procedure.name) procedure.line body],
          none) := by
    refine addAll_of_derives block ⟨?_, trivial⟩
      (List.nodup_append.mp distinctRest).1 ?_
    · rw [Node.ReturnsEnclosed, Command.procedureName?, Option.isSome_some,
        Bool.or_true]
      exact Node.returnsEnclosedList_true body
    · intro name member defined
      exact apartRest name ((tracks.defined name).mp defined) name
        (List.mem_append_left _ member) rfl
  rw [addAll_append addedBlock] at addedRest
  have apart := ((apart_empty.addAll addedBefore).1.addAll addedBlock).1
  refine (apart.addAll addedRest).2.subset ?_
  rw [procedures_extend]
  refine List.mem_append_right _ ?_
  obtain ⟨name, line, nodes⟩ := procedure
  dsimp only at same
  simp [definitionsList, Node.definitions, Command.procedureName?, same]

/-- A command that is refused does not leave a block open. -/
theorem code_of_refused {command : Command} {line : Nat} {fault : BlockFault}
    (refused : assembly.add command line = .error fault) :
    fault.code ≠ .unclosedBlock := by
  unfold add at refused
  split at refused <;> split at refused <;> cases refused <;>
    simp [BlockFault.code]

theorem finish_of_open {block : OpenBlock} {outer : List OpenBlock}
    (opened : assembly.unclosed = block :: outer) :
    assembly.finish =
      .error (Fault.at (.block (.unclosed assembly.depth)) block.line
        block.header.describe) := by
  rw [finish, opened]

/-- What has been assembled of a word, by its layers: only the part before the
outermost open block has become nodes of the program, and every procedure is a
definition in the word.  A block takes all that comes after its header, and the
nodes of the program stay the same. -/
theorem items_of_layered {word opened : List (Command × Nat)}
    (layered : Layered word opened)
    (added : empty.addAll word = (assembly, none)) :
    assembly.headings = opened ∧
    (∀ procedure ∈ assembly.procedures, Defines word procedure) ∧
    ∃ outer rest forest, word = outer ++ rest ∧ rest.head? = opened.getLast? ∧
      empty.addAll outer = (empty.extend forest, none) ∧
      assembly.items = (empty.extend forest).items := by
  have distinct := nodup_definedNames_of_clean (tracks_of_addAll added).2
  induction layered generalizing assembly with
  | @closed word forest derives enclosed =>
      have whole : empty.addAll word = (empty.extend forest, none) :=
        addAll_of_derives derives enclosed distinct fun name _ =>
          not_defines_empty name
      cases added.symm.trans whole
      refine ⟨rfl, ?_, word, [], forest, by simp, rfl, whole, rfl⟩
      intro procedure member
      exact .of_mem_definitionsList derives member
  | @opened outer inner opened header line body around opens derives
      enclosed ih =>
      obtain ⟨middle, addedOuter, addedInner⟩ := exists_of_addAll_append added
      rw [definedNames_append, definedNames_cons] at distinct
      obtain ⟨distinctOuter, distinctInner, apart⟩ :=
        List.nodup_append.mp distinct
      obtain ⟨headings, defined, before, rest, forest, split, first,
          addedBefore, items⟩ :=
        ih addedOuter distinctOuter
      have tracks := (tracks_of_addAll addedOuter).1
      have opening :
          middle.add header line = .ok (middle.openBlock header line) := by
        refine add_opening line opens fun name defines known => ?_
        exact apart name ((tracks.defined name).mp known) name
          (by simp [defines]) rfl
      have filled : (middle.openBlock header line).addAll inner =
          ((middle.openBlock header line).extend body, none) := by
        refine addAll_of_derives derives ?_
          (List.nodup_append.mp distinctInner).2.1 ?_
        · rwa [insideProcedure_eq, headings_openBlock, headings]
        · intro name member known
          rcases (defines_openBlock middle header line name).mp
            known with earlier | defines
          · exact apart name ((tracks.defined name).mp earlier) name
              (List.mem_append_right _ member) rfl
          · exact (List.nodup_append.mp distinctInner).2.2 name
              (by simp [defines]) name member rfl
      rw [addAll, opening] at addedInner
      cases addedInner.symm.trans filled
      rw [extend_openBlock]
      refine ⟨?_, ?_, before, rest ++ (header, line) :: inner, forest, ?_, ?_,
        addedBefore, items⟩
      · rw [← headings]
        rfl
      · intro procedure member
        rcases List.mem_append.mp member with earlier | here
        · exact (defined procedure earlier).append_right _
        · have inside :=
            (Defines.of_mem_definitionsList derives here).append_left
            (outer ++ [(header, line)])
          simpa using inside
      · rw [split, List.append_assoc]
      · rw [List.head?_append, first, List.getLast?_cons]
        cases opened.getLast? <;> rfl

end Assembly

/-! ### Reading lines -/

namespace Program

/-- Lines that are read one after the other, with the commands on them. -/
inductive Reads : Store → List Line → List (Command × Nat) → Store → Prop where
  | nil {store : Store} : Reads store [] [] store
  | cons {store middle final : Store} {line : Line} {lines : List Line}
      {command : Command} {word : List (Command × Nat)}
      (read : Command.ofLine line store = .ok command middle)
      (rest : Reads middle lines word final) :
      Reads store (line :: lines) ((command, line.number) :: word) final

variable {store final : Store} {lines : List Line} {word : List (Command × Nat)}

theorem Reads.of_append {more : List (Command × Nat)}
    (reads : Reads store lines (word ++ more) final) :
    ∃ first second middle, lines = first ++ second ∧
      Reads store first word middle ∧
      Reads middle second more final := by
  induction word generalizing store lines with
  | nil => exact ⟨[], lines, store, rfl, .nil, reads⟩
  | cons entry word ih =>
      cases reads with
      | @cons _ _ _ line lines _ _ read rest =>
          obtain ⟨first, second, middle, rfl, readsFirst, readsSecond⟩ :=
            ih rest
          exact ⟨line :: first, second, middle, rfl, .cons read readsFirst,
            readsSecond⟩

theorem parseLines_of_reads {assembly next : Assembly}
    (reads : Reads store lines word final)
    (added : assembly.addAll word = (next, none)) (more : List Line) :
    parseLines assembly store (lines ++ more) = parseLines next final more := by
  induction reads generalizing assembly with
  | nil =>
      cases added
      rfl
  | @cons store middle final line lines command word read rest ih =>
      rw [Assembly.addAll] at added
      split at added
      · cases added
      · next step =>
          rw [List.cons_append, parseLines, read]
          dsimp only
          rw [step]
          exact ih added

/-- How reading ends behind some lines, with what has been assembled of them: at
the end of the script with all blocks closed or with an open one, or at the next
line. -/
inductive Stops (next : Assembly) : List Line → Option Failure → Prop where
  | complete (closed : next.unclosed = []) : Stops next [] none
  | unclosed {block : OpenBlock} {outer : List OpenBlock}
      (opened : next.unclosed = block :: outer) :
      Stops next [] (some (Fault.at (.block (.unclosed next.depth)) block.line
        block.header.describe))
  | refused {line : Line} {after : List Line} {failure : Failure}
      (atLine : failure.line = line.number)
      (code : failure.code ≠ .unclosedBlock) :
      Stops next (line :: after) (some failure)

/-- Reading goes through some lines, and the program is what has been assembled
of them. -/
theorem parseLines_reads (assembly : Assembly) (store : Store)
    (lines : List Line) :
    ∃ before rest word middle next, lines = before ++ rest ∧
      Reads store before word middle ∧
      assembly.addAll word = (next, none) ∧
      (parseLines assembly store lines).program = next.completed ∧
      Stops next rest (parseLines assembly store lines).failure := by
  induction lines generalizing assembly store with
  | nil =>
      refine ⟨[], [], [], store, assembly, rfl, .nil, rfl, ?_⟩
      cases opened : assembly.unclosed with
      | nil =>
          simp only [parseLines, Assembly.finish_eq_ok_iff.mpr ⟨opened, rfl⟩]
          exact ⟨trivial, .complete opened⟩
      | cons block outer =>
          simp only [parseLines, Assembly.finish_of_open opened]
          exact ⟨trivial, .unclosed opened⟩
  | cons line lines ih =>
      cases read : Command.ofLine line store with
      | error cause middle =>
          obtain ⟨atLine, unnested⟩ := Command.ofLine_eq_error read
          refine ⟨[], line :: lines, [], store, assembly, rfl, .nil, rfl, ?_⟩
          simp only [parseLines, read]
          refine ⟨trivial, .refused atLine ?_⟩
          intro unclosed
          exact unnested (congrArg Fault.Code.category unclosed)
      | ok command middle =>
          cases step : assembly.add command line.number with
          | error fault =>
              refine ⟨[], line :: lines, [], store, assembly, rfl,
                .nil, rfl, ?_⟩
              simp only [parseLines, read, step]
              exact ⟨trivial, .refused rfl (Assembly.code_of_refused step)⟩
          | ok next =>
              obtain ⟨before, rest, word, final, last, rfl, reads,
                  added, outcome⟩ :=
                ih next middle
              refine ⟨line :: before, rest, (command, line.number) :: word,
                final, last, rfl, .cons read reads, ?_, ?_⟩
              · rw [Assembly.addAll, step]
                exact added
              · simpa only [parseLines, read, step] using outcome

/-- Where reading fails: at a line, or at the end of a script with an open
block. -/
theorem parseLines_stops {assembly : Assembly} {failure : Failure}
    (failed : (parseLines assembly store lines).failure = some failure) :
    ∃ before rest word middle next, lines = before ++ rest ∧
      Reads store before word middle ∧
      assembly.addAll word = (next, none) ∧
      (parseLines assembly store lines).program = next.completed ∧
      (rest = [] ∧ next.unclosed ≠ [] ∧ failure.code = .unclosedBlock ∨
        ∃ line after, rest = line :: after ∧ failure.line = line.number ∧
          failure.code ≠ .unclosedBlock) := by
  obtain ⟨before, rest, word, middle, next, split, reads, added,
      program, stops⟩ :=
    parseLines_reads assembly store lines
  refine ⟨before, rest, word, middle, next, split, reads, added, program, ?_⟩
  rw [failed] at stops
  cases stops with
  | unclosed opened => exact .inl ⟨rfl, by simp [opened], rfl⟩
  | refused atLine code => exact .inr ⟨_, _, rfl, atLine, code⟩

/-! ### Partial programs -/

/-- The number of the line at which reading a script stops.  Where a block is
left open, that is behind its last line. -/
def stop (source : String) (failure : Failure) : Nat :=
  if failure.code = .unclosedBlock
    then (Text.fields (· == '\n') source.toList).length + 1
  else failure.line

/-- The line with which the outermost block begins that is open behind a
word. -/
def outermostLine? (word : List (Command × Nat)) : Option Nat :=
  (openHeaders word).getLast?.map Prod.snd

/-- When a script cannot be read to its end, let the outermost block that is
open where it stops begin at some line, or take the line where it stops if no
block is open.  Then the script cut before that line can be read, and its nodes
are the ones that remain.  The procedures that remain are those whose definition
is closed before the line where the script stops, even inside an open block.  A
lenient session keeps just this program. -/
theorem partial_program (source : String) (failure : Failure)
    (failed : (parse source .empty).failure = some failure) :
    ∃ word store,
      Reads .empty (Line.ofSource (Line.cutBefore (stop source failure) source))
        word store ∧
      (let shorter :=
        parse
          (Line.cutBefore ((outermostLine? word).getD (stop source failure))
            source) .empty
      shorter.failure = none ∧ (parse source .empty).program.items =
        shorter.program.items) ∧
      (∀ procedure, procedure ∈ (parse source .empty).program.procedures ↔
        Defines word procedure) ∧
      ((parse source .empty).program.procedures.map Procedure.name).Nodup ∧
      ∀ session : Session, session.config.leniency = .pardon →
        (session.load source).2.program = (parse source .empty).program := by
  obtain ⟨before, rest, word, store, assembly, lines, reads, added,
      program, stopped⟩ :=
    parseLines_stops failed
  have kept : (parse source .empty).program = assembly.completed := program
  have clean := (Assembly.tracks_of_addAll added).2
  obtain ⟨_, defined, outer, inner, forest, split, first, addedOuter, items⟩ :=
    Assembly.items_of_layered (layered_of_clean clean) added
  have linesBefore :
      Line.ofSource (Line.cutBefore (stop source failure) source) = before := by
    rcases stopped with ⟨rfl, _, code⟩ | ⟨line, after, rfl, number, code⟩
    · rw [stop, if_pos code, Line.ofSource_cutBefore_end, lines,
        List.append_nil]
    · rw [stop, if_neg code, number]
      exact Line.ofSource_cutBefore lines
  obtain ⟨outerLines, innerLines, middle, apart, readsOuter, readsInner⟩ :=
    Reads.of_append (split ▸ reads)
  have linesOuter : Line.ofSource (Line.cutBefore
      ((outermostLine? word).getD (stop source failure)) source) =
        outerLines := by
    rw [outermostLine?, ← first]
    cases inner with
    | nil =>
        cases readsInner
        rw [List.append_nil] at apart
        exact linesBefore.trans apart
    | cons entry more =>
        cases readsInner with
        | cons read later =>
            rw [apart, List.append_assoc, List.cons_append] at lines
            exact Line.ofSource_cutBefore lines
  have shorter :
      parse
          (Line.cutBefore ((outermostLine? word).getD (stop source failure))
            source) .empty =
        ⟨(Assembly.empty.extend forest).completed, none, middle⟩ := by
    rw [parse, linesOuter, ← List.append_nil outerLines,
      parseLines_of_reads readsOuter addedOuter]
    rfl
  refine ⟨word, store, linesBefore ▸ reads, ?_, ?_, ?_, ?_⟩
  · rw [shorter, kept]
    exact ⟨rfl, congrArg List.reverse items⟩
  · intro procedure
    rw [kept]
    exact ⟨defined procedure, Assembly.mem_procedures_of_defines added⟩
  · rw [kept]
    exact (List.nodup_append.mp (Assembly.apart_empty.addAll added).1).1
  · intro session pardons
    unfold Session.load
    dsimp only
    rw [failed]
    dsimp only
    rw [pardons]
    rfl

/-- A script that stops at its tenth line, inside a loop with a definition that
is closed. -/
theorem partial_program_open_loop :
    let source :=
      "dot\ndef a\ndot\nend\nwhile true\ndef b\nclear\nend\nif true\nnonsense"
    ∃ failure, (parse source .empty).failure = some failure ∧
      stop source failure = 10 ∧
      (parse source .empty).program.procedures.map Procedure.name = ["a", "b"] ∧
      ∃ word store,
        Reads .empty (Line.ofSource (Line.cutBefore 10 source)) word store ∧
        (parse (Line.cutBefore ((outermostLine? word).getD 10) source)
          .empty).failure = none ∧
        ∀ procedure ∈ (parse source .empty).program.procedures,
          Defines word procedure := by
  intro source
  have stops : (parse source .empty).failure.map (stop source) = some 10 := by
    decide +kernel
  have names :
      (parse source .empty).program.procedures.map Procedure.name =
        ["a", "b"] := by
    decide +kernel
  generalize source = script at stops names ⊢
  obtain ⟨failure, failed, atTenth⟩ := Option.map_eq_some_iff.mp stops
  obtain ⟨word, store, reads, ⟨shorter, _⟩, defined, _⟩ :=
    partial_program script failure failed
  rw [atTenth] at reads shorter
  exact ⟨failure, failed, atTenth, names, word, store, reads, shorter,
    fun procedure => (defined procedure).mp⟩

end Program

end PenScript
