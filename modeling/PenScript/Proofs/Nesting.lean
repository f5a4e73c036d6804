import PenScript.Proofs.PartialPrograms
import PenScript.Proofs.Returns

/-!
# What a program consists of

In a program that has been read, as a whole or in part, blocks are branches and
loops, and leaves are commands that neither open nor close a block.  A `ret`
stands in procedures only.  A run therefore comes to its end behind the last
node of the program, and never before it.
-/

namespace PenScript

open Node (Derives ReturnsEnclosedList withoutDefinitionsList)

namespace Node

/-- A node in which every leaf is a command that stands for itself, and every
block is headed by a branch or a loop. -/
inductive Tidy : Node → Prop where
  | leaf {command : Command} {line : Nat} (closed : command.opensBlock = false)
      (notEnd : command ≠ .endBlock) : Tidy (.leaf command line)
  | block {header : Command} {line : Nat} {body : List Node}
      (opens : header.opensBlock = true)
      (notDefine : ∀ name, header ≠ .define name)
      (inside : ∀ node ∈ body, Tidy node) :
      Tidy (.block header line body)

theorem returnFree_append {first second : List Node}
    (freeFirst : ReturnFree first) (freeSecond : ReturnFree second) :
    ReturnFree (first ++ second) := by
  intro entry member
  rw [mem_commandsList] at member
  obtain ⟨node, inside, listed⟩ := member
  rcases List.mem_append.mp inside with early | late
  · exact freeFirst entry (mem_commandsList.mpr ⟨node, early, listed⟩)
  · exact freeSecond entry (mem_commandsList.mpr ⟨node, late, listed⟩)

namespace Derives

variable {word : List (Command × Nat)} {forest : List Node}

/-- Without its definitions, the forest of a word is tidy. -/
theorem tidy (derives : Derives word forest) :
    ∀ node ∈ withoutDefinitionsList forest, node.Tidy := by
  induction derives with
  | nil =>
      intro node member
      cases member
  | leaf closed notEnd _ ih =>
      rw [withoutDefinitionsList, withoutDefinitions]
      exact List.forall_mem_cons.mpr ⟨.leaf closed notEnd, ih⟩
  | @block header line _ _ _ body _ opens _ _ ihInside ihRest =>
      rw [withoutDefinitionsList, withoutDefinitions]
      refine List.forall_mem_append.mpr ⟨?_, ihRest⟩
      split
      · intro node member
        cases member
      · next plain =>
          intro node member
          cases List.mem_singleton.mp member
          refine .block opens ?_ ihInside
          rintro name rfl
          cases plain

/-- If every `ret` is inside a definition, none is left without the
definitions. -/
theorem returnFree (derives : Derives word forest)
    (enclosed : ReturnsEnclosedList false forest) :
    ReturnFree (withoutDefinitionsList forest) := by
  induction derives with
  | nil =>
      intro entry member
      cases member
  | leaf _ _ _ ih =>
      obtain ⟨here, later⟩ := enclosed
      refine returnFree_append ?_ (ih later)
      intro entry member same
      cases List.mem_singleton.mp member
      cases here same
  | @block header line _ _ _ body _ opens _ _ ihInside ihRest =>
      obtain ⟨here, later⟩ := enclosed
      refine returnFree_append ?_ (ihRest later)
      rw [withoutDefinitions]
      split
      · intro entry member
        cases member
      · next plain =>
          have freeBody : ReturnFree (withoutDefinitionsList body) := by
            apply ihInside
            simpa [ReturnsEnclosed, plain] using here
          intro entry member
          simp only [commandsList, commands, List.append_nil, List.mem_cons]
              at member
          rcases member with rfl | inBody
          · rintro rfl
            cases opens
          · exact freeBody entry inBody

end Derives

end Node

theorem Procedure.find?_of_mem {procedures : List Procedure}
    {procedure : Procedure} (distinct : (procedures.map Procedure.name).Nodup)
    (member : procedure ∈ procedures) :
    Procedure.find? procedure.name procedures = some procedure := by
  induction procedures with
  | nil => cases member
  | cons first rest ih =>
      obtain ⟨apart, distinctRest⟩ := List.nodup_cons.mp distinct
      rw [Procedure.find?, List.find?_cons]
      rcases List.mem_cons.mp member with rfl | later
      · simp
      · have other : first.name ≠ procedure.name := by
          intro same
          exact apart (same ▸ List.mem_map_of_mem later)
        simp only [other, decide_false]
        exact ih distinctRest later

namespace Assembly

variable {word : List (Command × Nat)} {assembly : Assembly}

/-- The nodes of a program are those of a word of the grammar, with which the
whole word begins. -/
theorem exists_wellFormed_of_addAll
    (added : empty.addAll word = (assembly, none)) :
    ∃ outer inner forest, word = outer ++ inner ∧ WellFormed outer forest ∧
      assembly.completed.items = withoutDefinitionsList forest := by
  have clean := (tracks_of_addAll added).2
  obtain ⟨_, _, outer, inner, before, split, _, addedOuter, items⟩ :=
    items_of_layered (layered_of_clean clean) added
  obtain ⟨tracks, cleanOuter⟩ := tracks_of_addAll addedOuter
  have closed : openHeaders outer = [] := by
    rw [← tracks.opened, headings_extend]
    rfl
  obtain ⟨forest, wellFormed⟩ := wellFormed_of_clean cleanOuter closed
  refine ⟨outer, inner, forest, split, wellFormed, ?_⟩
  have same : empty.extend before = _ :=
    congrArg Prod.fst (addedOuter.symm.trans (addAll_of_wellFormed wellFormed))
  rw [completed, items, same, List.reverse_reverse]

theorem defines_of_mem_procedures
    (added : empty.addAll word = (assembly, none)) :
    ∀ procedure ∈ assembly.procedures, Defines word procedure :=
  (items_of_layered (layered_of_clean (tracks_of_addAll added).2) added).2.1

end Assembly

namespace Program

open Execution (runNodes callProcedure run Completes)
open Stateful

theorem Reads.of_mem {store final : Store} {lines : List Line}
    {word : List (Command × Nat)} (reads : Reads store lines word final)
    {command : Command} {number : Nat} (member : (command, number) ∈ word) :
    ∃ line ∈ lines, line.number = number ∧
      ∃ before after, Command.ofLine line before = .ok command after := by
  induction reads with
  | nil => cases member
  | @cons store middle final line lines other word read _ ih =>
      rcases List.mem_cons.mp member with same | later
      · cases same
        exact ⟨line, List.mem_cons_self, rfl, store, middle, read⟩
      · obtain ⟨found, inside, rest⟩ := ih later
        exact ⟨found, List.mem_cons_of_mem _ inside, rest⟩

/-- In every program that is read, be it only in part, leaves neither open nor
close blocks, blocks are branches and loops, procedures are found by the name in
the definition at their line, and no `ret` stands outside of procedures.  So the
nodes of the program never return, and a run that succeeds has carried out each
of them in order. -/
theorem nesting_of_parse (source : String) (store : Store) :
    let program := (parse source store).program
    (∀ node ∈ program.items, node.Tidy) ∧
    (∀ procedure ∈ program.procedures,
      (∀ node ∈ procedure.body, node.Tidy) ∧
      Procedure.find? procedure.name program.procedures = some procedure ∧
      ∃ line ∈ Line.ofSource source, line.number = procedure.line ∧
        ∃ before after,
          Command.ofLine line before = .ok (.define procedure.name) after) ∧
    Node.ReturnFree program.items ∧
    ∀ (limits : Limits) (machine final : Machine),
      let call := callProcedure limits program.procedures limits.depth
      runNodes limits call program.items machine ≠ .ok .ret final ∧
      (run limits program.procedures program.items machine = .ok () final ↔
        Completes limits call program.items machine final) := by
  intro program
  obtain ⟨before, rest, word, middle, assembly, lines, reads, added, same, _⟩ :=
    parseLines_reads .empty store (Line.ofSource source)
  have assembled : program = assembly.completed := same
  obtain ⟨_, _, forest, _, ⟨derives, enclosed, _⟩, items⟩ :=
    Assembly.exists_wellFormed_of_addAll added
  have returnFree : Node.ReturnFree program.items := by
    rw [assembled, items]
    exact derives.returnFree enclosed
  refine ⟨?_, ?_, returnFree, ?_⟩
  · rw [assembled, items]
    exact derives.tidy
  · rw [assembled]
    intro procedure member
    obtain ⟨ahead, inner, after, endLine, body, split, inside, pruned⟩ :=
      Assembly.defines_of_mem_procedures added procedure member
    have distinct :=
      (List.nodup_append.mp (Assembly.apart_empty.addAll added).1).1
    have heading : (.define procedure.name, procedure.line) ∈ word := by
      simp [split]
    obtain ⟨line, listed, atLine⟩ := reads.of_mem heading
    refine ⟨pruned ▸ inside.tidy, Procedure.find?_of_mem distinct member,
      line, ?_, atLine⟩
    rw [lines]
    exact List.mem_append_left _ listed
  · intro limits machine final call
    have goesOn :=
      Execution.GoesOn.runNodes limits call program.items returnFree
    constructor
    · intro returned
      cases goesOn machine _ final returned
    · rw [Execution.completes_iff, run, bind_eq_ok_iff]
      constructor
      · rintro ⟨flow, last, ran, ended⟩
        cases ended
        cases goesOn machine flow final ran
        exact ran
      · intro ran
        exact ⟨.next, final, ran, rfl⟩

/-- A script that stops at a `ret` in a loop of its own.  What has been read
before it calls a procedure that returns, and is carried out to its third and
last node. -/
theorem nesting_of_parse_stray_return :
    let source :=
      "dot\ndef p\nif true\nret\nend\nend\ncall p\nfor i 1 2\ndot\nend\nwhile true\nret"
    let parsed := parse source .empty
    parsed.failure.map Failure.code = some .strayReturn ∧
    parsed.program.items.map Node.line = [1, 7, 8] ∧
    ∃ final,
      run {} parsed.program.procedures parsed.program.items
        ⟨#[], parsed.store⟩ =
        .ok () final ∧
      Completes {} (callProcedure {} parsed.program.procedures 256)
        parsed.program.items ⟨#[], parsed.store⟩ final := by
  intro source
  have nesting := nesting_of_parse source .empty
  have facts : let parsed := parse source .empty
      parsed.failure.map Failure.code = some .strayReturn ∧
      parsed.program.items.map Node.line = [1, 7, 8] ∧
      answer?
        (run {} parsed.program.procedures parsed.program.items
          ⟨#[], parsed.store⟩) =
        some () := by decide +kernel
  generalize parse source .empty = parsed at nesting facts ⊢
  obtain ⟨failure, lines, succeeds⟩ := facts
  obtain ⟨_, _, _, runs⟩ := nesting
  obtain ⟨final, outcome⟩ := answer?_eq_some_iff.mp succeeds
  exact ⟨failure, lines, final, outcome,
    (runs {} ⟨#[], parsed.store⟩ final).2.mp outcome⟩

end Program

end PenScript
