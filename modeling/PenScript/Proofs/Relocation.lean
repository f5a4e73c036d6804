import Mathlib.Data.List.Forall2
import PenScript.Proofs.Leniency
import PenScript.Proofs.PartialPrograms

/-!
# Moving the lines of a script

If the code of a script is moved to other lines, the nodes of its program move
along, and so does the failure that ends the reading.  Nothing else changes.
-/

namespace PenScript

/-! ### Programs -/

mutual

/-- The node with every line in it moved to its new place. -/
def Node.relocate (place : Nat → Nat) : Node → Node
  | .leaf command line => .leaf command (place line)
  | .block header line body =>
      .block header (place line) (Node.relocateList place body)

/-- List counterpart of `Node.relocate`. -/
def Node.relocateList (place : Nat → Nat) : List Node → List Node
  | [] => []
  | node :: rest => node.relocate place :: Node.relocateList place rest

end

theorem Node.relocateList_eq_map (place : Nat → Nat) (nodes : List Node) :
    relocateList place nodes = nodes.map (relocate place) := by
  induction nodes with
  | nil => rfl
  | cons node rest ih => rw [relocateList, ih, List.map_cons]

namespace Procedure

def relocate (place : Nat → Nat) (procedure : Procedure) : Procedure :=
  ⟨procedure.name, place procedure.line, Node.relocateList place procedure.body⟩

variable (place : Nat → Nat)

theorem map_relocate_insert (procedure : Procedure)
    (procedures : List Procedure) :
    (procedure.insert procedures).map (relocate place) =
      (procedure.relocate place).insert (procedures.map (relocate place)) := by
  induction procedures with
  | nil => rfl
  | cons other rest ih =>
      rw [insert, List.map_cons, insert]
      by_cases same : other.name = procedure.name
      · have sameMoved :
            (other.relocate place).name = (procedure.relocate place).name :=
          same
        rw [if_pos same, if_pos sameMoved, List.map_cons]
      · have otherMoved :
            (other.relocate place).name ≠ (procedure.relocate place).name :=
          same
        rw [if_neg same, if_neg otherMoved, List.map_cons, ih]

theorem isSome_find?_relocate (name : String) (procedures : List Procedure) :
    (find? name (procedures.map (relocate place))).isSome =
      (find? name procedures).isSome := by
  rw [find?, List.find?_map, Option.isSome_map]
  rfl

end Procedure

def Program.relocate (place : Nat → Nat) (program : Program) : Program :=
  ⟨Node.relocateList place program.items,
    program.procedures.map (Procedure.relocate place)⟩

/-! ### Assembling -/

def OpenBlock.relocate (place : Nat → Nat) (block : OpenBlock) : OpenBlock :=
  ⟨block.header, place block.line, Node.relocateList place block.body⟩

namespace Assembly

def relocate (place : Nat → Nat) (assembly : Assembly) : Assembly :=
  ⟨assembly.unclosed.map (OpenBlock.relocate place),
    Node.relocateList place assembly.items,
    assembly.procedures.map (Procedure.relocate place)⟩

variable (place : Nat → Nat) (assembly : Assembly)

theorem completed_relocate :
    (assembly.relocate place).completed =
      assembly.completed.relocate place := by
  simp [completed, relocate, Program.relocate, Node.relocateList_eq_map]

theorem depth_relocate : (assembly.relocate place).depth = assembly.depth :=
  List.length_map _

theorem defines_relocate (name : String) :
    (assembly.relocate place).defines name = assembly.defines name := by
  rw [defines, relocate, Procedure.isSome_find?_relocate, List.any_map]
  rfl

theorem insideProcedure_relocate :
    (assembly.relocate place).insideProcedure = assembly.insideProcedure := by
  rw [insideProcedure, relocate, List.any_map]
  rfl

theorem relocate_attach (node : Node) :
    (assembly.attach node).relocate place =
      (assembly.relocate place).attach (node.relocate place) := by
  obtain ⟨unclosed, items, procedures⟩ := assembly
  cases unclosed <;> rfl

theorem relocate_closeBlock (block : OpenBlock) :
    (assembly.closeBlock block).relocate place =
      (assembly.relocate place).closeBlock (block.relocate place) := by
  obtain ⟨header, line, body⟩ := block
  have bodies :
      Node.relocateList place body.reverse =
        (Node.relocateList place body).reverse := by
    simp [Node.relocateList_eq_map]
  unfold closeBlock OpenBlock.relocate
  dsimp only
  split
  · rw [relocate, Procedure.map_relocate_insert, Procedure.relocate, bodies]
    rfl
  · rw [relocate_attach, Node.relocate, bodies]

/-- Whether a command fits in, and where it goes, does not depend on the
lines. -/
theorem add_relocate (command : Command) (line : Nat) :
    (assembly.relocate place).add command (place line) =
      (assembly.add command line).map (relocate place) := by
  unfold add
  split
  · cases opened : assembly.unclosed with
    | nil =>
        have none : (assembly.relocate place).unclosed = [] := by
          simp [relocate, opened]
        rw [none]
        rfl
    | cons block outer =>
        have some : (assembly.relocate place).unclosed =
            block.relocate place :: outer.map (OpenBlock.relocate place) := by
          simp [relocate, opened]
        rw [some]
        have closed :=
          relocate_closeBlock place { assembly with unclosed := outer } block
        exact congrArg Except.ok closed.symm
  · rw [defines_relocate]
    split
    · rfl
    · rfl
  · rw [insideProcedure_relocate]
    split
    · exact congrArg Except.ok
        (relocate_attach place assembly (.leaf .ret line)).symm
    · rfl
  · split
    · rfl
    · exact congrArg Except.ok
        (relocate_attach place assembly (.leaf command line)).symm

end Assembly

/-! ### Reading -/

/-- A line with the same code at another place. -/
structure Line.Moved (place : Nat → Nat) (line other : Line) : Prop where
  number : other.number = place line.number
  text : other.text = line.text

/-- The same failure at another place, and possibly in another context. -/
structure Failure.Moved (place : Nat → Nat) (failure other : Failure) :
    Prop where
  code : other.code = failure.code
  message : other.message = failure.message
  line : other.line = place failure.line

namespace Program

/-- The same outcome of reading up to lines, and up to the context of a
failure. -/
inductive Alike (place : Nat → Nat) :
    Except Failure Program → Except Failure Program → Prop where
  | ok (program : Program) :
      Alike place (.ok program) (.ok (program.relocate place))
  | error {failure other : Failure} (moved : failure.Moved place other) :
      Alike place (.error failure) (.error other)

/-- The same program and the same failure, at other lines. -/
structure Parsed.Moved (place : Nat → Nat) (parsed other : Parsed) : Prop where
  program : other.program = parsed.program.relocate place
  failure : Option.Rel (Failure.Moved place) parsed.failure other.failure

variable {place : Nat → Nat}

/-- The text of a line stays the same, so its command does; only its number may
be another one. -/
theorem parseLines_moved {lines others : List Line}
    (moved : List.Forall₂ (Line.Moved place) lines others) (assembly : Assembly)
    (store : Store) :
    Parsed.Moved place (parseLines assembly store lines)
      (parseLines (assembly.relocate place) store others) := by
  induction moved generalizing assembly store with
  | nil =>
      cases opened : assembly.unclosed with
      | nil =>
          have openedMoved : (assembly.relocate place).unclosed = [] := by
            simp [Assembly.relocate, opened]
          simp only [parseLines, Assembly.finish_eq_ok_iff.mpr ⟨opened, rfl⟩,
            Assembly.finish_eq_ok_iff.mpr ⟨openedMoved, rfl⟩]
          exact ⟨assembly.completed_relocate place, .none⟩
      | cons block outer =>
          have openedMoved : (assembly.relocate place).unclosed =
              block.relocate place :: outer.map (OpenBlock.relocate place) := by
            simp [Assembly.relocate, opened]
          simp only [parseLines, Assembly.finish_of_open opened,
            Assembly.finish_of_open openedMoved, Assembly.depth_relocate]
          exact ⟨assembly.completed_relocate place, .some ⟨rfl, rfl, rfl⟩⟩
  | @cons line other lines others same _ ih =>
      obtain ⟨number, text⟩ := same
      cases read : Command.ofText line.text store with
      | error fault middle =>
          simp only [parseLines, Command.ofLine_of_error read,
            Command.ofLine_of_error (text ▸ read)]
          exact ⟨assembly.completed_relocate place, .some ⟨rfl, rfl, number⟩⟩
      | ok command middle =>
          have adds := assembly.add_relocate place command line.number
          rw [← number] at adds
          simp only [parseLines, Command.ofLine_of_ok read,
            Command.ofLine_of_ok (text ▸ read), adds]
          cases assembly.add command line.number with
          | error fault =>
              exact ⟨assembly.completed_relocate place,
                .some ⟨rfl, rfl, number⟩⟩
          | ok next => exact ih next middle

/-- Moving the code of a script moves what is read from it. -/
theorem alike_of_moved {source other : String}
    (moved : List.Forall₂ (Line.Moved place) (Line.ofSource source)
      (Line.ofSource other)) :
    Alike place (compile source) (compile other) := by
  obtain ⟨program, failures⟩ :
      (parse source .empty).Moved place (parse other .empty) :=
    parseLines_moved moved .empty .empty
  cases stopped : (parse source .empty).failure with
  | none =>
      rw [stopped] at failures
      cases otherStopped : (parse other .empty).failure with
      | none =>
          rw [compile_eq_ok_iff.mpr ⟨stopped, rfl⟩,
            compile_eq_ok_iff.mpr ⟨otherStopped, program⟩]
          exact .ok _
      | some _ =>
          rw [otherStopped] at failures
          cases failures
  | some failure =>
      rw [stopped] at failures
      cases otherStopped : (parse other .empty).failure with
      | none =>
          rw [otherStopped] at failures
          cases failures
      | some otherFailure =>
          rw [otherStopped] at failures
          cases failures with
          | some moved =>
              rw [compile_eq_error_iff.mpr stopped,
                compile_eq_error_iff.mpr otherStopped]
              exact .error moved

end Program

end PenScript
