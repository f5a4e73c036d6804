import PenScript.Failure
import PenScript.Program

/-!
# Assembling programs

A program is assembled from its commands one after the other.  Commands go into
the innermost open block, and a procedure leaves the tree when its block is
closed.
-/

namespace PenScript

/-- A block whose `end` has not been met.  Its body is held in reverse. -/
structure OpenBlock where
  header : Command
  line : Nat
  body : List Node

structure Assembly where
  /-- The open blocks, the innermost first. -/
  unclosed : List OpenBlock
  /-- The completed top-level nodes in reverse. -/
  items : List Node
  procedures : List Procedure

namespace OpenBlock

def definesProcedure (block : OpenBlock) : Bool :=
  match block.header with
  | .define _ => true
  | _ => false

end OpenBlock

namespace Assembly

def empty : Assembly := ⟨[], [], []⟩

def depth (assembly : Assembly) : Nat :=
  assembly.unclosed.length

/-- The part of the program that is complete. -/
def completed (assembly : Assembly) : Program :=
  ⟨assembly.items.reverse, assembly.procedures⟩

/-- Whether a procedure has the given name, be it still open. -/
def defines (assembly : Assembly) (name : String) : Bool :=
  (Procedure.find? name assembly.procedures).isSome ||
    assembly.unclosed.any fun block => block.header = .define name

def insideProcedure (assembly : Assembly) : Bool :=
  assembly.unclosed.any OpenBlock.definesProcedure

/-- Puts a node at the end of the innermost open block, or of the program. -/
def attach (node : Node) (assembly : Assembly) : Assembly :=
  match assembly.unclosed with
  | block :: outer =>
      { assembly with unclosed :=
        { block with body := node :: block.body } :: outer }
  | [] => { assembly with items := node :: assembly.items }

def openBlock (header : Command) (line : Nat) (assembly : Assembly) :
    Assembly :=
  { assembly with unclosed := ⟨header, line, []⟩ :: assembly.unclosed }

/-- Puts a block that has just been closed where it belongs. -/
def closeBlock (block : OpenBlock) (assembly : Assembly) : Assembly :=
  let body := block.body.reverse
  match block.header with
  | .define name =>
      let procedure : Procedure := ⟨name, block.line, body⟩
      { assembly with procedures := procedure.insert assembly.procedures }
  | header => assembly.attach (.block header block.line body)

/-- Adds the command at a line. -/
def add (command : Command) (line : Nat) (assembly : Assembly) :
    Except BlockFault Assembly :=
  match command with
  | .endBlock =>
      match assembly.unclosed with
      | [] => .error .strayEnd
      | block :: outer =>
          .ok ({ assembly with unclosed := outer }.closeBlock block)
  | .define name =>
      if assembly.defines name then .error (.duplicateProcedure name)
      else .ok (assembly.openBlock command line)
  | .ret =>
      if assembly.insideProcedure
        then .ok (assembly.attach (.leaf command line))
      else .error .strayReturn
  | _ =>
      if command.opensBlock then .ok (assembly.openBlock command line)
      else .ok (assembly.attach (.leaf command line))

/-- The finished program, unless a block is still open. -/
def finish (assembly : Assembly) : Except Failure Program :=
  match assembly.unclosed with
  | [] => .ok assembly.completed
  | block :: _ =>
      .error
        (Fault.at (.block (.unclosed assembly.depth)) block.line
          block.header.describe)

end Assembly

end PenScript
