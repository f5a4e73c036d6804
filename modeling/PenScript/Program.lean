import PenScript.Command

/-!
# Programs

A program is a tree of commands beside a table of procedures.
-/

namespace PenScript

/-- A command at its line, or a block with the command that heads it. -/
inductive Node where
  | leaf (command : Command) (line : Nat)
  | block (header : Command) (line : Nat) (body : List Node)

namespace Node

def line : Node → Nat
  | .leaf _ line => line
  | .block _ line _ => line

def command : Node → Command
  | .leaf command _ => command
  | .block header _ _ => header

end Node

structure Procedure where
  name : String
  line : Nat
  body : List Node

namespace Procedure

/-- The procedure with the given name. -/
def find? (name : String) (procedures : List Procedure) : Option Procedure :=
  List.find? (fun procedure => procedure.name = name) procedures

/-- Adds a procedure to a table; it takes the place of one with the same
name. -/
def insert (procedure : Procedure) : List Procedure → List Procedure
  | [] => [procedure]
  | other :: rest =>
      if other.name = procedure.name then procedure :: rest
        else other :: procedure.insert rest

end Procedure

structure Program where
  items : List Node
  procedures : List Procedure

namespace Program

def empty : Program := ⟨[], []⟩

end Program

end PenScript
