import PenScript.Command.Parser
import PenScript.Program.Assembly

/-!
# Reading programs

A script is read up to its first fault.  What was complete by then is kept
beside the failure.
-/

namespace PenScript.Program

/-- A script that has been read: the program, or the completed part of it with
the failure that ended it, and the variables declared on the way. -/
structure Parsed where
  program : Program
  failure : Option Failure
  store : Store

/-- Reads the lines that remain. -/
def parseLines (assembly : Assembly) (store : Store) : List Line → Parsed
  | [] =>
      match assembly.finish with
      | .ok program => ⟨program, none, store⟩
      | .error failure => ⟨assembly.completed, some failure, store⟩
  | line :: rest =>
      match Command.ofLine line store with
      | .error failure store =>
          ⟨assembly.completed, some (failure.within line.raw), store⟩
      | .ok command store =>
          match assembly.add command line.number with
          | .error fault =>
              ⟨assembly.completed,
                some (Fault.at (.block fault) line.number line.raw), store⟩
          | .ok assembly => parseLines assembly store rest

/-- Reads a script; its variables are added to the given store. -/
def parse (source : String) (store : Store) : Parsed :=
  parseLines .empty store (Line.ofSource source)

/-- Reads a script by itself. -/
def compile (source : String) : Except Failure Program :=
  let parsed := parse source .empty
  match parsed.failure with
  | some failure => .error failure
  | none => .ok parsed.program

end PenScript.Program
