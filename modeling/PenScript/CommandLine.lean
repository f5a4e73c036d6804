import PenScript.Session

/-!
# The command line

A request names a script and how to run it.  The strokes it makes are the
output, and what went wrong is reported beside them.
-/

namespace PenScript.CommandLine

/-- A run asked for on the command line.  Without an input the script is read
from the standard input. -/
structure Request where
  input : Option String := none
  pardon : Bool := false
  maxIterations : Option Nat := none
  maxDepth : Option Nat := none
  deriving DecidableEq, Repr

def Request.config (request : Request) : Config :=
  let limits : Limits := {}
  { leniency := if request.pardon then .pardon else .strict
    limits :=
      { iterations := request.maxIterations.getD limits.iterations
        depth := request.maxDepth.getD limits.depth } }

/-! ### Answers -/

/-- Why a script could not be read. -/
inductive ReadFault where
  | notFound
  | denied
  | directory
  | invalidText
  | other (reason : String)
  deriving DecidableEq, Repr

def ReadFault.text : ReadFault → String
  | .notFound => "No such file or directory (os error 2)"
  | .denied => "Permission denied (os error 13)"
  | .directory => "Is a directory (os error 21)"
  | .invalidText => "stream did not contain valid UTF-8"
  | .other reason => reason

/-- What the program leaves behind: its exit code and the texts it writes. -/
structure Response where
  exit : Nat
  output : String
  errors : String
  deriving DecidableEq, Repr

/-- A diagnostic on its lines, indented below its title. -/
def diagnosticText (diagnostic : Diagnostic) : String :=
  let indented := diagnostic.long.toList.flatMap fun c => if c = '\n'
    then ['\n', ' ', ' '] else [c]
  s!"{diagnostic.severity.label}: {diagnostic.title}\n  {String.ofList indented}\n"

/-- Runs a script and lists its strokes. -/
def runScript (request : Request) (source : String) : Response :=
  let (result, session) := (Session.new request.config true).run source
  { exit := match result with
      | .ok _ => 0
      | .error _ => 1
    output :=
      String.join (session.canvas.toList.map fun stroke => stroke.text ++ "\n")
    errors := String.join ((session.log.getD #[]).toList.map diagnosticText) }

/-- The answer to a request, given what could be read of its script. -/
def respond (request : Request) : Except ReadFault String → Response
  | .ok source => runScript request source
  | .error fault =>
      let place := request.input.getD "<stdin>"
      ⟨1, "", s!"failed to read {place}: {fault.text}\n"⟩

end PenScript.CommandLine
