import PenScript.Execution
import PenScript.Program.Parser

/-!
# Sessions

A session loads scripts and runs them on a canvas of its own.  A strict session
undoes what a failed script left behind; a lenient one keeps it.
-/

namespace PenScript

/-- What happens to the work of a script that fails. -/
inductive Leniency where
  /-- It is undone. -/
  | strict
  /-- It is kept. -/
  | pardon
  deriving DecidableEq, Repr

structure Config where
  leniency : Leniency := .strict
  limits : Limits := {}
  deriving DecidableEq, Repr

structure Session where
  config : Config
  canvas : Canvas
  store : Store
  program : Program
  /-- The failures reported so far, or `none` if nobody listens. -/
  log : Option (Array Diagnostic)

namespace Session

def new (config : Config) (listened : Bool) : Session :=
  { config
    canvas := #[]
    store := .empty
    program := .empty
    log := if listened then some #[] else none }

/-- The diagnostic of a failure.  Where failures are pardoned, only a fatal one
is more than a warning. -/
def diagnose (config : Config) (failure : Failure) : Diagnostic :=
  let diagnostic := failure.diagnostic
  match config.leniency, diagnostic.severity with
  | .pardon, .error => { diagnostic with severity := .warning }
  | _, _ => diagnostic

def report (failure : Failure) (session : Session) : Session :=
  { session with log :=
    session.log.map fun log => log.push (diagnose session.config failure) }

/-- Makes a stroke on the canvas directly. -/
def draw (stroke : Stroke) (session : Session) : Session :=
  { session with canvas := session.canvas.push stroke }

/-- Forgets the script and its variables, and clears the canvas. -/
def reset (session : Session) : Session :=
  { session with program := .empty, store := .empty }.draw .clear

/-- Reads a script in place of the one before, and counts its top-level
nodes. -/
def load (source : String) (session : Session) : Except Failure Nat × Session :=
  let parsed := Program.parse source .empty
  match parsed.failure with
  | none =>
      (.ok parsed.program.items.length,
        { session with program := parsed.program, store := parsed.store })
  | some failure =>
      let kept := match session.config.leniency with
        | .strict => { session with program := .empty, store := .empty }
        | .pardon =>
            { session with program := parsed.program, store := parsed.store }
      (.error failure, kept.report failure)

/-- Runs the script that is loaded. -/
def execute (session : Session) : Except Failure Unit × Session :=
  let program := session.program
  let run :=
    Execution.run session.config.limits program.procedures program.items
  match run ⟨session.canvas, session.store⟩ with
  | .ok _ machine =>
      (.ok (), { session with
        canvas := machine.canvas, store := machine.store })
  | .error failure machine =>
      let kept := match session.config.leniency with
        | .strict =>
            { session with
              canvas := machine.canvas.push .clear, store := .empty }
        | .pardon =>
            { session with canvas := machine.canvas, store := machine.store }
      (.error failure, kept.report failure)

/-- Loads a script and runs it.  A pardoned script is run as far as it could be
read, and fails even if that part runs well. -/
def run (source : String) (session : Session) : Except Failure Unit × Session :=
  match session.load source with
  | (.ok _, session) => session.execute
  | (.error failure, session) =>
      match session.config.leniency with
      | .strict => (.error failure, session)
      | .pardon =>
          match session.execute with
          | (.ok _, session) => (.error failure, session)
          | failed => failed

end Session

end PenScript
