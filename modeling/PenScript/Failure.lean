import PenScript.Fault

/-!
# Failures

A failure is a fault at a line of a script, ready to be shown.
-/

namespace PenScript

structure Failure where
  code : Fault.Code
  line : Nat
  /-- The statement that failed, as far as it is known. -/
  context : String
  message : String
  deriving DecidableEq, Repr

/-- The failure that a fault causes at a line. -/
def Fault.at (fault : Fault) (line : Nat) (context : String) : Failure :=
  ⟨fault.code, line, context, fault.message⟩

namespace Failure

def within (failure : Failure) (context : String) : Failure :=
  { failure with context }

def text (failure : Failure) : String :=
  s!"[{failure.code.text}] {failure.line} — {failure.message}"

end Failure

inductive Severity where
  | warning
  | error
  | fatal
  deriving DecidableEq, Repr

def Severity.label : Severity → String
  | .warning => "warning"
  | .error => "error"
  | .fatal => "fatal"

/-- A failure as it is reported. -/
structure Diagnostic where
  title : String
  short : String
  long : String
  severity : Severity
  deriving DecidableEq, Repr

/-- A run that was cut off by a limit is a fatal failure. -/
def Failure.severity (failure : Failure) : Severity :=
  match failure.code.category with
  | .limit => .fatal
  | _ => .error

def Failure.diagnostic (failure : Failure) : Diagnostic :=
  let place := s!"line {failure.line}: {failure.message}"
  { title := s!"{failure.code.title} [{failure.code.text}]"
    short := failure.message
    long :=
      if failure.context.isEmpty then place
        else s!"{place}\n    {failure.context}"
    severity := failure.severity }

end PenScript
