import PenScript.Failure
import PenScript.Machine
import PenScript.Program

/-!
# Execution

The nodes of a program are carried out in order.  Loops are cut off after a
number of rounds, and calls at a depth, so every run ends.  The rounds of a loop
are counted by how many of them remain.  To count them in a 64-bit word comes to
the same, unless the cap is the greatest word, which such a count never passes.
-/

namespace PenScript

/-- How far a run may go: the rounds of a loop, and the calls inside each other.
Both are counted in 64-bit words. -/
structure Limits where
  iterations : Nat := 10000
  depth : Nat := 256
  deriving DecidableEq, Repr

/-- A part of a run: it changes the machine, and may fail. -/
abbrev Execution := EStateM Failure Machine

/-- Where a run goes on after a node: at the next one, or behind the call of the
procedure. -/
inductive Flow where
  | next
  | ret
  deriving DecidableEq, Repr

namespace Execution

/-- Reads from the store of the machine on behalf of a command. -/
def reading {α : Type} (command : Command) (line : Nat)
    (action : Value.Reading α) : Execution α :=
  fun machine =>
    match action machine.store with
    | .ok result store => .ok result { machine with store }
    | .error fault store =>
        .error (Fault.at (.value fault) line command.describe)
          { machine with store }

/-- Carries out a command by itself. -/
def performing (command : Command) (line : Nat) : Execution Flow :=
  fun machine =>
  match command.perform machine with
  | .ok _ machine => .ok .next machine
  | .error fault machine => .error (fault.at line command.describe) machine

/-- Repeats a body while its guard holds, at most `remaining` times more.  A
loop starts with all rounds that the cap allows, for caps below the greatest
word. -/
def whileLoop (guard : Execution Bool) (body : Execution Flow)
    (overrun : Failure) :
    Nat → Execution Flow
  | 0 => do
      if ← guard then throw overrun else return .next
  | remaining + 1 => do
      if ← guard then
        match ← body with
        | .next => whileLoop guard body overrun remaining
        | .ret => return .ret
      else return .next

/-- The bounds of a counting loop. -/
structure Range where
  start : Int
  stop : Int
  step : Int

/-- Whether a counter has not passed the end of its range. -/
def Range.covers (range : Range) (counter : Int) : Bool :=
  (0 < range.step && counter ≤ range.stop) ||
    (range.step < 0 && range.stop ≤ counter)

/-- The rounds of a counting loop from `counter` on, at most `rounds` of
them. -/
def forLoop (range : Range) (round : Int → Execution Flow) :
    Nat → Int → Execution Flow
  | 0, _ => return .next
  | rounds + 1, counter => do
      if range.covers counter then
        match ← round counter with
        | .next => forLoop range round rounds (counter + range.step)
        | .ret => return .ret
      else return .next

/-- Reads the bounds of a counting loop; the step is one if it is left out. -/
def readRange (start stop : Value) (step : Option Value) :
    Value.Reading Range := do
  let start ← start.readInt
  let stop ← stop.readInt
  let step ← match step with
    | some step => step.readInt
    | none => pure 1
  if step = 0 then throw (.outOfRange .zeroStep)
  else return ⟨start.toInt, stop.toInt, step.toInt⟩

/-- Sets the variable that a loop counts with. -/
def setCounter (name : String) (counter : Int) : Execution Unit :=
  modify fun machine =>
    { machine with store :=
      machine.store.set name (.literal (.int (Int64.ofInt counter))) }

/-- Carries out a command that stands by itself.  `call` carries out calls. -/
def runLeaf (call : String → Nat → Execution Unit) (command : Command)
    (line : Nat) :
    Execution Flow :=
  match command with
  | .ret => return .ret
  | .call name => do
      call name line
      return .next
  | _ => performing command line

mutual

def runNode (limits : Limits) (call : String → Nat → Execution Unit) :
    Node → Execution Flow
  | .leaf command line => runLeaf call command line
  | .block header line body =>
      match header with
      | .ifTrue guard => do
          if ← reading header line guard.readBool then runNodes limits call body
          else return .next
      | .whileTrue guard =>
          whileLoop (reading header line guard.readBool)
            (runNodes limits call body)
            (Fault.at (.run (.tooManyIterations limits.iterations)) line
              header.describe) limits.iterations
      | .forRange counter start stop step => do
          let range ← reading header line (readRange start stop step)
          let round (value : Int) : Execution Flow := do
            setCounter counter value
            runNodes limits call body
          forLoop range round ((range.stop - range.start).natAbs + 1)
            range.start
      | .define _ => return .next
      | _ => runLeaf call header line

/-- Carries out nodes in order, until one returns. -/
def runNodes (limits : Limits) (call : String → Nat → Execution Unit) :
    List Node → Execution Flow
  | [] => return .next
  | node :: rest => do
      match ← runNode limits call node with
      | .next => runNodes limits call rest
      | .ret => return .ret

end

/-- Calls a procedure from a line, with `remaining` further calls allowed inside
each other.  A return inside the procedure ends here. -/
def callProcedure (limits : Limits) (procedures : List Procedure) :
    Nat → String → Nat → Execution Unit
  | remaining, name, line =>
      let failing (fault : RunFault) : Execution Unit :=
        throw (Fault.at (.run fault) line (Command.call name).describe)
      match Procedure.find? name procedures with
      | none => failing (.undefinedProcedure name)
      | some procedure =>
          match remaining with
          | 0 => failing (.tooDeep limits.depth name)
          | remaining + 1 => do
              let _ ← runNodes limits
                (callProcedure limits procedures remaining) procedure.body

/-- Runs nodes that may call the given procedures. -/
def run (limits : Limits) (procedures : List Procedure) (nodes : List Node) :
    Execution Unit := do
  let _ ← runNodes limits (callProcedure limits procedures limits.depth) nodes

end Execution

end PenScript
