import PenScript.Operator.Apply
import PenScript.Store

/-!
# Evaluation

An operation evaluates its left operand, then its right one, and then applies
its operator.  The answer is remembered in the value, and a value that is
reached through a variable remembers it in the store.  An operand that was
evaluated stays so even if the operation around it fails.
-/

namespace PenScript

/-- The outcome of an evaluation: an answer, and the value and the store with
what they remember. -/
structure Evaluated where
  answer : Except ValueFault Literal
  value : Value
  store : Store

/-- How the value of a variable is found. -/
abbrev VariableReader := String → Store → Except ValueFault Literal × Store

/-- Evaluates a value, given a way to read variables. -/
def Value.evaluateWith (read : VariableReader) : Value → Store → Evaluated
  | .literal result, store => ⟨.ok result, .literal result, store⟩
  | .settled result, store => ⟨.ok result, .settled result, store⟩
  | .reference name, store =>
      let (answer, store) := read name store
      ⟨answer, .reference name, store⟩
  | .pending op left right, store =>
      match left.evaluateWith read store with
      | ⟨.error fault, left, store⟩ =>
          ⟨.error fault, .pending op left right, store⟩
      | ⟨.ok leftAnswer, left, store⟩ =>
          match right.evaluateWith read store with
          | ⟨.error fault, right, store⟩ =>
              ⟨.error fault, .pending op left right, store⟩
          | ⟨.ok rightAnswer, right, store⟩ =>
              match op.apply leftAnswer rightAnswer with
              | .error fault => ⟨.error fault, .pending op left right, store⟩
              | .ok result => ⟨.ok result, .settled result, store⟩

namespace Store

/-- Reads a variable.  A value that is not a literal may lead on to other
variables; `hops` bounds the length of such a chain.  With as many hops as the
store has slots, only a chain that runs in a circle uses them up.  Following it
would never end; that its variables have no value is said here in place of
that.  There is no such chain where the store holds literals. -/
def readWithin : Nat → VariableReader
  | hops, name, store =>
      match store.find? name with
      | none => (.error (.undeclared name), store)
      | some none => (.error (.uninitialised name), store)
      | some (some (.literal result)) => (.ok result, store)
      | some (some value) =>
          match hops with
          | 0 => (.error (.uninitialised name), store)
          | hops + 1 =>
              let outcome := value.evaluateWith (readWithin hops) store
              (outcome.answer, outcome.store.set name outcome.value)

end Store

namespace Value

/-- Evaluates a value.  A chain of variables that does not run in a circle
visits each slot of the store at most once, so the size of the store bounds
it. -/
def evaluate (value : Value) (store : Store) : Evaluated :=
  value.evaluateWith (Store.readWithin store.size) store

/-- A computation that reads the store and may fail; what was remembered in the
store stays there in either case. -/
abbrev Reading := EStateM ValueFault Store

/-- The literal that a value stands for.  The value itself is left as it is. -/
def read (value : Value) : Reading Literal := fun store =>
  let outcome := value.evaluate store
  match outcome.answer with
  | .ok result => .ok result outcome.store
  | .error fault => .error fault outcome.store

def readInt (value : Value) : Reading Int64 := do
  MonadExcept.ofExcept (← value.read).toInt

def readDouble (value : Value) : Reading Float := do
  MonadExcept.ofExcept (← value.read).toDouble

def readBool (value : Value) : Reading Bool := do
  MonadExcept.ofExcept (← value.read).toBool

def readColor (value : Value) : Reading Color := do
  MonadExcept.ofExcept (← value.read).toColor

end Value

end PenScript
