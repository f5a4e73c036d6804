import PenScript.Name
import PenScript.Value

/-!
# Stores

A store holds the declared variables, in the order of their declaration.  A
variable may be declared and still have no value.
-/

namespace PenScript

structure Store where
  slots : List (String × Option Value)
  deriving DecidableEq

namespace Store

def empty : Store := ⟨[]⟩

def size (store : Store) : Nat :=
  store.slots.length

/-- The slot of a variable: `none` if it is not declared, `some none` if it has
no value. -/
def find? (store : Store) (name : String) : Option (Option Value) :=
  store.slots.lookup name

def contains (store : Store) (name : String) : Bool :=
  (store.find? name).isSome

/-- Replaces the slot of a variable, or adds one at the end. -/
def putSlot (name : String) (value : Option Value) :
    List (String × Option Value) → List (String × Option Value)
  | [] => [(name, value)]
  | slot :: rest =>
      if slot.1 = name then (name, value) :: rest
        else slot :: putSlot name value rest

/-- Replaces or adds a variable; whether the name is valid is not asked. -/
def insert (store : Store) (name : String) (value : Option Value) : Store :=
  ⟨putSlot name value store.slots⟩

/-- Gives a variable a value. -/
def set (store : Store) (name : String) (value : Value) : Store :=
  store.insert name (some value)

/-- Adds a new variable, which must have a valid name. -/
def declare (store : Store) (name : String) (value : Option Value) :
    Except NameFault Store :=
  if store.contains name then .error (.duplicate name)
  else (Name.check name).map fun _ => store.insert name value

/-- The slot of a declared variable. -/
def get (store : Store) (name : String) : Except NameFault (Option Value) :=
  match store.find? name with
  | some slot => .ok slot
  | none => .error (.undeclared name)

end Store

end PenScript
