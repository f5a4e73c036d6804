import PenScript.Command.Effect

/-!
# The machine

Commands act on a machine: the canvas they draw on and the store of their
variables.
-/

namespace PenScript

structure Machine where
  canvas : Canvas
  store : Store

def Effect.apply : Effect → Machine → Machine
  | .draw stroke, machine =>
      { machine with canvas := machine.canvas.push stroke }
  | .assign name value, machine =>
      { machine with store := machine.store.set name (.literal value) }
  | .declare name, machine =>
      { machine with store := machine.store.insert name none }
  | .idle, machine => machine

/-- Carries out a command by itself. -/
def Command.perform (command : Command) : EStateM Fault Machine Unit :=
  fun machine =>
  match command.effect machine.store with
  | .ok effect store => .ok () (effect.apply { machine with store })
  | .error fault store => .error fault { machine with store }

end PenScript
