import ScriptMachine.Builtin.Array
import ScriptMachine.Builtin.Console
import ScriptMachine.Builtin.Error
import ScriptMachine.Builtin.Function
import ScriptMachine.Builtin.Json
import ScriptMachine.Builtin.Math
import ScriptMachine.Builtin.Number
import ScriptMachine.Builtin.Object
import ScriptMachine.Builtin.Primitive
import ScriptMachine.Builtin.String
import ScriptMachine.Builtin.Thread

/-!
# The machine at its start

A new machine has a root owner, a global scope and all builtins. They are made in a fixed order, so
two machines with the same configuration start with the same heap.
-/

namespace ScriptMachine

open Machine Exec

namespace Builtin

/-- All builtins by name. -/
def natives : Natives :=
  Functions.natives ++ (primitiveMethod.name, { arity := 2, call := toPrimitive }) ::
    Objects.natives ++ Arrays.natives ++ Errors.natives ++ Strings.natives ++ Numbers.natives ++
    Mathematics.natives ++ JsonText.natives ++ Consoles.natives ++ Globals.natives ++
    Threads.natives

/-- Makes the prototypes that everything else inherits from. -/
def installPrototypes : Exec Unit := do
  let root := some (← get).rootOwner
  let objectProto ← createObject none root
  setBuiltin "Object.prototype" (.object objectProto)
  let function : Object :=
    { owner := root, proto := some objectProto, cls := .function
      function := some (.native "Function.prototype") }
  let function ←
    alloc ((function.put "length" (.frozen (.nat 0))).put "name" (.frozen (.string "")))
  setBuiltin "Function.prototype" (.object function)
  let array : Object := { owner := root, proto := some objectProto, cls := .array }
  let array ← alloc (array.put "length" (.length (.nat 0)))
  setBuiltin "Array.prototype" (.object array)
  for name in ["String.prototype", "Number.prototype", "Boolean.prototype"] do
    let proto ← createObject (some objectProto) root
    setBuiltin name (.object proto)

/-- Makes all builtins. -/
def install : Exec Unit := do
  installPrototypes
  installPrimitive
  Objects.install
  Functions.install
  Arrays.install
  Errors.install
  Strings.install
  Numbers.install
  Mathematics.install
  JsonText.install
  Consoles.install
  Globals.install
  Threads.install

end Builtin

namespace Machine

/-- Makes the root owner, which owns itself, and the global scope, which acts as it. -/
def bootstrap : Exec Unit := do
  let root ← alloc { owner := none, proto := none, cls := .object }
  modifyObject root fun o => { o with owner := some root }
  let scope ← newScope .global none (some root) (some .undefined)
  modify fun m => { m with rootOwner := root, globalScope := scope }

/-- Makes a machine whose time starts at zero. -/
def boot : Exec Unit := do
  bootstrap
  Builtin.install
  let objectProto ← builtinObject "Object.prototype"
  modifyObject (← get).rootOwner fun o => { o with proto := some objectProto }
  modify fun m =>
    let (reading, clock) := m.clock.read
    { m with clock, previousElapsed := -reading }

/-- A machine before it has anything on its heap. -/
def blank (config : Config) (clock : Host.Clock) : Machine :=
  let heap : Heap := { gcThreshold := config.gcThreshold }
  { heap, hostValues := heap.newGuard, config, policy := config.policy, clock }

/-- A new machine on a clock. -/
def create (config : Config) (clock : Host.Clock) : Except Failure Machine :=
  match boot (blank config clock) with
  | .ok _ m => .ok m
  | .error e _ => .error e

end Machine

end ScriptMachine
