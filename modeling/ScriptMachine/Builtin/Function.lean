import ScriptMachine.Builtin.Basic

/-!
# Builtins of functions

Calling through `call` and `apply` asks the machine for the call, so that a closure runs on the
stack of the thread.
-/

namespace ScriptMachine.Builtin.Functions

open Machine Exec

def call (c : NativeCall) : Exec NativeReply :=
  match c.resumed with
  | some result => pure (c.reply (.value result))
  | none => pure (c.reply (.call c.receiver (c.arg 0) c.args.tail))

/-- The numbered properties of an object below its length. -/
def listOf (m : Machine) (id : ObjectId) (actor : Option Owner) : Except Failure (List Value) := do
  let o ← m.authorize actor id .read
  (List.range o.length).mapM fun i => m.getProperty (.object id) (Number.natText i) actor

def apply (c : NativeCall) : Exec NativeReply := do
  match c.resumed with
  | some result => return c.reply (.value result)
  | none =>
    let args ←
      match c.arg 1 with
      | .object id => query fun m => listOf m id c.owner
      | v =>
        if v.isNullish then pure []
        else throw (.typeError "CreateListFromArrayLike called on non-object")
    return c.reply (.call c.receiver (c.arg 0) args)

/-- The name of a function object, empty when it has none. -/
def nameOf (o : Object) : String := (o.ownValue "name").string?.getD ""

/-- The number of arguments a bound function still expects. -/
def boundLength (o : Object) (given : Nat) : Float :=
  match o.ownValue "length" with
  | .number n => if n - Number.ofNat given > 0 then n - Number.ofNat given else 0
  | _ => 0

def bind (c : NativeCall) : Exec Value := do
  let target ← receiverObject c "Function.prototype.bind"
  let o ← heapQuery (·.object target)
  if !o.isCallable then throw (.typeError "Bind must be called on a function")
  let proto ← builtinObject "Function.prototype"
  let args := c.args.tail
  let bound : Object :=
    { owner := c.owner, proto := some proto, cls := .function
      function := some (.bound target (c.arg 0) args) }
  return .object (← alloc ((bound.put "length" (.frozen (.number (boundLength o args.length)))).put
    "name" (.frozen (.string ("bound " ++ nameOf o)))))

def toText (c : NativeCall) : Exec Value := do
  let func ← receiverObject c "Function.prototype.toString"
  let o ← heapQuery (·.object func)
  match o.function with
  | some (.closure node _) =>
    return .string ((← heapQuery (·.program node.program)).text node.node)
  | some _ => return .string ("function " ++ nameOf o ++ "() \x7b [native code] \x7d")
  | none =>
    throw (.typeError "Function.prototype.toString requires that 'this' be a Function")

def protoMethods : List Method :=
  [⟨"call", 1, call⟩, ⟨"apply", 2, apply⟩, .direct "bind" 1 bind, .direct "toString" 0 toText]

/-- The prototype of functions can be called itself and gives undefined. -/
def native : Native := { arity := 0, call := .ofValue fun _ => return .undefined }

def natives : Natives :=
  ("Function.prototype", native) :: methodNatives "Function.prototype" protoMethods

def install : Exec Unit := do
  attach (← builtinObject "Function.prototype") "Function.prototype" protoMethods

end ScriptMachine.Builtin.Functions
