import ScriptMachine.Machine.Call

/-!
# Builtins

A builtin is a host function under a stable name such as `Object.create`. Function objects record
only that name, so the table of builtins is built the same way at every start.
-/

namespace ScriptMachine.Builtin

open Machine Exec

/-- A builtin that stands as a hidden property of an object. -/
structure Method where
  name : String
  arity : Nat
  code : NativeCode

namespace Method

/-- A method that gives a value at once. -/
def direct (name : String) (arity : Nat) (f : NativeCall → Exec Value) : Method :=
  ⟨name, arity, .ofValue f⟩

/-- The name of a method among the host functions: the name of its object and its own. -/
def path (holder : String) (m : Method) : String := holder ++ "." ++ m.name

end Method

/-- The host functions behind the methods of an object. -/
def methodNatives (holder : String) (methods : List Method) : Natives :=
  methods.map fun m => (m.path holder, { arity := m.arity, call := m.code })

/-- Gives an object its methods. -/
def attach (target : ObjectId) (holder : String) : List Method → Exec Unit
  | [] => return
  | m :: rest => do
    let id := m.path holder
    let func ← createNativeFunction [(id, { arity := m.arity, call := m.code })] id m.name
    modifyObject target fun o => o.put m.name (.hidden (.object func))
    attach target holder rest

/-- Gives an object constant properties. -/
def attachConstants (target : ObjectId) (constants : List (String × Float)) : Exec Unit :=
  modifyObject target fun o =>
    constants.foldl (fun o c => o.put c.1 (.frozen (.number c.2))) o

/-- Makes a global constructor, linked both ways with the prototype of its name. -/
def installConstructor (name : String) (native : Native) : Exec ObjectId := do
  let func ← createNativeFunction [(name, native)] name name
  let proto ← builtinObject (name ++ ".prototype")
  modifyObject func fun o => o.put "prototype" (.frozen (.object proto))
  modifyObject proto fun o => o.put "constructor" (.hidden (.object func))
  setBuiltin name (.object func)
  setGlobal name (.object func)
  return func

/-- Makes a plain object under a global name. -/
def createNamespace (name : String) : Exec ObjectId := do
  let id ← createPlainObject (some (← get).rootOwner)
  setBuiltin name (.object id)
  setGlobal name (.object id)
  return id

/-- Binds a builtin to a global name. -/
def installGlobal (m : Method) : Exec Unit :=
  defineGlobalNative [(m.name, { arity := m.arity, call := m.code })] m.name

/-- The host functions behind global names. -/
def globalNatives (methods : List Method) : Natives :=
  methods.map fun m => (m.name, { arity := m.arity, call := m.code })

/-! ## Arguments -/

def calledOnOther (method : String) : Failure :=
  .typeError (method ++ " called on non-object")

/-- The object a method was called on. -/
def receiverObject (c : NativeCall) (method : String) : Exec ObjectId :=
  match c.receiver.object? with
  | some id => pure id
  | none => throw (calledOnOther method)

/-- An argument that must be an object. -/
def objectArg (c : NativeCall) (i : Nat) (method : String) : Exec ObjectId :=
  match (c.arg i).object? with
  | some id => pure id
  | none => throw (calledOnOther method)

/-- An argument as an integral double. -/
def integerOf (v : Value) : Float := Number.toInteger v.toNumber

/-- A position counted from the front, or from the back when negative, within a length. -/
def relativeIndex (v : Value) (length default : Nat) : Nat :=
  if v == .undefined then default
  else
    let n := integerOf v
    Number.clampNat (if n < 0 then Number.ofNat length + n else n) length

/-! ## Conversion to primitives -/

/-- Goes on with a primitive made of a value: at once if it is one, else after its conversion. -/
def withPrimitive (c : NativeCall) (v : Value) (hint : Hint) (finish : Value → Value) :
    Exec NativeReply := do
  match c.resumed with
  | some resumed => return c.reply (.value (finish resumed))
  | none =>
    if v.isObject then
      let func ← query toPrimitiveFunction
      return c.reply (.call func .undefined [v, .string hint.name])
    else return c.reply (.value (finish v))

end ScriptMachine.Builtin
