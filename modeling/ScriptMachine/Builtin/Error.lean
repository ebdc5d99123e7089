import ScriptMachine.Builtin.Basic

/-!
# Builtins of errors

Each error class has a constructor and a prototype; all prototypes but the first inherit from the
first. A call and a construction do the same.
-/

namespace ScriptMachine.Builtin.Errors

open Machine Exec

/-- A value as text, or a given text for undefined. -/
def textOr (v : Value) (default : String) : String :=
  match v with
  | .undefined => default
  | v => v.toText

def construct (kind : ErrorKind) (c : NativeCall) : Exec Value := do
  return .object (← createError kind (textOr (c.arg 0) "") c.owner (some c.thread))

def toText (c : NativeCall) : Exec Value := do
  let _ ← receiverObject c "Error.prototype.toString"
  let name := textOr (← query fun m => m.getProperty c.receiver "name" c.owner) "Error"
  let message := textOr (← query fun m => m.getProperty c.receiver "message" c.owner) ""
  return .string
    (if message.isEmpty then name else if name.isEmpty then message else name ++ ": " ++ message)

def protoMethods : List Method := [.direct "toString" 0 toText]

def native (kind : ErrorKind) : Native :=
  { arity := 1, call := .ofValue (construct kind), construct := some (.ofValue (construct kind)) }

def natives : Natives :=
  methodNatives "Error.prototype" protoMethods ++
    ErrorKind.all.map fun kind => (kind.name, native kind)

/-- Makes the constructors of the classes, and the prototypes of all but the first. -/
def installKinds (base : ObjectId) : List ErrorKind → Exec Unit
  | [] => return
  | kind :: rest => do
    let proto ←
      if kind == .error then pure base
      else do
        let proto ← createObject (some base) (some (← get).rootOwner)
        setBuiltin kind.prototypeKey (.object proto)
        pure proto
    modifyObject proto fun o =>
      (o.put "name" (.hidden (.string kind.name))).put "message" (.hidden (.string ""))
    let _ ← installConstructor kind.name (native kind)
    installKinds base rest

def install : Exec Unit := do
  let objectProto ← builtinObject "Object.prototype"
  let base ← createObject (some objectProto) (some (← get).rootOwner)
  setBuiltin ErrorKind.error.prototypeKey (.object base)
  attach base "Error.prototype" protoMethods
  installKinds base ErrorKind.all

end ScriptMachine.Builtin.Errors
