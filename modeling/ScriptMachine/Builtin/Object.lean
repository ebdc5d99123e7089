import ScriptMachine.Builtin.Basic

/-!
# Builtins of objects
-/

namespace ScriptMachine.Builtin.Objects

open Machine Exec

/-- A property name from an argument; an object is not converted. -/
def keyArg (c : NativeCall) (i : Nat) : String := (c.arg i).toText

/-- A prototype from an argument: an object or null. -/
def protoArg (c : NativeCall) (i : Nat) : Exec (Option ObjectId) :=
  match c.arg i with
  | .object id => pure (some id)
  | .null => pure none
  | _ => throw (.typeError "Object prototype may only be an Object or null")

/-- A handle as a value, null for none. -/
def orNull : Option ObjectId → Value
  | some id => .object id
  | none => .null

/-- A field of a descriptor, if the object or its prototypes have it. -/
def descriptorField (m : Machine) (id : ObjectId) (actor : Option Owner) (name : String) :
    Except Failure (Option Value) := do
  if ← m.hasProperty id name actor then return some (← m.getProperty (.object id) name actor)
  else return none

/-- Reads a descriptor of a data property off an object. -/
def toDescriptor (m : Machine) (v : Value) (actor : Option Owner) : Except Failure Descriptor := do
  match v.object? with
  | none => throw (.typeError "Property description must be an object")
  | some id =>
    let field := descriptorField m id actor
    let accessor := .typeError "Accessor properties are not supported"
    if (← field "get").isSome then throw accessor
    if (← field "set").isSome then throw accessor
    let value ← field "value"
    let writable ← field "writable"
    let enumerable ← field "enumerable"
    let configurable ← field "configurable"
    return ⟨value, writable.map Value.truthy, enumerable.map Value.truthy,
      configurable.map Value.truthy⟩

/-- Defines the properties that the own properties of an object describe. -/
def defineAll (target : ObjectId) (source : Value) (actor : Option Owner) :
    List String → Exec Unit
  | [] => return
  | key :: rest => do
    let d ← query fun m => m.getProperty source key actor
    let d ← query fun m => toDescriptor m d actor
    defineProperty target key d actor
    defineAll target source actor rest

def construct (c : NativeCall) : Exec Value := do
  match c.arg 0 with
  | .object id => return .object id
  | _ => return .object (← createPlainObject c.owner)

def create (c : NativeCall) : Exec Value := do
  let proto ← protoArg c 0
  let id ← createObject proto c.owner
  if let .object source := c.arg 1 then
    let keys ← query fun m => m.ownKeys source c.owner false
    defineAll id (.object source) c.owner keys
  return .object id

def getPrototypeOf (c : NativeCall) : Exec Value := do
  let id ← objectArg c 0 "Object.getPrototypeOf"
  return orNull (← query fun m => m.getPrototype id c.owner)

def setPrototypeOf (c : NativeCall) : Exec Value := do
  let id ← objectArg c 0 "Object.setPrototypeOf"
  let proto ← protoArg c 1
  setPrototype id proto c.owner
  return .object id

def defineOne (c : NativeCall) : Exec Value := do
  let id ← objectArg c 0 "Object.defineProperty"
  let d ← query fun m => toDescriptor m (c.arg 2) c.owner
  defineProperty id (keyArg c 1) d c.owner
  return .object id

def getDescriptor (c : NativeCall) : Exec Value := do
  let id ← objectArg c 0 "Object.getOwnPropertyDescriptor"
  match ← query fun m => m.getOwnProperty id (keyArg c 1) c.owner with
  | none => return .undefined
  | some p =>
    let record ← createPlainObject c.owner
    modifyObject record fun o =>
      (((o.put "value" (.data p.value)).put "writable" (.data (.bool p.writable))).put
        "enumerable" (.data (.bool p.enumerable))).put "configurable"
          (.data (.bool p.configurable))
    return .object record

/-- The names of own properties as an array. -/
def keysArray (includeHidden : Bool) (method : String) (c : NativeCall) : Exec Value := do
  let id ← objectArg c 0 method
  let keys ← query fun m => m.ownKeys id c.owner includeHidden
  return .object (← createArray (keys.map .string) c.owner)

def closeObject (c : NativeCall) : Exec Value := do
  let id ← objectArg c 0 "Object.preventExtensions"
  preventExtensions id c.owner
  return .object id

def isExtensible (c : NativeCall) : Exec Value := do
  let id ← objectArg c 0 "Object.isExtensible"
  return .bool (← query fun m => m.authorize c.owner id .read).extensible

def getOwnerOf (c : NativeCall) : Exec Value := do
  let id ← objectArg c 0 "Object.getOwnerOf"
  return orNull (← query fun m => m.authorize c.owner id .read).owner

def giveOwner (c : NativeCall) : Exec Value := do
  let id ← objectArg c 0 "Object.setOwnerOf"
  let owner ← objectArg c 1 "Object.setOwnerOf"
  setOwnerOf id owner c.owner
  return .object id

def hasOwn (c : NativeCall) : Exec Value := do
  let id ← receiverObject c "Object.prototype.hasOwnProperty"
  return .bool (← query fun m => m.getOwnProperty id (keyArg c 0) c.owner).isSome

def toText (c : NativeCall) : Exec Value := do
  let tag ←
    match c.receiver with
    | .undefined => pure "Undefined"
    | .null => pure "Null"
    | .bool _ => pure "Boolean"
    | .number _ => pure "Number"
    | .string _ => pure "String"
    | .object id => do pure (← heapQuery (·.object id)).cls.name
  return .string ("[object " ++ tag ++ "]")

def protoMethods : List Method :=
  [.direct "hasOwnProperty" 1 hasOwn, .direct "toString" 0 toText,
   .direct "valueOf" 0 fun c => return c.receiver]

def methods : List Method :=
  [.direct "create" 2 create, .direct "getPrototypeOf" 1 getPrototypeOf,
   .direct "setPrototypeOf" 2 setPrototypeOf, .direct "defineProperty" 3 defineOne,
   .direct "getOwnPropertyDescriptor" 2 getDescriptor,
   .direct "getOwnPropertyNames" 1 (keysArray true "Object.getOwnPropertyNames"),
   .direct "keys" 1 (keysArray false "Object.keys"),
   .direct "preventExtensions" 1 closeObject, .direct "isExtensible" 1 isExtensible,
   .direct "getOwnerOf" 1 getOwnerOf, .direct "setOwnerOf" 2 giveOwner]

def native : Native := { arity := 1, call := .ofValue construct, construct := some (.ofValue construct) }

def natives : Natives :=
  methodNatives "Object.prototype" protoMethods ++ ("Object", native) ::
    methodNatives "Object" methods

def install : Exec Unit := do
  attach (← builtinObject "Object.prototype") "Object.prototype" protoMethods
  attach (← installConstructor "Object" native) "Object" methods

end ScriptMachine.Builtin.Objects
