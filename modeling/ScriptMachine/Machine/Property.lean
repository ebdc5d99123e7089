import ScriptMachine.Machine.Binding
import ScriptMachine.Text.Units

/-!
# Operations on objects

Every operation names the owner that acts and is authorized before it touches the object. A
primitive is boxed for reading only: its prototype is consulted and nothing is allocated. An
operation that fails leaves the object as it was.
-/

namespace ScriptMachine

/-- Changes asked for by a definition; what is absent keeps its value, or is false on a new
property. -/
structure Descriptor where
  value : Option Value := none
  writable : Option Bool := none
  enumerable : Option Bool := none
  configurable : Option Bool := none

/-- The property a definition leads to, or nothing when it would change what is final. -/
def Descriptor.merge? (d : Descriptor) (current : Property) : Option Property :=
  let changesFlags :=
    d.configurable == some true || (d.enumerable.map (· != current.enumerable)).getD false ||
      (!current.writable && d.writable == some true)
  let changesValue :=
    !current.writable && (d.value.map fun v => !v.sameValue current.value).getD false
  if !current.configurable && (changesFlags || changesValue) then none
  else
    some ⟨d.value.getD current.value, d.writable.getD current.writable,
      d.enumerable.getD current.enumerable, d.configurable.getD current.configurable⟩

namespace Machine

open Exec

/-! ## Allocation -/

def alloc (o : Object) : Exec ObjectId := modifyGet fun m =>
  let (id, heap) := m.heap.allocObject o
  (id, { m with heap })

def createObject (proto : Option ObjectId) (owner : Option Owner) : Exec ObjectId :=
  alloc { owner, proto, cls := .object }

/-- An empty object as a literal makes it. -/
def createPlainObject (owner : Option Owner) : Exec ObjectId := do
  let proto ← builtinObject "Object.prototype"
  createObject (some proto) owner

def createArray (values : List Value) (owner : Option Owner) : Exec ObjectId := do
  let proto ← builtinObject "Array.prototype"
  let filled := ({ owner, proto := some proto, cls := .array } : Object).putItems 0 values
  alloc (filled.put "length" (.length (.nat (values.length % 4294967296))))

/-- Changes an object that must be live. -/
def modifyObject (id : ObjectId) (f : Object → Object) : Exec Unit := do
  let _ ← heapQuery (·.object id)
  modifyHeap (·.modifyObject id f)

/-! ## Authorization -/

def noOwner : Failure := .permissionError "No owner for this operation"

/-- Authorizes an access of an actor to an object with a given owner. -/
def authorizeOwner (m : Machine) (actor owner : Option Owner) (access : Access) :
    Except Failure Unit :=
  match actor with
  | none => .error noOwner
  | some actor =>
    if m.policy.allows ⟨actor, owner, access, m.rootOwner⟩ then .ok ()
    else .error (.permissionError ("Permission denied: cannot " ++ access.verb ++ " object"))

/-- Authorizes an access to an object, which must be live. -/
def authorize (m : Machine) (actor : Option Owner) (id : ObjectId) (access : Access) :
    Except Failure Object := do
  let o ← m.heap.object id
  m.authorizeOwner actor o.owner access
  return o

/-! ## Reading -/

/-- The prototype that stands behind a primitive. -/
def primitivePrototype (m : Machine) (v : Value) : Except Failure (Option ObjectId) :=
  let entry (name : String) : Except Failure (Option ObjectId) :=
    match (m.builtins.get? name).bind Value.object? with
    | some id => .ok (some id)
    | none => .error (.fault (.missingBuiltin name))
  match v with
  | .string _ => entry "String.prototype"
  | .number _ => entry "Number.prototype"
  | .bool _ => entry "Boolean.prototype"
  | _ => .ok none

/-- A property of an object or of its prototypes. -/
def getOfObject (m : Machine) (id : ObjectId) (key : String) (actor : Option Owner) :
    Except Failure Value := do
  let _ ← m.authorize actor id .read
  return ((← m.heap.lookup id key).map (·.value)).getD .undefined

/-- A property of the prototype behind a primitive. -/
def getOfBox (m : Machine) (base : Value) (key : String) (actor : Option Owner) :
    Except Failure Value := do
  match ← m.primitivePrototype base with
  | some proto => m.getOfObject proto key actor
  | none => return .undefined

/-- The property of a value with a given name. The length of a text is a word of 32 bits. -/
def getProperty (m : Machine) (base : Value) (key : String) (actor : Option Owner) :
    Except Failure Value :=
  match base with
  | .object id => m.getOfObject id key actor
  | .string s =>
    if key == "length" then .ok (.nat (Text.unitCount s % 4294967296))
    else
      match (arrayIndex? key).bind (Text.unitAt? s) with
      | some unit => .ok (.string (Text.ofUnits [unit]))
      | none => m.getOfBox base key actor
  | .number _ => m.getOfBox base key actor
  | .bool _ => m.getOfBox base key actor
  | _ =>
    .error (.typeError ("Cannot read property '" ++ key ++ "' of " ++ base.toText))

def getOwnProperty (m : Machine) (id : ObjectId) (key : String) (actor : Option Owner) :
    Except Failure (Option Property) := do
  return (← m.authorize actor id .read).properties.get? key

/-- Whether an object or one of its prototypes has a property. -/
def hasProperty (m : Machine) (id : ObjectId) (key : String) (actor : Option Owner) :
    Except Failure Bool := do
  let _ ← m.authorize actor id .read
  return (← m.heap.lookup id key).isSome

def getPrototype (m : Machine) (id : ObjectId) (actor : Option Owner) :
    Except Failure (Option ObjectId) := do
  return (← m.authorize actor id .read).proto

/-- Array indices in ascending order, then other names in insertion order. -/
def enumerationOrder (keys : List String) : List String :=
  let indexed := keys.filterMap fun k => (arrayIndex? k).map fun i => (i, k)
  let names := keys.filter fun k => (arrayIndex? k).isNone
  (indexed.mergeSort fun a b => a.1 ≤ b.1).map (·.2) ++ names

/-- The names of own properties in enumeration order. -/
def ownKeys (m : Machine) (id : ObjectId) (actor : Option Owner) (includeHidden : Bool) :
    Except Failure (List String) := do
  let o ← m.authorize actor id .enumerate
  let shown := o.properties.entries.toList.filter fun e => includeHidden || e.2.enumerable
  return enumerationOrder (shown.map (·.1))

/-- Adds the keys of an object and of its prototypes: those seen, in reverse, and those to visit,
in reverse. -/
def chainKeys (m : Machine) (actor : Option Owner) :
    Nat → Option ObjectId → List String → List String → Except Failure (List String)
  | 0, _, _, keys => .ok keys
  | _ + 1, none, _, keys => .ok keys
  | fuel + 1, some id, seen, keys => do
    let own ← m.ownKeys id actor true
    let o ← m.heap.object id
    let (seen, keys) := own.foldl (fun (seen, keys) key =>
      if seen.contains key then (seen, keys)
      else
        let enumerable := ((o.properties.get? key).map (·.enumerable)).getD false
        (key :: seen, if enumerable then key :: keys else keys)) (seen, keys)
    chainKeys m actor fuel o.proto seen keys

/-- The keys a for-in loop visits: enumerable names along the prototype chain, each once. -/
def forInKeys (m : Machine) (v : Value) (actor : Option Owner) :
    Except Failure (List String) := do
  let fuel := m.heap.objects.size + 2
  match v with
  | .object id => return (← m.chainKeys actor fuel (some id) [] []).reverse
  | .string s =>
    let own := ((List.range (Text.unitCount s)).map Number.natText).reverse
    return (← m.chainKeys actor fuel (← m.primitivePrototype v) own own).reverse
  | _ => return (← m.chainKeys actor fuel (← m.primitivePrototype v) [] []).reverse

/-! ## Writing -/

def readOnly (key : String) : Failure :=
  .typeError ("Cannot assign to read only property '" ++ key ++ "' of object")

/-- The length a value asks for, if it is one. -/
def arrayLength? (v : Value) : Option Nat :=
  match Number.toNat? v.toNumber with
  | some n => if n < 4294967296 then some n else none
  | none => none

def setArrayLength (id : ObjectId) (v : Value) : Exec Unit := do
  match arrayLength? v with
  | none => throw (.rangeError "Invalid array length")
  | some length => modifyObject id fun o => o.resize length

/-- Adds a property that an object, given as it was read, does not have yet. An array grows to hold
a new item. -/
def addProperty (id : ObjectId) (o : Object) (key : String) (value : Value) : Exec Unit := do
  if !o.extensible then
    throw (.typeError ("Cannot add property " ++ key ++ ", object is not extensible"))
  let grown := o.grownIndex? key
  modifyHeap (·.modifyObject id fun o =>
    let o := o.put key (.data value)
    match grown with
    | some i => o.put "length" (.length (.nat (i + 1)))
    | none => o)

/-- Assigns a property of a value. -/
def setProperty (base : Value) (key : String) (value : Value) (actor : Option Owner) : Exec Unit := do
  match base with
  | .object id =>
    let o ← query fun m => m.authorize actor id .write
    match o.properties.get? key with
    | some own =>
      if !own.writable then throw (readOnly key)
      if o.isArray && key == "length" then setArrayLength id value
      else
        modifyHeap (·.modifyObject id fun o =>
          { o with properties := o.properties.modify key fun p => { p with value } })
    | none =>
      if let some proto := o.proto then
        if let some inherited ← heapQuery (·.lookup proto key) then
          if !inherited.writable then throw (readOnly key)
      addProperty id o key value
  | .undefined =>
    throw (.typeError ("Cannot set property '" ++ key ++ "' of " ++ base.toText))
  | .null => throw (.typeError ("Cannot set property '" ++ key ++ "' of " ++ base.toText))
  | _ => throw (.typeError ("Cannot assign to property '" ++ key ++ "' of primitive value"))

/-- The property that a definition leads to on an object. -/
def definedProperty (o : Object) (key : String) (d : Descriptor) : Except Failure Property :=
  match o.properties.get? key with
  | none =>
    if !o.extensible then
      .error (.typeError ("Cannot define property " ++ key ++ ", object is not extensible"))
    else
      .ok ⟨d.value.getD .undefined, d.writable.getD false, d.enumerable.getD false,
        d.configurable.getD false⟩
  | some current =>
    match d.merge? current with
    | some p => .ok p
    | none => .error (.typeError ("Cannot redefine property: " ++ key))

/-- Stores the property that a definition led to. -/
def storeProperty (id : ObjectId) (o : Object) (key : String) (d : Descriptor)
    (merged : Property) : Exec Unit := do
  if o.isArray && key == "length" then
    if let some v := d.value then setArrayLength id v
    modifyObject id fun o =>
      { o with properties := o.properties.modify "length" fun p =>
          { p with writable := merged.writable } }
  else
    let grown := o.grownIndex? key
    modifyHeap (·.modifyObject id fun o =>
      let o := o.put key merged
      match grown with
      | some i =>
        { o with properties := o.properties.modify "length" fun p =>
            { p with value := .nat (i + 1) } }
      | none => o)

/-- Defines a property with its attributes. -/
def defineProperty (id : ObjectId) (key : String) (d : Descriptor) (actor : Option Owner) :
    Exec Unit := do
  let o ← query fun m => m.authorize actor id .define
  let merged ← query fun _ => definedProperty o key d
  storeProperty id o key d merged

/-- Defines a property as builtins have them, without the rules of redefinition. -/
def defineHidden (id : ObjectId) (key : String) (value : Value) (actor : Option Owner) :
    Exec Unit := do
  let _ ← query fun m => m.authorize actor id .define
  modifyHeap (·.modifyObject id fun o => o.put key (.hidden value))

/-- Deletes a property. -/
def deleteProperty (id : ObjectId) (key : String) (actor : Option Owner) : Exec Bool := do
  let o ← query fun m => m.authorize actor id .delete
  match o.properties.get? key with
  | none => return true
  | some p =>
    if !p.configurable then throw (.typeError ("Cannot delete property '" ++ key ++ "'"))
    modifyHeap (·.modifyObject id fun o => { o with properties := o.properties.erase key })
    return true

/-! ## Structure -/

/-- Whether an object occurs on the chain that starts at `proto`. -/
def onChain (h : Heap) (id : ObjectId) : Nat → Option ObjectId → Except Failure Bool
  | 0, _ => .ok false
  | _ + 1, none => .ok false
  | fuel + 1, some next => do
    if next == id then return true
    onChain h id fuel (← h.object next).proto

/-- Gives an object another prototype. -/
def setPrototype (id : ObjectId) (proto : Option ObjectId) (actor : Option Owner) :
    Exec Unit := do
  if actor.isNone then throw noOwner
  if ← heapQuery fun h => onChain h id (h.objects.size + 2) proto then
    throw (.typeError "Cyclic __proto__ value")
  let o ← query fun m => m.authorize actor id .setPrototype
  if o.proto == proto then return
  if !o.extensible then throw (.typeError "Cannot set prototype of a non-extensible object")
  modifyHeap (·.modifyObject id fun o => { o with proto })

def preventExtensions (id : ObjectId) (actor : Option Owner) : Exec Unit := do
  let _ ← query fun m => m.authorize actor id .preventExtensions
  modifyHeap (·.modifyObject id fun o => { o with extensible := false })

def setOwnerOf (id : ObjectId) (owner : Owner) (actor : Option Owner) : Exec Unit := do
  let _ ← query fun m => m.authorize actor id .setOwner
  modifyHeap (·.modifyObject id fun o => { o with owner := some owner })

/-! ## Functions -/

def isCallable (m : Machine) (v : Value) : Bool :=
  match v with
  | .object id => ((m.heap.object? id).map (·.isCallable)).getD false
  | _ => false

/-- The function behind any bindings of receivers and arguments. -/
def unbound (h : Heap) : Nat → ObjectId → Except Failure ObjectId
  | 0, id => .ok id
  | fuel + 1, id => do
    match (← h.object id).function with
    | some (.bound target _ _) => unbound h fuel target
    | _ => return id

/-- Whether a prototype occurs above an object. -/
def inherits (h : Heap) (proto : ObjectId) : Nat → ObjectId → Except Failure Bool
  | 0, _ => .ok false
  | fuel + 1, id => do
    match (← h.object id).proto with
    | some p => if p == proto then return true else inherits h proto fuel p
    | none => return false

def instanceOf (m : Machine) (v func : Value) (actor : Option Owner) : Except Failure Bool := do
  match func.object? with
  | none => throw (.typeError "Right-hand side of 'instanceof' is not callable")
  | some id =>
    if !m.isCallable func then
      throw (.typeError "Right-hand side of 'instanceof' is not callable")
    let fuel := m.heap.objects.size + 1
    let target ← unbound m.heap fuel id
    match v.object? with
    | none => return false
    | some start =>
      match (← m.getProperty (.object target) "prototype" actor).object? with
      | none => throw (.typeError "Function has non-object prototype in instanceof check")
      | some proto => inherits m.heap proto fuel start

def typeOf (m : Machine) (v : Value) : String :=
  match v with
  | .undefined => "undefined"
  | .null => "object"
  | .bool _ => "boolean"
  | .number _ => "number"
  | .string _ => "string"
  | .object _ => if m.isCallable v then "function" else "object"

/-- What a message calls a value: functions by their name, other objects by their class. -/
def describe (m : Machine) (v : Value) : String :=
  match v with
  | .object id =>
    match m.heap.object? id with
    | some o =>
      if o.isCallable then
        match o.ownValue "name" with
        | .string name => if name.isEmpty then "function" else "function " ++ name
        | _ => "function"
      else "[object " ++ o.cls.name ++ "]"
    | none => "[object]"
  | _ => v.toText

end Machine

end ScriptMachine
