import ScriptMachine.Table
import ScriptMachine.Tree.Node
import ScriptMachine.Value.Convert

/-!
# Objects

An object has named data properties in insertion order, a prototype, an owner, and for functions
the behaviour of a call.
-/

namespace ScriptMachine

/-- A data property with its attributes. -/
structure Property where
  value : Value
  writable : Bool
  enumerable : Bool
  configurable : Bool
  deriving DecidableEq, Repr, Inhabited

namespace Property

/-- As an assignment creates it: every attribute set. -/
def data (value : Value) : Property := ⟨value, true, true, true⟩

/-- As methods of builtins are: everything but enumerable. -/
def hidden (value : Value) : Property := ⟨value, true, false, true⟩

/-- No attribute set. -/
def frozen (value : Value) : Property := ⟨value, false, false, false⟩

/-- As the length of an array is. -/
def length (value : Value) : Property := ⟨value, true, false, false⟩

end Property

inductive ObjectClass where
  | object | array | function | error | arguments
  deriving DecidableEq, Repr

namespace ObjectClass

def table : List (ObjectClass × String) :=
  [(.object, "Object"), (.array, "Array"), (.function, "Function"), (.error, "Error"),
   (.arguments, "Arguments")]

def name (c : ObjectClass) : String := Tree.nameOf table c

def ofName? (s : String) : Option ObjectClass := Tree.ofName? table s

end ObjectClass

/-- A node of a loaded program. -/
structure NodeRef where
  program : ProgramId
  node : Tree.NodeId
  deriving DecidableEq, Repr

/-- What a call of a function does. -/
inductive Callable where
  /-- Runs the body of a function node in a scope under `scope`. -/
  | closure (node : NodeRef) (scope : ScopeId)
  /-- Calls another function with a fixed receiver and leading arguments. -/
  | bound (target : ObjectId) (receiver : Value) (args : List Value)
  /-- Runs the host function registered under a name. -/
  | native (id : String)
  deriving DecidableEq, Repr

structure Object where
  owner : Option Owner
  proto : Option ObjectId
  cls : ObjectClass
  extensible : Bool := true
  properties : Table Property := .empty
  function : Option Callable := none

namespace Object

def isCallable (o : Object) : Bool := o.function.isSome

def isArray (o : Object) : Bool := o.cls == .array

/-- Inserts or overwrites a property without any check. -/
def put (o : Object) (key : String) (p : Property) : Object :=
  { o with properties := o.properties.insert key p }

/-- The value of an own property, undefined when there is none. -/
def ownValue (o : Object) (key : String) : Value :=
  match o.properties.get? key with
  | some p => p.value
  | none => .undefined

/-- The length of an array-like object: its `length` when that is a number from 0 to
`2 ^ 32 - 1`, cut to an integer. -/
def length (o : Object) : Nat :=
  match o.properties.get? "length" with
  | some ⟨.number n, _, _, _⟩ =>
    if n ≥ 0 && n ≤ 4294967295 then (Number.magnitude n).floor else 0
  | _ => 0

/-- Numbered data properties from an index on. -/
def putItems (o : Object) : Nat → List Value → Object
  | _, [] => o
  | i, v :: rest => putItems (o.put (Number.natText i) (.data v)) (i + 1) rest

/-- An array cut or extended to a length: indices from there on are removed. -/
def resize (o : Object) (length : Nat) : Object :=
  let kept :=
    if length < o.length then
      o.properties.filter fun key _ =>
        match arrayIndex? key with
        | some i => i < length
        | none => true
    else o.properties
  { o with properties := kept.modify "length" fun p => { p with value := .nat length } }

/-- The index a new key of an array has at or behind its length. -/
def grownIndex? (o : Object) (key : String) : Option Nat :=
  if o.isArray then
    match arrayIndex? key with
    | some i => if i ≥ o.length then some i else none
    | none => none
  else none

/-- The handles an object holds. -/
def objectEdges (o : Object) : List ObjectId :=
  let fromFunction :=
    match o.function with
    | some (.bound target receiver args) => target :: (receiver :: args).filterMap Value.object?
    | _ => []
  o.owner.toList ++ o.proto.toList ++
    o.properties.values.filterMap (fun p => p.value.object?) ++ fromFunction

end Object

end ScriptMachine
