import ScriptMachine.Builtin.Basic

/-!
# Builtins of arrays

The methods work on any object with a length. Joining converts elements that are objects one at a
time: the phase is the index to go on with and the scratch holds the text so far.
-/

namespace ScriptMachine.Builtin.Arrays

open Machine Exec

/-- The length of an object as the methods see it. -/
def lengthOf (m : Machine) (id : ObjectId) (actor : Option Owner) : Except Failure Nat := do
  let v ← m.getProperty (.object id) "length" actor
  return Number.clampNat (integerOf v) 4294967295

/-- A numbered property. -/
def item (m : Machine) (id : ObjectId) (i : Nat) (actor : Option Owner) : Except Failure Value :=
  m.getProperty (.object id) (Number.natText i) actor

def construct (c : NativeCall) : Exec Value := do
  match c.args with
  | [.number n] =>
    match arrayLength? (.number n) with
    | none => throw (.rangeError "Invalid array length")
    | some _ =>
      let id ← createArray [] c.owner
      setProperty (.object id) "length" (.number n) c.owner
      return .object id
  | args => return .object (← createArray args c.owner)

def isArray (c : NativeCall) : Exec Value := do
  match c.arg 0 with
  | .object id => return .bool (← heapQuery (·.object id)).isArray
  | _ => return .bool false

/-- Assigns values to the indices from one on. -/
def pushFrom (base : Value) (actor : Option Owner) : Nat → List Value → Exec Nat
  | i, [] => return i
  | i, v :: rest => do
    setProperty base (Number.natText i) v actor
    pushFrom base actor (i + 1) rest

def push (c : NativeCall) : Exec Value := do
  let id ← receiverObject c "Array.prototype.push"
  let length ← query fun m => lengthOf m id c.owner
  let length ← pushFrom (.object id) c.owner length c.args
  setProperty (.object id) "length" (.nat length) c.owner
  return .nat length

def pop (c : NativeCall) : Exec Value := do
  let id ← receiverObject c "Array.prototype.pop"
  match ← query fun m => lengthOf m id c.owner with
  | 0 =>
    setProperty (.object id) "length" (.nat 0) c.owner
    return .undefined
  | last + 1 =>
    let v ← query fun m => item m id last c.owner
    let _ ← deleteProperty id (Number.natText last) c.owner
    setProperty (.object id) "length" (.nat last) c.owner
    return v

/-- Joins the elements from an index on, `left` of them, to a text. -/
def joinFrom (c : NativeCall) (id : ObjectId) (separator : String) (func : Option Value) :
    Nat → Nat → String → Exec NativeReply
  | 0, i, out => return ⟨.value (.string out), i, c.scratch⟩
  | left + 1, i, out => do
    let out := if i > 0 then out ++ separator else out
    let v ← query fun m => item m id i c.owner
    if v.isObject then
      match func with
      | some func =>
        return ⟨.call func .undefined [v, .string Hint.string.name], i + 1, [.string out]⟩
      | none => throw (.fault .noToPrimitive)
    else joinFrom c id separator func left (i + 1) (if v.isNullish then out else out ++ v.toText)

def joinWith (separator : String) (c : NativeCall) : Exec NativeReply := do
  let id ← receiverObject c "Array.prototype.join"
  let length ← query fun m => lengthOf m id c.owner
  let out :=
    match c.scratch.head? with
    | some (.string text) => text
    | _ => ""
  let out :=
    match c.resumed with
    | some v => out ++ v.toText
    | none => out
  joinFrom c id separator ((← get).builtin? "ToPrimitive") (length - c.phase) c.phase out

def join (c : NativeCall) : Exec NativeReply :=
  match c.arg 0 with
  | .undefined => joinWith "," c
  | v => joinWith v.toText c

/-- Looks for a value among the own elements from an index on. -/
def searchFrom (m : Machine) (id : ObjectId) (v : Value) (actor : Option Owner) :
    Nat → Nat → Except Failure (Option Nat)
  | 0, _ => .ok none
  | left + 1, i => do
    if !(← m.heap.object id).properties.contains (Number.natText i) then
      searchFrom m id v actor left (i + 1)
    else if (← item m id i actor).strictEquals v then return some i
    else searchFrom m id v actor left (i + 1)

def indexOf (c : NativeCall) : Exec Value := do
  let id ← receiverObject c "Array.prototype.indexOf"
  let length ← query fun m => lengthOf m id c.owner
  let start := relativeIndex (c.arg 1) length 0
  match ← query fun m => searchFrom m id (c.arg 0) c.owner (length - start) start with
  | some i => return .nat i
  | none => return .number (-1)

def slice (c : NativeCall) : Exec Value := do
  let id ← receiverObject c "Array.prototype.slice"
  let length ← query fun m => lengthOf m id c.owner
  let start := relativeIndex (c.arg 0) length 0
  let stop := relativeIndex (c.arg 1) length length
  let values ← query fun m =>
    (List.range' start (stop - start)).mapM fun i => item m id i c.owner
  return .object (← createArray values c.owner)

def protoMethods : List Method :=
  [.direct "push" 1 push, .direct "pop" 0 pop, ⟨"join", 1, join⟩, .direct "indexOf" 1 indexOf,
   .direct "slice" 2 slice, ⟨"toString", 0, joinWith ","⟩]

def methods : List Method := [.direct "isArray" 1 isArray]

def native : Native := { arity := 1, call := .ofValue construct, construct := some (.ofValue construct) }

def natives : Natives :=
  methodNatives "Array.prototype" protoMethods ++ ("Array", native) ::
    methodNatives "Array" methods

def install : Exec Unit := do
  attach (← builtinObject "Array.prototype") "Array.prototype" protoMethods
  attach (← installConstructor "Array" native) "Array" methods

end ScriptMachine.Builtin.Arrays
