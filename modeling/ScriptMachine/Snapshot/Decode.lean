import ScriptMachine.Builtin.All
import ScriptMachine.Json.Reader
import ScriptMachine.Snapshot.Basic
import ScriptMachine.Tree.Record

/-!
# Restoring a snapshot

Records are read in two passes. The first tells what each record is and loads the programs, so that
the second can resolve references in any order. A snapshot that is refused leaves the machine as it
was.
-/

namespace ScriptMachine

namespace Snapshot

abbrev Decoding := Except Failure

def refuse {α : Type} (message : String) : Decoding α := .error (.image message)

/-! ## Fields -/

/-- The words of a refusal that shows what was found. -/
def expected {α : Type} (what : String) (found : Json) : Decoding α :=
  refuse ("expected " ++ what ++ ", found " ++ found.compact)

def field (record : Json) (name : String) : Decoding Json :=
  match record.field? name with
  | some j => .ok j
  | none => refuse ("record is missing '" ++ name ++ "'")

/-- The type a record names. -/
def typeOf (record : Json) : Decoding String := do
  match (← field record "type").str? with
  | some s => return s
  | none => refuse "record type must be a string"

def array (j : Json) : Decoding (List Json) :=
  match j with
  | .arr items => .ok items
  | _ => expected "an array" j

def map (j : Json) : Decoding (List (String × Json)) :=
  match j with
  | .obj entries => .ok entries
  | _ => expected "an object" j

def string (j : Json) : Decoding String :=
  match j.str? with
  | some s => .ok s
  | none => expected "a string" j

def stringField (record : Json) (name : String) : Decoding String := do
  string (← field record name)

def strings (j : Json) : Decoding (List String) := do
  (← array j).mapM string

def integer (j : Json) : Decoding Nat :=
  match j.word64? with
  | some n => .ok n
  | none => expected "an integer" j

def integerField (record : Json) (name : String) : Decoding Nat := do
  integer (← field record name)

def word32Field (record : Json) (name : String) : Decoding Nat := do
  let n ← integerField record name
  if n < Nat.pow 2 32 then return n else refuse ("'" ++ name ++ "' out of range")

def boolField (record : Json) (name : String) : Decoding Bool := do
  match (← field record name).bool? with
  | some b => return b
  | none => refuse ("'" ++ name ++ "' must be a boolean")

/-- A plain number or a tagged special one. -/
def readNumber (j : Json) : Decoding Float :=
  match j with
  | .int i => .ok (Number.ofInt i)
  | .float n => .ok n
  | _ =>
    match ((j.field? "Number").bind Json.str?).bind (Tree.ofName? specialNumbers) with
    | some n => .ok n
    | none => expected "a number" j

/-- A member of a closed list by its name. -/
def named {α : Type} (what : String) (ofName? : String → Option α) (name : String) : Decoding α :=
  match ofName? name with
  | some a => .ok a
  | none => refuse ("unknown " ++ what ++ " '" ++ name ++ "'")

/-- Null for none. -/
def optional {α : Type} (read : Json → Decoding α) (j : Json) : Decoding (Option α) :=
  match j with
  | .null => .ok none
  | _ => return some (← read j)

/-! ## References -/

/-- What a record is. -/
inductive Slot where
  | root
  | object (id : ObjectId)
  | scope (id : ScopeId)
  | program (id : ProgramId)
  | thread

/-- What the first pass found. -/
structure Layout where
  slots : Array Slot := #[]
  objectCount : Nat := 0
  scopeCount : Nat := 0
  programs : Array (Option Tree.Program) := #[]

namespace Layout

/-- Adds a record. -/
def add (l : Layout) (record : Json) : Decoding Layout := do
  match ← typeOf record with
  | "Object" =>
    return { l with
      slots := l.slots.push (.object ⟨l.objectCount⟩), objectCount := l.objectCount + 1 }
  | "Scope" =>
    return { l with slots := l.slots.push (.scope ⟨l.scopeCount⟩), scopeCount := l.scopeCount + 1 }
  | "Program" =>
    match Tree.Program.ofJson? (← field record "program") with
    | some p =>
      return { l with
        slots := l.slots.push (.program ⟨l.programs.size⟩), programs := l.programs.push (some p) }
    | none => throw .json
  | "Thread" => return { l with slots := l.slots.push .thread }
  | other =>
    if other == "Interpreter" && l.slots.isEmpty then
      return { l with slots := l.slots.push .root }
    else
      refuse ("unknown record type '" ++ other ++ "' at " ++ Number.natText l.slots.size)

/-- The record a reference leads to. -/
def slot (l : Layout) (j : Json) : Decoding (Nat × Slot) :=
  match place? j with
  | none => expected "a reference" j
  | some place =>
    match l.slots[place]? with
    | some slot => .ok (place, slot)
    | none => refuse ("dangling reference #" ++ Number.natText place)

def notA {α : Type} (place : Nat) (what : String) : Decoding α :=
  refuse ("record " ++ Number.natText place ++ " is not " ++ what)

def object (l : Layout) (j : Json) : Decoding ObjectId := do
  match ← l.slot j with
  | (_, .object id) => return id
  | (place, _) => notA place "an object"

def scope (l : Layout) (j : Json) : Decoding ScopeId := do
  match ← l.slot j with
  | (_, .scope id) => return id
  | (place, _) => notA place "a scope"

def program (l : Layout) (j : Json) : Decoding ProgramId := do
  match ← l.slot j with
  | (_, .program id) => return id
  | (place, _) => notA place "a program"

/-- A node, which must be one of its program. -/
def node (l : Layout) (j : Json) : Decoding NodeRef := do
  let program ← l.program (← field j "program")
  let node ← word32Field j "node"
  let size := ((l.programs[program.index]?.join).map (·.nodes.size)).getD 0
  if node < size then return ⟨program, node⟩
  else
    refuse ("node " ++ Number.natText node ++ " out of range in program #" ++
      Number.natText program.index)

/-! ## Values -/

def value (l : Layout) (j : Json) : Decoding Value := do
  match j with
  | .null => return .null
  | .bool b => return .bool b
  | .int _ => return .number (← readNumber j)
  | .float n => return .number n
  | .str s => return .string s
  | .arr _ => refuse ("unexpected array value " ++ j.compact)
  | .obj _ =>
    if (j.field? "Number").isSome then return .number (← readNumber j)
    else if (j.field? "Value").bind Json.str? == some "undefined" then return .undefined
    else return .object (← l.object j)

def valueField (l : Layout) (record : Json) (name : String) : Decoding Value := do
  l.value (← field record name)

def values (l : Layout) (j : Json) : Decoding (List Value) := do
  (← array j).mapM l.value

/-! ## Objects and scopes -/

def function (natives : Natives) (l : Layout) (j : Json) : Decoding Callable := do
  match ← stringField j "kind" with
  | "user" =>
    let node ← l.node j
    return .closure node (← l.scope (← field j "scope"))
  | "bound" =>
    let target ← l.object (← field j "target")
    let receiver ← l.valueField j "this"
    return .bound target receiver (← l.values (← field j "args"))
  | "native" =>
    let id ← stringField j "id"
    if (natives.lookup id).isSome then return .native id
    else refuse ("unknown native '" ++ id ++ "'")
  | other => refuse ("unknown function kind '" ++ other ++ "'")

/-- The names in a field that may be left out. -/
def flagged (record : Json) (name : String) : Decoding (List String) :=
  match record.field? name with
  | some j => strings j
  | none => .ok []

def objectOf (natives : Natives) (l : Layout) (record : Json) : Decoding Object := do
  let cls ← named "object class" ObjectClass.ofName? (← stringField record "class")
  let proto ← optional l.object (← field record "proto")
  let owner ← optional l.object (← field record "owner")
  let extensible := ((record.field? "isExtensible").bind Json.bool?).getD true
  let nonWritable ← flagged record "nonWritable"
  let nonEnumerable ← flagged record "nonEnumerable"
  let nonConfigurable ← flagged record "nonConfigurable"
  let entries ←
    match record.field? "props" with
    | some j => map j
    | none => pure []
  let properties ← entries.foldlM (fun (t : Table Property) (key, j) => do
    let v ← l.value j
    return t.insert key ⟨v, !nonWritable.contains key, !nonEnumerable.contains key,
      !nonConfigurable.contains key⟩) {}
  let function ←
    match record.field? "function" with
    | some j => do pure (some (← function natives l j))
    | none => pure none
  return { owner, proto, cls, extensible, properties, function }

def scopeOf (l : Layout) (record : Json) : Decoding Scope := do
  let kind ← named "scope kind" ScopeKind.ofName? (← stringField record "kind")
  let owner ← optional l.object (← field record "owner")
  let outer ← optional l.scope (← field record "outer")
  let receiver ← l.valueField record "this"
  let immutable ← strings (← field record "immutable")
  let bindings ← (← map (← field record "bindings")).foldlM
    (fun (t : Table Binding) (name, j) => do
      return t.insert name ⟨← l.value j, !immutable.contains name⟩) {}
  return { kind, owner, outer, receiver, bindings }

/-! ## Threads -/

def placeReference (l : Layout) (j : Json) : Decoding Reference := do
  match ← stringField j "kind" with
  | "binding" =>
    let scope ← optional l.scope (← field j "scope")
    return .binding scope (← stringField j "name")
  | "property" =>
    let base ← l.valueField j "base"
    return .property base (← stringField j "key")
  | other => refuse ("unknown reference kind '" ++ other ++ "'")

def completion (l : Layout) (j : Json) : Decoding Completion := do
  let kind ← named "completion" CompletionKind.ofName? (← stringField j "kind")
  let label ← optional string (← field j "label")
  return { kind, value := ← l.valueField j "value", label }

def callInfo (l : Layout) (j : Json) : Decoding CallInfo := do
  let phase ← named "call phase" CallPhase.ofName? (← stringField j "phase")
  let func ← l.valueField j "func"
  let receiver ← l.valueField j "this"
  let args ← l.values (← field j "args")
  let construct ← boolField j "construct"
  let nativePhase ← word32Field j "nativePhase"
  let scratch ← l.values (← field j "scratch")
  let newObject ← optional l.object (← field j "newObject")
  return { func, receiver, args, phase, construct, nativePhase, scratch, newObject }

def info (l : Layout) (j : Json) : Decoding FrameInfo := do
  match ← stringField j "kind" with
  | "none" => return .none
  | "operands" => return .operands (← l.values (← field j "values"))
  | "call" => return .call (← l.callInfo j)
  | "try" =>
    let phase ← named "try phase" TryPhase.ofName? (← stringField j "phase")
    return .try phase (← optional l.completion (← field j "completion"))
  | "switch" =>
    let discriminant ← l.valueField j "discriminant"
    let clause ← integerField j "case"
    let statement ← integerField j "statement"
    return .switch discriminant clause statement (← boolField j "matched")
  | "forIn" =>
    let keys ← strings (← field j "keys")
    let index ← integerField j "index"
    return .forIn keys index (← l.valueField j "object")
  | "object" => return .object (← l.object (← field j "object"))
  | "program" => return .program (← l.valueField j "completion")
  | other => refuse ("unknown state info '" ++ other ++ "'")

def frame (l : Layout) (j : Json) : Decoding Frame := do
  let scope ← l.scope (← field j "scope")
  let node ← optional l.node (← field j "node")
  let step ← word32Field j "step"
  let wantRef ← boolField j "wantRef"
  let value ← l.valueField j "value"
  let reference ← optional l.placeReference (← field j "ref")
  let labels ← strings (← field j "labels")
  let isLoop ← boolField j "isLoop"
  let isSwitch ← boolField j "isSwitch"
  let info ← l.info (← field j "info")
  return { node, scope, step, wantRef, value, reference, labels, isLoop, isSwitch, info }

def outcome (l : Layout) (j : Json) : Decoding Outcome := do
  match ← stringField j "kind" with
  | "completed" => return .completed (← l.valueField j "value")
  | "threw" => return .threw (← l.valueField j "value")
  | "killed" => return .killed
  | other => refuse ("unknown outcome '" ++ other ++ "'")

def thread (l : Layout) (record : Json) : Decoding Thread := do
  let id ← integerField record "id"
  let status ← named "thread status" ThreadStatus.ofName? (← stringField record "status")
  let timeLimit ← optional readNumber (← field record "timeLimit")
  let runAt ← readNumber (← field record "runAt")
  let queued ← integerField record "queued"
  let keepOutcome ← boolField record "keepOutcome"
  let outcome ← optional l.outcome (← field record "outcome")
  let frames ← (← array (← field record "stack")).mapM l.frame
  return { id := ⟨id⟩, status, stack := .ofList frames.reverse, runAt, queued, timeLimit
           runStarted := runAt, outcome, keepOutcome }

/-- A thread the machine refers to. -/
def threadAt (l : Layout) (records : Array Json) (j : Json) : Decoding Thread := do
  match ← l.slot j with
  | (place, .thread) =>
    match records[place]? with
    | some record => l.thread record
    | none => notA place "a thread"
  | (place, _) => notA place "a thread"

end Layout

/-! ## The machine -/

/-- The objects and scopes of the second pass. -/
structure Contents where
  objects : Array (Option Object) := #[]
  scopes : Array (Option Scope) := #[]

/-- Reads a record into its slot. -/
def Contents.add (natives : Natives) (l : Layout) (c : Contents) (record : Json × Slot) :
    Decoding Contents := do
  match record.2 with
  | .object _ => return { c with objects := c.objects.push (some (← l.objectOf natives record.1)) }
  | .scope _ => return { c with scopes := c.scopes.push (some (← l.scopeOf record.1)) }
  | _ => return c

/-- A resolver and its thread; both must have been issued. A resolver may outlive its thread. -/
def resolver (nextThreadId nextResolverId : Nat) (j : Json) : Decoding (Nat × ThreadId) := do
  match ← array j with
  | [id, thread] =>
    let id ← integer id
    let thread ← integer thread
    if thread ≥ nextThreadId || id ≥ nextResolverId then
      refuse ("resolver " ++ Number.natText id ++ " for thread " ++ Number.natText thread ++
        " was never issued")
    else return (id, ⟨thread⟩)
  | _ => refuse "malformed pending resolver"

/-- Puts a resolver in the order of numbers, in the place of one with the same number. -/
def insertResolver (r : Nat × ThreadId) : List (Nat × ThreadId) → List (Nat × ThreadId)
  | [] => [r]
  | s :: rest =>
    if r.1 < s.1 then r :: s :: rest
    else if r.1 == s.1 then r :: rest
    else s :: insertResolver r rest

/-- A decoded machine: what of it a snapshot holds. -/
structure Image where
  heap : Heap
  clock : Float
  globalScope : ScopeId
  rootOwner : Owner
  builtins : Table Value
  threads : List Thread
  nextThreadId : Nat
  nextQueued : Nat
  pendingResolvers : List (Nat × ThreadId)
  nextResolverId : Nat
  status : RunStatus

/-- Reads the record of the machine. -/
def image (l : Layout) (records : Array Json) (root : Json) (heap : Heap) : Decoding Image := do
  let builtins ← (← map (← field root "builtins")).foldlM
    (fun (t : Table Value) (name, j) => do return t.insert name (← l.value j)) {}
  let threads ← (← array (← field root "threads")).foldlM
    (fun ts j => do return Machine.insertThread (← l.threadAt records j) ts) []
  let nextThreadId ← integerField root "nextThreadId"
  let nextResolverId ← integerField root "nextResolverId"
  let pendingResolvers ← (← array (← field root "pendingResolvers")).foldlM
    (fun rs j => do return insertResolver (← resolver nextThreadId nextResolverId j) rs) []
  let status ← named "run status" RunStatus.ofName? (← stringField root "status")
  let clock ← readNumber (← field root "clock")
  let globalScope ← l.scope (← field root "globalScope")
  let rootOwner ← l.object (← field root "rootOwner")
  let nextQueued ← integerField root "nextQueued"
  return { heap, clock, globalScope, rootOwner, builtins, threads, nextThreadId, nextQueued,
           pendingResolvers, nextResolverId, status }

/-- The text of a version that is not supported. -/
def versionText : Option Nat → String
  | some n => "Some(" ++ Number.natText n ++ ")"
  | none => "None"

/-- Checks that an array of records starts with the record of a machine. -/
def checkRoot (root : Json) : Decoding Unit := do
  if (← typeOf root) != "Interpreter" then refuse "record 0 is not the interpreter"
  let version := (← field root "version").word64?
  if version != some formatVersion then
    refuse ("unsupported snapshot version " ++ versionText version ++ ", expected " ++
      Number.natText formatVersion)

/-- Reads all records. The heap starts with a given threshold and serial. -/
def decode (natives : Natives) (threshold serial : Nat) (j : Json) : Decoding Image := do
  match j with
  | .arr [] => refuse "snapshot has no interpreter record"
  | .arr (root :: rest) =>
    checkRoot root
    let records := root :: rest
    let l ← records.foldlM Layout.add {}
    let c ← (records.zip l.slots.toList).foldlM (Contents.add natives l) {}
    image l records.toArray root
      { objects := c.objects, scopes := c.scopes, programs := l.programs
        allocsSinceGc := l.objectCount + l.scopeCount, gcThreshold := threshold, serial }
  | _ => refuse "snapshot must be an array of records"

end Snapshot

namespace Machine

open Exec

/-- Puts a decoded machine in the place of the current one. The host's services and configuration
stay. -/
def installImage (i : Snapshot.Image) : Exec Unit := do
  modify fun m => { m with
    heap := i.heap
    hostValues := i.heap.newGuard
    globalScope := i.globalScope
    rootOwner := i.rootOwner
    builtins := i.builtins
    threads := i.threads
    nextThreadId := i.nextThreadId
    currentThread := none
    lastStepped := none
    earlySettlements := []
    nextQueued := i.nextQueued
    pendingResolvers := i.pendingResolvers
    nextResolverId := i.nextResolverId
    status := i.status }
  setClock i.clock

/-- Restores a snapshot. Every host function it names must be registered. -/
def restore (natives : Natives) (j : Json) : Exec Unit := do
  let image ← query fun m =>
    Snapshot.decode natives m.config.gcThreshold (m.heap.serial + 1) j
  installImage image

/-- Restores a snapshot from its text. -/
def restoreText (natives : Natives) (text : String) : Exec Unit := do
  match Json.read text with
  | .ok j => restore natives j
  | .error _ => throw .json

end Machine

end ScriptMachine
