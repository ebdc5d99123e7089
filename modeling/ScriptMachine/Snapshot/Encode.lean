import Std.Data.ExtTreeMap
import ScriptMachine.Builtin.All
import ScriptMachine.Snapshot.Basic
import ScriptMachine.Tree.Record

/-!
# Taking a snapshot

The walk is breadth first from the record of the machine. What is referred to for the first time
gets the next place, and its record is written when the walk comes to it.
-/

namespace ScriptMachine

namespace Snapshot

/-- What has a record of its own. -/
inductive Item where
  | object (id : ObjectId)
  | scope (id : ScopeId)
  | program (id : ProgramId)
  | thread (id : ThreadId)
  deriving DecidableEq

namespace Item

/-- A number that tells items apart. -/
def code : Item → Nat
  | .object id => 4 * id.index
  | .scope id => 4 * id.index + 1
  | .program id => 4 * id.index + 2
  | .thread id => 4 * id.index + 3

end Item

/-- The items referred to so far, in the order of their places, which start at one. -/
structure Numbering where
  items : Array Item := #[]
  /-- The place of each item under its code. -/
  places : Std.ExtTreeMap Nat Nat := {}

/-- Writing that may refer to items. -/
abbrev Writing := StateM Numbering

/-- A reference to an item, which gets a place if it has none. -/
def refer (item : Item) : Writing Json := modifyGet fun n =>
  match n.places[item.code]? with
  | some place => (reference place, n)
  | none =>
    let place := n.items.size + 1
    (reference place, ⟨n.items.push item, n.places.insert item.code place⟩)

/-! ## Values -/

def value : Value → Writing Json
  | .undefined => return .obj [("Value", .str "undefined")]
  | .null => return .null
  | .bool b => return .bool b
  | .number n => return number n
  | .string s => return .str s
  | .object id => refer (.object id)

def values : List Value → Writing (List Json)
  | [] => return []
  | v :: rest => do
    let j ← value v
    return j :: (← values rest)

/-- Named values in their order. -/
def fields : List (String × Value) → Writing (List (String × Json))
  | [] => return []
  | (name, v) :: rest => do
    let j ← value v
    return (name, j) :: (← fields rest)

def optionalObject : Option ObjectId → Writing Json
  | some id => refer (.object id)
  | none => return .null

def optionalScope : Option ScopeId → Writing Json
  | some id => refer (.scope id)
  | none => return .null

def names (keys : List String) : Json := .arr (keys.map .str)

/-! ## Objects and scopes -/

def function : Callable → Writing Json
  | .closure node scope => do
    let program ← refer (.program node.program)
    let scope ← refer (.scope scope)
    return .obj [("kind", .str "user"), ("program", program), ("node", .nat node.node),
      ("scope", scope)]
  | .bound target receiver args => do
    let target ← refer (.object target)
    let receiver ← value receiver
    let args ← values args
    return .obj [("kind", .str "bound"), ("target", target), ("this", receiver),
      ("args", .arr args)]
  | .native id => return .obj [("kind", .str "native"), ("id", .str id)]

/-- The names of the properties that lack an attribute, as a field that is left out when there are
none. -/
def lacking (o : Object) (name : String) (has : Property → Bool) : List (String × Json) :=
  match (o.properties.entries.toList.filter fun e => !has e.2).map (·.1) with
  | [] => []
  | keys => [(name, names keys)]

def objectRecord (o : Object) : Writing Json := do
  let owner ← optionalObject o.owner
  let proto ← optionalObject o.proto
  let props ← fields (o.properties.entries.toList.map fun e => (e.1, e.2.value))
  let function ←
    match o.function with
    | some f => do pure [("function", ← function f)]
    | none => pure []
  return .obj <|
    [("type", .str "Object"), ("class", .str o.cls.name), ("owner", owner), ("proto", proto)] ++
      (if props.isEmpty then [] else [("props", .obj props)]) ++
      lacking o "nonWritable" (·.writable) ++ lacking o "nonEnumerable" (·.enumerable) ++
      lacking o "nonConfigurable" (·.configurable) ++
      (if o.extensible then [] else [("isExtensible", .bool false)]) ++ function

def scopeRecord (s : Scope) : Writing Json := do
  let entries := s.bindings.entries.toList
  let bindings ← fields (entries.map fun e => (e.1, e.2.value))
  let owner ← optionalObject s.owner
  let outer ← optionalScope s.outer
  let receiver ← value s.receiver
  return .obj [("type", .str "Scope"), ("kind", .str s.kind.name), ("owner", owner),
    ("outer", outer), ("this", receiver), ("bindings", .obj bindings),
    ("immutable", names ((entries.filter fun e => !e.2.mutable).map (·.1)))]

def programRecord (p : Tree.Program) : Json :=
  .obj [("type", .str "Program"), ("program", p.toJson)]

/-! ## Threads -/

def placeReference : Reference → Writing Json
  | .binding scope name => do
    let scope ← optionalScope scope
    return .obj [("kind", .str "binding"), ("scope", scope), ("name", .str name)]
  | .property base key => do
    let base ← value base
    return .obj [("kind", .str "property"), ("base", base), ("key", .str key)]

def completion (c : Completion) : Writing Json := do
  let v ← value c.value
  return .obj [("kind", .str c.kind.name), ("value", v), ("label", .ofOption .str c.label)]

def callInfo (c : CallInfo) : Writing Json := do
  let func ← value c.func
  let receiver ← value c.receiver
  let args ← values c.args
  let scratch ← values c.scratch
  let newObject ← optionalObject c.newObject
  return .obj [("kind", .str "call"), ("func", func), ("this", receiver), ("args", .arr args),
    ("phase", .str c.phase.name), ("construct", .bool c.construct),
    ("nativePhase", .nat c.nativePhase), ("scratch", .arr scratch), ("newObject", newObject)]

def info : FrameInfo → Writing Json
  | .none => return .obj [("kind", .str "none")]
  | .operands vs => return .obj [("kind", .str "operands"), ("values", .arr (← values vs))]
  | .call c => callInfo c
  | .try phase c => do
    let c ←
      match c with
      | some c => completion c
      | none => pure .null
    return .obj [("kind", .str "try"), ("phase", .str phase.name), ("completion", c)]
  | .switch discriminant clause statement matched =>
    return .obj [("kind", .str "switch"), ("discriminant", ← value discriminant),
      ("case", .nat clause), ("statement", .nat statement), ("matched", .bool matched)]
  | .forIn keys index subject =>
    return .obj [("kind", .str "forIn"), ("keys", names keys), ("index", .nat index),
      ("object", ← value subject)]
  | .object id => return .obj [("kind", .str "object"), ("object", ← refer (.object id))]
  | .program c => return .obj [("kind", .str "program"), ("completion", ← value c)]

/-- The node a frame runs, null in the frame of a call. -/
def nodeReference : Option NodeRef → Writing Json
  | some node => do
    return .obj [("program", ← refer (.program node.program)), ("node", .nat node.node)]
  | none => return .null

/-- The place a frame was handed, null when it was handed none. -/
def frameReference : Option Reference → Writing Json
  | some r => placeReference r
  | none => return .null

def frame (f : Frame) : Writing Json := do
  let node ← nodeReference f.node
  let ref ← frameReference f.reference
  let scope ← refer (.scope f.scope)
  let v ← value f.value
  let info ← info f.info
  return .obj [("node", node), ("scope", scope), ("step", .nat f.step),
    ("wantRef", .bool f.wantRef), ("value", v), ("ref", ref), ("labels", names f.labels),
    ("isLoop", .bool f.isLoop), ("isSwitch", .bool f.isSwitch), ("info", info)]

/-- Frames in the order given. -/
def frames : List Frame → Writing (List Json)
  | [] => return []
  | f :: rest => do
    let j ← frame f
    return j :: (← frames rest)

def outcome : Option Outcome → Writing Json
  | none => return .null
  | some (.completed v) => return .obj [("kind", .str "completed"), ("value", ← value v)]
  | some (.threw v) => return .obj [("kind", .str "threw"), ("value", ← value v)]
  | some .killed => return .obj [("kind", .str "killed")]

/-- The record of a thread; its stack is written from the base up. -/
def threadRecord (t : Thread) : Writing Json := do
  let stack ← frames t.stack.frames.reverse
  let outcome ← outcome t.outcome
  return .obj [("type", .str "Thread"), ("id", .nat t.id.index), ("status", .str t.status.name),
    ("runAt", number t.runAt), ("queued", .nat t.queued),
    ("timeLimit", .ofOption number t.timeLimit), ("keepOutcome", .bool t.keepOutcome),
    ("outcome", outcome), ("stack", .arr stack)]

/-! ## The machine -/

def threadReferences : List Thread → Writing (List Json)
  | [] => return []
  | t :: rest => do
    let j ← refer (.thread t.id)
    return j :: (← threadReferences rest)

/-- The record of the machine at a time. -/
def machineRecord (m : Machine) (time : Float) : Writing Json := do
  let globalScope ← refer (.scope m.globalScope)
  let rootOwner ← refer (.object m.rootOwner)
  let builtins ← fields m.builtins.entries.toList
  let threads ← threadReferences m.threads
  let resolvers := m.pendingResolvers.map fun (id, thread) => .arr [.nat id, .nat thread.index]
  return .obj [("type", .str "Interpreter"), ("version", .nat formatVersion),
    ("clock", if time.isFinite then .float time else .null), ("globalScope", globalScope),
    ("builtins", .obj builtins), ("rootOwner", rootOwner), ("threads", .arr threads),
    ("nextThreadId", .nat m.nextThreadId), ("nextQueued", .nat m.nextQueued),
    ("pendingResolvers", .arr resolvers), ("nextResolverId", .nat m.nextResolverId),
    ("status", .str m.status.name)]

/-- The record of an item. -/
def itemRecord (m : Machine) : Item → Except Failure (Writing Json)
  | .object id => return objectRecord (← m.heap.object id)
  | .scope id => return scopeRecord (← m.heap.scope id)
  | .program id => return pure (programRecord (← m.heap.program id))
  | .thread id =>
    match m.thread? id with
    | some t => .ok (threadRecord t)
    | none => .error (.image ("no thread " ++ Number.natText id.index))

/-- Writes the records of the items from a place on, those first referred to meanwhile included.
Every record is that of another live item, so their number bounds the walk. -/
def walk (m : Machine) : Nat → Nat → Numbering → Array Json → Except Failure (Array Json)
  | 0, _, _, records => .ok records
  | fuel + 1, next, numbering, records =>
    match numbering.items[next]? with
    | none => .ok records
    | some item => do
      let (record, numbering) := (← itemRecord m item).run numbering
      walk m fuel (next + 1) numbering (records.push record)

/-- The records of a machine at a time. -/
def encode (m : Machine) (time : Float) : Except Failure (List Json) := do
  let (root, numbering) := (machineRecord m time).run {}
  let fuel := m.heap.objects.size + m.heap.scopes.size + m.heap.programs.size + m.threads.length
  return (← walk m (fuel + 1) 0 numbering #[root]).toList

end Snapshot

namespace Machine

open Exec

/-- The whole state of the machine as data. -/
def snapshot : Exec Json := do
  let time ← now
  return .arr (← query fun m => Snapshot.encode m time)

/-- The whole state of the machine as text. -/
def snapshotText : Exec String := do
  return (← snapshot).compact

end Machine

end ScriptMachine
