import ScriptMachine.Inspect.Value
import ScriptMachine.Json.Printer
import ScriptMachine.Snapshot.Basic

/-!
# Snapshots as a host sees them

Views of the records of a snapshot: a digest of their text, the records that a program made, and
the state of every thread.
-/

namespace ScriptMachine.Inspect

/-- A check sum of bytes: each is mixed in and the sum multiplied by a prime. -/
def checkSum (bytes : ByteArray) : UInt64 :=
  bytes.foldl (fun h b => (h ^^^ b.toUInt64) * 1099511628211) 14695981039346656037

/-- Sixteen hexadecimal digits. -/
def hexText (n : UInt64) : String :=
  let digits := Nat.toDigits 16 n.toNat
  String.ofList (List.replicate (16 - digits.length) '0' ++ digits)

/-- The number of records, and the length and check sum of their text. -/
def digest (snapshot : Json) : Json :=
  let text := snapshot.compact
  .obj [("records", .nat snapshot.itemList.length), ("bytes", .nat text.utf8ByteSize),
    ("fnv", .str (hexText (checkSum text.toUTF8)))]

/-- Whether the view of a program's records leaves a record out. -/
def isHidden (builtins : List Nat) (place : Nat) (record : Json) : Bool :=
  place == 0 || builtins.contains place || (record.field "function").fieldText "kind" == "native"

/-- A record in short: programs without their nodes, and the global scope without the bindings of
what is left out. -/
def shorten (hidden : List Nat) (record : Json) : Json :=
  match record.fieldText "type", record.fieldText "kind" with
  | "Program", _ =>
    let p := record.field "program"
    .obj [("type", .str "Program"), ("source", p.field "source"),
      ("nodes", .nat (p.field "nodes").itemList.length), ("root", p.field "root")]
  | "Scope", "Global" =>
    .obj (record.fieldList.map fun (key, j) =>
      if key == "bindings" then
        (key, .obj (j.fieldList.filter fun (_, v) =>
          match Snapshot.place? v with
          | some place => !hidden.contains place
          | none => true))
      else (key, j))
  | _, _ => record

/-- The records that a program made, each with its place. -/
def userRecords (snapshot : Json) : Json :=
  let records := snapshot.itemList
  let builtins := ((records.headD .null).field "builtins").fieldList.filterMap fun f =>
    Snapshot.place? f.2
  let (out, kept) := records.zipIdx.partition fun (r, i) => isHidden builtins i r
  let hidden := out.map (·.2)
  .arr (kept.map fun (r, i) => .arr [.nat i, tagFloats (shorten hidden r)])

/-- The record a reference leads to, null when there is none. -/
def follow (records : Array Json) (j : Json) : Json :=
  ((Snapshot.place? j).bind fun place => records[place]?).getD .null

/-- The top frame of a thread: what it evaluates, its step, its info and its value. -/
def topFrame (records : Array Json) (f : Json) : Json :=
  let node := f.field "node"
  let kind : Json :=
    match node with
    | .null => .str "call"
    | _ =>
      let nodes := (((follow records (node.field "program")).field "program").field "nodes").itemList
      match node.field "node" with
      | .int (.ofNat i) => ((nodes.getD i .null).field "kind").field "type"
      | _ => .null
  let value : Json :=
    match Snapshot.place? (f.field "value") with
    | some _ => .str "object"
    | none => tagFloats (f.field "value")
  .arr [kind, f.field "step", (f.field "info").field "kind", (f.field "info").field "phase", value]

/-- A row for every thread: number, status, depth of the stack, top frame. -/
def threadRows (snapshot : Json) : Json :=
  let records := snapshot.itemList.toArray
  let threads := (records[0]?.getD Json.null).field "threads"
  .arr (threads.itemList.map fun j =>
    let t := follow records j
    let stack := (t.field "stack").itemList
    .arr [t.field "id", t.field "status", .nat stack.length,
      .ofOption (topFrame records) stack.getLast?])

/-- The place of a record by a text: the k-th one of a type, of a kind of function or of a class. -/
def selectRecord? (selector : String) (records : List Json) : Option Nat :=
  let found (k : String) (p : Json → Bool) : Option Nat := do
    ((records.zipIdx.filter fun (r, _) => p r).map (·.2))[← k.toNat?]?
  match selector.splitOn ":" with
  | ["@fn", kind, k] => found k fun r => (r.field "function").fieldText "kind" == kind
  | ["@class", cls, k] => found k fun r => r.fieldText "class" == cls
  | [kind, k] => found k fun r => "@" ++ r.fieldText "type" == kind
  | _ => none

end ScriptMachine.Inspect
