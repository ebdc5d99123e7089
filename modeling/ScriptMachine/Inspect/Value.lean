import ScriptMachine.Json.Basic
import ScriptMachine.Machine.Error

/-!
# Values as a host sees them

A value is shown as JSON, an object with everything that can be reached from it. Well-known objects
are named, an object that occurs again is referred to by its number, and the depth is limited.
-/

namespace ScriptMachine.Inspect

/-- The text of a double; the two zeros are told apart. -/
def numberText (n : Float) : String :=
  if n == 0 && Number.isNegative n then "-0" else Number.toText n

def number (n : Float) : Json := .str (numberText n)

mutual

/-- Tags the floats of a record, so that they can be told from integers and keep all values. -/
def tagFloats : Json → Json
  | .float f => .obj [("f", number f)]
  | .arr items => .arr (tagItems items)
  | .obj fields => .obj (tagFields fields)
  | j => j

def tagItems : List Json → List Json
  | [] => []
  | j :: rest => tagFloats j :: tagItems rest

def tagFields : List (String × Json) → List (String × Json)
  | [] => []
  | (k, j) :: rest => (k, tagFloats j) :: tagFields rest

end

/-- A value without the contents of an object. -/
def flat : Value → Json
  | .undefined => .obj [("u", .bool true)]
  | .null => .null
  | .bool b => .bool b
  | .number n => .obj [("n", number n)]
  | .string t => .str t
  | .object id => .obj [("object", .nat id.index)]

/-- The builtins that are shown by name. -/
def namedBuiltins : List String :=
  ["Object.prototype", "Function.prototype", "Array.prototype", "String.prototype",
   "Number.prototype", "Boolean.prototype"] ++ ErrorKind.all.map ErrorKind.prototypeKey ++
    ["Math", "JSON", "console", "Thread"]

/-- The name an object is shown by. The root owner goes first, then the builtin named last. -/
def name? (m : Machine) (id : ObjectId) : Option String :=
  if id == m.rootOwner then some "root"
  else namedBuiltins.reverse.find? fun name => m.builtin? name == some (.object id)

/-- The attributes of a property, a letter for each that is set. -/
def attributes (p : Property) : String :=
  (if p.writable then "w" else "") ++ (if p.enumerable then "e" else "") ++
    (if p.configurable then "c" else "")

/-- Shows a value to a depth; the state holds the objects shown so far. -/
def display (m : Machine) : Nat → Value → StateM (Array ObjectId) Json
  | depth, .object id => do
    match name? m id, m.heap.object? id with
    | some name, _ => return .obj [("builtin", .str name)]
    | none, none => return .obj [("dangling", .bool true)]
    | none, some o =>
      match o.function, (← get).findIdx? (· == id), depth with
      | some (.native name), _, _ => return .obj [("native", .str name)]
      | _, some k, _ => return .obj [("ref", .nat k)]
      | _, none, 0 => return .obj [("deep", .bool true)]
      | function, none, depth + 1 =>
        let k := (← get).size
        modify fun seen => seen.push id
        let fn ←
          match function with
          | some (.closure node _) => pure [("fn", .obj [("node", .nat node.node)])]
          | some (.bound target receiver args) => do
            let target ← display m depth (.object target)
            let receiver ← display m depth receiver
            let args ← args.mapM (display m depth)
            pure [("fn", .obj [("bound", target), ("this", receiver), ("args", .arr args)])]
          | _ => pure []
        let proto ←
          match o.proto with
          | some p => display m depth (.object p)
          | none => pure .null
        let owner ←
          match o.owner with
          | some w =>
            if w == m.rootOwner then pure []
            else do pure [("owner", ← display m depth (.object w))]
          | none => pure [("owner", .null)]
        let props ← o.properties.entries.toList.mapM fun e => do
          return .arr [.str e.1, ← display m depth e.2.value, .str (attributes e.2)]
        return .obj ([("o", .nat k), ("class", .str o.cls.name)] ++ fn ++ [("proto", proto)] ++
          owner ++ (if o.extensible then [] else [("ext", .bool false)]) ++
          [("props", .arr props)])
  | _, v => return flat v

/-- The depth at which the contents of objects are left out. -/
def maxDepth : Nat := 12

/-- A value with everything that can be reached from it. -/
def value (m : Machine) (v : Value) : Json := ((display m maxDepth v).run #[]).1

end ScriptMachine.Inspect
