import ScriptMachine.Builtin.Basic
import ScriptMachine.Json.Printer
import ScriptMachine.Json.Reader

/-!
# Builtins for JSON

Only plain data is written and read: numbers, texts, truth values, null, arrays and objects.
-/

namespace ScriptMachine.Builtin.JsonText

open Machine Exec

/-- The nesting that is still written. -/
def maxDepth : Nat := 512

/-- Integral numbers are written without a fraction and infinite ones as null. -/
def numberJson (n : Float) : Json :=
  if !n.isFinite then .null
  else if Number.isIntegral n && Float.abs n < 9007199254740992 then .int (Number.truncInt n)
  else .float n

/-- How many elements of an array are written. -/
def elementCount (n : Float) : Nat :=
  if n.isFinite && n > 0 then Number.clampNat n 4294967295 else 0

/-- The JSON of a value, none for what has no text. `visiting` holds the objects around it, and
`depth` is the nesting that is still allowed. -/
def toJson (m : Machine) (actor : Option Owner) :
    Nat → List ObjectId → Value → Except Failure (Option Json)
  | _, _, .undefined => .ok none
  | _, _, .null => .ok (some .null)
  | _, _, .bool b => .ok (some (.bool b))
  | _, _, .number n => .ok (some (numberJson n))
  | _, _, .string s => .ok (some (.str s))
  | depth, visiting, .object id =>
    if m.isCallable (.object id) then .ok none
    else if visiting.contains id then
      .error (.typeError "Converting circular structure to JSON")
    else
      match depth with
      | 0 => .error (.rangeError "JSON.stringify nesting too deep")
      | depth + 1 => do
        let inner (key : String) : Except Failure (Option Json) := do
          toJson m actor depth (id :: visiting) (← m.getProperty (.object id) key actor)
        if (← m.heap.object id).isArray then
          let length ← m.getProperty (.object id) "length" actor
          let items ← (List.range (elementCount length.toNumber)).mapM fun i =>
            inner (Number.natText i)
          return some (.arr (items.map (·.getD .null)))
        else
          let keys ← m.ownKeys id actor false
          let fields ← keys.mapM fun key => return (key, ← inner key)
          return some (.obj (fields.filterMap fun (key, j) => j.map fun j => (key, j)))

/-- The indentation an argument asks for: up to ten blanks or the first ten characters. -/
def indentOf : Value → String
  | .number n => String.ofList (List.replicate (Number.clampNat n 10) ' ')
  | .string s => String.ofList (s.toList.take 10)
  | _ => ""

def stringify (c : NativeCall) : Exec Value := do
  match ← query fun m => toJson m c.owner maxDepth [] (c.arg 0) with
  | none => return .undefined
  | some j =>
    let indent := indentOf (c.arg 2)
    return .string (if indent.isEmpty then j.compact else j.pretty indent)

mutual

/-- Builds the value of a JSON text. -/
def build (owner : Option Owner) : Json → Exec Value
  | .null => return .null
  | .bool b => return .bool b
  | .int i => return .number (Number.ofInt i)
  | .float n => return .number n
  | .str s => return .string s
  | .arr items => do
    let values ← buildItems owner items
    return .object (← createArray values owner)
  | .obj fields => do
    let id ← createPlainObject owner
    buildFields owner (.object id) fields
    return .object id

def buildItems (owner : Option Owner) : List Json → Exec (List Value)
  | [] => return []
  | j :: rest => do
    let v ← build owner j
    return v :: (← buildItems owner rest)

def buildFields (owner : Option Owner) (base : Value) : List (String × Json) → Exec Unit
  | [] => return
  | (key, j) :: rest => do
    let v ← build owner j
    setProperty base key v owner
    buildFields owner base rest

end

def parse (c : NativeCall) : Exec Value := do
  let text := (c.arg 0).toText
  match Json.read text with
  | .ok j => build c.owner j
  | .error e =>
    let (line, column) := Json.position text e.index
    throw (.malformed ("JSON.parse: " ++ e.cause.message ++ " at line " ++ Number.natText line ++
      " column " ++ Number.natText column) (.ofNat line) (.ofNat column))

def methods : List Method := [.direct "stringify" 3 stringify, .direct "parse" 2 parse]

def natives : Natives := methodNatives "JSON" methods

def install : Exec Unit := do
  attach (← createNamespace "JSON") "JSON" methods

end ScriptMachine.Builtin.JsonText
