import ScriptMachine.Machine.Property

/-!
# Error objects

A failure of the program becomes an error object with its message and the calls that were running,
innermost first.
-/

namespace ScriptMachine.Machine

open Exec

/-- The line of one running call in a stack text. -/
def stackLine? (m : Machine) (f : Frame) : Option String :=
  match f.info with
  | .call c =>
    if c.phase == .running then
      (c.func.object?.bind m.heap.object?).map fun o =>
        let name :=
          match o.ownValue "name" with
          | .string s => if s.isEmpty then "<anonymous>" else s
          | _ => "<anonymous>"
        let place :=
          match o.function with
          | some (.closure node _) =>
            match (m.heap.program? node.program).bind (·.nodes[node.node]?) with
            | some n =>
              " (" ++ Number.natText n.span.line ++ ":" ++ Number.natText n.span.column ++ ")"
            | none => ""
          | _ => ""
        "\n    at " ++ name ++ place
    else none
  | _ => none

/-- The running calls of a thread. -/
def renderStack (m : Machine) (id : ThreadId) : String :=
  match m.thread? id with
  | some t => t.stack.frames.foldl (fun acc f =>
    match m.stackLine? f with
    | some line => acc ++ line
    | none => acc) ""
  | none => ""

def createError (kind : ErrorKind) (message : String) (owner : Option Owner)
    (thread : Option ThreadId) : Exec ObjectId := do
  let proto ← builtinObject kind.prototypeKey
  let m ← get
  let head := if message.isEmpty then kind.name else kind.name ++ ": " ++ message
  let stack :=
    match thread with
    | some id => head ++ m.renderStack id
    | none => head
  let o : Object := { owner, proto := some proto, cls := .error }
  alloc ((o.put "message" (.hidden (.string message))).put "stack" (.hidden (.string stack)))

/-- The value a failure throws into the program. Faults throw nothing and stay faults. -/
def errorToValue (e : Failure) (scope : ScopeId) (thread : ThreadId) : Exec Value := do
  let owner ← scopeOwner scope
  match e with
  | .thrown v _ => return v
  | .raised kind message => return .object (← createError kind message owner (some thread))
  | .malformed message line column =>
    let text := message ++ " at " ++ Number.natText line ++ ":" ++ Number.natText column
    return .object (← createError .parse text owner (some thread))
  | fault => throw fault

/-- A text property found on an object. -/
def textField? (m : Machine) (id : ObjectId) (key : String) : Option String :=
  match m.heap.lookup id key with
  | .ok (some p) => p.value.string?
  | _ => none

/-- The name and message of an error object, or the text of a primitive. -/
def renderError (m : Machine) (v : Value) : String :=
  match v with
  | .object id =>
    match m.textField? id "name", m.textField? id "message" with
    | some name, some message => if message.isEmpty then name else name ++ ": " ++ message
    | some name, none => name
    | none, some message => message
    | none, none => m.describe v
  | _ => v.toText

end ScriptMachine.Machine
