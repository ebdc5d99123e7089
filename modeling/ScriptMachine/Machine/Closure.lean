import ScriptMachine.Machine.Error

/-!
# Function objects

A closure pairs the node of a function with the scope it was made in. Entering a body declares what
the body hoists before any statement runs.
-/

namespace ScriptMachine.Machine

open Exec

/-- The function a closure was made from. -/
def functionNode (h : Heap) (node : NodeRef) : Except Failure Tree.FunctionNode := do
  match ← Heap.nodeKind (← h.program node.program) node.node with
  | .functionDeclaration f => return f
  | .functionExpression f => return f
  | _ => throw (.fault .notAFunctionNode)

/-- The function object of a closure, before it has a prototype property. -/
def closureObject (node : NodeRef) (scope : ScopeId) (f : Tree.FunctionNode) (proto : ObjectId)
    (owner : Option Owner) : Object :=
  let o : Object :=
    { owner, proto := some proto, cls := .function, function := some (.closure node scope) }
  (o.put "length" (.frozen (.nat (f.params.length % 4294967296)))).put "name"
    (.frozen (.string (f.name.getD "")))

/-- Makes a closure together with the object that instances it constructs inherit from. -/
def createClosure (node : NodeRef) (scope : ScopeId) (owner : Option Owner) : Exec ObjectId := do
  let f ← heapQuery fun h => functionNode h node
  let functionProto ← builtinObject "Function.prototype"
  let func ← alloc (closureObject node scope f functionProto owner)
  let proto ← createPlainObject owner
  modifyObject proto fun o => o.put "constructor" (.hidden (.object func))
  modifyObject func fun o => o.put "prototype" (.length (.object proto))
  return func

/-- Declares variables that a scope does not bind yet. -/
def hoistVars (scope : ScopeId) : List String → Exec Unit
  | [] => return
  | name :: rest => do
    if !(← bindsLocally scope name) then declare scope name .undefined true
    hoistVars scope rest

/-- Binds function declarations, over variables and earlier functions of the same name. -/
def hoistFunctions (program : ProgramId) (scope : ScopeId) (owner : Option Owner) :
    List Tree.NodeId → Exec Unit
  | [] => return
  | node :: rest => do
    let f ← heapQuery fun h => functionNode h ⟨program, node⟩
    match f.name with
    | none => throw (.fault .namelessDeclaration)
    | some name =>
      let func ← createClosure ⟨program, node⟩ scope owner
      if ← bindsLocally scope name then
        match ← resolveBinding scope name with
        | some target => writeBinding target name (.object func)
        | none => throw (.fault .hoistedVanished)
      else declare scope name (.object func) true
      hoistFunctions program scope owner rest

/-- Declares what a body hoists. -/
def hoist (hoisted : Tree.Hoisted) (program : ProgramId) (scope : ScopeId) : Exec Unit := do
  hoistVars scope hoisted.vars
  let owner ← scopeOwner scope
  let _ ← heapQuery (·.program program)
  hoistFunctions program scope owner hoisted.functions

/-- The object behind the name `arguments` in a body. -/
def createArguments (args : List Value) (owner : Option Owner) : Exec ObjectId := do
  let proto ← builtinObject "Object.prototype"
  let o : Object := { owner, proto := some proto, cls := .arguments }
  alloc ((o.putItems 0 args).put "length" (.hidden (.nat (args.length % 4294967296))))

/-- Declares parameters with the arguments given; missing ones are undefined. -/
def declareParams (scope : ScopeId) : List String → List Value → Exec Unit
  | [], _ => return
  | name :: rest, args => do
    declare scope name (args.headD .undefined) true
    declareParams scope rest args.tail

end ScriptMachine.Machine
