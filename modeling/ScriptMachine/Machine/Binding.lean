import ScriptMachine.Machine.Basic

/-!
# Bindings

Names are resolved along the chain of scopes. A name is declared once in a scope; assigning to a
name that is bound nowhere, or that is constant, is an error of the program.
-/

namespace ScriptMachine.Machine

open Exec

def allocScope (s : Scope) : Exec ScopeId := modifyGet fun m =>
  let (id, heap) := m.heap.allocScope s
  (id, { m with heap })

/-- A new scope; without a receiver of its own it has that of the scope around it. -/
def newScope (kind : ScopeKind) (outer : Option ScopeId) (owner : Option Owner)
    (receiver : Option Value) : Exec ScopeId := do
  let receiver ←
    match receiver, outer with
    | some v, _ => pure v
    | none, some id => do pure (← heapQuery (·.scope id)).receiver
    | none, none => pure .undefined
  allocScope { kind, owner, outer, receiver }

def resolveBinding (scope : ScopeId) (name : String) : Exec (Option ScopeId) :=
  heapQuery (·.resolve scope name)

/-- The value of a name in the very scope that binds it. -/
def readBinding (scope : ScopeId) (name : String) : Exec Value := heapQuery fun h => do
  match (← h.scope scope).bindings.get? name with
  | some b => return b.value
  | none => throw (.referenceError name)

def getBinding (scope : ScopeId) (name : String) : Exec Value := do
  match ← resolveBinding scope name with
  | some found => readBinding found name
  | none => throw (.referenceError name)

/-- Assigns a name in the very scope that binds it. -/
def writeBinding (scope : ScopeId) (name : String) (value : Value) : Exec Unit := do
  match (← heapQuery (·.scope scope)).bindings.get? name with
  | none => throw (.referenceError name)
  | some b =>
    if !b.mutable then
      throw (.typeError ("Assignment to constant variable '" ++ name ++ "'"))
    modifyHeap (·.modifyScope scope fun s =>
      { s with bindings := s.bindings.modify name fun b => { b with value } })

def setBinding (scope : ScopeId) (name : String) (value : Value) : Exec Unit := do
  match ← resolveBinding scope name with
  | some found => writeBinding found name value
  | none => throw (.referenceError name)

/-- Declares a name that the scope does not bind yet. -/
def declare (scope : ScopeId) (name : String) (value : Value) (mutable : Bool) : Exec Unit := do
  let target ← heapQuery (·.declarationTarget scope)
  if (← heapQuery (·.scope target)).bindings.contains name then
    throw (.fault (.alreadyDeclared name))
  modifyHeap (·.modifyScope target fun s => s.bind name value mutable)

/-- Whether a scope itself binds a name. -/
def bindsLocally (scope : ScopeId) (name : String) : Exec Bool := heapQuery fun h => do
  let target ← h.declarationTarget scope
  return (← h.scope target).bindings.contains name

def scopeOwner (scope : ScopeId) : Exec (Option Owner) := heapQuery fun h =>
  return (← h.scope scope).owner

def scopeReceiver (scope : ScopeId) : Exec Value := heapQuery fun h =>
  return (← h.scope scope).receiver

def setScopeOwner (scope : ScopeId) (owner : Owner) : Exec Unit := do
  let _ ← heapQuery (·.scope scope)
  modifyHeap (·.modifyScope scope fun s => { s with owner := some owner })

/-- The value of a global name, if it is bound. -/
def global? (m : Machine) (name : String) : Option Value :=
  (m.heap.scope? m.globalScope).bind fun s => (s.bindings.get? name).map (·.value)

/-- Assigns a global name and declares it if needed. -/
def setGlobal (name : String) (value : Value) : Exec Unit := do
  let scope := (← get).globalScope
  if ← bindsLocally scope name then writeBinding scope name value
  else declare scope name value true

end ScriptMachine.Machine
