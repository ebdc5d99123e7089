import ScriptMachine.Failure
import ScriptMachine.Heap.Object
import ScriptMachine.Heap.Scope

/-!
# The heap

Objects, scopes and programs live in three arenas of slots and are named by the index of their
slot. A freed slot is reused by a later allocation, the one freed last first; slots of programs are
not reused.
-/

namespace ScriptMachine

structure Heap where
  objects : Array (Option Object) := #[]
  scopes : Array (Option Scope) := #[]
  programs : Array (Option Tree.Program) := #[]
  /-- Free slots, the one freed last in front. -/
  freeObjects : List Nat := []
  freeScopes : List Nat := []
  allocsSinceGc : Nat := 0
  gcThreshold : Nat := 0
  /-- Tells this heap from the ones it replaced. -/
  serial : Nat := 0
  /-- The objects held by guards, once for each pin. -/
  pins : List ObjectId := []

namespace Heap

/-- Enough allocations happened since the last collection. -/
def shouldCollect (h : Heap) : Bool :=
  h.gcThreshold > 0 && h.allocsSinceGc ≥ h.gcThreshold

def allocObject (h : Heap) (o : Object) : ObjectId × Heap :=
  let h := { h with allocsSinceGc := h.allocsSinceGc + 1 }
  match h.freeObjects with
  | i :: rest => (⟨i⟩, { h with objects := h.objects.setIfInBounds i (some o), freeObjects := rest })
  | [] => (⟨h.objects.size⟩, { h with objects := h.objects.push (some o) })

def allocScope (h : Heap) (s : Scope) : ScopeId × Heap :=
  let h := { h with allocsSinceGc := h.allocsSinceGc + 1 }
  match h.freeScopes with
  | i :: rest => (⟨i⟩, { h with scopes := h.scopes.setIfInBounds i (some s), freeScopes := rest })
  | [] => (⟨h.scopes.size⟩, { h with scopes := h.scopes.push (some s) })

def addProgram (h : Heap) (p : Tree.Program) : ProgramId × Heap :=
  (⟨h.programs.size⟩, { h with programs := h.programs.push (some p) })

def object? (h : Heap) (id : ObjectId) : Option Object :=
  h.objects[id.index]?.join

def scope? (h : Heap) (id : ScopeId) : Option Scope :=
  h.scopes[id.index]?.join

def program? (h : Heap) (id : ProgramId) : Option Tree.Program :=
  h.programs[id.index]?.join

/-- The object of a handle, or a fault when its slot is free. -/
def object (h : Heap) (id : ObjectId) : Except Failure Object :=
  match h.object? id with
  | some o => .ok o
  | none => .error (.fault (.danglingObject id))

def scope (h : Heap) (id : ScopeId) : Except Failure Scope :=
  match h.scope? id with
  | some s => .ok s
  | none => .error (.fault (.danglingScope id))

def program (h : Heap) (id : ProgramId) : Except Failure Tree.Program :=
  match h.program? id with
  | some p => .ok p
  | none => .error (.fault (.danglingProgram id))

/-- The kind of a node, or a fault when the program has no such node. -/
def nodeKind (p : Tree.Program) (id : Tree.NodeId) : Except Failure Tree.NodeKind :=
  match p.kind? id with
  | some k => .ok k
  | none => .error (.fault (.nodeOutOfRange id))

/-- Changes a live object; a free slot stays free. -/
def modifyObject (h : Heap) (id : ObjectId) (f : Object → Object) : Heap :=
  { h with objects := h.objects.modify id.index (Option.map f) }

/-- Changes a live scope; a free slot stays free. -/
def modifyScope (h : Heap) (id : ScopeId) (f : Scope → Scope) : Heap :=
  { h with scopes := h.scopes.modify id.index (Option.map f) }

/-- Handles of all live objects, in the order of their slots. -/
def objectIds (h : Heap) : List ObjectId :=
  ((List.range h.objects.size).filter fun i => h.objects[i]?.join.isSome).map ObjectId.mk

/-- How many slots of an arena are in use. -/
def liveCount {α : Type} (arena : Array (Option α)) : Nat :=
  arena.foldl (fun n slot => if slot.isSome then n + 1 else n) 0

structure Stats where
  liveObjects : Nat
  liveScopes : Nat
  livePrograms : Nat
  freeSlots : Nat
  allocsSinceGc : Nat
  gcThreshold : Nat

def stats (h : Heap) : Stats where
  liveObjects := liveCount h.objects
  liveScopes := liveCount h.scopes
  livePrograms := liveCount h.programs
  freeSlots := h.freeObjects.length + h.freeScopes.length
  allocsSinceGc := h.allocsSinceGc
  gcThreshold := h.gcThreshold

/-! ## Walks along chains

A chain of prototypes or scopes has no more links than the arena has slots, unless it is cyclic;
a walk therefore takes at most that many steps. -/

/-- The first own property with a name along the prototype chain. -/
def lookupFrom (h : Heap) (key : String) : Nat → ObjectId → Except Failure (Option Property)
  | 0, _ => .ok none
  | fuel + 1, id => do
    let o ← h.object id
    match o.properties.get? key with
    | some p => return some p
    | none =>
      match o.proto with
      | some next => lookupFrom h key fuel next
      | none => return none

def lookup (h : Heap) (id : ObjectId) (key : String) : Except Failure (Option Property) :=
  h.lookupFrom key (h.objects.size + 1) id

/-- The nearest scope along the chain that binds a name. -/
def resolveFrom (h : Heap) (name : String) : Nat → ScopeId → Except Failure (Option ScopeId)
  | 0, _ => .ok none
  | fuel + 1, id => do
    let s ← h.scope id
    if s.bindings.contains name then return some id
    match s.outer with
    | some next => resolveFrom h name fuel next
    | none => return none

def resolve (h : Heap) (id : ScopeId) (name : String) : Except Failure (Option ScopeId) :=
  h.resolveFrom name (h.scopes.size + 1) id

/-- The scope that receives the declarations made in a scope. -/
def declarationTargetFrom (h : Heap) : Nat → ScopeId → Except Failure ScopeId
  | 0, id => .ok id
  | fuel + 1, id => do
    let s ← h.scope id
    match s.kind, s.outer with
    | .dummy, some next => declarationTargetFrom h fuel next
    | _, _ => return id

def declarationTarget (h : Heap) (id : ScopeId) : Except Failure ScopeId :=
  h.declarationTargetFrom (h.scopes.size + 1) id

end Heap

end ScriptMachine
