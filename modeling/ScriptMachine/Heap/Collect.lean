import ScriptMachine.Heap.Basic

/-!
# Collection

Marking follows the handles in objects and scopes from a list of roots; sweeping frees every slot
that was not marked, in the order of the slots.
-/

namespace ScriptMachine

/-- The handles something holds. -/
structure Roots where
  objects : List ObjectId := []
  scopes : List ScopeId := []
  programs : List ProgramId := []

namespace Roots

def append (a b : Roots) : Roots :=
  ⟨a.objects ++ b.objects, a.scopes ++ b.scopes, a.programs ++ b.programs⟩

instance : Append Roots := ⟨append⟩

def ofValue (v : Value) : Roots := { objects := v.object?.toList }

def ofValues (vs : List Value) : Roots := { objects := vs.filterMap Value.object? }

end Roots

/-- The handles of an object: those in its fields, and the scope and program of a closure. -/
def Object.roots (o : Object) : Roots :=
  match o.function with
  | some (.closure node scope) => ⟨o.objectEdges, [scope], [node.program]⟩
  | _ => ⟨o.objectEdges, [], []⟩

/-- The handles of a scope. -/
def Scope.roots (s : Scope) : Roots :=
  ⟨s.objectEdges, s.outer.toList, []⟩

/-- The slots reached so far, and those among them whose handles are still to be followed. -/
structure Marker where
  objects : Array Bool
  scopes : Array Bool
  programs : Array Bool
  pendingObjects : List ObjectId := []
  pendingScopes : List ScopeId := []

namespace Marker

def markObject (m : Marker) (id : ObjectId) : Marker :=
  match m.objects[id.index]? with
  | some false =>
    { m with
      objects := m.objects.setIfInBounds id.index true
      pendingObjects := id :: m.pendingObjects }
  | _ => m

def markScope (m : Marker) (id : ScopeId) : Marker :=
  match m.scopes[id.index]? with
  | some false =>
    { m with
      scopes := m.scopes.setIfInBounds id.index true
      pendingScopes := id :: m.pendingScopes }
  | _ => m

def markProgram (m : Marker) (id : ProgramId) : Marker :=
  { m with programs := m.programs.setIfInBounds id.index true }

def mark (m : Marker) (r : Roots) : Marker :=
  r.programs.foldl markProgram (r.scopes.foldl markScope (r.objects.foldl markObject m))

/-- Follows pending slots, at most `fuel` of them. -/
def trace (h : Heap) : Nat → Marker → Marker
  | 0, m => m
  | fuel + 1, m =>
    match m.pendingObjects with
    | id :: rest =>
      let m := { m with pendingObjects := rest }
      match h.object? id with
      | some o => trace h fuel (m.mark o.roots)
      | none => trace h fuel m
    | [] =>
      match m.pendingScopes with
      | id :: rest =>
        let m := { m with pendingScopes := rest }
        match h.scope? id with
        | some s => trace h fuel (m.mark s.roots)
        | none => trace h fuel m
      | [] => m

end Marker

namespace Heap

/-- Everything reachable from the roots and the pins. Each slot is followed once. -/
def reached (h : Heap) (roots : Roots) : Marker :=
  let start : Marker :=
    ⟨Array.replicate h.objects.size false, Array.replicate h.scopes.size false,
     Array.replicate h.programs.size false, [], []⟩
  Marker.trace h (h.objects.size + h.scopes.size + 1)
    ((start.mark roots).mark { objects := h.pins })

/-- Frees the slots that are in use and not marked: the arena, the free list and the number of
slots freed. -/
def sweep {α : Type} (arena : Array (Option α)) (marked : Array Bool) (free : List Nat) :
    Array (Option α) × List Nat × Nat :=
  (List.range arena.size).foldl (fun (arena, free, count) i =>
    match arena[i]?, marked[i]? with
    | some (some _), some false => (arena.setIfInBounds i none, i :: free, count + 1)
    | _, _ => (arena, free, count)) (arena, free, 0)

/-- Frees everything not reachable; the count is that of objects and scopes freed. -/
def collect (h : Heap) (roots : Roots) : Nat × Heap :=
  let m := h.reached roots
  let (objects, freeObjects, objectCount) := sweep h.objects m.objects h.freeObjects
  let (scopes, freeScopes, scopeCount) := sweep h.scopes m.scopes h.freeScopes
  let programs := h.programs.mapIdx fun i p => if m.programs[i]? == some true then p else none
  (objectCount + scopeCount,
    { h with objects, freeObjects, scopes, freeScopes, programs, allocsSinceGc := 0 })

end Heap

end ScriptMachine
