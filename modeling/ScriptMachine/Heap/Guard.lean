import ScriptMachine.Heap.Basic

/-!
# Guards

A guard keeps objects alive that only the host knows. It belongs to the heap it was made from;
once that heap has been replaced it pins nothing any more.
-/

namespace ScriptMachine

structure Guard where
  /-- The serial of the heap the guard belongs to. -/
  heap : Nat
  held : List ObjectId := []

namespace Heap

def newGuard (h : Heap) : Guard := ⟨h.serial, []⟩

/-- Pins an object. Tells whether it was pinned: only objects are, and only in the guard's own
heap. -/
def pin (h : Heap) (g : Guard) (v : Value) : Bool × Guard × Heap :=
  match v with
  | .object id =>
    if g.heap = h.serial then
      (true, { g with held := g.held ++ [id] }, { h with pins := id :: h.pins })
    else (false, g, h)
  | _ => (false, g, h)

/-- Gives up pins in the heap. -/
def release (h : Heap) (g : Guard) (ids : List ObjectId) : Heap :=
  if g.heap = h.serial then { h with pins := ids.foldl List.erase h.pins } else h

/-- Releases one pin of an object. Tells whether the guard held it. -/
def unpin (h : Heap) (g : Guard) (v : Value) : Bool × Guard × Heap :=
  match v with
  | .object id =>
    if g.held.contains id then (true, { g with held := g.held.erase id }, h.release g [id])
    else (false, g, h)
  | _ => (false, g, h)

/-- Releases every pin of a guard. -/
def clearGuard (h : Heap) (g : Guard) : Guard × Heap :=
  ({ g with held := [] }, h.release g g.held)

end Heap

end ScriptMachine
