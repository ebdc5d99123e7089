import ScriptMachine.Heap.Collect

/-!
# Slots

An arena is tidy when its free list names every empty slot once. An allocation on a tidy heap then
takes a slot that held nothing, and every live slot keeps its contents.
-/

namespace ScriptMachine

/-- The free list names exactly the empty slots, each once. -/
def TidyArena {α : Type} (arena : Array (Option α)) (free : List Nat) : Prop :=
  free.Nodup ∧ ∀ i, i ∈ free ↔ arena[i]? = some none

namespace TidyArena

variable {α : Type} {arena : Array (Option α)} {free : List Nat}

theorem push (h : TidyArena arena free) (a : α) : TidyArena (arena.push (some a)) free := by
  refine ⟨h.1, fun i => ?_⟩
  rw [h.2, Array.getElem?_push]
  split
  · rename_i hi
    subst hi
    simp
  · rfl

theorem set {i : Nat} (h : TidyArena arena (i :: free)) (a : α) :
    TidyArena (arena.setIfInBounds i (some a)) free := by
  obtain ⟨hnotin, hnodup⟩ := List.nodup_cons.1 h.1
  refine ⟨hnodup, fun j => ?_⟩
  rw [Array.getElem?_setIfInBounds]
  split
  · rename_i hij
    subst hij
    split
    · simpa using hnotin
    · rename_i hbound
      have hmem : arena[i]? = some none := (h.2 i).1 (by simp)
      rw [Array.getElem?_eq_none (Nat.le_of_not_lt hbound)] at hmem
      cases hmem
  · rename_i hij
    rw [← h.2 j, List.mem_cons]
    exact ⟨.inr, fun hj => hj.resolve_left fun heq => hij heq.symm⟩

theorem modify (h : TidyArena arena free) (i : Nat) (f : α → α) :
    TidyArena (arena.modify i (Option.map f)) free := by
  refine ⟨h.1, fun j => ?_⟩
  rw [h.2, Array.getElem?_modify]
  split
  · cases arena[j]? with
    | none => simp
    | some slot => cases slot <;> simp
  · rfl

/-- A slot in use is freed. -/
theorem release {i : Nat} {a : α} (h : TidyArena arena free) (ha : arena[i]? = some (some a)) :
    TidyArena (arena.setIfInBounds i none) (i :: free) := by
  have hbound : i < arena.size := (Array.getElem?_eq_some_iff.1 ha).1
  have hnotin : i ∉ free := by
    rw [h.2, ha]
    exact fun heq => by cases heq
  refine ⟨List.nodup_cons.2 ⟨hnotin, h.1⟩, fun j => ?_⟩
  rw [List.mem_cons, Array.getElem?_setIfInBounds]
  split
  · rename_i hij
    simp [hij]
  · rename_i hij
    rw [h.2 j]
    exact ⟨fun hj => hj.resolve_left fun heq => hij heq.symm, .inr⟩

end TidyArena

namespace Heap

/-- The free lists of a heap name its empty slots. -/
structure Tidy (h : Heap) : Prop where
  objects : TidyArena h.objects h.freeObjects
  scopes : TidyArena h.scopes h.freeScopes

/-! ## Allocation -/

theorem object?_eq_some_iff {h : Heap} {id : ObjectId} {o : Object} :
    h.object? id = some o ↔ h.objects[id.index]? = some (some o) := by
  unfold object?
  cases h.objects[id.index]? with
  | none => simp
  | some slot => cases slot <;> simp

theorem scope?_eq_some_iff {h : Heap} {id : ScopeId} {s : Scope} :
    h.scope? id = some s ↔ h.scopes[id.index]? = some (some s) := by
  unfold scope?
  cases h.scopes[id.index]? with
  | none => simp
  | some slot => cases slot <;> simp

theorem object_eq_ok_iff {h : Heap} {id : ObjectId} {o : Object} :
    h.object id = .ok o ↔ h.object? id = some o := by
  unfold object
  cases h.object? id <;> simp

theorem scope_eq_ok_iff {h : Heap} {id : ScopeId} {s : Scope} :
    h.scope id = .ok s ↔ h.scope? id = some s := by
  unfold scope
  cases h.scope? id <;> simp

theorem program_eq_ok_iff {h : Heap} {id : ProgramId} {p : Tree.Program} :
    h.program id = .ok p ↔ h.program? id = some p := by
  unfold program
  cases h.program? id <;> simp

/-- An allocation takes an empty slot. -/
theorem Tidy.allocScope_fresh {h : Heap} (ht : h.Tidy) (s : Scope) :
    h.scope? (h.allocScope s).1 = none := by
  unfold Heap.allocScope scope?
  dsimp only
  cases hfree : h.freeScopes with
  | nil => simp
  | cons i rest =>
    have hslot := (ht.scopes.2 i).1 (by simp [hfree])
    simp [hslot]

theorem Tidy.allocScope_self {h : Heap} (ht : h.Tidy) (s : Scope) :
    (h.allocScope s).2.scope? (h.allocScope s).1 = some s := by
  rw [scope?_eq_some_iff]
  unfold Heap.allocScope
  dsimp only
  cases hfree : h.freeScopes with
  | nil => simp
  | cons i rest =>
    have hslot := (ht.scopes.2 i).1 (by simp [hfree])
    obtain ⟨hbound, -⟩ := Array.getElem?_eq_some_iff.1 hslot
    simp [hbound]

/-- A live scope keeps its contents when another one is allocated. -/
theorem Tidy.allocScope_of_live {h : Heap} (ht : h.Tidy) (s : Scope) {id : ScopeId} {t : Scope}
    (hlive : h.scope? id = some t) : (h.allocScope s).2.scope? id = some t := by
  rw [scope?_eq_some_iff] at hlive ⊢
  unfold Heap.allocScope
  dsimp only
  cases hfree : h.freeScopes with
  | nil =>
    obtain ⟨hbound, -⟩ := Array.getElem?_eq_some_iff.1 hlive
    simpa [Array.getElem?_push, Nat.ne_of_lt hbound] using hlive
  | cons i rest =>
    have hslot := (ht.scopes.2 i).1 (by simp [hfree])
    have hne : i ≠ id.index := by
      rintro rfl
      rw [hlive] at hslot
      cases hslot
    simpa [Array.getElem?_setIfInBounds, hne] using hlive

theorem Tidy.allocObject_fresh {h : Heap} (ht : h.Tidy) (o : Object) :
    h.object? (h.allocObject o).1 = none := by
  unfold Heap.allocObject object?
  dsimp only
  cases hfree : h.freeObjects with
  | nil => simp
  | cons i rest =>
    have hslot := (ht.objects.2 i).1 (by simp [hfree])
    simp [hslot]

theorem Tidy.allocObject_self {h : Heap} (ht : h.Tidy) (o : Object) :
    (h.allocObject o).2.object? (h.allocObject o).1 = some o := by
  rw [object?_eq_some_iff]
  unfold Heap.allocObject
  dsimp only
  cases hfree : h.freeObjects with
  | nil => simp
  | cons i rest =>
    have hslot := (ht.objects.2 i).1 (by simp [hfree])
    obtain ⟨hbound, -⟩ := Array.getElem?_eq_some_iff.1 hslot
    simp [hbound]

theorem Tidy.allocObject_of_live {h : Heap} (ht : h.Tidy) (o : Object) {id : ObjectId}
    {p : Object} (hlive : h.object? id = some p) :
    (h.allocObject o).2.object? id = some p := by
  rw [object?_eq_some_iff] at hlive ⊢
  unfold Heap.allocObject
  dsimp only
  cases hfree : h.freeObjects with
  | nil =>
    obtain ⟨hbound, -⟩ := Array.getElem?_eq_some_iff.1 hlive
    simpa [Array.getElem?_push, Nat.ne_of_lt hbound] using hlive
  | cons i rest =>
    have hslot := (ht.objects.2 i).1 (by simp [hfree])
    have hne : i ≠ id.index := by
      rintro rfl
      rw [hlive] at hslot
      cases hslot
    simpa [Array.getElem?_setIfInBounds, hne] using hlive

@[simp] theorem scope?_allocObject (h : Heap) (o : Object) (id : ScopeId) :
    (h.allocObject o).2.scope? id = h.scope? id := by
  unfold allocObject scope?
  cases h.freeObjects <;> rfl

@[simp] theorem object?_allocScope (h : Heap) (s : Scope) (id : ObjectId) :
    (h.allocScope s).2.object? id = h.object? id := by
  unfold allocScope object?
  cases h.freeScopes <;> rfl

theorem scope?_modifyScope (h : Heap) (id : ScopeId) (f : Scope → Scope) (other : ScopeId) :
    (h.modifyScope id f).scope? other =
      if id.index = other.index then (h.scope? other).map f else h.scope? other := by
  unfold modifyScope scope?
  dsimp only
  rw [Array.getElem?_modify]
  split
  · cases h.scopes[other.index]? with
    | none => rfl
    | some slot => cases slot <;> rfl
  · rfl

theorem object?_modifyObject (h : Heap) (id : ObjectId) (f : Object → Object)
    (other : ObjectId) : (h.modifyObject id f).object? other =
      if id.index = other.index then (h.object? other).map f else h.object? other := by
  unfold modifyObject object?
  dsimp only
  rw [Array.getElem?_modify]
  split
  · cases h.objects[other.index]? with
    | none => rfl
    | some slot => cases slot <;> rfl
  · rfl

/-! ## Tidiness is kept -/

theorem Tidy.allocObject {h : Heap} (ht : h.Tidy) (o : Object) : (h.allocObject o).2.Tidy := by
  have hobjects := ht.objects
  unfold Heap.allocObject
  dsimp only
  split
  · rename_i i rest hfree
    rw [hfree] at hobjects
    exact ⟨hobjects.set o, ht.scopes⟩
  · exact ⟨hobjects.push o, ht.scopes⟩

theorem Tidy.allocScope {h : Heap} (ht : h.Tidy) (s : Scope) : (h.allocScope s).2.Tidy := by
  have hscopes := ht.scopes
  unfold Heap.allocScope
  dsimp only
  split
  · rename_i i rest hfree
    rw [hfree] at hscopes
    exact ⟨ht.objects, hscopes.set s⟩
  · exact ⟨ht.objects, hscopes.push s⟩

theorem Tidy.modifyObject {h : Heap} (ht : h.Tidy) (id : ObjectId) (f : Object → Object) :
    (h.modifyObject id f).Tidy :=
  ⟨ht.objects.modify id.index f, ht.scopes⟩

theorem Tidy.modifyScope {h : Heap} (ht : h.Tidy) (id : ScopeId) (f : Scope → Scope) :
    (h.modifyScope id f).Tidy :=
  ⟨ht.objects, ht.scopes.modify id.index f⟩

theorem Tidy.addProgram {h : Heap} (ht : h.Tidy) (p : Tree.Program) : (h.addProgram p).2.Tidy :=
  ⟨ht.objects, ht.scopes⟩

end Heap

end ScriptMachine
