import Mathlib
import ScriptMachine.Heap.Guard
import ScriptMachine.Proofs.Reached

/-!
# What a heap keeps

A heap is used by allocating, writing, collecting and pinning. Whatever is done with it, a
collection keeps what can be reached from the given roots and the guarded objects and nothing else,
the free lists name the empty slots, and an object is pinned once for each time a guard holds it.
-/

namespace ScriptMachine

/-! ## Edges -/

theorem Value.object?_eq_some_iff {v : Value} {id : ObjectId} :
    v.object? = some id ↔ v = .object id := by
  cases v <;> simp [Value.object?]

namespace Heap

/-- The slot of one handle holds another one. -/
inductive Edge (h : Heap) : Handle → Handle → Prop
  | owner {id : ObjectId} {o : Object} {owner : Owner} (ho : h.object? id = some o)
      (howner : o.owner = some owner) : Edge h (.object id) (.object owner)
  | proto {id next : ObjectId} {o : Object} (ho : h.object? id = some o)
      (hproto : o.proto = some next) : Edge h (.object id) (.object next)
  | property {id target : ObjectId} {o : Object} {key : String} {p : Property}
      (ho : h.object? id = some o) (hp : o.properties.get? key = some p)
      (hvalue : p.value = .object target) : Edge h (.object id) (.object target)
  | closureScope {id : ObjectId} {o : Object} {node : NodeRef} {scope : ScopeId}
      (ho : h.object? id = some o) (hf : o.function = some (.closure node scope)) :
      Edge h (.object id) (.scope scope)
  | closureProgram {id : ObjectId} {o : Object} {node : NodeRef} {scope : ScopeId}
      (ho : h.object? id = some o) (hf : o.function = some (.closure node scope)) :
      Edge h (.object id) (.program node.program)
  | boundTarget {id target : ObjectId} {o : Object} {receiver : Value} {args : List Value}
      (ho : h.object? id = some o) (hf : o.function = some (.bound target receiver args)) :
      Edge h (.object id) (.object target)
  | boundValue {id target held : ObjectId} {o : Object} {receiver : Value} {args : List Value}
      (ho : h.object? id = some o) (hf : o.function = some (.bound target receiver args))
      (hheld : .object held ∈ receiver :: args) : Edge h (.object id) (.object held)
  | scopeOwner {id : ScopeId} {s : Scope} {owner : Owner} (hs : h.scope? id = some s)
      (howner : s.owner = some owner) : Edge h (.scope id) (.object owner)
  | outer {id next : ScopeId} {s : Scope} (hs : h.scope? id = some s)
      (houter : s.outer = some next) : Edge h (.scope id) (.scope next)
  | receiver {id : ScopeId} {target : ObjectId} {s : Scope} (hs : h.scope? id = some s)
      (hreceiver : s.receiver = .object target) : Edge h (.scope id) (.object target)
  | binding {id : ScopeId} {target : ObjectId} {s : Scope} {name : String} {b : Binding}
      (hs : h.scope? id = some s) (hb : s.bindings.get? name = some b)
      (hvalue : b.value = .object target) : Edge h (.scope id) (.object target)

theorem mem_objects_iff {α : Type} {t : Table α} {value : α → Value} {target : ObjectId} :
    target ∈ t.values.filterMap (fun a => (value a).object?) ↔
      ∃ key a, t.get? key = some a ∧ value a = .object target := by
  simp only [List.mem_filterMap, Table.values, List.mem_map, Table.get?_eq_some_iff,
    Value.object?_eq_some_iff]
  constructor
  · rintro ⟨-, ⟨⟨key, a⟩, hmem, rfl⟩, ha⟩
    exact ⟨key, a, hmem, ha⟩
  · rintro ⟨key, a, hmem, ha⟩
    exact ⟨a, ⟨(key, a), hmem, rfl⟩, ha⟩

variable {h : Heap}

theorem Edge.of_object {id : ObjectId} {o : Object} (ho : h.object? id = some o) {y : Handle}
    (hedge : h.Edge (.object id) y) : o.roots.Holds y := by
  have hobject {other : Object} (hother : h.object? id = some other) : other = o :=
    Option.some.inj (hother.symm.trans ho)
  unfold Object.roots
  cases hedge with
  | owner ho' howner =>
    obtain rfl := hobject ho'
    split <;> simp [Roots.Holds, Object.objectEdges, howner]
  | proto ho' hproto =>
    obtain rfl := hobject ho'
    split <;> simp [Roots.Holds, Object.objectEdges, hproto]
  | property ho' hp hvalue =>
    obtain rfl := hobject ho'
    have hmem := mem_objects_iff.2 ⟨_, _, hp, hvalue⟩
    split <;> simp [Roots.Holds, Object.objectEdges, hmem]
  | closureScope ho' hf =>
    obtain rfl := hobject ho'
    simp [Roots.Holds, hf]
  | closureProgram ho' hf =>
    obtain rfl := hobject ho'
    simp [Roots.Holds, hf]
  | boundTarget ho' hf =>
    obtain rfl := hobject ho'
    simp [Roots.Holds, Object.objectEdges, hf]
  | boundValue ho' hf hheld =>
    obtain rfl := hobject ho'
    have hmem := List.mem_filterMap.2 ⟨_, hheld, Value.object?_eq_some_iff.2 rfl⟩
    simp [Roots.Holds, Object.objectEdges, hf, hmem]

theorem edge_of_mem_objectEdges {id target : ObjectId} {o : Object} (ho : h.object? id = some o)
    (htarget : target ∈ o.objectEdges) : h.Edge (.object id) (.object target) := by
  unfold Object.objectEdges at htarget
  simp only [List.mem_append, Option.mem_toList] at htarget
  rcases htarget with ((howner | hproto) | hproperty) | hfunction
  · exact .owner ho howner
  · exact .proto ho hproto
  · obtain ⟨key, p, hp, hvalue⟩ := mem_objects_iff.1 hproperty
    exact .property ho hp hvalue
  · split at hfunction
    · rename_i bound receiver args hf
      rcases List.mem_cons.1 hfunction with rfl | hheld
      · exact .boundTarget ho hf
      · obtain ⟨v, hv, hobject⟩ := List.mem_filterMap.1 hheld
        exact .boundValue ho hf (Value.object?_eq_some_iff.1 hobject ▸ hv)
    · cases hfunction

theorem edge_of_object_roots {id : ObjectId} {o : Object} (ho : h.object? id = some o)
    {y : Handle} (hy : o.roots.Holds y) : h.Edge (.object id) y := by
  unfold Object.roots at hy
  split at hy
  · rename_i node scope hf
    cases y with
    | object target => exact edge_of_mem_objectEdges ho hy
    | scope other => exact List.mem_singleton.1 hy ▸ .closureScope ho hf
    | program other => exact List.mem_singleton.1 hy ▸ .closureProgram ho hf
  · cases y with
    | object target => exact edge_of_mem_objectEdges ho hy
    | scope other => cases hy
    | program other => cases hy

theorem Edge.of_scope {id : ScopeId} {s : Scope} (hs : h.scope? id = some s) {y : Handle}
    (hedge : h.Edge (.scope id) y) : s.roots.Holds y := by
  have hscope {other : Scope} (hother : h.scope? id = some other) : other = s :=
    Option.some.inj (hother.symm.trans hs)
  cases hedge with
  | scopeOwner hs' howner =>
    obtain rfl := hscope hs'
    simp [Roots.Holds, Scope.roots, Scope.objectEdges, howner]
  | outer hs' houter =>
    obtain rfl := hscope hs'
    simp [Roots.Holds, Scope.roots, houter]
  | receiver hs' hreceiver =>
    obtain rfl := hscope hs'
    simp [Roots.Holds, Scope.roots, Scope.objectEdges, hreceiver, Value.object?]
  | binding hs' hb hvalue =>
    obtain rfl := hscope hs'
    have hmem := mem_objects_iff.2 ⟨_, _, hb, hvalue⟩
    simp [Roots.Holds, Scope.roots, Scope.objectEdges, hmem]

theorem edge_of_scope_roots {id : ScopeId} {s : Scope} (hs : h.scope? id = some s) {y : Handle}
    (hy : s.roots.Holds y) : h.Edge (.scope id) y := by
  cases y with
  | object target =>
    change target ∈ s.objectEdges at hy
    simp only [Scope.objectEdges, List.mem_append, Option.mem_toList] at hy
    rcases hy with (howner | hreceiver) | hbinding
    · exact .scopeOwner hs howner
    · exact .receiver hs (Value.object?_eq_some_iff.1 hreceiver)
    · obtain ⟨name, b, hb, hvalue⟩ := mem_objects_iff.1 hbinding
      exact .binding hs hb hvalue
  | scope next => exact .outer hs (Option.mem_toList.1 hy)
  | program other => cases hy

/-- Marking follows the edges. -/
theorem edge_iff {x y : Handle} : h.Edge x y ↔ (h.held x).Holds y := by
  cases x with
  | object id =>
    cases ho : h.object? id with
    | none =>
      refine ⟨fun hedge => ?_, fun hy => ?_⟩
      · cases hedge <;> simp_all
      · simp [held, ho] at hy
    | some o =>
      rw [held_object ho]
      exact ⟨Edge.of_object ho, edge_of_object_roots ho⟩
  | scope id =>
    cases hs : h.scope? id with
    | none =>
      refine ⟨fun hedge => ?_, fun hy => ?_⟩
      · cases hedge <;> simp_all
      · simp [held, hs] at hy
    | some s =>
      rw [held_scope hs]
      exact ⟨Edge.of_scope hs, edge_of_scope_roots hs⟩
  | program id =>
    refine ⟨fun hedge => ?_, fun hy => absurd hy (Roots.holds_empty y)⟩
    cases hedge

/-- What edges lead to from some handles. -/
inductive Reaches (h : Heap) (start : Handle → Prop) : Handle → Prop
  | start {x : Handle} (hx : start x) : Reaches h start x
  | edge {x y : Handle} (hx : Reaches h start x) (hy : h.Edge x y) : Reaches h start y

theorem reaches_iff_traced {start : Handle → Prop} {roots : Roots}
    (hstart : ∀ x, start x ↔ roots.Holds x) {x : Handle} :
    h.Reaches start x ↔ h.Traced roots x := by
  constructor
  · intro hx
    induction hx with
    | start hx => exact .root ((hstart _).1 hx)
    | edge _ hy ih => exact ih.held (edge_iff.1 hy)
  · intro hx
    induction hx with
    | root hx => exact .start ((hstart _).2 hx)
    | held _ hy ih => exact ih.edge (edge_iff.2 hy)

/-! ## How much is freed -/

/-- The slots in use in an arena that are empty in another one. -/
def freedSlots {α : Type} (before after : Array (Option α)) : List Nat :=
  (List.range before.size).filter fun i => before[i]?.join.isSome && after[i]?.join.isNone

section Sweep

variable {α : Type} {arena : Array (Option α)} {marked : Array Bool} {free : List Nat}

open scoped Classical in
/-- A sweep counts the slots that it frees. -/
theorem count_foldl_sweepSlot (htidy : TidyArena arena free) (n : Nat) :
    ((List.range n).foldl (sweepSlot marked) (arena, free, 0)).2.2 =
      (List.range n).countP fun i => Swept arena marked i := by
  induction n with
  | zero => rfl
  | succ n ih =>
    obtain ⟨-, -, hkept⟩ : _ ∧ _ ∧ ∀ i, ¬ (i < n ∧ Swept arena marked i) → _ :=
      foldl_sweepSlot htidy n
    rw [List.range_succ, List.foldl_append, List.foldl_cons, List.foldl_nil, List.countP_append,
      ← ih]
    generalize (List.range n).foldl (sweepSlot marked) (arena, free, 0) = state at hkept ⊢
    obtain ⟨slots, free', count⟩ := state
    have hslot : slots[n]? = arena[n]? := hkept n fun h => Nat.lt_irrefl n h.1
    by_cases hn : Swept arena marked n
    · obtain ⟨⟨a, ha⟩, hmark⟩ := id hn
      simp [sweepSlot, hslot, ha, hmark, hn]
    · unfold sweepSlot
      split
      · rename_i a hget hmark
        exact absurd ⟨⟨a, hslot.symm.trans hget⟩, hmark⟩ hn
      · simp [hn]

theorem count_sweep (htidy : TidyArena arena free) : (sweep arena marked free).2.2 =
    (freedSlots arena (sweep arena marked free).1).length := by
  classical
  obtain ⟨-, hswept, hkept⟩ : _ ∧ (∀ i, Swept arena marked i → _) ∧ _ := sweep_spec htidy
  rw [freedSlots, ← List.countP_eq_length_filter, sweep_eq, count_foldl_sweepSlot htidy,
    ← sweep_eq]
  refine List.countP_congr fun i _ => ?_
  by_cases hi : Swept arena marked i
  · obtain ⟨⟨a, ha⟩, -⟩ := id hi
    simp [hi, hswept i hi, ha]
  · simp [hi, hkept i hi, Option.isSome_iff_ne_none]

end Sweep

theorem Tidy.count_collect (ht : h.Tidy) (roots : Roots) : (h.collect roots).1 =
    (freedSlots h.objects (h.collect roots).2.objects).length +
      (freedSlots h.scopes (h.collect roots).2.scopes).length :=
  congrArg₂ (· + ·) (count_sweep ht.objects) (count_sweep ht.scopes)

/-- A collection with some roots keeps what can be reached from where it starts, frees the rest and
tells how many objects and scopes that were. -/
structure CollectsExactly (h : Heap) (start : Handle → Prop) (roots : Roots) : Prop where
  inUse_iff : ∀ x, h.InUse x → ((h.collect roots).2.InUse x ↔ h.Reaches start x)
  object : ∀ id o, (h.collect roots).2.object? id = some o → h.object? id = some o
  scope : ∀ id s, (h.collect roots).2.scope? id = some s → h.scope? id = some s
  program : ∀ id t, (h.collect roots).2.program? id = some t → h.program? id = some t
  count : (h.collect roots).1 =
    (freedSlots h.objects (h.collect roots).2.objects).length +
      (freedSlots h.scopes (h.collect roots).2.scopes).length

theorem Tidy.collectsExactly (ht : h.Tidy) {start : Handle → Prop} {roots : Roots}
    (hstart : ∀ x, start x ↔ (roots ++ { objects := h.pins }).Holds x) :
    h.CollectsExactly start roots where
  inUse_iff x hx := by
    rw [ht.inUse_collect_iff hx, marks_iff_traced (inRange_of_inUse hx), reaches_iff_traced hstart]
  object _ _ ho := (ht.marks_of_object? ho).2
  scope _ _ hs := (ht.marks_of_scope? hs).2
  program _ _ hp := (marks_of_program? hp).2
  count := ht.count_collect roots

end Heap

/-! ## Guards -/

/-- A heap and the guards that its host keeps. -/
structure Guarded where
  heap : Heap
  guards : List Guard := []

/-- What is done with a heap. Guards are named by their place among those that are kept. -/
inductive HeapAction where
  | allocObject (o : Object)
  | allocScope (s : Scope)
  | addProgram (p : Tree.Program)
  | writeObject (id : ObjectId) (f : Object → Object)
  | writeScope (id : ScopeId) (f : Scope → Scope)
  | createGuard
  | guard (i : Nat) (v : Value)
  | unguard (i : Nat) (v : Value)
  | clear (i : Nat)
  | drop (i : Nat)
  | collect (roots : Roots)

namespace Guarded

/-- A heap that nothing was done with. -/
def new (threshold serial : Nat) : Guarded :=
  { heap := { gcThreshold := threshold, serial } }

/-- Changes a guard along with the heap. -/
def withGuard (s : Guarded) (i : Nat) (f : Guard → Guard × Heap) : Guarded :=
  match s.guards[i]? with
  | some g => ⟨(f g).2, s.guards.set i (f g).1⟩
  | none => s

def step (s : Guarded) : HeapAction → Guarded
  | .allocObject o => { s with heap := (s.heap.allocObject o).2 }
  | .allocScope scope => { s with heap := (s.heap.allocScope scope).2 }
  | .addProgram p => { s with heap := (s.heap.addProgram p).2 }
  | .writeObject id f => { s with heap := s.heap.modifyObject id f }
  | .writeScope id f => { s with heap := s.heap.modifyScope id f }
  | .createGuard => { s with guards := s.guards ++ [s.heap.newGuard] }
  | .guard i v => s.withGuard i fun g => (s.heap.pin g v).2
  | .unguard i v => s.withGuard i fun g => (s.heap.unpin g v).2
  | .clear i => s.withGuard i s.heap.clearGuard
  | .drop i =>
    let cleared := s.withGuard i s.heap.clearGuard
    { cleared with guards := cleared.guards.eraseIdx i }
  | .collect roots => { s with heap := (s.heap.collect roots).2 }

def run (s : Guarded) (actions : List HeapAction) : Guarded := actions.foldl step s

/-- What the guards are to hold, one after the other, by what is done. -/
def asked (held : List (List ObjectId)) : HeapAction → List (List ObjectId)
  | .createGuard => held ++ [[]]
  | .guard i (.object id) => held.modify i (· ++ [id])
  | .unguard i (.object id) => held.modify i (·.erase id)
  | .clear i => held.modify i fun _ => []
  | .drop i => held.eraseIdx i
  | _ => held

/-- How often the guards hold an object. -/
def pinCount (s : Guarded) (id : ObjectId) : Nat :=
  (s.guards.map fun g => g.held.count id).sum

/-- Where a collection with some roots starts: from the roots and the guarded objects. -/
def Anchors (held : List (List ObjectId)) (roots : Roots) (x : Handle) : Prop :=
  roots.Holds x ∨ ∃ ids ∈ held, ∃ id ∈ ids, x = .object id

/-- The guards are of this heap, and each of their holds is a pin. -/
structure Kept (s : Guarded) : Prop where
  tidy : s.heap.Tidy
  serial : ∀ g ∈ s.guards, g.heap = s.heap.serial
  pins : ∀ id, s.heap.pins.count id = s.pinCount id

variable {s : Guarded}

theorem kept_new (threshold serial : Nat) : (new threshold serial).Kept where
  tidy := ⟨⟨List.nodup_nil, fun i => by simp [new]⟩, ⟨List.nodup_nil, fun i => by simp [new]⟩⟩
  serial _ hg := by cases hg
  pins _ := rfl

/-- The heap changes and its pins do not. -/
theorem Kept.setHeap (hs : s.Kept) {heap : Heap} (htidy : heap.Tidy)
    (hserial : heap.serial = s.heap.serial) (hpins : heap.pins = s.heap.pins) :
    Kept { s with heap } where
  tidy := htidy
  serial g hg := (hs.serial g hg).trans hserial.symm
  pins id := (congrArg (List.count id) hpins).trans (hs.pins id)

/-! ## What guards hold -/

/-- A guard and a heap take the place of others: what the guard holds more or less often is pinned
as much more or less often. -/
structure Exchange (h : Heap) (g : Guard) (r : Guard × Heap) : Prop where
  tidy : h.Tidy → r.2.Tidy
  serial : r.2.serial = h.serial
  guard : r.1.heap = g.heap
  pins : ∀ id, r.2.pins.count id + g.held.count id = h.pins.count id + r.1.held.count id

variable {h : Heap} {g : Guard}

theorem Exchange.refl (h : Heap) (g : Guard) : Exchange h g (g, h) :=
  ⟨fun ht => ht, rfl, rfl, fun _ => rfl⟩

theorem exchange_pin (hg : g.heap = h.serial) (v : Value) : Exchange h g (h.pin g v).2 := by
  unfold Heap.pin
  split
  · rename_i id
    rw [if_pos hg]
    refine ⟨fun ht => ⟨ht.objects, ht.scopes⟩, rfl, rfl, fun other => ?_⟩
    simp only [List.count_append, List.count_cons, List.count_nil]
    omega
  · exact .refl h g

/-- Giving up what the guard holds gives up that many pins. -/
theorem count_release (hg : g.heap = h.serial) {ids : List ObjectId} (id : ObjectId) :
    (h.release g ids).pins.count id = h.pins.count id - ids.count id := by
  rw [Heap.release, if_pos hg]
  exact List.diff_eq_foldl h.pins ids ▸ List.count_diff id h.pins ids

theorem tidy_release (ht : h.Tidy) (g : Guard) (ids : List ObjectId) : (h.release g ids).Tidy := by
  unfold Heap.release
  split <;> exact ⟨ht.objects, ht.scopes⟩

theorem serial_release (h : Heap) (g : Guard) (ids : List ObjectId) :
    (h.release g ids).serial = h.serial := by
  unfold Heap.release
  split <;> rfl

theorem exchange_unpin (hg : g.heap = h.serial) (hpins : ∀ id, g.held.count id ≤ h.pins.count id)
    (v : Value) : Exchange h g (h.unpin g v).2 := by
  unfold Heap.unpin
  split
  · rename_i id
    split
    · rename_i hheld
      refine ⟨fun ht => tidy_release ht g _, serial_release h g _, rfl, fun other => ?_⟩
      have hle := hpins other
      have hmem : 0 < g.held.count id := List.count_pos_iff.2 (List.contains_iff_mem.1 hheld)
      rw [count_release hg, List.count_singleton, List.count_erase]
      by_cases hid : id = other
      · subst hid
        simp only [beq_self_eq_true, if_true]
        omega
      · simp only [beq_iff_eq, hid, if_false]
        omega
    · exact .refl h g
  · exact .refl h g

theorem exchange_clearGuard (hg : g.heap = h.serial)
    (hpins : ∀ id, g.held.count id ≤ h.pins.count id) : Exchange h g (h.clearGuard g) := by
  refine ⟨fun ht => tidy_release ht g _, serial_release h g _, rfl, fun id => ?_⟩
  have hle := hpins id
  rw [Heap.clearGuard, count_release hg, List.count_nil]
  omega

theorem sum_map_eraseIdx {α : Type} (f : α → Nat) {items : List α} {i : Nat} {a : α}
    (ha : items[i]? = some a) : ((items.eraseIdx i).map f).sum + f a = (items.map f).sum := by
  induction items generalizing i with
  | nil => cases ha
  | cons b rest ih =>
    cases i with
    | zero =>
      obtain rfl := Option.some.inj ha
      simp [Nat.add_comm]
    | succ i =>
      have hrest := ih ha
      simp only [List.eraseIdx_cons_succ, List.map_cons, List.sum_cons]
      omega

theorem sum_map_set {α : Type} (f : α → Nat) {items : List α} {i : Nat} {a : α}
    (ha : items[i]? = some a) (b : α) :
    ((items.set i b).map f).sum + f a = (items.map f).sum + f b := by
  have hset : (items.set i b)[i]? = some b := by
    rw [List.getElem?_set_self (List.getElem?_eq_some_iff.1 ha).1]
  have hold := sum_map_eraseIdx f ha
  have hnew := sum_map_eraseIdx f hset
  rw [List.eraseIdx_set_eq] at hnew
  omega

theorem Kept.withGuard (hs : s.Kept) (i : Nat) {f : Guard → Guard × Heap}
    (hf : ∀ g, g.heap = s.heap.serial → (∀ id, g.held.count id ≤ s.heap.pins.count id) →
      Exchange s.heap g (f g)) : (s.withGuard i f).Kept := by
  unfold Guarded.withGuard
  split
  · rename_i g hg
    have hmem := List.mem_of_getElem? hg
    have hsum (g' : Guard) (id : ObjectId) := sum_map_set (fun g => g.held.count id) hg g'
    have hle (id : ObjectId) : g.held.count id ≤ s.heap.pins.count id := by
      have hrest := sum_map_eraseIdx (fun g => g.held.count id) hg
      have hpins := hs.pins id
      unfold pinCount at hpins
      omega
    have hexchange := hf g (hs.serial g hmem) hle
    refine ⟨hexchange.tidy hs.tidy, fun g' hg' => ?_, fun id => ?_⟩
    · rw [hexchange.serial]
      rcases List.mem_or_eq_of_mem_set hg' with hold | rfl
      · exact hs.serial g' hold
      · exact hexchange.guard.trans (hs.serial g hmem)
    · have hpins := hs.pins id
      have hmoved := hexchange.pins id
      have hset := hsum (f g).1 id
      unfold pinCount at hpins ⊢
      dsimp only
      omega
  · exact hs

/-- A guard that holds nothing is forgotten. -/
theorem Kept.forget (hs : s.Kept) {i : Nat} (hi : ∀ g, s.guards[i]? = some g → g.held = []) :
    Kept { s with guards := s.guards.eraseIdx i } := by
  refine ⟨hs.tidy, fun g hg => hs.serial g (List.mem_of_mem_eraseIdx hg), fun id => ?_⟩
  refine (hs.pins id).trans ?_
  cases hg : s.guards[i]? with
  | none => rw [List.eraseIdx_of_length_le (List.getElem?_eq_none_iff.1 hg)]
  | some g =>
    have hsum := sum_map_eraseIdx (fun g => g.held.count id) hg
    simp only [hi g hg, List.count_nil] at hsum
    exact hsum.symm

theorem held_clearGuard (s : Guarded) (i : Nat) (g : Guard)
    (hg : (s.withGuard i s.heap.clearGuard).guards[i]? = some g) : g.held = [] := by
  unfold Guarded.withGuard at hg
  split at hg
  · rename_i g' hg'
    rw [List.getElem?_set_self (List.getElem?_eq_some_iff.1 hg').1] at hg
    obtain rfl := Option.some.inj hg
    rfl
  · rename_i hnone
    rw [hnone] at hg
    cases hg

/-! ## Histories -/

theorem pins_allocObject (h : Heap) (o : Object) : (h.allocObject o).2.pins = h.pins := by
  unfold Heap.allocObject
  cases h.freeObjects <;> rfl

theorem pins_allocScope (h : Heap) (s : Scope) : (h.allocScope s).2.pins = h.pins := by
  unfold Heap.allocScope
  cases h.freeScopes <;> rfl

theorem serial_allocObject (h : Heap) (o : Object) : (h.allocObject o).2.serial = h.serial := by
  unfold Heap.allocObject
  cases h.freeObjects <;> rfl

theorem serial_allocScope (h : Heap) (s : Scope) : (h.allocScope s).2.serial = h.serial := by
  unfold Heap.allocScope
  cases h.freeScopes <;> rfl

/-- Whatever is done keeps the guards and the pins in step. -/
theorem Kept.step (hs : s.Kept) (action : HeapAction) : (s.step action).Kept := by
  cases action with
  | allocObject o =>
    exact hs.setHeap (hs.tidy.allocObject o) (serial_allocObject _ o) (pins_allocObject _ o)
  | allocScope scope =>
    exact hs.setHeap (hs.tidy.allocScope scope) (serial_allocScope _ scope)
      (pins_allocScope _ scope)
  | addProgram p => exact hs.setHeap (hs.tidy.addProgram p) rfl rfl
  | writeObject id f => exact hs.setHeap (hs.tidy.modifyObject id f) rfl rfl
  | writeScope id f => exact hs.setHeap (hs.tidy.modifyScope id f) rfl rfl
  | createGuard =>
    refine ⟨hs.tidy, fun g hg => ?_, fun id => ?_⟩
    · rcases List.mem_append.1 hg with hold | hnew
      · exact hs.serial g hold
      · obtain rfl := List.mem_singleton.1 hnew
        rfl
    · refine (hs.pins id).trans ?_
      simp [pinCount, Guarded.step, Heap.newGuard]
  | guard i v => exact hs.withGuard i fun _ hg _ => exchange_pin hg v
  | unguard i v => exact hs.withGuard i fun _ hg hle => exchange_unpin hg hle v
  | clear i => exact hs.withGuard i fun _ hg hle => exchange_clearGuard hg hle
  | drop i =>
    have hcleared := hs.withGuard i fun _ hg hle => exchange_clearGuard hg hle
    exact hcleared.forget (held_clearGuard s i)
  | collect roots => exact hs.setHeap (hs.tidy.collect roots) rfl rfl

theorem Kept.run (hs : s.Kept) (actions : List HeapAction) : (s.run actions).Kept := by
  induction actions generalizing s with
  | nil => exact hs
  | cons action rest ih => exact ih (hs.step action)

/-- Guards hold what they are asked to hold. -/
theorem held_withGuard (hs : s.Kept) (i : Nat) {f : Guard → Guard × Heap}
    {k : List ObjectId → List ObjectId}
    (hk : ∀ g, g.heap = s.heap.serial → (f g).1.held = k g.held) :
    (s.withGuard i f).guards.map (·.held) = (s.guards.map (·.held)).modify i k := by
  apply List.ext_getElem?
  intro j
  unfold Guarded.withGuard
  rw [List.getElem?_modify]
  split
  · rename_i g hg
    have hheld := hk g (hs.serial g (List.mem_of_getElem? hg))
    by_cases hij : i = j
    · subst hij
      obtain ⟨hlt, rfl⟩ := List.getElem?_eq_some_iff.1 hg
      simp [hheld, hlt]
    · simp [List.getElem?_set_ne hij, hij]
  · rename_i hnone
    by_cases hij : i = j
    · subst hij
      simp [hnone]
    · simp [hij]

theorem held_step (hs : s.Kept) (action : HeapAction) :
    (s.step action).guards.map (·.held) = asked (s.guards.map (·.held)) action := by
  have hclear (i : Nat) : (s.withGuard i s.heap.clearGuard).guards.map (·.held) =
      (s.guards.map (·.held)).modify i fun _ => [] := held_withGuard hs i fun _ _ => rfl
  have hsame (i : Nat) {f : Guard → Guard × Heap} (hf : ∀ g, (f g).1.held = g.held) :
      (s.withGuard i f).guards.map (·.held) = s.guards.map (·.held) :=
    (held_withGuard hs i (k := id) fun g _ => hf g).trans (List.modify_id ..)
  cases action with
  | createGuard => simp [Guarded.step, asked, Heap.newGuard]
  | guard i v =>
    cases v with
    | object id =>
      refine held_withGuard hs i fun g hg => ?_
      rw [Heap.pin, if_pos hg]
    | _ => exact hsame i fun _ => rfl
  | unguard i v =>
    cases v with
    | object id =>
      refine held_withGuard hs i fun g _ => ?_
      rw [Heap.unpin]
      split
      · rfl
      · rename_i hnot
        exact (List.erase_of_not_mem (by simpa using hnot)).symm
    | _ => exact hsame i fun _ => rfl
  | clear i => exact hclear i
  | drop i =>
    change ((s.withGuard i s.heap.clearGuard).guards.eraseIdx i).map (·.held) = _
    rw [← List.eraseIdx_map, hclear]
    refine List.ext_getElem? fun j => ?_
    have hother : ∀ k, i ≠ k → ∀ ids : List (List ObjectId),
        (ids.modify i fun _ => [])[k]? = ids[k]? := fun k hk ids => by simp [hk]
    simp only [asked, List.getElem?_eraseIdx]
    split <;> exact hother _ (by omega) _
  | _ => rfl

theorem held_run (hs : s.Kept) (actions : List HeapAction) :
    (s.run actions).guards.map (·.held) = actions.foldl asked (s.guards.map (·.held)) := by
  induction actions generalizing s with
  | nil => rfl
  | cons action rest ih => exact (ih (hs.step action)).trans (by rw [held_step hs, List.foldl_cons])

/-- What holds of a heap between any two things that are done with it, where its guards hold some
objects. -/
structure Exact (s : Guarded) (held : List (List ObjectId)) : Prop where
  collects : ∀ roots, s.heap.CollectsExactly (Anchors held roots) roots
  freeObjects : TidyArena s.heap.objects s.heap.freeObjects
  freeScopes : TidyArena s.heap.scopes s.heap.freeScopes
  freshObject : ∀ o, ¬ s.heap.InUse (.object (s.heap.allocObject o).1)
  freshScope : ∀ scope, ¬ s.heap.InUse (.scope (s.heap.allocScope scope).1)
  freshProgram : ∀ p, ¬ s.heap.InUse (.program (s.heap.addProgram p).1)
  pins : ∀ id, s.heap.pins.count id = (held.map (·.count id)).sum

/-- A pinned object is one that a guard holds. -/
theorem Kept.mem_pins_iff (hs : s.Kept) {id : ObjectId} :
    id ∈ s.heap.pins ↔ ∃ g ∈ s.guards, id ∈ g.held := by
  rw [← List.count_pos_iff, hs.pins id, pinCount, List.sum_pos_iff_exists_pos_nat]
  simp

theorem Kept.exact (hs : s.Kept) : s.Exact (s.guards.map (·.held)) where
  collects roots := by
    refine hs.tidy.collectsExactly fun x => ?_
    rw [Anchors, Roots.holds_append]
    refine or_congr_right ?_
    cases x with
    | object id =>
      refine (Iff.trans ?_ hs.mem_pins_iff.symm)
      simp
    | scope id => simp [Roots.Holds]
    | program id => simp [Roots.Holds]
  freeObjects := hs.tidy.objects
  freeScopes := hs.tidy.scopes
  freshObject o h := h (hs.tidy.allocObject_fresh o)
  freshScope scope h := h (hs.tidy.allocScope_fresh scope)
  freshProgram p h := h (by simp [Heap.program?, Heap.addProgram])
  pins id := by
    rw [List.map_map]
    exact hs.pins id

/-- Whatever was done with a heap: a collection keeps exactly what can be reached from its roots and
the guarded objects, the free lists name the empty slots, an allocation takes one of them, and the
pins are what the guards were asked to hold. -/
theorem run_exact (threshold serial : Nat) (actions : List HeapAction) :
    ((new threshold serial).run actions).Exact (actions.foldl asked []) := by
  have hkept := kept_new threshold serial
  have hheld : ((new threshold serial).run actions).guards.map (·.held) = actions.foldl asked [] :=
    held_run hkept actions
  exact hheld ▸ (hkept.run actions).exact

end Guarded

end ScriptMachine
