import Mathlib.Data.List.Nodup
import Mathlib.Data.List.Perm.Subperm
import Mathlib.Logic.Equiv.Basic
import ScriptMachine.Proofs.Pairing.Frame
import ScriptMachine.Proofs.Reached

/-!
# Paired heaps

Two heaps are paired when every known slot is in use on both sides and holds the same data up to
the handles in it. The walks along prototypes, scopes and bound functions end within the number of
slots, so that they give the same on both heaps although the arenas differ in size.
-/

namespace ScriptMachine

/-! ## Chains of links -/

section Chains

variable {α β : Type} {link : α → Option (Option α)}

/-- The links from a slot end after a number of steps. A slot that is not in use has no link, and
the last one of a chain links to nothing. -/
inductive Chain (link : α → Option (Option α)) : Nat → α → Prop
  | last {a : α} (h : link a = some none) : Chain link 0 a
  | next {a b : α} {n : Nat} (h : link a = some (some b)) (rest : Chain link n b) :
    Chain link (n + 1) a

namespace Chain

theorem unique {a : α} {n k : Nat} (h : Chain link n a) (h' : Chain link k a) : n = k := by
  induction h generalizing k with
  | last hlink =>
    cases h' with
    | last => rfl
    | next hlink' => simp [hlink] at hlink'
  | next hlink _ ih =>
    cases h' with
    | last hlink' => simp [hlink] at hlink'
    | next hlink' rest' =>
      obtain rfl := Option.some.inj (Option.some.inj (hlink.symm.trans hlink'))
      exact congrArg (· + 1) (ih rest')

/-- The slots of a chain, each once. -/
theorem exists_slots {a : α} {n : Nat} (h : Chain link n a) :
    ∃ slots : List α, slots.length = n + 1 ∧ slots.Nodup ∧
      ∀ b ∈ slots, link b ≠ none ∧ ∃ k ≤ n, Chain link k b := by
  induction h with
  | @last a hlink =>
    exact ⟨[a], rfl, List.nodup_singleton a, fun b hb => by
      obtain rfl := List.mem_singleton.1 hb
      exact ⟨by simp [hlink], 0, Nat.le_refl 0, .last hlink⟩⟩
  | @next a b n hlink rest ih =>
    obtain ⟨slots, hlength, hnodup, hslots⟩ := ih
    have hfresh : a ∉ slots := fun hmem => by
      obtain ⟨-, k, hk, hchain⟩ := hslots a hmem
      have := hchain.unique (.next hlink rest)
      omega
    refine ⟨a :: slots, by simp [hlength], List.nodup_cons.2 ⟨hfresh, hnodup⟩, ?_⟩
    intro c hc
    obtain rfl | hmem := List.mem_cons.1 hc
    · exact ⟨by simp [hlink], n + 1, Nat.le_refl _, .next hlink rest⟩
    · obtain ⟨hlive, k, hk, hchain⟩ := hslots c hmem
      exact ⟨hlive, k, by omega, hchain⟩

/-- A chain has fewer links than there are slots. -/
theorem lt_size {a : α} {n size : Nat} (h : Chain link n a) {index : α → Nat}
    (hinj : Function.Injective index) (hbound : ∀ b, link b ≠ none → index b < size) :
    n < size := by
  obtain ⟨slots, hlength, hnodup, hslots⟩ := h.exists_slots
  have hsub : slots.map index ⊆ List.range size := by
    intro i hi
    obtain ⟨b, hb, rfl⟩ := List.mem_map.1 hi
    exact List.mem_range.2 (hbound b (hslots b hb).1)
  have hle := ((hnodup.map hinj).subperm hsub).length_le
  simp only [List.length_map, List.length_range, hlength] at hle
  omega

/-- A chain is found wherever its slots and their links are. -/
theorem transfer {a : α} {n : Nat} (h : Chain link n a) {link' : β → Option (Option β)} (σ : α → β)
    {P : α → Prop} (ha : P a) (hnext : ∀ b c, P b → link b = some (some c) → P c)
    (hlink : ∀ b, P b → link' (σ b) = (link b).map (Option.map σ)) : Chain link' n (σ a) := by
  induction h with
  | @last a h => exact .last (by rw [hlink a ha, h]; rfl)
  | @next a b n h rest ih =>
    exact .next (by rw [hlink a ha, h]; rfl) (ih (hnext a b ha h))

/-- A chain stays where the links of its slots are the same. -/
theorem congr {a : α} {n : Nat} (h : Chain link n a) {link' : α → Option (Option α)}
    {P : α → Prop} (ha : P a) (hnext : ∀ b c, P b → link b = some (some c) → P c)
    (hlink : ∀ b, P b → link' b = link b) : Chain link' n a := by
  induction h with
  | @last a h => exact .last ((hlink a ha).trans h)
  | @next a b n h rest ih => exact .next ((hlink a ha).trans h) (ih (hnext a b ha h))

end Chain

end Chains

namespace Heap

/-- The prototype of an object in use. -/
def protoLink (h : Heap) (id : ObjectId) : Option (Option ObjectId) :=
  (h.object? id).map (·.proto)

/-- The scope around a scope in use. -/
def outerLink (h : Heap) (id : ScopeId) : Option (Option ScopeId) :=
  (h.scope? id).map (·.outer)

/-- The function that a function binds. -/
def targetOf (o : Object) : Option ObjectId :=
  match o.function with
  | some (.bound target _ _) => some target
  | _ => none

/-- The function that an object in use binds. -/
def targetLink (h : Heap) (id : ObjectId) : Option (Option ObjectId) :=
  (h.object? id).map targetOf

theorem index_injective : Function.Injective ObjectId.index := fun a b h => by
  cases a
  cases b
  exact congrArg ObjectId.mk h

theorem scopeIndex_injective : Function.Injective ScopeId.index := fun a b h => by
  cases a
  cases b
  exact congrArg ScopeId.mk h

theorem lt_size_of_protos {h : Heap} {id : ObjectId} {n : Nat} (hchain : Chain h.protoLink n id) :
    n < h.objects.size :=
  hchain.lt_size index_injective fun b hb => lt_size_of_object? fun hnone =>
    hb (by rw [protoLink, hnone]; rfl)

theorem lt_size_of_targets {h : Heap} {id : ObjectId} {n : Nat}
    (hchain : Chain h.targetLink n id) : n < h.objects.size :=
  hchain.lt_size index_injective fun b hb => lt_size_of_object? fun hnone =>
    hb (by rw [targetLink, hnone]; rfl)

theorem lt_size_of_outers {h : Heap} {id : ScopeId} {n : Nat} (hchain : Chain h.outerLink n id) :
    n < h.scopes.size :=
  hchain.lt_size scopeIndex_injective fun b hb => lt_size_of_scope? fun hnone =>
    hb (by rw [outerLink, hnone]; rfl)

end Heap

/-! ## Heaps -/

/-- Two slots are in use and hold the same up to handles, all of them known. -/
def Pairing.Both {α : Type} [Carried α] (p : Pairing) (slot slot' : Option α) : Prop :=
  ∃ x, slot = some x ∧ slot' = some (image p x) ∧ Within p x

theorem Pairing.Both.mono {α : Type} [Carried α] {p q : Pairing} {slot slot' : Option α}
    (h : p.Both slot slot') (hle : p ≤ q) : q.Both slot slot' := by
  obtain ⟨x, hx, hx', hw⟩ := h
  exact ⟨x, hx, Carried.image_of_le hle hw ▸ hx', Carried.within_of_le hle hw⟩

/-- Every slot in use is known. -/
structure Pairing.Covers (p : Pairing) (h : Heap) : Prop where
  object : ∀ id, h.object? id ≠ none → Within p id
  scope : ∀ id, h.scope? id ≠ none → Within p id
  program : ∀ id, h.program? id ≠ none → Within p id

/-- The known slots of two heaps hold the same up to handles, and no walk among them is endless. -/
structure Pairing.Heaps (p : Pairing) (h h' : Heap) : Prop where
  same : p.whole → p.Fixes ∧ h' = h
  tidy : h.Tidy
  tidy' : h'.Tidy
  object : ∀ id : ObjectId, Within p id → p.Both (h.object? id) (h'.object? (image p id))
  scope : ∀ id : ScopeId, Within p id → p.Both (h.scope? id) (h'.scope? (image p id))
  program : ∀ id : ProgramId, Within p id → p.Both (h.program? id) (h'.program? (image p id))
  protos : ∀ id : ObjectId, Within p id → ∃ n, Chain h.protoLink n id
  targets : ∀ id : ObjectId, Within p id → ∃ n, Chain h.targetLink n id
  outers : ∀ id : ScopeId, Within p id → ∃ n, Chain h.outerLink n id
  covers : p.whole → p.Covers h

namespace Pairing.Heaps

variable {p : Pairing} {h h' : Heap}

theorem within_targetOf {o : Object} (ho : Within p o) : Within p (Heap.targetOf o) := by
  intro next hnext
  unfold Heap.targetOf at hnext
  split at hnext
  · rename_i target receiver args hfunction
    obtain rfl := Option.some.inj hnext
    have hbound := ho.function _ hfunction
    exact hbound.1
  · cases hnext

section Links

variable (hp : p.Heaps h h')

include hp

theorem protoLink_image {id : ObjectId} (hid : Within p id) :
    h'.protoLink (image p id) = (h.protoLink id).map (Option.map (image p)) := by
  obtain ⟨o, ho, ho', -⟩ := hp.object id hid
  rw [Heap.protoLink, Heap.protoLink, ho, ho']
  rfl

theorem targetLink_image {id : ObjectId} (hid : Within p id) :
    h'.targetLink (image p id) = (h.targetLink id).map (Option.map (image p)) := by
  obtain ⟨o, ho, ho', -⟩ := hp.object id hid
  rw [Heap.targetLink, Heap.targetLink, ho, ho', Option.map_some, Option.map_some, Option.map_some]
  refine congrArg some ?_
  unfold Heap.targetOf
  rw [image_function]
  cases o.function with
  | none => rfl
  | some f => cases f <;> rfl

theorem outerLink_image {id : ScopeId} (hid : Within p id) :
    h'.outerLink (image p id) = (h.outerLink id).map (Option.map (image p)) := by
  obtain ⟨s, hs, hs', -⟩ := hp.scope id hid
  rw [Heap.outerLink, Heap.outerLink, hs, hs']
  rfl

theorem within_of_protoLink {id next : ObjectId} (hid : Within p id)
    (hlink : h.protoLink id = some (some next)) : Within p next := by
  obtain ⟨o, ho, -, hw⟩ := hp.object id hid
  rw [Heap.protoLink, ho] at hlink
  exact hw.proto next (Option.some.inj hlink)

theorem within_of_targetLink {id next : ObjectId} (hid : Within p id)
    (hlink : h.targetLink id = some (some next)) : Within p next := by
  obtain ⟨o, ho, -, hw⟩ := hp.object id hid
  rw [Heap.targetLink, ho] at hlink
  exact within_targetOf hw next (Option.some.inj hlink)

theorem within_of_outerLink {id next : ScopeId} (hid : Within p id)
    (hlink : h.outerLink id = some (some next)) : Within p next := by
  obtain ⟨s, hs, -, hw⟩ := hp.scope id hid
  rw [Heap.outerLink, hs] at hlink
  exact hw.outer next (Option.some.inj hlink)

/-- The chain of prototypes from a known object fits into both heaps. -/
theorem exists_protos {id : ObjectId} (hid : Within p id) :
    ∃ n, Chain h.protoLink n id ∧ n < h.objects.size ∧ n < h'.objects.size := by
  obtain ⟨n, hchain⟩ := hp.protos id hid
  have hchain' : Chain h'.protoLink n (image p id) :=
    hchain.transfer (image p) (P := Within p) hid (fun _ _ => hp.within_of_protoLink)
      fun _ => hp.protoLink_image
  exact ⟨n, hchain, Heap.lt_size_of_protos hchain, Heap.lt_size_of_protos hchain'⟩

theorem exists_targets {id : ObjectId} (hid : Within p id) :
    ∃ n, Chain h.targetLink n id ∧ n < h.objects.size ∧ n < h'.objects.size := by
  obtain ⟨n, hchain⟩ := hp.targets id hid
  have hchain' : Chain h'.targetLink n (image p id) :=
    hchain.transfer (image p) (P := Within p) hid (fun _ _ => hp.within_of_targetLink)
      fun _ => hp.targetLink_image
  exact ⟨n, hchain, Heap.lt_size_of_targets hchain, Heap.lt_size_of_targets hchain'⟩

theorem exists_outers {id : ScopeId} (hid : Within p id) :
    ∃ n, Chain h.outerLink n id ∧ n < h.scopes.size ∧ n < h'.scopes.size := by
  obtain ⟨n, hchain⟩ := hp.outers id hid
  have hchain' : Chain h'.outerLink n (image p id) :=
    hchain.transfer (image p) (P := Within p) hid (fun _ _ => hp.within_of_outerLink)
      fun _ => hp.outerLink_image
  exact ⟨n, hchain, Heap.lt_size_of_outers hchain, Heap.lt_size_of_outers hchain'⟩

end Links

end Pairing.Heaps

/-! ## Allocation -/

namespace Pairing

/-- A new object has another new object as its counterpart. -/
def addObject (p : Pairing) (a b : ObjectId) : Pairing :=
  { p with
    object := p.object.trans (Equiv.swap (p.object a) b)
    known := fun x => p.known x ∨ x = .object a }

def addScope (p : Pairing) (a b : ScopeId) : Pairing :=
  { p with
    scope := p.scope.trans (Equiv.swap (p.scope a) b)
    known := fun x => p.known x ∨ x = .scope a }

def addProgram (p : Pairing) (a b : ProgramId) : Pairing :=
  { p with
    program := p.program.trans (Equiv.swap (p.program a) b)
    known := fun x => p.known x ∨ x = .program a }

variable {p : Pairing}

theorem le_addObject {a b : ObjectId} (ha : ¬ Within p a)
    (hb : ∀ id : ObjectId, Within p id → image p id ≠ b) : p ≤ p.addObject a b where
  known _ := .inl
  object id hid := by
    refine Equiv.swap_apply_of_ne_of_ne (fun heq => ?_) (hb id hid)
    exact ha (p.object.injective heq ▸ hid)
  scope _ _ := rfl
  program _ _ := rfl
  actor := rfl
  whole := .rfl

theorem le_addScope {a b : ScopeId} (ha : ¬ Within p a)
    (hb : ∀ id : ScopeId, Within p id → image p id ≠ b) : p ≤ p.addScope a b where
  known _ := .inl
  object _ _ := rfl
  scope id hid := by
    refine Equiv.swap_apply_of_ne_of_ne (fun heq => ?_) (hb id hid)
    exact ha (p.scope.injective heq ▸ hid)
  program _ _ := rfl
  actor := rfl
  whole := .rfl

theorem le_addProgram {a b : ProgramId} (ha : ¬ Within p a)
    (hb : ∀ id : ProgramId, Within p id → image p id ≠ b) : p ≤ p.addProgram a b where
  known _ := .inl
  object _ _ := rfl
  scope _ _ := rfl
  program id hid := by
    refine Equiv.swap_apply_of_ne_of_ne (fun heq => ?_) (hb id hid)
    exact ha (p.program.injective heq ▸ hid)
  actor := rfl
  whole := .rfl

theorem Fixes.addObject (hp : p.Fixes) (a : ObjectId) : (p.addObject a a).Fixes := by
  refine ⟨fun id => ?_, hp.scope, hp.program⟩
  change Equiv.swap (p.object a) a (p.object id) = id
  rw [hp.object, hp.object, Equiv.swap_self]
  rfl

theorem Fixes.addScope (hp : p.Fixes) (a : ScopeId) : (p.addScope a a).Fixes := by
  refine ⟨hp.object, fun id => ?_, hp.program⟩
  change Equiv.swap (p.scope a) a (p.scope id) = id
  rw [hp.scope, hp.scope, Equiv.swap_self]
  rfl

theorem Fixes.addProgram (hp : p.Fixes) (a : ProgramId) : (p.addProgram a a).Fixes := by
  refine ⟨hp.object, hp.scope, fun id => ?_⟩
  change Equiv.swap (p.program a) a (p.program id) = id
  rw [hp.program, hp.program, Equiv.swap_self]
  rfl

theorem pairs_addObject (a b : ObjectId) : (p.addObject a b).Pairs a b :=
  ⟨.inr rfl, (Equiv.swap_apply_left (p.object a) b).symm⟩

theorem pairs_addScope (a b : ScopeId) : (p.addScope a b).Pairs a b :=
  ⟨.inr rfl, (Equiv.swap_apply_left (p.scope a) b).symm⟩

theorem pairs_addProgram (a b : ProgramId) : (p.addProgram a b).Pairs a b :=
  ⟨.inr rfl, (Equiv.swap_apply_left (p.program a) b).symm⟩

theorem within_addObject {a b id : ObjectId} :
    Within (p.addObject a b) id ↔ Within p id ∨ id = a := by
  refine or_congr .rfl ⟨fun h => ?_, congrArg Handle.object⟩
  injection h

theorem within_addScope {a b id : ScopeId} :
    Within (p.addScope a b) id ↔ Within p id ∨ id = a := by
  refine or_congr .rfl ⟨fun h => ?_, congrArg Handle.scope⟩
  injection h

theorem within_addProgram {a b id : ProgramId} :
    Within (p.addProgram a b) id ↔ Within p id ∨ id = a := by
  refine or_congr .rfl ⟨fun h => ?_, congrArg Handle.program⟩
  injection h

theorem scope_within_addObject {a b : ObjectId} {id : ScopeId} :
    Within (p.addObject a b) id ↔ Within p id :=
  ⟨fun h => h.resolve_right (fun heq => by cases heq), .inl⟩

theorem program_within_addObject {a b : ObjectId} {id : ProgramId} :
    Within (p.addObject a b) id ↔ Within p id :=
  ⟨fun h => h.resolve_right (fun heq => by cases heq), .inl⟩

theorem object_within_addScope {a b : ScopeId} {id : ObjectId} :
    Within (p.addScope a b) id ↔ Within p id :=
  ⟨fun h => h.resolve_right (fun heq => by cases heq), .inl⟩

theorem program_within_addScope {a b : ScopeId} {id : ProgramId} :
    Within (p.addScope a b) id ↔ Within p id :=
  ⟨fun h => h.resolve_right (fun heq => by cases heq), .inl⟩

theorem object_within_addProgram {a b : ProgramId} {id : ObjectId} :
    Within (p.addProgram a b) id ↔ Within p id :=
  ⟨fun h => h.resolve_right (fun heq => by cases heq), .inl⟩

theorem scope_within_addProgram {a b : ProgramId} {id : ScopeId} :
    Within (p.addProgram a b) id ↔ Within p id :=
  ⟨fun h => h.resolve_right (fun heq => by cases heq), .inl⟩

end Pairing

namespace Heap

@[simp] theorem program?_allocObject (h : Heap) (o : Object) (id : ProgramId) :
    (h.allocObject o).2.program? id = h.program? id := by
  unfold allocObject program?
  cases h.freeObjects <;> rfl

@[simp] theorem program?_allocScope (h : Heap) (s : Scope) (id : ProgramId) :
    (h.allocScope s).2.program? id = h.program? id := by
  unfold allocScope program?
  cases h.freeScopes <;> rfl

theorem object?_allocObject_of_ne (h : Heap) (o : Object) {id : ObjectId}
    (hne : id ≠ (h.allocObject o).1) : (h.allocObject o).2.object? id = h.object? id := by
  unfold allocObject at hne ⊢
  unfold object?
  dsimp only at hne ⊢
  cases hfree : h.freeObjects with
  | nil =>
    rw [hfree] at hne
    have hindex : id.index ≠ h.objects.size := fun heq => hne (congrArg ObjectId.mk heq)
    simp [Array.getElem?_push, hindex]
  | cons i rest =>
    rw [hfree] at hne
    have hindex : i ≠ id.index := fun heq => hne (congrArg ObjectId.mk heq.symm)
    simp [hindex]

theorem scope?_allocScope_of_ne (h : Heap) (s : Scope) {id : ScopeId}
    (hne : id ≠ (h.allocScope s).1) : (h.allocScope s).2.scope? id = h.scope? id := by
  unfold allocScope at hne ⊢
  unfold scope?
  dsimp only at hne ⊢
  cases hfree : h.freeScopes with
  | nil =>
    rw [hfree] at hne
    have hindex : id.index ≠ h.scopes.size := fun heq => hne (congrArg ScopeId.mk heq)
    simp [Array.getElem?_push, hindex]
  | cons i rest =>
    rw [hfree] at hne
    have hindex : i ≠ id.index := fun heq => hne (congrArg ScopeId.mk heq.symm)
    simp [hindex]

/-- What is done to a slot in use is all there is to a change. -/
theorem modifyObject_congr {h : Heap} {id : ObjectId} {f g : Object → Object}
    (heq : ∀ o, h.object? id = some o → g o = f o) :
    h.modifyObject id g = h.modifyObject id f := by
  unfold modifyObject
  congr 1
  refine Array.ext_getElem? fun i => ?_
  rw [Array.getElem?_modify, Array.getElem?_modify]
  split
  · rename_i hi
    subst hi
    cases hslot : h.objects[id.index]? with
    | none => rfl
    | some slot =>
      cases slot with
      | none => rfl
      | some o => exact congrArg (some ∘ some) (heq o (by rw [object?, hslot]; rfl))
  · rfl

theorem modifyScope_congr {h : Heap} {id : ScopeId} {f g : Scope → Scope}
    (heq : ∀ s, h.scope? id = some s → g s = f s) :
    h.modifyScope id g = h.modifyScope id f := by
  unfold modifyScope
  congr 1
  refine Array.ext_getElem? fun i => ?_
  rw [Array.getElem?_modify, Array.getElem?_modify]
  split
  · rename_i hi
    subst hi
    cases hslot : h.scopes[id.index]? with
    | none => rfl
    | some slot =>
      cases slot with
      | none => rfl
      | some s => exact congrArg (some ∘ some) (heq s (by rw [scope?, hslot]; rfl))
  · rfl

theorem program?_addProgram (h : Heap) (t : Tree.Program) (id : ProgramId) :
    (h.addProgram t).2.program? id =
      if id = (h.addProgram t).1 then some t else h.program? id := by
  unfold addProgram program?
  dsimp only
  rw [Array.getElem?_push]
  by_cases hid : id.index = h.programs.size
  · rw [if_pos hid, if_pos (show id = ⟨h.programs.size⟩ from congrArg ProgramId.mk hid)]
    rfl
  · have hne : id ≠ ⟨h.programs.size⟩ := fun heq => hid (congrArg ProgramId.index heq)
    rw [if_neg hid, if_neg hne]

theorem addProgram_fresh (h : Heap) (t : Tree.Program) : h.program? (h.addProgram t).1 = none := by
  simp [addProgram, program?]

end Heap

namespace Pairing.Heaps

variable {p : Pairing} {h h' : Heap}

theorem not_within_of_fresh (hp : p.Heaps h h') {id : ObjectId} (hid : h.object? id = none) :
    ¬ Within p id := fun hw => by
  obtain ⟨o, ho, -⟩ := hp.object id hw
  rw [hid] at ho
  cases ho

theorem not_within_of_freshScope (hp : p.Heaps h h') {id : ScopeId} (hid : h.scope? id = none) :
    ¬ Within p id := fun hw => by
  obtain ⟨s, hs, -⟩ := hp.scope id hw
  rw [hid] at hs
  cases hs

/-- Two slots that are taken for counterparts become known. -/
theorem allocObject (hp : p.Heaps h h') {o : Object} (ho : Within p o) :
    p ≤ p.addObject (h.allocObject o).1 (h'.allocObject (image p o)).1 ∧
      (p.addObject (h.allocObject o).1 (h'.allocObject (image p o)).1).Heaps
        (h.allocObject o).2 (h'.allocObject (image p o)).2 := by
  have hfresh := hp.not_within_of_fresh (hp.tidy.allocObject_fresh o)
  have hle : p ≤ p.addObject (h.allocObject o).1 (h'.allocObject (image p o)).1 := by
    refine le_addObject hfresh fun id hid heq => ?_
    obtain ⟨_, -, hlive, -⟩ := hp.object id hid
    rw [heq, hp.tidy'.allocObject_fresh] at hlive
    cases hlive
  have hold : ∀ id : ObjectId, Within p id → (h.allocObject o).2.object? id = h.object? id :=
    fun id hid => h.object?_allocObject_of_ne o fun heq => hfresh (heq ▸ hid)
  have hprotos : ∀ id : ObjectId, Within p id →
      ∃ n, Chain (h.allocObject o).2.protoLink n id := by
    intro id hid
    obtain ⟨n, hchain⟩ := hp.protos id hid
    refine ⟨n, hchain.transfer (fun b => b) (P := Within p) hid
      (fun _ _ => hp.within_of_protoLink) fun b hb => ?_⟩
    rw [Heap.protoLink, Heap.protoLink, hold b hb]
    cases h.object? b <;> simp
  have htargets : ∀ id : ObjectId, Within p id →
      ∃ n, Chain (h.allocObject o).2.targetLink n id := by
    intro id hid
    obtain ⟨n, hchain⟩ := hp.targets id hid
    refine ⟨n, hchain.transfer (fun b => b) (P := Within p) hid
      (fun _ _ => hp.within_of_targetLink) fun b hb => ?_⟩
    rw [Heap.targetLink, Heap.targetLink, hold b hb]
    cases h.object? b <;> simp
  refine ⟨hle, fun hwhole => ?_, hp.tidy.allocObject o, hp.tidy'.allocObject _, ?_, ?_, ?_, ?_, ?_,
    ?_, ?_⟩
  · obtain ⟨hfixes, rfl⟩ := hp.same hwhole
    rw [Carried.image_of_fixes hfixes]
    exact ⟨hfixes.addObject _, rfl⟩
  · intro id hid
    obtain hid | rfl := within_addObject.1 hid
    · obtain ⟨x, hx, hx', hw⟩ := (hp.object id hid).mono hle
      rw [Carried.image_of_le hle hid]
      exact ⟨x, hp.tidy.allocObject_of_live o hx, hp.tidy'.allocObject_of_live _ hx', hw⟩
    · rw [← (pairs_addObject _ _).eq]
      refine ⟨o, hp.tidy.allocObject_self o, ?_, Carried.within_of_le hle ho⟩
      rw [Carried.image_of_le hle ho]
      exact hp.tidy'.allocObject_self _
  · intro id hid
    rw [Heap.scope?_allocObject, Heap.scope?_allocObject]
    exact (hp.scope id (scope_within_addObject.1 hid)).mono hle
  · intro id hid
    rw [Heap.program?_allocObject, Heap.program?_allocObject]
    exact (hp.program id (program_within_addObject.1 hid)).mono hle
  · intro id hid
    obtain hid | rfl := within_addObject.1 hid
    · exact hprotos id hid
    · have hlink : (h.allocObject o).2.protoLink (h.allocObject o).1 = some o.proto := by
        rw [Heap.protoLink, hp.tidy.allocObject_self]
        rfl
      cases hproto : o.proto with
      | none => exact ⟨0, .last (hlink.trans (congrArg some hproto))⟩
      | some next =>
        obtain ⟨n, hchain⟩ := hprotos next (ho.proto next hproto)
        exact ⟨n + 1, .next (hlink.trans (congrArg some hproto)) hchain⟩
  · intro id hid
    obtain hid | rfl := within_addObject.1 hid
    · exact htargets id hid
    · have hlink : (h.allocObject o).2.targetLink (h.allocObject o).1 =
          some (Heap.targetOf o) := by
        rw [Heap.targetLink, hp.tidy.allocObject_self]
        rfl
      cases htarget : Heap.targetOf o with
      | none => exact ⟨0, .last (hlink.trans (congrArg some htarget))⟩
      | some next =>
        obtain ⟨n, hchain⟩ := htargets next (within_targetOf ho next htarget)
        exact ⟨n + 1, .next (hlink.trans (congrArg some htarget)) hchain⟩
  · intro id hid
    obtain ⟨n, hchain⟩ := hp.outers id (scope_within_addObject.1 hid)
    have hlinks : (h.allocObject o).2.outerLink = h.outerLink :=
      funext fun b => by rw [Heap.outerLink, Heap.outerLink, Heap.scope?_allocObject]
    exact ⟨n, hlinks ▸ hchain⟩
  · intro hwhole
    have hcovers := hp.covers hwhole
    refine ⟨fun id hid => ?_, fun id hid => ?_, fun id hid => ?_⟩
    · by_cases hnew : id = (h.allocObject o).1
      · exact within_addObject.2 (.inr hnew)
      · rw [h.object?_allocObject_of_ne o hnew] at hid
        exact within_addObject.2 (.inl (hcovers.object id hid))
    · rw [Heap.scope?_allocObject] at hid
      exact scope_within_addObject.2 (hcovers.scope id hid)
    · rw [Heap.program?_allocObject] at hid
      exact program_within_addObject.2 (hcovers.program id hid)

theorem allocScope (hp : p.Heaps h h') {s : Scope} (hs : Within p s) :
    p ≤ p.addScope (h.allocScope s).1 (h'.allocScope (image p s)).1 ∧
      (p.addScope (h.allocScope s).1 (h'.allocScope (image p s)).1).Heaps
        (h.allocScope s).2 (h'.allocScope (image p s)).2 := by
  have hfresh := hp.not_within_of_freshScope (hp.tidy.allocScope_fresh s)
  have hle : p ≤ p.addScope (h.allocScope s).1 (h'.allocScope (image p s)).1 := by
    refine le_addScope hfresh fun id hid heq => ?_
    obtain ⟨_, -, hlive, -⟩ := hp.scope id hid
    rw [heq, hp.tidy'.allocScope_fresh] at hlive
    cases hlive
  have houters : ∀ id : ScopeId, Within p id →
      ∃ n, Chain (h.allocScope s).2.outerLink n id := by
    intro id hid
    obtain ⟨n, hchain⟩ := hp.outers id hid
    refine ⟨n, hchain.transfer (fun b => b) (P := Within p) hid
      (fun _ _ => hp.within_of_outerLink) fun b hb => ?_⟩
    rw [Heap.outerLink, Heap.outerLink,
      h.scope?_allocScope_of_ne s fun heq => hfresh (heq ▸ hb)]
    cases h.scope? b <;> simp
  refine ⟨hle, fun hwhole => ?_, hp.tidy.allocScope s, hp.tidy'.allocScope _, ?_, ?_, ?_, ?_, ?_,
    ?_, ?_⟩
  · obtain ⟨hfixes, rfl⟩ := hp.same hwhole
    rw [Carried.image_of_fixes hfixes]
    exact ⟨hfixes.addScope _, rfl⟩
  · intro id hid
    rw [Heap.object?_allocScope, Heap.object?_allocScope]
    exact (hp.object id (object_within_addScope.1 hid)).mono hle
  · intro id hid
    obtain hid | rfl := within_addScope.1 hid
    · obtain ⟨x, hx, hx', hw⟩ := (hp.scope id hid).mono hle
      rw [Carried.image_of_le hle hid]
      exact ⟨x, hp.tidy.allocScope_of_live s hx, hp.tidy'.allocScope_of_live _ hx', hw⟩
    · rw [← (pairs_addScope _ _).eq]
      refine ⟨s, hp.tidy.allocScope_self s, ?_, Carried.within_of_le hle hs⟩
      rw [Carried.image_of_le hle hs]
      exact hp.tidy'.allocScope_self _
  · intro id hid
    rw [Heap.program?_allocScope, Heap.program?_allocScope]
    exact (hp.program id (program_within_addScope.1 hid)).mono hle
  · intro id hid
    obtain ⟨n, hchain⟩ := hp.protos id (object_within_addScope.1 hid)
    have hlinks : (h.allocScope s).2.protoLink = h.protoLink :=
      funext fun b => by rw [Heap.protoLink, Heap.protoLink, Heap.object?_allocScope]
    exact ⟨n, hlinks ▸ hchain⟩
  · intro id hid
    obtain ⟨n, hchain⟩ := hp.targets id (object_within_addScope.1 hid)
    have hlinks : (h.allocScope s).2.targetLink = h.targetLink :=
      funext fun b => by rw [Heap.targetLink, Heap.targetLink, Heap.object?_allocScope]
    exact ⟨n, hlinks ▸ hchain⟩
  · intro id hid
    obtain hid | rfl := within_addScope.1 hid
    · exact houters id hid
    · have hlink : (h.allocScope s).2.outerLink (h.allocScope s).1 = some s.outer := by
        rw [Heap.outerLink, hp.tidy.allocScope_self]
        rfl
      cases houter : s.outer with
      | none => exact ⟨0, .last (hlink.trans (congrArg some houter))⟩
      | some next =>
        obtain ⟨n, hchain⟩ := houters next (hs.outer next houter)
        exact ⟨n + 1, .next (hlink.trans (congrArg some houter)) hchain⟩
  · intro hwhole
    have hcovers := hp.covers hwhole
    refine ⟨fun id hid => ?_, fun id hid => ?_, fun id hid => ?_⟩
    · rw [Heap.object?_allocScope] at hid
      exact object_within_addScope.2 (hcovers.object id hid)
    · by_cases hnew : id = (h.allocScope s).1
      · exact within_addScope.2 (.inr hnew)
      · rw [h.scope?_allocScope_of_ne s hnew] at hid
        exact within_addScope.2 (.inl (hcovers.scope id hid))
    · rw [Heap.program?_allocScope] at hid
      exact program_within_addScope.2 (hcovers.program id hid)

theorem addProgram (hp : p.Heaps h h') (t : Tree.Program) :
    p ≤ p.addProgram (h.addProgram t).1 (h'.addProgram t).1 ∧
      (p.addProgram (h.addProgram t).1 (h'.addProgram t).1).Heaps
        (h.addProgram t).2 (h'.addProgram t).2 := by
  have hfresh : ¬ Within p (h.addProgram t).1 := fun hw => by
    obtain ⟨_, hlive, -⟩ := hp.program _ hw
    rw [h.addProgram_fresh] at hlive
    cases hlive
  have hle : p ≤ p.addProgram (h.addProgram t).1 (h'.addProgram t).1 := by
    refine le_addProgram hfresh fun id hid heq => ?_
    obtain ⟨_, -, hlive, -⟩ := hp.program id hid
    rw [heq, h'.addProgram_fresh] at hlive
    cases hlive
  refine ⟨hle, fun hwhole => ?_, hp.tidy.addProgram t, hp.tidy'.addProgram t, ?_, ?_, ?_, ?_, ?_, ?_,
    ?_⟩
  · obtain ⟨hfixes, rfl⟩ := hp.same hwhole
    exact ⟨hfixes.addProgram _, rfl⟩
  · exact fun id hid => (hp.object id (object_within_addProgram.1 hid)).mono hle
  · exact fun id hid => (hp.scope id (scope_within_addProgram.1 hid)).mono hle
  · intro id hid
    obtain hid | rfl := within_addProgram.1 hid
    · obtain ⟨u, hu, hu', -⟩ := hp.program id hid
      have hne : id ≠ (h.addProgram t).1 := fun heq => hfresh (heq ▸ hid)
      have hne' : image p id ≠ (h'.addProgram t).1 := fun heq => by
        rw [heq, h'.addProgram_fresh] at hu'
        cases hu'
      rw [Heap.program?_addProgram, if_neg hne, Heap.program?_addProgram,
        Carried.image_of_le hle hid, if_neg hne']
      exact ⟨u, hu, hu', trivial⟩
    · rw [← (pairs_addProgram _ _).eq, Heap.program?_addProgram, Heap.program?_addProgram,
        if_pos rfl, if_pos rfl]
      exact ⟨t, rfl, rfl, trivial⟩
  · exact fun id hid => hp.protos id (object_within_addProgram.1 hid)
  · exact fun id hid => hp.targets id (object_within_addProgram.1 hid)
  · exact fun id hid => hp.outers id (scope_within_addProgram.1 hid)
  · intro hwhole
    have hcovers := hp.covers hwhole
    refine ⟨fun id hid => object_within_addProgram.2 (hcovers.object id hid),
      fun id hid => scope_within_addProgram.2 (hcovers.scope id hid), fun id hid => ?_⟩
    by_cases hnew : id = (h.addProgram t).1
    · exact within_addProgram.2 (.inr hnew)
    · rw [Heap.program?_addProgram, if_neg hnew] at hid
      exact within_addProgram.2 (.inl (hcovers.program id hid))

/-! ## Changes -/

/-- An object that is known is changed on both sides. Its prototype may change if the chain from
the new one ends without the object. -/
theorem modifyObject (hp : p.Heaps h h') {id : ObjectId} {f f' : Object → Object}
    (hf : ∀ o, Within p o → p.Pairs (f o) (f' (image p o)))
    (htarget : ∀ o, (f o).function = o.function)
    (hprotos : ∀ a : ObjectId, Within p a → ∃ n, Chain (h.modifyObject id f).protoLink n a) :
    p.Heaps (h.modifyObject id f) (h'.modifyObject (image p id) f') := by
  have hindex : ∀ a b : ObjectId, a.index = b.index ↔ a = b :=
    fun a b => Heap.index_injective.eq_iff
  refine ⟨fun hwhole => ?_, hp.tidy.modifyObject id f, hp.tidy'.modifyObject _ f', ?_, ?_, ?_,
    hprotos, ?_, ?_, ?_⟩
  · obtain ⟨hfixes, rfl⟩ := hp.same hwhole
    refine ⟨hfixes, ?_⟩
    rw [Carried.image_of_fixes hfixes]
    refine Heap.modifyObject_congr fun o ho => ?_
    have hw : Within p o := by
      obtain ⟨o', ho', -, hw⟩ :=
        hp.object id ((hp.covers hwhole).object id (by rw [ho]; exact Option.some_ne_none o))
      exact Option.some.inj (ho.symm.trans ho') ▸ hw
    have heq := (hf o hw).eq
    rwa [Carried.image_of_fixes hfixes, Carried.image_of_fixes hfixes] at heq
  · intro a ha
    obtain ⟨o, ho, ho', hw⟩ := hp.object a ha
    rw [Heap.object?_modifyObject, Heap.object?_modifyObject, ho, ho']
    by_cases heq : id = a
    · subst heq
      rw [if_pos rfl, if_pos rfl]
      exact ⟨f o, rfl, congrArg some (hf o hw).eq, (hf o hw).within⟩
    · rw [if_neg fun h => heq ((hindex id a).1 h),
        if_neg fun h => heq ((image_objectId_inj p id a).1 ((hindex _ _).1 h))]
      exact ⟨o, rfl, rfl, hw⟩
  · exact hp.scope
  · exact hp.program
  · intro a ha
    obtain ⟨n, hchain⟩ := hp.targets a ha
    have hlinks : (h.modifyObject id f).targetLink = h.targetLink := by
      refine funext fun b => ?_
      rw [Heap.targetLink, Heap.targetLink, Heap.object?_modifyObject]
      split
      · cases h.object? b with
        | none => rfl
        | some o => exact congrArg some (by rw [Heap.targetOf, Heap.targetOf, htarget])
      · rfl
    exact ⟨n, hlinks ▸ hchain⟩
  · exact hp.outers
  · intro hwhole
    have hcovers := hp.covers hwhole
    refine ⟨fun a ha => hcovers.object a fun hnone => ha ?_, hcovers.scope, hcovers.program⟩
    rw [Heap.object?_modifyObject, hnone]
    split <;> rfl

/-- Chains of prototypes do not change when no prototype does. -/
theorem protos_modifyObject (hp : p.Heaps h h') {id : ObjectId} {f : Object → Object}
    (hproto : ∀ o, (f o).proto = o.proto) (a : ObjectId) (ha : Within p a) :
    ∃ n, Chain (h.modifyObject id f).protoLink n a := by
  obtain ⟨n, hchain⟩ := hp.protos a ha
  have hlinks : (h.modifyObject id f).protoLink = h.protoLink := by
    refine funext fun b => ?_
    rw [Heap.protoLink, Heap.protoLink, Heap.object?_modifyObject]
    split
    · cases h.object? b with
      | none => rfl
      | some o => exact congrArg some (hproto o)
    · rfl
  exact ⟨n, hlinks ▸ hchain⟩

theorem modifyScope (hp : p.Heaps h h') {id : ScopeId} {f f' : Scope → Scope}
    (hf : ∀ s, Within p s → p.Pairs (f s) (f' (image p s)))
    (houter : ∀ s, (f s).outer = s.outer) :
    p.Heaps (h.modifyScope id f) (h'.modifyScope (image p id) f') := by
  have hindex : ∀ a b : ScopeId, a.index = b.index ↔ a = b :=
    fun a b => Heap.scopeIndex_injective.eq_iff
  refine ⟨fun hwhole => ?_, hp.tidy.modifyScope id f, hp.tidy'.modifyScope _ f', hp.object, ?_,
    hp.program, hp.protos, hp.targets, ?_, ?_⟩
  · obtain ⟨hfixes, rfl⟩ := hp.same hwhole
    refine ⟨hfixes, ?_⟩
    rw [Carried.image_of_fixes hfixes]
    refine Heap.modifyScope_congr fun s hs => ?_
    have hw : Within p s := by
      obtain ⟨s', hs', -, hw⟩ :=
        hp.scope id ((hp.covers hwhole).scope id (by rw [hs]; exact Option.some_ne_none s))
      exact Option.some.inj (hs.symm.trans hs') ▸ hw
    have heq := (hf s hw).eq
    rwa [Carried.image_of_fixes hfixes, Carried.image_of_fixes hfixes] at heq
  · intro a ha
    obtain ⟨s, hs, hs', hw⟩ := hp.scope a ha
    rw [Heap.scope?_modifyScope, Heap.scope?_modifyScope, hs, hs']
    by_cases heq : id = a
    · subst heq
      rw [if_pos rfl, if_pos rfl]
      exact ⟨f s, rfl, congrArg some (hf s hw).eq, (hf s hw).within⟩
    · rw [if_neg fun h => heq ((hindex id a).1 h),
        if_neg fun h => heq ((image_scopeId_inj p id a).1 ((hindex _ _).1 h))]
      exact ⟨s, rfl, rfl, hw⟩
  · intro a ha
    obtain ⟨n, hchain⟩ := hp.outers a ha
    have hlinks : (h.modifyScope id f).outerLink = h.outerLink := by
      refine funext fun b => ?_
      rw [Heap.outerLink, Heap.outerLink, Heap.scope?_modifyScope]
      split
      · cases h.scope? b with
        | none => rfl
        | some s => exact congrArg some (houter s)
      · rfl
    exact ⟨n, hlinks ▸ hchain⟩
  · intro hwhole
    have hcovers := hp.covers hwhole
    refine ⟨hcovers.object, fun a ha => hcovers.scope a fun hnone => ha ?_, hcovers.program⟩
    rw [Heap.scope?_modifyScope, hnone]
    split <;> rfl

end Pairing.Heaps

end ScriptMachine
