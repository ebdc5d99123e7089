import Mathlib.Data.List.Forall2
import Mathlib.Data.List.Induction
import ScriptMachine.Proofs.Order.Run
import ScriptMachine.Proofs.Restore.Records
import ScriptMachine.Snapshot.Encode

/-!
# A restored machine is grounded

The arenas of a restored machine are those of the second pass, so what the first pass has found is
exactly what there is, and whatever was read names something. A resolver is compared with the
counters of the snapshot from above only.

The first pass numbers the objects and the scopes in the order of their records, and the second
reads them in the same order. So a slot of either arena holds what its own record says, and no slot
stays empty.
-/

namespace ScriptMachine

namespace Snapshot

variable {α : Type} {natives : Natives}

/-! ## Numbers of records -/

/-- The number of an object. -/
def Slot.objectIndex? : Slot → Option Nat
  | .object id => some id.index
  | _ => none

/-- The number of a scope. -/
def Slot.scopeIndex? : Slot → Option Nat
  | .scope id => some id.index
  | _ => none

theorem Slot.objectIndex?_eq_some_iff {slot : Slot} {i : Nat} :
    slot.objectIndex? = some i ↔ slot = .object ⟨i⟩ := by
  constructor
  · intro h
    cases slot <;> cases h
    rfl
  · rintro rfl
    rfl

theorem Slot.scopeIndex?_eq_some_iff {slot : Slot} {i : Nat} :
    slot.scopeIndex? = some i ↔ slot = .scope ⟨i⟩ := by
  constructor
  · intro h
    cases slot <;> cases h
    rfl
  · rintro rfl
    rfl

theorem Slot.objectIndex?_ne_none_iff (slot : Slot) :
    slot.objectIndex? ≠ none ↔ ∃ id, slot = .object id := by
  cases slot <;> simp [objectIndex?]

theorem Slot.scopeIndex?_ne_none_iff (slot : Slot) :
    slot.scopeIndex? ≠ none ↔ ∃ id, slot = .scope id := by
  cases slot <;> simp [scopeIndex?]

/-- The records of a kind with their numbers. -/
def ofKind (index? : Slot → Option Nat) (pairs : List (Json × Slot)) : List (Json × Nat) :=
  pairs.filterMap fun p => (index? p.2).map fun i => (p.1, i)

theorem ofKind_append (index? : Slot → Option Nat) (ps qs : List (Json × Slot)) :
    ofKind index? (ps ++ qs) = ofKind index? ps ++ ofKind index? qs :=
  List.filterMap_append

theorem ofKind_singleton (index? : Slot → Option Nat) (p : Json × Slot) :
    (ofKind index? [p]).map Prod.snd = (index? p.2).toList := by
  cases h : index? p.2 <;> simp [ofKind, h]

theorem mem_ofKind {index? : Slot → Option Nat} {pairs : List (Json × Slot)} {record : Json}
    {i : Nat} : (record, i) ∈ ofKind index? pairs ↔
      ∃ slot, (record, slot) ∈ pairs ∧ index? slot = some i := by
  unfold ofKind
  rw [List.mem_filterMap]
  constructor
  · rintro ⟨⟨_, slot⟩, hmem, heq⟩
    obtain ⟨_, hi, ⟨⟩⟩ := Option.map_eq_some_iff.1 heq
    exact ⟨slot, hmem, hi⟩
  · rintro ⟨slot, hmem, hi⟩
    exact ⟨(record, slot), hmem, by simp [hi]⟩

/-! ## The first pass -/

/-- The records up to a place have their slots, and the objects and the scopes among them are
numbered in order. -/
structure Layout.Lays (records : List Json) (l : Layout) : Prop where
  length : l.slots.size = records.length
  objects : (ofKind Slot.objectIndex? (records.zip l.slots.toList)).map Prod.snd =
    List.range l.objectCount
  scopes : (ofKind Slot.scopeIndex? (records.zip l.slots.toList)).map Prod.snd =
    List.range l.scopeCount
  object : ∀ p ∈ records.zip l.slots.toList,
    (p.2.objectIndex? ≠ none ↔ typeOf p.1 = .ok "Object")
  scope : ∀ p ∈ records.zip l.slots.toList,
    (p.2.scopeIndex? ≠ none ↔ typeOf p.1 = .ok "Scope")

namespace Layout

/-- What a record adds to what was found before it. -/
inductive Adds (record : Json) (l l' : Layout) : Prop
  | object (htype : typeOf record = .ok "Object")
    (hslots : l'.slots = l.slots.push (.object ⟨l.objectCount⟩))
    (hobjects : l'.objectCount = l.objectCount + 1) (hscopes : l'.scopeCount = l.scopeCount)
  | scope (htype : typeOf record = .ok "Scope")
    (hslots : l'.slots = l.slots.push (.scope ⟨l.scopeCount⟩))
    (hobjects : l'.objectCount = l.objectCount) (hscopes : l'.scopeCount = l.scopeCount + 1)
  | other {slot : Slot} (hobject : typeOf record ≠ .ok "Object")
    (hscope : typeOf record ≠ .ok "Scope") (hslot : slot.objectIndex? = none)
    (hslot' : slot.scopeIndex? = none) (hslots : l'.slots = l.slots.push slot)
    (hobjects : l'.objectCount = l.objectCount) (hscopes : l'.scopeCount = l.scopeCount)

theorem adds_of_add {record : Json} {l l' : Layout} (h : l.add record = .ok l') :
    Adds record l l' := by
  obtain ⟨name, htype, h⟩ := bind_eq_ok_iff.1 h
  split at h
  · cases h
    exact .object htype rfl rfl rfl
  · cases h
    exact .scope htype rfl rfl rfl
  · obtain ⟨j, -, h⟩ := bind_eq_ok_iff.1 h
    split at h
    · cases h
      exact .other (by simp [htype]) (by simp [htype]) rfl rfl rfl rfl rfl
    · cases h
  · cases h
    exact .other (by simp [htype]) (by simp [htype]) rfl rfl rfl rfl rfl
  · rename_i hobject hscope _ _
    split at h
    · cases h
      exact .other (by simpa [htype] using hobject) (by simpa [htype] using hscope) rfl rfl rfl
        rfl rfl
    · cases h

/-- A record gets the slot behind the others, with the next number if it is of a kind. -/
theorem Lays.push {records : List Json} {l l' : Layout} (hl : l.Lays records) {record : Json}
    {slot : Slot} (hslots : l'.slots = l.slots.push slot)
    (hobjects : List.range l'.objectCount = List.range l.objectCount ++ slot.objectIndex?.toList)
    (hscopes : List.range l'.scopeCount = List.range l.scopeCount ++ slot.scopeIndex?.toList)
    (hobject : slot.objectIndex? ≠ none ↔ typeOf record = .ok "Object")
    (hscope : slot.scopeIndex? ≠ none ↔ typeOf record = .ok "Scope") :
    l'.Lays (records ++ [record]) := by
  have hzip : (records ++ [record]).zip l'.slots.toList =
      records.zip l.slots.toList ++ [(record, slot)] := by
    rw [hslots, Array.toList_push, List.zip_append (by simp [hl.length])]
    rfl
  constructor
  · simp [hslots, hl.length]
  · rw [hzip, ofKind_append, List.map_append, ofKind_singleton, hl.objects, hobjects]
  · rw [hzip, ofKind_append, List.map_append, ofKind_singleton, hl.scopes, hscopes]
  · rw [hzip]
    exact List.forall_mem_append.2 ⟨hl.object, by simpa using hobject⟩
  · rw [hzip]
    exact List.forall_mem_append.2 ⟨hl.scope, by simpa using hscope⟩

theorem Lays.add {records : List Json} {l l' : Layout} (hl : l.Lays records) {record : Json}
    (h : l.add record = .ok l') : l'.Lays (records ++ [record]) := by
  cases adds_of_add h with
  | object htype hslots hobjects hscopes =>
    refine hl.push hslots ?_ ?_ ?_ ?_
    · rw [hobjects, List.range_succ]
      rfl
    · simp [hscopes, Slot.scopeIndex?]
    · simp [htype, Slot.objectIndex?]
    · simp [htype, Slot.scopeIndex?]
  | scope htype hslots hobjects hscopes =>
    refine hl.push hslots ?_ ?_ ?_ ?_
    · simp [hobjects, Slot.objectIndex?]
    · rw [hscopes, List.range_succ]
      rfl
    · simp [htype, Slot.objectIndex?]
    · simp [htype, Slot.scopeIndex?]
  | other hobject hscope hslot hslot' hslots hobjects hscopes =>
    refine hl.push hslots ?_ ?_ ?_ ?_
    · simp [hobjects, hslot]
    · simp [hscopes, hslot']
    · simp [hobject, hslot]
    · simp [hscope, hslot']

theorem lays_of_foldlM {records : List Json} {l : Layout} (h : records.foldlM add {} = .ok l) :
    l.Lays records := by
  induction records using List.reverseRecOn generalizing l with
  | nil =>
    cases h
    exact ⟨rfl, rfl, rfl, by simp, by simp⟩
  | append_singleton records record ih =>
    rw [List.foldlM_append] at h
    obtain ⟨mid, hmid, hadd⟩ := bind_eq_ok_iff.1 h
    obtain ⟨l', hl', heq⟩ := bind_eq_ok_iff.1 hadd
    cases heq
    exact (ih hmid).add hl'

/-- What a reference leads to was found. -/
theorem Lays.numbered (natives : Natives) {records : List Json} {l : Layout}
    (hl : l.Lays records) : l.Numbered natives := by
  have hbound {index? : Slot → Option Nat} {n : Nat}
      (hcount : (ofKind index? (records.zip l.slots.toList)).map Prod.snd = List.range n)
      {slot : Slot} (hslot : slot ∈ l.slots) {i : Nat} (hi : index? slot = some i) : i < n := by
    obtain ⟨k, hk, rfl⟩ := Array.mem_iff_getElem.1 hslot
    have hrecord : k < records.length := hl.length ▸ hk
    have hmem : (records[k], l.slots[k]) ∈ records.zip l.slots.toList :=
      List.mem_of_getElem? (i := k) (by simp [List.getElem?_zip_eq_some, hrecord, hk])
    have hrange : i ∈ List.range n := hcount ▸ List.mem_map_of_mem (mem_ofKind.2 ⟨_, hmem, hi⟩)
    exact List.mem_range.1 hrange
  intro slot hslot
  cases slot with
  | object id => exact hbound hl.objects hslot rfl
  | scope id => exact hbound hl.scopes hslot rfl
  | root => trivial
  | program id => trivial
  | thread => trivial

end Layout

/-! ## The second pass -/

/-- An arena holds what the records of a kind are read as, in their order. -/
def Filled (read : Json → Decoding α) (records : List (Json × Nat)) (arena : Array (Option α)) :
    Prop :=
  List.Forall₂ (fun record slot => ∃ x, read record.1 = .ok x ∧ slot = some x) records
    arena.toList

theorem Filled.push {read : Json → Decoding α} {records : List (Json × Nat)}
    {arena : Array (Option α)} (h : Filled read records arena) {record : Json × Nat} {x : α}
    (hx : read record.1 = .ok x) : Filled read (records ++ [record]) (arena.push (some x)) := by
  rw [Filled, Array.toList_push]
  exact List.rel_append h (.cons ⟨x, hx, rfl⟩ .nil)

/-- Once the numbers count from zero, the slot with the number of a record holds what the record is
read as. -/
theorem Filled.get {read : Json → Decoding α} {index? : Slot → Option Nat}
    {pairs : List (Json × Slot)} {arena : Array (Option α)} {n : Nat}
    (h : Filled read (ofKind index? pairs) arena)
    (hcount : (ofKind index? pairs).map Prod.snd = List.range n) {record : Json} {slot : Slot}
    {i : Nat} (hmem : (record, slot) ∈ pairs) (hi : index? slot = some i) :
    ∃ x, read record = .ok x ∧ arena[i]? = some (some x) := by
  obtain ⟨k, hk, hget⟩ := List.mem_iff_getElem.1 (mem_ofKind.2 ⟨slot, hmem, hi⟩)
  -- The entry with the number `i` stands at the place `i`.
  obtain rfl : k = i := by
    have hentry : (ofKind index? pairs)[k]? = some (record, i) :=
      List.getElem?_eq_some_iff.2 ⟨hk, hget⟩
    have hnumber : (List.range n)[k]? = some i := by
      rw [← hcount, List.getElem?_map, hentry]
      rfl
    simpa using (List.getElem?_eq_some_iff.1 hnumber).2
  have hk' : k < arena.toList.length := List.Forall₂.length_eq h ▸ hk
  obtain ⟨x, hx, harena⟩ := List.Forall₂.get h hk hk'
  rw [List.get_eq_getElem, hget] at hx
  refine ⟨x, hx, ?_⟩
  rw [← Array.getElem?_toList, List.getElem?_eq_getElem hk']
  exact congrArg some harena

theorem Filled.size_eq {read : Json → Decoding α} {index? : Slot → Option Nat}
    {pairs : List (Json × Slot)} {arena : Array (Option α)} {n : Nat}
    (h : Filled read (ofKind index? pairs) arena)
    (hcount : (ofKind index? pairs).map Prod.snd = List.range n) : arena.size = n := by
  have hlength := congrArg List.length hcount
  rw [List.length_map, List.length_range, List.Forall₂.length_eq h] at hlength
  simpa using hlength

/-- Each number belongs to a record. -/
theorem exists_record {index? : Slot → Option Nat} {pairs : List (Json × Slot)} {n : Nat}
    (hcount : (ofKind index? pairs).map Prod.snd = List.range n) {i : Nat} (hi : i < n) :
    ∃ record slot, (record, slot) ∈ pairs ∧ index? slot = some i := by
  have hmem : i ∈ (ofKind index? pairs).map Prod.snd := hcount ▸ List.mem_range.2 hi
  obtain ⟨⟨record, _⟩, he, rfl⟩ := List.mem_map.1 hmem
  obtain ⟨slot, hslot⟩ := mem_ofKind.1 he
  exact ⟨record, slot, hslot⟩

/-- The objects and the scopes of some records are where they belong. -/
structure Contents.Holds (natives : Natives) (l : Layout) (pairs : List (Json × Slot))
    (c : Contents) : Prop where
  objects : Filled (l.objectOf natives) (ofKind Slot.objectIndex? pairs) c.objects
  scopes : Filled l.scopeOf (ofKind Slot.scopeIndex? pairs) c.scopes

theorem Contents.Holds.add {l : Layout} {pairs : List (Json × Slot)} {c c' : Contents}
    (hc : c.Holds natives l pairs) {p : Json × Slot} (h : c.add natives l p = .ok c') :
    c'.Holds natives l (pairs ++ [p]) := by
  obtain ⟨record, slot⟩ := p
  cases slot with
  | object id =>
    obtain ⟨o, ho, heq⟩ := bind_eq_ok_iff.1 h
    cases heq
    refine ⟨?_, ?_⟩ <;> rw [ofKind_append]
    · exact hc.objects.push ho
    · simpa [ofKind, Slot.scopeIndex?] using hc.scopes
  | scope id =>
    obtain ⟨s, hs, heq⟩ := bind_eq_ok_iff.1 h
    cases heq
    refine ⟨?_, ?_⟩ <;> rw [ofKind_append]
    · simpa [ofKind, Slot.objectIndex?] using hc.objects
    · exact hc.scopes.push hs
  | root | program id | thread =>
    cases h
    refine ⟨?_, ?_⟩ <;> rw [ofKind_append]
    · simpa [ofKind, Slot.objectIndex?] using hc.objects
    · simpa [ofKind, Slot.scopeIndex?] using hc.scopes

theorem holds_of_foldlM {l : Layout} {pairs : List (Json × Slot)} {c : Contents}
    (h : pairs.foldlM (Contents.add natives l) {} = .ok c) : c.Holds natives l pairs := by
  induction pairs using List.reverseRecOn generalizing c with
  | nil =>
    cases h
    exact ⟨.nil, .nil⟩
  | append_singleton pairs p ih =>
    rw [List.foldlM_append] at h
    obtain ⟨mid, hmid, hadd⟩ := bind_eq_ok_iff.1 h
    obtain ⟨c', hc', heq⟩ := bind_eq_ok_iff.1 hadd
    cases heq
    exact (ih hmid).add hc'

/-! ## Resolvers -/

variable {natives : Natives}

/-- The resolver and the thread that an entry of the list names. -/
def listed? : Json → Option (Nat × ThreadId)
  | .arr [id, thread] => do return (← id.word64?, ⟨← thread.word64?⟩)
  | _ => none

/-- The resolvers that the record of the machine lists. Of two with the same number the later one
counts. -/
def listedResolvers (root : Json) : List (Nat × ThreadId) :=
  ((root.field "pendingResolvers").itemList.filterMap listed?).foldl
    (fun rs r => insertResolver r rs) []

theorem mem_insertResolver {r s : Nat × ThreadId} {rs : List (Nat × ThreadId)}
    (h : s ∈ insertResolver r rs) : s = r ∨ s ∈ rs := by
  induction rs with
  | nil => simpa [insertResolver] using h
  | cons t rest ih =>
    rw [insertResolver] at h
    split at h
    · simpa using h
    · split at h
      · obtain heq | hmem := List.mem_cons.1 h
        · exact .inl heq
        · exact .inr (List.mem_cons_of_mem _ hmem)
      · obtain heq | hmem := List.mem_cons.1 h
        · exact .inr (heq ▸ List.mem_cons_self)
        · exact (ih hmem).imp id (List.mem_cons_of_mem _)

theorem yields_integer (j : Json) : Yields (fun n => j.word64? = some n) (integer j) := by
  unfold integer
  split
  · rename_i hj
    exact yields_pure hj
  · exact yields_refuse _

theorem lt_of_word64? {j : Json} {n : Nat} (h : j.word64? = some n) : n < Nat.pow 2 64 := by
  unfold Json.word64? Json.natBelow? at h
  split at h
  · split at h
    · cases h
      assumption
    · cases h
  · cases h

/-- The field of a counter holds a number of 64 bits. -/
theorem yields_integerField (record : Json) (name : String) :
    Yields (· < Nat.pow 2 64) (integerField record name) :=
  .after fun j => fun n hn => lt_of_word64? (yields_integer j n hn)

theorem yields_array (j : Json) : Yields (fun items => j = .arr items) (array j) := by
  unfold array
  split
  · exact yields_pure rfl
  · exact yields_refuse _

theorem yields_field (record : Json) (name : String) :
    Yields (fun j => record.field? name = some j) (field record name) := by
  unfold field
  split
  · rename_i hj
    exact yields_pure hj
  · exact yields_refuse _

theorem yields_resolver (nextThread nextResolver : Nat) (j : Json) :
    Yields (fun r => listed? j = some r ∧ r.1 < nextResolver ∧ r.2.index < nextThread)
      (resolver nextThread nextResolver j) := by
  unfold resolver
  refine (yields_array j).bind fun items hj => ?_
  subst hj
  split
  · refine (yields_integer _).bind fun id hid => (yields_integer _).bind fun thread hthread => ?_
    split
    · exact yields_refuse _
    · rename_i hcounted
      refine yields_pure ⟨by simp [listed?, hid, hthread], ?_⟩
      simpa [and_comm] using hcounted
  · exact yields_refuse _

/-- The list of resolvers is read entry by entry. -/
theorem yields_resolvers (nextThread nextResolver : Nat) (entries : List Json)
    (start : List (Nat × ThreadId))
    (hstart : ∀ r ∈ start, r.1 < nextResolver ∧ r.2.index < nextThread) :
    Yields (fun rs => (∀ r ∈ rs, r.1 < nextResolver ∧ r.2.index < nextThread) ∧
        rs = (entries.filterMap listed?).foldl (fun rs r => insertResolver r rs) start)
      (entries.foldlM (fun rs j => do
        return insertResolver (← resolver nextThread nextResolver j) rs) start) := by
  induction entries generalizing start with
  | nil => exact yields_pure ⟨hstart, rfl⟩
  | cons j rest ih =>
    rw [List.foldlM_cons, bind_assoc]
    refine (yields_resolver nextThread nextResolver j).bind fun r ⟨hentry, hcounted⟩ => ?_
    rw [pure_bind, List.filterMap_cons_some hentry, List.foldl_cons]
    refine ih (insertResolver r start) fun s hs => ?_
    obtain rfl | hmem := mem_insertResolver hs
    · exact hcounted
    · exact hstart s hmem

/-! ## The image -/

/-- What an image holds besides its heap is grounded, and its resolvers are those of the record. -/
structure Image.Read (natives : Natives) (l : Layout) (root : Json) (heap : Heap) (i : Image) :
    Prop where
  heap : i.heap = heap
  globalScope : Grounded (l.referents natives) i.globalScope
  rootOwner : Grounded (l.referents natives) i.rootOwner
  builtins : Grounded (l.referents natives) i.builtins
  threads : Grounded (l.referents natives) i.threads
  listed : i.pendingResolvers = listedResolvers root
  counted : ∀ r ∈ i.pendingResolvers, r.1 < i.nextResolverId ∧ r.2.index < i.nextThreadId
  counters : i.nextThreadId < Nat.pow 2 64 ∧ i.nextQueued < Nat.pow 2 64 ∧ i.nextResolverId < Nat.pow 2 64

theorem yields_image {l : Layout} (hl : l.Numbered natives) (records : Array Json) (root : Json)
    (heap : Heap) : Yields (Image.Read natives l root heap) (image l records root heap) := by
  refine .after fun _ => .after fun entries => ?_
  refine (yields_fill (l.referents natives) (fun e t ht => ?_) entries).bind fun _ hbuiltins => ?_
  · exact (Layout.yields_value hl e.2).bind fun _ hv => yields_pure (grounded_insert ht hv e.1)
  refine .after fun _ => .after fun items => ?_
  refine (Layout.yields_threads hl records items).bind fun _ hthreads => ?_
  refine (yields_integerField _ _).bind fun nextThread hthread => ?_
  refine (yields_integerField _ _).bind fun nextResolver hresolver => ?_
  refine (yields_field _ _).bind fun j hj => (yields_array j).bind fun items hitems => ?_
  refine (yields_resolvers nextThread nextResolver items [] (by simp)).bind fun rs hrs => ?_
  refine .after fun _ => .after fun status => .after fun _ => .after fun clock => .after fun _ => ?_
  refine (Layout.yields_scope hl _).bind fun _ hscope => .after fun _ => ?_
  refine (Layout.yields_object hl _).bind fun _ howner => ?_
  refine (yields_integerField _ _).bind fun _ hqueued => yields_pure ?_
  exact
    { heap := rfl
      globalScope := hscope
      rootOwner := howner
      builtins := hbuiltins
      threads := hthreads
      listed := by
        rw [listedResolvers, Json.field, hj, hitems]
        exact hrs.2
      counted := hrs.1
      counters := ⟨hthread, hqueued, hresolver⟩ }

/-- The heap of the second pass. -/
def heapOf (threshold serial : Nat) (l : Layout) (c : Contents) : Heap where
  objects := c.objects
  scopes := c.scopes
  programs := l.programs
  allocsSinceGc := l.objectCount + l.scopeCount
  gcThreshold := threshold
  serial := serial

/-- What a snapshot that is not refused went through. -/
structure Decoded (natives : Natives) (threshold serial : Nat) (records : List Json) (l : Layout)
    (c : Contents) (i : Image) : Prop where
  lays : l.Lays records
  holds : c.Holds natives l (records.zip l.slots.toList)
  read : i.Read natives l (records.headD .null) (heapOf threshold serial l c)

theorem decoded_of_decode {threshold serial : Nat} {j : Json} {i : Image}
    (h : decode natives threshold serial j = .ok i) :
    ∃ records l c, j = .arr records ∧ Decoded natives threshold serial records l c i := by
  unfold decode at h
  split at h
  · cases h
  · rename_i root rest
    obtain ⟨-, -, h⟩ := bind_eq_ok_iff.1 h
    obtain ⟨l, hfirst, h⟩ := bind_eq_ok_iff.1 h
    obtain ⟨c, hsecond, h⟩ := bind_eq_ok_iff.1 h
    have hlays := Layout.lays_of_foldlM hfirst
    exact ⟨root :: rest, l, c, rfl, hlays, holds_of_foldlM hsecond,
      yields_image (hlays.numbered natives) _ _ _ i h⟩
  · cases h

namespace Decoded

variable {threshold serial : Nat} {records : List Json} {l : Layout} {c : Contents} {i : Image}

/-- The objects are what the records of objects are read as. -/
theorem object?_eq_some_iff (h : Decoded natives threshold serial records l c i) {id : ObjectId}
    {o : Object} : i.heap.object? id = some o ↔
      ∃ record, (record, .object id) ∈ records.zip l.slots.toList ∧
        l.objectOf natives record = .ok o := by
  rw [Heap.object?_eq_some_iff, h.read.heap]
  constructor
  · intro ho
    have hlt : id.index < l.objectCount :=
      h.holds.objects.size_eq h.lays.objects ▸ (Array.getElem?_eq_some_iff.1 ho).1
    obtain ⟨record, slot, hmem, hslot⟩ := exists_record h.lays.objects hlt
    obtain ⟨o', hread, hget⟩ := h.holds.objects.get h.lays.objects hmem hslot
    obtain rfl : o' = o := Option.some.inj (Option.some.inj (hget.symm.trans ho))
    exact ⟨record, Slot.objectIndex?_eq_some_iff.1 hslot ▸ hmem, hread⟩
  · rintro ⟨record, hmem, hread⟩
    obtain ⟨o', hread', hget⟩ := h.holds.objects.get h.lays.objects hmem rfl
    obtain rfl : o' = o := Except.ok.inj (hread'.symm.trans hread)
    exact hget

/-- The scopes are what the records of scopes are read as. -/
theorem scope?_eq_some_iff (h : Decoded natives threshold serial records l c i) {id : ScopeId}
    {s : Scope} : i.heap.scope? id = some s ↔
      ∃ record, (record, .scope id) ∈ records.zip l.slots.toList ∧ l.scopeOf record = .ok s := by
  rw [Heap.scope?_eq_some_iff, h.read.heap]
  constructor
  · intro hs
    have hlt : id.index < l.scopeCount :=
      h.holds.scopes.size_eq h.lays.scopes ▸ (Array.getElem?_eq_some_iff.1 hs).1
    obtain ⟨record, slot, hmem, hslot⟩ := exists_record h.lays.scopes hlt
    obtain ⟨s', hread, hget⟩ := h.holds.scopes.get h.lays.scopes hmem hslot
    obtain rfl : s' = s := Option.some.inj (Option.some.inj (hget.symm.trans hs))
    exact ⟨record, Slot.scopeIndex?_eq_some_iff.1 hslot ▸ hmem, hread⟩
  · rintro ⟨record, hmem, hread⟩
    obtain ⟨s', hread', hget⟩ := h.holds.scopes.get h.lays.scopes hmem rfl
    obtain rfl : s' = s := Except.ok.inj (hread'.symm.trans hread)
    exact hget

theorem exists_object_iff (h : Decoded natives threshold serial records l c i) (id : ObjectId) :
    (∃ o, i.heap.object? id = some o) ↔ id.index < l.objectCount := by
  constructor
  · rintro ⟨o, ho⟩
    obtain ⟨record, hmem, -⟩ := h.object?_eq_some_iff.1 ho
    exact h.lays.numbered natives _ (Array.mem_toList_iff.1 (List.of_mem_zip hmem).2)
  · intro hlt
    obtain ⟨record, slot, hmem, hslot⟩ := exists_record h.lays.objects hlt
    obtain ⟨o, hread, -⟩ := h.holds.objects.get h.lays.objects hmem hslot
    obtain rfl := Slot.objectIndex?_eq_some_iff.1 hslot
    exact ⟨o, h.object?_eq_some_iff.2 ⟨record, hmem, hread⟩⟩

theorem exists_scope_iff (h : Decoded natives threshold serial records l c i) (id : ScopeId) :
    (∃ s, i.heap.scope? id = some s) ↔ id.index < l.scopeCount := by
  constructor
  · rintro ⟨s, hs⟩
    obtain ⟨record, hmem, -⟩ := h.scope?_eq_some_iff.1 hs
    exact h.lays.numbered natives _ (Array.mem_toList_iff.1 (List.of_mem_zip hmem).2)
  · intro hlt
    obtain ⟨record, slot, hmem, hslot⟩ := exists_record h.lays.scopes hlt
    obtain ⟨s, hread, -⟩ := h.holds.scopes.get h.lays.scopes hmem hslot
    obtain rfl := Slot.scopeIndex?_eq_some_iff.1 hslot
    exact ⟨s, h.scope?_eq_some_iff.2 ⟨record, hmem, hread⟩⟩

/-- What the first pass has found is what there is. -/
theorem referents_eq (h : Decoded natives threshold serial records l c i) :
    i.heap.referents natives = l.referents natives := by
  have hprograms : i.heap.programs = l.programs := by
    rw [h.read.heap]
    rfl
  unfold Heap.referents Layout.referents Heap.program?
  rw [hprograms]
  simp only [h.exists_object_iff, h.exists_scope_iff]

end Decoded

end Snapshot

namespace Machine

/-- The machine holds what the image says. -/
structure Shows (m : Machine) (i : Snapshot.Image) : Prop where
  heap : m.heap = i.heap
  globalScope : m.globalScope = i.globalScope
  rootOwner : m.rootOwner = i.rootOwner
  builtins : m.builtins = i.builtins
  threads : m.threads = i.threads
  pendingResolvers : m.pendingResolvers = i.pendingResolvers
  nextResolverId : m.nextResolverId = i.nextResolverId
  nextThreadId : m.nextThreadId = i.nextThreadId
  nextQueued : m.nextQueued = i.nextQueued
  earlySettlements : m.earlySettlements = []

theorem shows_of_restore {natives : Natives} {j : Json} {m m' : Machine}
    (h : restore natives j m = .ok () m') :
    ∃ threshold serial records l c i, j = .arr records ∧
      Snapshot.Decoded natives threshold serial records l c i ∧ m'.Shows i := by
  obtain ⟨i, mid, hquery, hinstall⟩ := Exec.bind_eq_ok_iff.1 h
  obtain ⟨hdecode, hmid⟩ := Exec.query_eq_ok_iff.1 hquery
  subst hmid
  obtain ⟨records, l, c, hj, hdecoded⟩ := Snapshot.decoded_of_decode hdecode
  cases hinstall
  exact ⟨_, _, records, l, c, i, hj, hdecoded, rfl, rfl, rfl, rfl, rfl, rfl, rfl, rfl, rfl, rfl⟩

theorem Shows.grounded {natives : Natives} {threshold serial : Nat} {records : List Json}
    {l : Snapshot.Layout} {c : Snapshot.Contents} {i : Snapshot.Image} {m : Machine}
    (hm : m.Shows i) (hi : Snapshot.Decoded natives threshold serial records l c i) :
    GroundedMachine natives m := by
  have hreferents : m.heap.referents natives = l.referents natives := by
    rw [hm.heap, hi.referents_eq]
  have hnumbered := hi.lays.numbered natives
  refine
    { globalScope := ?_, rootOwner := ?_, builtins := ?_, objects := fun id o ho => ?_
      scopes := fun id s hs => ?_, threads := ?_, pins := ?_ } <;> rw [hreferents]
  · exact hm.globalScope ▸ hi.read.globalScope
  · exact hm.rootOwner ▸ hi.read.rootOwner
  · exact hm.builtins ▸ hi.read.builtins
  · obtain ⟨record, -, hread⟩ := hi.object?_eq_some_iff.1 (hm.heap ▸ ho)
    exact Snapshot.Layout.yields_objectOf hnumbered record o hread
  · obtain ⟨record, -, hread⟩ := hi.scope?_eq_some_iff.1 (hm.heap ▸ hs)
    exact Snapshot.Layout.yields_scopeOf hnumbered record s hread
  · exact hm.threads ▸ hi.read.threads
  · rw [hm.heap, hi.read.heap]
    intro id hid
    cases hid

/-- A snapshot that is restored lets no handle in that names nothing. Its resolvers are below the
counters, so they were issued exactly when the snapshot lists none with the number zero and none
for a thread with the number zero, which no counter hands out. -/
theorem restore_grounded {natives : Natives} {j : Json} {m m' : Machine}
    (h : restore natives j m = .ok () m') :
    GroundedMachine natives m' ∧
    (∀ r ∈ m'.pendingResolvers, r.1 < m'.nextResolverId ∧ r.2.index < m'.nextThreadId) ∧
    ((∀ r ∈ m'.pendingResolvers, m'.Issued r) ↔
      ∀ r ∈ Snapshot.listedResolvers (j.itemList.headD .null), 1 ≤ r.1 ∧ 1 ≤ r.2.index) := by
  obtain ⟨threshold, serial, records, l, c, i, rfl, hdecoded, hshows⟩ := shows_of_restore h
  have hcounted : ∀ r ∈ m'.pendingResolvers,
      r.1 < m'.nextResolverId ∧ r.2.index < m'.nextThreadId := by
    rw [hshows.pendingResolvers, hshows.nextResolverId, hshows.nextThreadId]
    exact hdecoded.read.counted
  have hlisted : m'.pendingResolvers = Snapshot.listedResolvers (records.headD .null) := by
    rw [hshows.pendingResolvers, hdecoded.read.listed]
  refine ⟨hshows.grounded hdecoded, hcounted, ?_⟩
  change _ ↔ ∀ r ∈ Snapshot.listedResolvers (records.headD .null), _
  rw [← hlisted]
  constructor
  · intro hissued r hr
    exact ⟨(hissued r hr).1.1, (hissued r hr).2.1⟩
  · intro hpositive r hr
    exact ⟨⟨(hpositive r hr).1, (hcounted r hr).1⟩, (hpositive r hr).2, (hcounted r hr).2⟩

/-- The record of a machine without threads, with its global scope and its root owner at given
places. -/
def idleRecord (scope owner : Nat) (pendingResolvers : List Json) : Json :=
  .obj
    [("type", .str "Interpreter"), ("version", .int 1), ("clock", .int 0),
     ("globalScope", Snapshot.reference scope), ("rootOwner", Snapshot.reference owner),
     ("builtins", .obj []), ("threads", .arr []), ("nextThreadId", .int 1),
     ("pendingResolvers", .arr pendingResolvers), ("nextResolverId", .int 1),
     ("nextQueued", .int 1), ("status", .str "running")]

/-- The record of a scope without bindings. -/
def scopeRecord (outer : Json) : Json :=
  .obj
    [("type", .str "Scope"), ("kind", .str "Global"), ("owner", .null), ("outer", outer),
     ("this", .null), ("immutable", .arr []), ("bindings", .obj [])]

/-- The record of an object without properties. -/
def objectRecord (proto : Json) (function : List (String × Json)) : Json :=
  .obj ([("type", .str "Object"), ("class", .str "Object"), ("owner", .null), ("proto", proto)] ++
    function)

/-- The field of an object that binds another. -/
def boundField (target : Nat) : String × Json :=
  ("function", .obj [("kind", .str "bound"), ("target", Snapshot.reference target), ("this", .null),
    ("args", .arr [])])

/-- The record of a running machine with threads. -/
def busyRecord (threads : List Json) (nextThreadId nextQueued : Int) : Json :=
  .obj
    [("type", .str "Interpreter"), ("version", .int 1), ("clock", .int 0),
     ("globalScope", Snapshot.reference 1), ("rootOwner", Snapshot.reference 2),
     ("builtins", .obj []), ("threads", .arr threads), ("nextThreadId", .int nextThreadId),
     ("pendingResolvers", .arr []), ("nextResolverId", .int 1), ("nextQueued", .int nextQueued),
     ("status", .str "running")]

/-- The record of a thread that can run, with its lowest frame first. -/
def threadRecord (id queued : Int) (stack : List Json) : Json :=
  .obj
    [("type", .str "Thread"), ("id", .int id), ("status", .str "ready"), ("timeLimit", .null),
     ("runAt", .int 0), ("queued", .int queued), ("keepOutcome", .bool true), ("outcome", .null),
     ("stack", .arr stack)]

/-- The record of a frame without a node. -/
def frameRecord (info : List (String × Json)) (value : Json) : Json :=
  .obj
    [("scope", Snapshot.reference 1), ("node", .null), ("step", .int 0), ("wantRef", .bool false),
     ("value", value), ("ref", .null), ("labels", .arr []), ("isLoop", .bool false),
     ("isSwitch", .bool false), ("info", .obj info)]

/-- What a frame holds of a call of nothing. -/
def callRecord (phase : String) : List (String × Json) :=
  [("kind", .str "call"), ("phase", .str phase), ("func", .null), ("this", .null),
   ("args", .arr []), ("construct", .bool false), ("nativePhase", .int 0), ("scratch", .arr []),
   ("newObject", .null)]

/-- A snapshot of a machine that waits, in a call of nothing, for the resolver it has issued. -/
def waitingSnapshot : Json :=
  .arr
    [.obj
      [("type", .str "Interpreter"), ("version", .int 1), ("clock", .int 0),
       ("globalScope", Snapshot.reference 1), ("rootOwner", Snapshot.reference 2),
       ("builtins", .obj []), ("threads", .arr [Snapshot.reference 3]), ("nextThreadId", .int 2),
       ("pendingResolvers", .arr [.arr [.int 1, .int 1]]), ("nextResolverId", .int 2),
       ("nextQueued", .int 2), ("status", .str "running")],
     scopeRecord .null, objectRecord .null [],
     .obj
      [("type", .str "Thread"), ("id", .int 1), ("status", .str "blocked"), ("timeLimit", .null),
       ("runAt", .int 0), ("queued", .int 1), ("keepOutcome", .bool true), ("outcome", .null),
       ("stack", .arr [frameRecord (callRecord "blocked") .null])]]

theorem restore_grounded_waiting : ∃ j m m', restore waitingNatives j m = .ok () m' ∧
    (m'.threads.map fun t => t.status) = [.blocked] ∧ m'.pendingResolvers = [(1, ⟨1⟩)] ∧
    GroundedMachine waitingNatives m' := by
  have hchecks : (ran? (restore waitingNatives waitingSnapshot) {}).any (fun m' => decide
      ((m'.threads.map fun t => t.status) = [.blocked] ∧
        m'.pendingResolvers = [(1, ⟨1⟩)])) = true := by
    decide +kernel
  obtain ⟨m', hm', hchecks⟩ := (Option.any_eq_true _ _).1 hchecks
  have hrestore := ok_of_ran? hm'
  obtain ⟨hstatus, hresolvers⟩ := of_decide_eq_true hchecks
  exact ⟨waitingSnapshot, {}, m', hrestore, hstatus, hresolvers, (restore_grounded hrestore).1⟩

/-- A snapshot of a machine that has issued nothing yet, with a pending resolver. -/
def unissuedResolver : Json :=
  .arr [idleRecord 1 2 [.arr [.int 0, .int 0]], scopeRecord .null, objectRecord .null []]

/-- A resolver that was never issued is let in. -/
theorem unissued_resolver_restored : ∃ m m', create {} {} = .ok m ∧
    restore Builtin.natives unissuedResolver m = .ok () m' ∧
    m'.pendingResolvers = [(0, ⟨0⟩)] ∧ m'.nextResolverId = 1 ∧ m'.nextThreadId = 1 ∧
    ¬ ∀ r ∈ m'.pendingResolvers, m'.Issued r := by
  have hchecks : ((create {} {}).toOption.bind
      (ran? (restore Builtin.natives unissuedResolver))).any (fun m' => decide
        (m'.pendingResolvers = [(0, ⟨0⟩)] ∧ m'.nextResolverId = 1 ∧ m'.nextThreadId = 1)) = true := by
    rw [toOption_create]
    decide +kernel
  obtain ⟨m', hm', hchecks⟩ := (Option.any_eq_true _ _).1 hchecks
  obtain ⟨m, hm, hrestored⟩ := Option.bind_eq_some_iff.1 hm'
  obtain ⟨hpending, hresolver, hthread⟩ := of_decide_eq_true hchecks
  refine ⟨m, m', create_of_toOption hm, ok_of_ran? hrestored, hpending, hresolver,
    hthread, fun hissued => ?_⟩
  have hmem : (0, ⟨0⟩) ∈ m'.pendingResolvers := hpending ▸ List.mem_singleton_self _
  exact Nat.not_succ_le_zero 0 (hissued _ hmem).1.1

end Machine

end ScriptMachine
