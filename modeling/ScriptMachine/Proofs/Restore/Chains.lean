import ScriptMachine.Proofs.Pairing.Heap
import ScriptMachine.Proofs.Restore.Image

/-!
# Chains of a restored machine

Prototypes, scopes and bound functions of a restored machine are linked as the records of its
snapshot are. Nothing looks for cycles among them, so every chain ends exactly when every chain of
records does; walks along chains that end do not depend on how many steps they may take.
-/

namespace ScriptMachine

/-! ## Links that end -/

section Links

variable {α β : Type} {link : α → Option (Option α)} {link' : β → Option (Option β)}

/-- Every chain of links ends. -/
def LinksEnd (link : α → Option (Option α)) : Prop := ∀ a, link a ≠ none → ∃ n, Chain link n a

/-- A chain that is found elsewhere ends where it was found. -/
theorem Chain.reflect {σ : α → β} {n : Nat} {b : β} (h : Chain link' n b) {a : α} (ha : σ a = b)
    (hlive : link a ≠ none) (hnext : ∀ a c, link a = some (some c) → link c ≠ none)
    (hlink : ∀ a, link a ≠ none → link' (σ a) = (link a).map (Option.map σ)) :
    Chain link n a := by
  induction h generalizing a with
  | last hb =>
    rw [← ha, hlink a hlive] at hb
    obtain ⟨next, hnext, hnone⟩ := Option.map_eq_some_iff.1 hb
    rw [Option.map_eq_none_iff.1 hnone] at hnext
    exact .last hnext
  | next hb _ ih =>
    rw [← ha, hlink a hlive] at hb
    obtain ⟨next, ha', hsome⟩ := Option.map_eq_some_iff.1 hb
    obtain ⟨c, rfl, hc⟩ := Option.map_eq_some_iff.1 hsome
    exact .next ha' (ih hc (hnext a c ha'))

/-- Links that are found elsewhere, each of them, end there exactly when they end here. -/
theorem linksEnd_iff (σ : α → β)
    (hlink : ∀ a, link a ≠ none → link' (σ a) = (link a).map (Option.map σ))
    (hnext : ∀ a c, link a = some (some c) → link c ≠ none)
    (hfound : ∀ b, link' b ≠ none → ∃ a, link a ≠ none ∧ σ a = b) :
    LinksEnd link' ↔ LinksEnd link := by
  constructor
  · intro h a ha
    have hlive : link' (σ a) ≠ none := by
      rw [hlink a ha]
      simpa using ha
    obtain ⟨n, hchain⟩ := h (σ a) hlive
    exact ⟨n, hchain.reflect rfl ha hnext hlink⟩
  · intro h b hb
    obtain ⟨a, ha, rfl⟩ := hfound b hb
    obtain ⟨n, hchain⟩ := h a ha
    exact ⟨n, hchain.transfer σ ha (fun a c _ => hnext a c) hlink⟩

/-- Something that links to itself is not on a chain that ends. -/
theorem not_linksEnd_of_loop {a : α} (h : link a = some (some a)) : ¬ LinksEnd link := by
  intro hends
  obtain ⟨n, hchain⟩ := hends a (by simp [h])
  have := hchain.unique (.next h hchain)
  omega

/-- Links that only lead back to earlier places end. -/
theorem linksEnd_of_backward {link : Nat → Option (Option Nat)} {size : Nat}
    (hsize : ∀ a, size ≤ a → link a = none)
    (hback : ∀ a < size, ∀ b ∈ (link a).join, b < a ∧ link b ≠ none) : LinksEnd link := by
  intro a
  induction a using Nat.strongRecOn with
  | ind a ih =>
    intro hlive
    have hlt : a < size := by
      refine Nat.lt_of_not_le fun hle => hlive (hsize a hle)
    obtain ⟨next, hlink⟩ := Option.ne_none_iff_exists'.1 hlive
    cases next with
    | none => exact ⟨0, .last hlink⟩
    | some b =>
      obtain ⟨hb, hnext⟩ := hback a hlt b (by simp [hlink])
      obtain ⟨n, hchain⟩ := ih b hb hnext
      exact ⟨n + 1, .next hlink hchain⟩

end Links

/-! ## Walks -/

section Walks

variable {α β : Type} {link : α → Option (Option α)} {walk : Nat → α → β}

/-- A walk follows links: what it gives at a slot is put together from what is there and from what
it gives at the next slot, with one step less to take. -/
structure Follows (link : α → Option (Option α)) (walk : Nat → α → β) : Prop where
  free : ∀ a, link a = none → ∀ i k, walk (i + 1) a = walk (k + 1) a
  next : ∀ a next, link a = some next → ∀ i k, (∀ b, next = some b → walk i b = walk k b) →
    walk (i + 1) a = walk (k + 1) a

theorem Follows.eq_of_chain (hwalk : Follows link walk) {n : Nat} {a : α} (h : Chain link n a) :
    ∀ i k, n ≤ i → n ≤ k → walk (i + 1) a = walk (k + 1) a := by
  induction h with
  | last hlink => exact fun i k _ _ => hwalk.next _ _ hlink i k fun _ hb => by cases hb
  | next hlink _ ih =>
    intro i k hi hk
    refine hwalk.next _ _ hlink i k fun _ hb => ?_
    cases hb
    obtain ⟨i, rfl⟩ := Nat.exists_eq_add_of_lt hi
    obtain ⟨k, rfl⟩ := Nat.exists_eq_add_of_lt hk
    exact ih _ _ (by omega) (by omega)

/-- Where links end, a walk gives the same with any number of steps that is large enough. -/
theorem Follows.eq_of_linksEnd (hwalk : Follows link walk) (hends : LinksEnd link) {size : Nat}
    (hsize : ∀ {n a}, Chain link n a → n < size) (a : α) (more : Nat) :
    walk (size + 1 + more) a = walk (size + 1) a := by
  rw [Nat.add_right_comm]
  cases hlink : link a with
  | none => exact hwalk.free a hlink _ _
  | some next =>
    obtain ⟨n, hchain⟩ := hends a (by simp [hlink])
    have hlt := hsize hchain
    exact hwalk.eq_of_chain hchain _ _ (by omega) (by omega)

end Walks

namespace Heap

variable (h : Heap)

theorem object_of_protoLink {id : ObjectId} :
    (∀ next, h.protoLink id = some next → ∃ o, h.object id = .ok o ∧ o.proto = next) ∧
      (h.protoLink id = none → ∃ e, h.object id = .error e) := by
  unfold protoLink object
  cases h.object? id <;> simp

theorem scope_of_outerLink {id : ScopeId} :
    (∀ next, h.outerLink id = some next → ∃ s, h.scope id = .ok s ∧ s.outer = next) ∧
      (h.outerLink id = none → ∃ e, h.scope id = .error e) := by
  unfold outerLink scope
  cases h.scope? id <;> simp

theorem object_of_targetLink {id : ObjectId} :
    (∀ next, h.targetLink id = some next → ∃ o, h.object id = .ok o ∧ targetOf o = next) ∧
      (h.targetLink id = none → ∃ e, h.object id = .error e) := by
  unfold targetLink object
  cases h.object? id <;> simp

theorem follows_lookupFrom (key : String) : Follows h.protoLink (h.lookupFrom key) where
  free id hid i k := by
    obtain ⟨e, he⟩ := h.object_of_protoLink.2 hid
    rw [lookupFrom, lookupFrom, he]
    rfl
  next id next hlink i k hnext := by
    obtain ⟨o, ho, rfl⟩ := h.object_of_protoLink.1 next hlink
    rw [lookupFrom, lookupFrom, ho]
    dsimp only [bind, Except.bind]
    cases o.properties.get? key with
    | some p => rfl
    | none =>
      cases hproto : o.proto with
      | none => rfl
      | some next => exact hnext next hproto

theorem follows_resolveFrom (name : String) : Follows h.outerLink (h.resolveFrom name) where
  free id hid i k := by
    obtain ⟨e, he⟩ := h.scope_of_outerLink.2 hid
    rw [resolveFrom, resolveFrom, he]
    rfl
  next id next hlink i k hnext := by
    obtain ⟨s, hs, rfl⟩ := h.scope_of_outerLink.1 next hlink
    rw [resolveFrom, resolveFrom, hs]
    dsimp only [bind, Except.bind]
    split
    · rfl
    · cases houter : s.outer with
      | none => rfl
      | some next => exact hnext next houter

end Heap

namespace Machine

variable (h : Heap)

theorem follows_onChain (id : ObjectId) :
    Follows h.protoLink fun steps start => onChain h id (steps + 1) (some start) where
  free start hstart i k := by
    obtain ⟨e, he⟩ := h.object_of_protoLink.2 hstart
    rw [onChain, onChain, he]
    rfl
  next start next hlink i k hnext := by
    obtain ⟨o, ho, rfl⟩ := h.object_of_protoLink.1 next hlink
    rw [onChain, onChain, ho]
    dsimp only [bind, Except.bind]
    split
    · rfl
    · cases hproto : o.proto with
      | none => rfl
      | some next => exact hnext next hproto

theorem follows_inherits (proto : ObjectId) : Follows h.protoLink (inherits h proto) where
  free id hid i k := by
    obtain ⟨e, he⟩ := h.object_of_protoLink.2 hid
    rw [inherits, inherits, he]
    rfl
  next id next hlink i k hnext := by
    obtain ⟨o, ho, rfl⟩ := h.object_of_protoLink.1 next hlink
    rw [inherits, inherits, ho]
    dsimp only [bind, Except.bind]
    cases hproto : o.proto with
    | none => rfl
    | some next =>
      dsimp only
      split
      · rfl
      · exact hnext next hproto

theorem follows_unbound : Follows h.targetLink (unbound h) where
  free id hid i k := by
    obtain ⟨e, he⟩ := h.object_of_targetLink.2 hid
    rw [unbound, unbound, he]
    rfl
  next id next hlink i k hnext := by
    obtain ⟨o, ho, rfl⟩ := h.object_of_targetLink.1 next hlink
    rw [unbound, unbound, ho]
    dsimp only [bind, Except.bind]
    split
    · rename_i target _ _ hfunction
      exact hnext target (by rw [Heap.targetOf, hfunction])
    · rfl

/-- A call of a bound function starts the call of its target. -/
theorem follows_startCall (natives : Natives) (thread : ThreadId) (f : Frame) (m : Machine) :
    Follows m.heap.targetLink fun steps func (call : CallInfo) =>
      startCall natives thread f steps { call with func := .object func } m where
  free func hfunc i k := by
    obtain ⟨e, he⟩ := m.heap.object_of_targetLink.2 hfunc
    have hquery : Exec.heapQuery (·.object func) m = .error e m := Exec.query_run_error he
    funext call
    rw [startCall, startCall]
    simp only [Value.object?, Exec.bind_run, Exec.get_run, hquery]
  next func next hlink i k hnext := by
    obtain ⟨o, ho, rfl⟩ := m.heap.object_of_targetLink.1 next hlink
    have hquery : Exec.heapQuery (·.object func) m = .ok o m := Exec.query_run_ok ho
    funext call
    rw [startCall, startCall]
    simp only [Value.object?, Exec.bind_run, Exec.get_run, hquery]
    cases hfunction : o.function with
    | none => rfl
    | some function =>
      cases function with
      | closure node scope => rfl
      | native id => rfl
      | bound target receiver args =>
        exact congrFun (hnext target (by rw [Heap.targetOf, hfunction]))
          { call with
            receiver := if call.construct then call.receiver else receiver
            args := args ++ call.args }

/-- No walk stops for want of steps: with more of them it gives the same. -/
structure WalksEnd (natives : Natives) (m : Machine) : Prop where
  lookup : ∀ id key more,
    m.heap.lookupFrom key (m.heap.objects.size + 1 + more) id = m.heap.lookup id key
  resolve : ∀ id name more,
    m.heap.resolveFrom name (m.heap.scopes.size + 1 + more) id = m.heap.resolve id name
  onChain : ∀ id start more, onChain m.heap id (m.heap.objects.size + 2 + more) start =
    onChain m.heap id (m.heap.objects.size + 2) start
  inherits : ∀ proto id more, inherits m.heap proto (m.heap.objects.size + 1 + more) id =
    inherits m.heap proto (m.heap.objects.size + 1) id
  unbound : ∀ id more,
    unbound m.heap (m.heap.objects.size + 1 + more) id = unbound m.heap (m.heap.objects.size + 1) id
  call : ∀ thread f call more, startCall natives thread f (m.heap.objects.size + 1 + more) call m =
    startCall natives thread f (m.heap.objects.size + 1) call m

theorem walksEnd_of_linksEnd {natives : Natives} {m : Machine} (hprotos : LinksEnd m.heap.protoLink)
    (houters : LinksEnd m.heap.outerLink) (htargets : LinksEnd m.heap.targetLink) :
    m.WalksEnd natives where
  lookup id key more :=
    (m.heap.follows_lookupFrom key).eq_of_linksEnd hprotos Heap.lt_size_of_protos id more
  resolve id name more :=
    (m.heap.follows_resolveFrom name).eq_of_linksEnd houters Heap.lt_size_of_outers id more
  onChain id start more := by
    cases start with
    | none => rw [Nat.add_right_comm]; rfl
    | some start =>
      have := (follows_onChain m.heap id).eq_of_linksEnd hprotos Heap.lt_size_of_protos start more
      rwa [Nat.add_right_comm _ more] at this
  inherits proto id more :=
    (follows_inherits m.heap proto).eq_of_linksEnd hprotos Heap.lt_size_of_protos id more
  unbound id more :=
    (follows_unbound m.heap).eq_of_linksEnd htargets Heap.lt_size_of_targets id more
  call thread f call more := by
    cases hfunc : call.func with
    | object func =>
      have := congrFun ((follows_startCall natives thread f m).eq_of_linksEnd htargets
        Heap.lt_size_of_targets func more) call
      rwa [show { call with func := .object func } = call by rw [← hfunc]] at this
    | _ =>
      rw [Nat.add_right_comm, startCall, startCall, hfunc]
      rfl

end Machine

namespace Snapshot

/-! ## Links between records -/

/-- The record at a place, if it is of a type. -/
def recordAt? (type : String) (records : List Json) (place : Nat) : Option Json :=
  records[place]?.filter fun record => (record.field? "type").bind Json.str? == some type

/-- The place that a field of a record refers to. -/
def placeIn? (record : Json) (name : String) : Option Nat := (record.field? name).bind place?

/-- The place of the function that the record of a function binds. -/
def boundPlace? (record : Json) : Option Nat :=
  match record.field? "function" with
  | some f => if (f.field? "kind").bind Json.str? = some "bound" then placeIn? f "target" else none
  | none => none

def protoPlace (records : List Json) (place : Nat) : Option (Option Nat) :=
  (recordAt? "Object" records place).map (placeIn? · "proto")

def outerPlace (records : List Json) (place : Nat) : Option (Option Nat) :=
  (recordAt? "Scope" records place).map (placeIn? · "outer")

def targetPlace (records : List Json) (place : Nat) : Option (Option Nat) :=
  (recordAt? "Object" records place).map boundPlace?

theorem recordAt?_eq_some_iff {type : String} {records : List Json} {place : Nat} {record : Json} :
    recordAt? type records place = some record ↔
      records[place]? = some record ∧ typeOf record = .ok type := by
  have htype : typeOf record = .ok type ↔ (record.field? "type").bind Json.str? = some type := by
    unfold typeOf field
    cases record.field? "type" with
    | none => simp [refuse, bind, Except.bind]
    | some j => cases hj : j.str? <;> simp [hj, refuse, bind, Except.bind, pure, Except.pure]
  rw [recordAt?, Option.filter_eq_some_iff, htype, beq_iff_eq]

theorem recordAt?_eq_none {type : String} {records : List Json} {place : Nat}
    (h : records.length ≤ place) : recordAt? type records place = none := by
  rw [recordAt?, List.getElem?_eq_none h]
  rfl

namespace Layout

variable {natives : Natives} {l : Layout}

/-- The object of the record at a place. -/
def objectAt (l : Layout) (place : Nat) : ObjectId :=
  match l.slots[place]? with
  | some (.object id) => id
  | _ => ⟨0⟩

/-- The scope of the record at a place. -/
def scopeAt (l : Layout) (place : Nat) : ScopeId :=
  match l.slots[place]? with
  | some (.scope id) => id
  | _ => ⟨0⟩

/-- A place leads to the slot of what was read, and no place to nothing. -/
def Leads {α : Type} (l : Layout) (slot : α → Slot) (place : Option Nat) (a : Option α) : Prop :=
  place.map (l.slots[·]?) = a.map fun a => some (slot a)

theorem yields_slotAt (j : Json) :
    Yields (fun found => place? j = some found.1 ∧ l.slots[found.1]? = some found.2)
      (l.slot j) := by
  unfold slot
  split
  · exact yields_refuse _
  · rename_i place hplace
    split
    · rename_i hslot
      exact yields_pure ⟨hplace, hslot⟩
    · exact yields_refuse _

theorem yields_objectAt (j : Json) :
    Yields (fun id => l.Leads .object (place? j) (some id)) (l.object j) := by
  refine (yields_slotAt j).bind fun found hfound => ?_
  split
  · exact yields_pure (by simp [Leads, hfound.1, hfound.2])
  · exact yields_refuse _

theorem yields_scopeAt (j : Json) :
    Yields (fun id => l.Leads .scope (place? j) (some id)) (l.scope j) := by
  refine (yields_slotAt j).bind fun found hfound => ?_
  split
  · exact yields_pure (by simp [Leads, hfound.1, hfound.2])
  · exact yields_refuse _

/-- A field that may be null leads where its reference does. -/
theorem yields_fieldAt {α : Type} {slot : α → Slot} {read : Json → Decoding α}
    (hread : ∀ j, Yields (fun a => l.Leads slot (place? j) (some a)) (read j)) (record : Json)
    (name : String) :
    Yields (fun a => l.Leads slot (placeIn? record name) a)
      (field record name >>= optional read) := by
  refine (yields_field record name).bind fun j hj => ?_
  rw [placeIn?, hj]
  unfold optional
  split
  · exact yields_pure rfl
  · exact (hread _).bind fun a ha => yields_pure ha

/-- Whatever is read for a function binds what its record names. -/
theorem yields_functionAt (j : Json) :
    Yields (fun f => ∀ o : Object, o.function = some f → l.Leads .object
        (if (j.field? "kind").bind Json.str? = some "bound" then placeIn? j "target" else none)
        (Heap.targetOf o)) (l.function natives j) := by
  have hkind : Yields (fun kind => (j.field? "kind").bind Json.str? = some kind)
      (stringField j "kind") := by
    refine (yields_field j "kind").bind fun k hk => ?_
    rw [hk]
    unfold string
    split
    · rename_i hs
      exact yields_pure hs
    · exact yields_refuse _
  generalize hplace : (if (j.field? "kind").bind Json.str? = some "bound" then placeIn? j "target"
    else none) = place
  refine hkind.bind fun kind hkind => ?_
  rw [hkind] at hplace
  split
  · rw [if_neg (by decide)] at hplace
    subst hplace
    refine .after fun _ => .after fun _ => .after fun _ => yields_pure fun o ho => ?_
    rw [Heap.targetOf, ho]
    rfl
  · rw [if_pos rfl] at hplace
    subst hplace
    refine (yields_field j "target").bind fun k hk => (yields_objectAt k).bind fun _ htarget => ?_
    refine .after fun _ => .after fun _ => .after fun _ => yields_pure fun o ho => ?_
    rw [placeIn?, hk, Heap.targetOf, ho]
    exact htarget
  · rw [if_neg (by decide)] at hplace
    subst hplace
    refine .after fun _ => ?_
    split
    · refine yields_pure fun o ho => ?_
      rw [Heap.targetOf, ho]
      rfl
    · exact yields_refuse _
  · exact yields_refuse _

theorem yields_linksOfObject (record : Json) :
    Yields (fun o => l.Leads .object (placeIn? record "proto") o.proto ∧
        l.Leads .object (boundPlace? record) (Heap.targetOf o))
      (l.objectOf natives record) := by
  unfold objectOf
  dsimp only
  refine .after fun _ => .after fun _ => ?_
  rw [← bind_assoc]
  refine (yields_fieldAt yields_objectAt record "proto").bind fun _ hproto => ?_
  refine .after fun _ => .after fun _ => .after fun _ => .after fun _ => .after fun _ => ?_
  split
  all_goals
    refine .after fun _ => .after fun _ => ?_
    rw [boundPlace?]
    cases record.field? "function" with
    | none => exact yields_pure ⟨hproto, rfl⟩
    | some j =>
      exact (yields_functionAt j).bind fun f hf => yields_pure ⟨hproto, hf _ rfl⟩

theorem yields_linksOfScope (record : Json) :
    Yields (fun s => l.Leads .scope (placeIn? record "outer") s.outer) (l.scopeOf record) := by
  unfold scopeOf
  refine .after fun _ => .after fun _ => .after fun _ => .after fun _ => ?_
  rw [← bind_assoc]
  refine (yields_fieldAt yields_scopeAt record "outer").bind fun _ houter => ?_
  refine .after fun _ => .after fun _ => .after fun _ => .after fun _ => .after fun _ => ?_
  exact .after fun _ => yields_pure houter

end Layout

namespace Decoded

variable {natives : Natives} {threshold serial : Nat} {records : List Json} {l : Layout}
  {c : Contents} {i : Image}

theorem zip_eq_some_iff {place : Nat} {record : Json} {slot : Slot} :
    (records.zip l.slots.toList)[place]? = some (record, slot) ↔
      records[place]? = some record ∧ l.slots[place]? = some slot := by
  simp [List.getElem?_zip_eq_some]

/-- The records of a type have the slots of a kind. -/
theorem recordAt?_ne_none_iff {ι : Type} {slot : ι → Slot} {index? : Slot → Option Nat}
    {type : String} (hlength : l.slots.size = records.length)
    (hindex : ∀ s, index? s ≠ none ↔ ∃ id, s = slot id)
    (htype : ∀ p ∈ records.zip l.slots.toList, (index? p.2 ≠ none ↔ typeOf p.1 = .ok type))
    (place : Nat) :
    recordAt? type records place ≠ none ↔ ∃ id, l.slots[place]? = some (slot id) := by
  constructor
  · intro hne
    obtain ⟨record, hrecord⟩ := Option.ne_none_iff_exists'.1 hne
    obtain ⟨hget, hrecord⟩ := recordAt?_eq_some_iff.1 hrecord
    have hlt := hlength ▸ (List.getElem?_eq_some_iff.1 hget).1
    have hslot : l.slots[place]? = some l.slots[place] := Array.getElem?_eq_getElem hlt
    have hmem := List.mem_of_getElem? (zip_eq_some_iff.2 ⟨hget, hslot⟩)
    obtain ⟨id, hid⟩ := (hindex _).1 ((htype _ hmem).2 hrecord)
    exact ⟨id, hslot.trans (congrArg some hid)⟩
  · rintro ⟨id, hslot⟩
    have hlt := hlength ▸ (Array.getElem?_eq_some_iff.1 hslot).1
    have hget : records[place]? = some records[place] := List.getElem?_eq_getElem hlt
    have hmem := List.mem_of_getElem? (zip_eq_some_iff.2 ⟨hget, hslot⟩)
    have hrecord := (htype _ hmem).1 ((hindex _).2 ⟨id, rfl⟩)
    rw [recordAt?_eq_some_iff.2 ⟨hget, hrecord⟩]
    exact Option.some_ne_none _

/-- Links between slots of a kind end exactly when those between their records do, if what is read
from a record leads where the record does. -/
theorem linksEnd_slots_iff {ι α : Type} {get? : ι → Option α} {slot : ι → Slot} {idAt : Nat → ι}
    {type : String} {place? : Json → Option Nat} {next? : α → Option ι}
    (hkind : ∀ place, recordAt? type records place ≠ none ↔ ∃ id, l.slots[place]? = some (slot id))
    (hid : ∀ place id, l.slots[place]? = some (slot id) → idAt place = id)
    (hread : ∀ (place : Nat) record id, records[place]? = some record →
      l.slots[place]? = some (slot id) →
        ∃ a, get? id = some a ∧ l.Leads slot (place? record) (next? a))
    (hslot : ∀ id, get? id ≠ none → ∃ place : Nat, l.slots[place]? = some (slot id)) :
    LinksEnd (fun id => (get? id).map next?) ↔
      LinksEnd fun place => (recordAt? type records place).map place? := by
  -- What is linked to a record, and what its slot links to.
  have hlinked {place : Nat} {record : Json}
      (hrecord : recordAt? type records place = some record) :
      ∃ a, get? (idAt place) = some a ∧ next? a = (place? record).map idAt ∧
        ∀ next, place? record = some next → recordAt? type records next ≠ none := by
    obtain ⟨id, hslot⟩ := (hkind place).1 (by simp [hrecord])
    obtain ⟨a, ha, hleads⟩ := hread place record id (recordAt?_eq_some_iff.1 hrecord).1 hslot
    refine ⟨a, hid place id hslot ▸ ha, ?_⟩
    cases hplace : place? record with
    | none =>
      rw [hplace] at hleads
      exact ⟨Option.map_eq_none_iff.1 hleads.symm, fun _ h => by cases h⟩
    | some next =>
      rw [hplace] at hleads
      obtain ⟨b, hb, hnext⟩ := Option.map_eq_some_iff.1 hleads.symm
      refine ⟨by rw [hb, Option.map_some, hid next b hnext.symm], fun _ h => ?_⟩
      cases h
      exact (hkind next).2 ⟨b, hnext.symm⟩
  refine linksEnd_iff idAt (fun place hlive => ?_) (fun place next hlink => ?_) fun id hlive => ?_
  · obtain ⟨record, hrecord⟩ := Option.ne_none_iff_exists'.1
      (show recordAt? type records place ≠ none by simpa using hlive)
    obtain ⟨a, ha, hnext, -⟩ := hlinked hrecord
    simp [hrecord, ha, hnext]
  · obtain ⟨record, hrecord, hnext⟩ := Option.map_eq_some_iff.1 hlink
    obtain ⟨a, -, -, hlive⟩ := hlinked hrecord
    simpa using hlive next hnext
  · obtain ⟨place, hplace⟩ := hslot id (by simpa using hlive)
    exact ⟨place, by simpa using (hkind place).2 ⟨id, hplace⟩, hid place id hplace⟩

/-- Links between objects are those between the records of objects. -/
theorem linksEnd_objects_iff (h : Decoded natives threshold serial records l c i)
    {place? : Json → Option Nat} {next? : Object → Option ObjectId}
    (hleads : ∀ record, Yields (fun o => l.Leads .object (place? record) (next? o))
      (l.objectOf natives record)) :
    LinksEnd (fun id => (i.heap.object? id).map next?) ↔
      LinksEnd fun place => (recordAt? "Object" records place).map place? := by
  have hid (place : Nat) (id : ObjectId) (hslot : l.slots[place]? = some (.object id)) :
      l.objectAt place = id := by
    rw [Layout.objectAt, hslot]
  have hkind :=
    recordAt?_ne_none_iff h.lays.length Slot.objectIndex?_ne_none_iff h.lays.object
  refine linksEnd_slots_iff hkind hid (fun place record id hrecord hslot => ?_) fun id hlive => ?_
  · have hmem := List.mem_of_getElem? (zip_eq_some_iff.2 ⟨hrecord, hslot⟩)
    obtain ⟨o, hread, -⟩ := h.holds.objects.get h.lays.objects hmem rfl
    exact ⟨o, h.object?_eq_some_iff.2 ⟨record, hmem, hread⟩, hleads record o hread⟩
  · obtain ⟨o, ho⟩ := Option.ne_none_iff_exists'.1 hlive
    obtain ⟨record, hmem, -⟩ := h.object?_eq_some_iff.1 ho
    obtain ⟨place, hplace⟩ := List.mem_iff_getElem?.1 hmem
    exact ⟨place, (zip_eq_some_iff.1 hplace).2⟩

/-- Links between scopes are those between the records of scopes. -/
theorem linksEnd_scopes_iff (h : Decoded natives threshold serial records l c i)
    {place? : Json → Option Nat} {next? : Scope → Option ScopeId}
    (hleads : ∀ record, Yields (fun s => l.Leads .scope (place? record) (next? s))
      (l.scopeOf record)) :
    LinksEnd (fun id => (i.heap.scope? id).map next?) ↔
      LinksEnd fun place => (recordAt? "Scope" records place).map place? := by
  have hid (place : Nat) (id : ScopeId) (hslot : l.slots[place]? = some (.scope id)) :
      l.scopeAt place = id := by
    rw [Layout.scopeAt, hslot]
  have hkind := recordAt?_ne_none_iff h.lays.length Slot.scopeIndex?_ne_none_iff h.lays.scope
  refine linksEnd_slots_iff hkind hid (fun place record id hrecord hslot => ?_) fun id hlive => ?_
  · have hmem := List.mem_of_getElem? (zip_eq_some_iff.2 ⟨hrecord, hslot⟩)
    obtain ⟨s, hread, -⟩ := h.holds.scopes.get h.lays.scopes hmem rfl
    exact ⟨s, h.scope?_eq_some_iff.2 ⟨record, hmem, hread⟩, hleads record s hread⟩
  · obtain ⟨s, hs⟩ := Option.ne_none_iff_exists'.1 hlive
    obtain ⟨record, hmem, -⟩ := h.scope?_eq_some_iff.1 hs
    obtain ⟨place, hplace⟩ := List.mem_iff_getElem?.1 hmem
    exact ⟨place, (zip_eq_some_iff.1 hplace).2⟩

end Decoded

end Snapshot

namespace Machine

open Snapshot in
/-- The chains of a restored machine end exactly when those of the records do: no one looks for a
cycle. Where they end, no walk along them stops for want of steps. -/
theorem restore_linksEnd {natives : Natives} {j : Json} {m m' : Machine}
    (h : restore natives j m = .ok () m') :
    (LinksEnd m'.heap.protoLink ↔ LinksEnd (protoPlace j.itemList)) ∧
    (LinksEnd m'.heap.outerLink ↔ LinksEnd (outerPlace j.itemList)) ∧
    (LinksEnd m'.heap.targetLink ↔ LinksEnd (targetPlace j.itemList)) ∧
    (LinksEnd (protoPlace j.itemList) → LinksEnd (outerPlace j.itemList) →
      LinksEnd (targetPlace j.itemList) → m'.WalksEnd natives) := by
  obtain ⟨threshold, serial, records, l, c, i, rfl, hdecoded, hshows⟩ := shows_of_restore h
  have hprotos : LinksEnd m'.heap.protoLink ↔ LinksEnd (protoPlace records) :=
    hshows.heap ▸ hdecoded.linksEnd_objects_iff fun record o ho =>
      (Layout.yields_linksOfObject record o ho).1
  have houters : LinksEnd m'.heap.outerLink ↔ LinksEnd (outerPlace records) :=
    hshows.heap ▸ hdecoded.linksEnd_scopes_iff Layout.yields_linksOfScope
  have htargets : LinksEnd m'.heap.targetLink ↔ LinksEnd (targetPlace records) :=
    hshows.heap ▸ hdecoded.linksEnd_objects_iff fun record o ho =>
      (Layout.yields_linksOfObject record o ho).2
  exact ⟨hprotos, houters, htargets, fun hp ho ht =>
    walksEnd_of_linksEnd (hprotos.2 hp) (houters.2 ho) (htargets.2 ht)⟩

/-- A snapshot in which every record refers to an earlier one. -/
def linkedRecords : List Json :=
  [idleRecord 1 3 [], scopeRecord .null, scopeRecord (Snapshot.reference 1), objectRecord .null [],
   objectRecord (Snapshot.reference 3) [boundField 3]]

theorem restore_linksEnd_linked : ∃ m',
    restore Builtin.natives (.arr linkedRecords) {} = .ok () m' ∧
    LinksEnd m'.heap.protoLink ∧ LinksEnd m'.heap.outerLink ∧ LinksEnd m'.heap.targetLink ∧
    m'.WalksEnd Builtin.natives := by
  have hchecks : (ran? (restore Builtin.natives (.arr linkedRecords)) {}).isSome = true := by
    decide +kernel
  obtain ⟨m', hm'⟩ := Option.isSome_iff_exists.1 hchecks
  have hrestore := ok_of_ran? hm'
  have hoff {type : String} {next? : Json → Option Nat} (place : Nat)
      (h : linkedRecords.length ≤ place) :
      (Snapshot.recordAt? type linkedRecords place).map next? = none := by
    rw [Snapshot.recordAt?_eq_none h]
    rfl
  have hprotos : LinksEnd (Snapshot.protoPlace linkedRecords) :=
    linksEnd_of_backward hoff (by decide +kernel)
  have houters : LinksEnd (Snapshot.outerPlace linkedRecords) :=
    linksEnd_of_backward hoff (by decide +kernel)
  have htargets : LinksEnd (Snapshot.targetPlace linkedRecords) :=
    linksEnd_of_backward hoff (by decide +kernel)
  obtain ⟨hp, ho, ht, hwalks⟩ := restore_linksEnd hrestore
  exact ⟨m', hrestore, hp.2 hprotos, ho.2 houters, ht.2 htargets, hwalks hprotos houters htargets⟩

/-- A snapshot in which a scope is its own outer scope, and a function its own prototype and its
own target. -/
def loopedSnapshot : Json :=
  .arr [idleRecord 1 2 [], scopeRecord (Snapshot.reference 1),
    objectRecord (Snapshot.reference 2) [boundField 2]]

/-- Chains that never end are let in. -/
theorem endless_chains_restored : ∃ m m', create {} {} = .ok m ∧
    restore Builtin.natives loopedSnapshot m = .ok () m' ∧ ¬ LinksEnd m'.heap.protoLink ∧
    ¬ LinksEnd m'.heap.outerLink ∧ ¬ LinksEnd m'.heap.targetLink := by
  have hchecks : ((create {} {}).toOption.bind (ran? (restore Builtin.natives loopedSnapshot))).any
      (fun m' => decide (m'.heap.protoLink ⟨0⟩ = some (some ⟨0⟩) ∧
        m'.heap.outerLink ⟨0⟩ = some (some ⟨0⟩) ∧
        m'.heap.targetLink ⟨0⟩ = some (some ⟨0⟩))) = true := by
    rw [toOption_create]
    decide +kernel
  obtain ⟨m', hm', hchecks⟩ := (Option.any_eq_true _ _).1 hchecks
  obtain ⟨m, hm, hrestored⟩ := Option.bind_eq_some_iff.1 hm'
  obtain ⟨hproto, houter, htarget⟩ := of_decide_eq_true hchecks
  exact ⟨m, m', create_of_toOption hm, ok_of_ran? hrestored, not_linksEnd_of_loop hproto,
    not_linksEnd_of_loop houter, not_linksEnd_of_loop htarget⟩

end Machine

end ScriptMachine
