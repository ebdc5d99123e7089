import ScriptMachine.Proofs.Change

/-!
# Operations that edit an object

An operation that edits an object it is given makes its checks first. If one of them fails, the machine
is what it was. If none does, the object is edited and nothing else is.
-/

namespace ScriptMachine

open Exec Machine

namespace Object

/-- An array whose length may be written or is read-only. -/
def limited (o : Object) (writable : Bool) : Object :=
  { o with properties := o.properties.modify "length" fun p => { p with writable } }

/-- What an assignment makes of an object that allows it. -/
inductive Assigned (o : Object) (key : String) (v : Value) : Object → Prop where
  | value (p : Property) (hp : o.properties.get? key = some p) (hwritable : p.writable = true)
    (hplain : (o.isArray && key == "length") = false) :
    Assigned o key v { o with properties := o.properties.modify key fun p => { p with value := v } }
  | length (p : Property) (n : Nat) (harray : o.isArray = true) (hkey : key = "length")
    (hp : o.properties.get? "length" = some p) (hwritable : p.writable = true)
    (hn : arrayLength? v = some n) : Assigned o key v (o.resize n)
  | added (hextensible : o.extensible = true) (hnew : o.properties.get? key = none) :
    Assigned o key v (o.added key v)

/-- What a definition makes of an object that allows it. -/
inductive Redefined (o : Object) (key : String) (d : Descriptor) : Object → Prop where
  | length (p : Property) (v : Value) (n : Nat) (harray : o.isArray = true) (hkey : key = "length")
    (hp : definedProperty o "length" d = .ok p) (hv : d.value = some v)
    (hn : arrayLength? v = some n) : Redefined o key d ((o.resize n).limited p.writable)
  | flag (p : Property) (harray : o.isArray = true) (hkey : key = "length")
    (hp : definedProperty o "length" d = .ok p) (hv : d.value = none) :
    Redefined o key d (o.limited p.writable)
  | property (p : Property) (hp : definedProperty o key d = .ok p)
    (hplain : (o.isArray && key == "length") = false) : Redefined o key d (o.defined key p)

/-- What a deletion makes of an object that allows it. -/
inductive Erased (o : Object) (key : String) : Object → Prop where
  | erased (p : Property) (hp : o.properties.get? key = some p)
    (hconfigurable : p.configurable = true) :
    Erased o key { o with properties := o.properties.erase key }

/-- An edit of an object that leaves its properties and its class as they are. -/
structure Reshelled (o o' : Object) : Prop where
  edit : o.Edit o'
  properties : o'.properties = o.properties
  isArray : o'.isArray = o.isArray

/-- An object is edited once, or twice where its owner stays. -/
inductive Rewritten (o : Object) : Object → Prop where
  | once {o' : Object} (h : o.Edit o') : Rewritten o o'
  | twice {o₁ o' : Object} (h : o.Edit o₁) (howner : o₁.owner = o.owner) (h' : o₁.Edit o') :
    Rewritten o o'

variable {o o' : Object} {key : String} {v : Value} {d : Descriptor}

theorem Assigned.edit (h : o.Assigned key v o') : o.Edit o' := by
  cases h with
  | value p hp hwritable hplain => exact .assign key p v hp hwritable hplain
  | length p n harray _ hp hwritable _ =>
    refine .resize n harray fun q hq => .inr (.inl ?_)
    rw [hp] at hq
    exact Option.some.inj hq ▸ hwritable
  | added hextensible hnew => exact .add key v hextensible hnew

/-- A definition that keeps to what is final lets a length be set only to what it is, and never makes
it writable again. -/
theorem length_of_definedProperty {merged p : Property}
    (h : definedProperty o "length" d = .ok merged) (hp : o.properties.get? "length" = some p) :
    p.configurable = true ∨ (merged.writable = true → p.writable = true) ∧
      ∀ v, d.value = some v → p.writable = true ∨ v.sameValue p.value = true := by
  unfold definedProperty at h
  rw [hp] at h
  dsimp only at h
  cases hmerge : d.merge? p with
  | none => simp [hmerge] at h
  | some q =>
    simp only [hmerge, Except.ok.injEq] at h
    subst h
    unfold Descriptor.merge? at hmerge
    cases hconfigurable : p.configurable with
    | true => exact .inl rfl
    | false =>
      right
      dsimp only at hmerge
      split at hmerge
      · cases hmerge
      · rename_i hkept
        cases hmerge
        cases hwritable : p.writable with
        | true => simp
        | false =>
          simp only [hconfigurable, hwritable, Bool.not_false, Bool.true_and,
            Bool.or_eq_true, not_or] at hkept
          obtain ⟨⟨-, hflag⟩, hvalue⟩ := hkept
          constructor
          · intro hw
            cases hd : d.writable with
            | none => simp [hd] at hw
            | some w => simp_all
          · intro v hv
            right
            simpa [hv] using hvalue

/-- Resizing leaves the attributes of the length as they were. -/
theorem exists_of_get?_resize {n : Nat} {p : Property}
    (hp : (o.resize n).properties.get? "length" = some p) :
    ∃ q, o.properties.get? "length" = some q ∧ { q with value := .nat n } = p := by
  unfold resize at hp
  dsimp only at hp
  rw [Table.get?_modify, if_pos rfl, Option.map_eq_some_iff] at hp
  obtain ⟨q, hq, hqp⟩ := hp
  refine ⟨q, ?_, hqp⟩
  split at hq
  · rw [Table.get?_filter, Option.filter_eq_some_iff] at hq
    exact hq.1
  · exact hq

theorem Redefined.rewritten (h : o.Redefined key d o') : o.Rewritten o' := by
  cases h with
  | length merged v n harray _ hmerged hv hn =>
    have hkept := fun p hp => length_of_definedProperty (p := p) hmerged hp
    have hresize : o.Edit (o.resize n) := by
      refine .resize n harray fun p hp => ?_
      rcases hkept p hp with hconfigurable | ⟨-, hvalue⟩
      · exact .inl hconfigurable
      · exact .inr ((hvalue v hv).imp_right fun hsame => ⟨v, hsame, hn⟩)
    refine .twice hresize rfl (.limit merged.writable harray fun p hp => ?_)
    obtain ⟨q, hq, rfl⟩ := exists_of_get?_resize hp
    exact (hkept q hq).imp_right And.left
  | flag merged harray _ hmerged _ =>
    refine .once (.limit merged.writable harray fun p hp => ?_)
    exact (length_of_definedProperty hmerged hp).imp_right And.left
  | property p hp hplain => exact .once (.define key d p hp hplain)

theorem Erased.edit (h : o.Erased key o') : o.Edit o' := by
  obtain ⟨p, hp, hconfigurable⟩ := h
  exact .erase key p hp hconfigurable

end Object

namespace Machine

/-- The machine with one object changed. -/
def withObject (m : Machine) (id : ObjectId) (f : Object → Object) : Machine :=
  { m with heap := m.heap.modifyObject id f }

variable {m m' : Machine} {id : ObjectId} {o : Object} {key : String} {v : Value}
  {actor : Option Owner} {access : Access} {α β : Type}

theorem object?_withObject (ho : m.heap.object? id = some o) (f : Object → Object) :
    (m.withObject id f).heap.object? id = some (f o) := by
  rw [withObject, Heap.object?_modifyObject, if_pos rfl, ho]
  rfl

theorem withObject_congr (ho : m.heap.object? id = some o) {f g : Object → Object}
    (hfg : f o = g o) : m.withObject id f = m.withObject id g := by
  have hslot : m.heap.objects.modify id.index (Option.map f) =
      m.heap.objects.modify id.index (Option.map g) := by
    apply Array.ext_getElem?
    intro i
    rw [Array.getElem?_modify, Array.getElem?_modify]
    split
    · rename_i hi
      subst hi
      unfold Heap.object? at ho
      rw [Option.join_eq_some_iff] at ho
      rw [ho, Option.map_some, Option.map_some, Option.map_some, Option.map_some, hfg]
    · rfl
  unfold withObject Heap.modifyObject
  rw [hslot]

theorem withObject_withObject (m : Machine) (id : ObjectId) (f g : Object → Object) :
    (m.withObject id f).withObject id g = m.withObject id fun o => g (f o) := by
  have hslots : (m.heap.objects.modify id.index (Option.map f)).modify id.index (Option.map g) =
      m.heap.objects.modify id.index (Option.map fun o => g (f o)) := by
    apply Array.ext_getElem?
    intro i
    simp only [Array.getElem?_modify]
    split
    · rw [Option.map_map]
      congr 1
      funext slot
      cases slot <;> rfl
    · rfl
  unfold withObject Heap.modifyObject
  dsimp only
  rw [hslots]

theorem modifyObject_run (ho : m.heap.object? id = some o) (f : Object → Object) :
    modifyObject id f m = .ok () (m.withObject id f) := by
  unfold modifyObject heapQuery
  rw [bind_run, query_run_ok (Heap.object_eq_ok_iff.2 ho)]
  rfl

def invalidLength : Failure := .rangeError "Invalid array length"

theorem setArrayLength_run (ho : m.heap.object? id = some o) (v : Value) :
    setArrayLength id v m =
      match arrayLength? v with
      | none => .error invalidLength m
      | some n => .ok () (m.withObject id fun o => o.resize n) := by
  unfold setArrayLength
  cases arrayLength? v with
  | none => rfl
  | some n => exact modifyObject_run ho _

/-- How an operation ends that edits an object by an access of an actor: it fails, it has nothing to do,
or it has edited the object. -/
inductive EndsEditing (id : ObjectId) (actor : Option Owner) (access : Access) (idle : Prop)
    (E : Object → Object → Prop) (m : Machine) : EStateM.Result Failure Machine α → Prop where
  | failed (e : Failure) : EndsEditing id actor access idle E m (.error e m)
  | idle (a : α) (h : idle) : EndsEditing id actor access idle E m (.ok a m)
  | edited (a : α) {o o' : Object} (ho : m.heap.object? id = some o)
    (hauthorized : m.authorizeOwner actor o.owner access = .ok ()) (h : E o o') :
    EndsEditing id actor access idle E m (.ok a (m.withObject id fun _ => o'))

/-- An operation edits an object, and nothing else. -/
abbrev Edits (id : ObjectId) (actor : Option Owner) (access : Access) (idle : Prop)
    (E : Object → Object → Prop) (m : Machine) (x : Exec α) : Prop :=
  EndsEditing id actor access idle E m (x m)

section Operations

variable {idle : Prop} {E : Object → Object → Prop}

theorem edits_query_bind {f : Machine → Except Failure α} {k : α → Exec β}
    (hk : ∀ a, f m = .ok a → Edits id actor access idle E m (k a)) :
    Edits id actor access idle E m (query f >>= k) := by
  unfold Edits
  rw [bind_run]
  cases hread : f m with
  | error e =>
    rw [query_run_error hread]
    exact .failed e
  | ok a =>
    rw [query_run_ok hread]
    exact hk a hread

theorem edits_authorize_bind {k : Object → Exec β}
    (hk : ∀ o, m.heap.object? id = some o → m.authorizeOwner actor o.owner access = .ok () →
      Edits id actor access idle E m (k o)) :
    Edits id actor access idle E m ((query fun m => m.authorize actor id access) >>= k) := by
  apply edits_query_bind
  intro o hauthorize
  obtain ⟨ho, hauthorized⟩ := authorize_eq_ok_iff.1 hauthorize
  exact hk o ho hauthorized

theorem edits_modifyHeap (ho : m.heap.object? id = some o)
    (hauthorized : m.authorizeOwner actor o.owner access = .ok ()) {f : Object → Object}
    (hf : E o (f o)) :
    Edits id actor access idle E m (modifyHeap (·.modifyObject id f)) := by
  change EndsEditing id actor access idle E m (.ok () (m.withObject id f))
  rw [withObject_congr ho (g := fun _ => f o) rfl]
  exact .edited () ho hauthorized hf

theorem edits_setArrayLength (ho : m.heap.object? id = some o)
    (hauthorized : m.authorizeOwner actor o.owner access = .ok ())
    (h : ∀ n, arrayLength? v = some n → E o (o.resize n)) :
    Edits id actor access idle E m (setArrayLength id v) := by
  unfold Edits
  rw [setArrayLength_run ho]
  cases hn : arrayLength? v with
  | none => exact .failed _
  | some n =>
    dsimp only
    rw [withObject_congr ho (g := fun _ => o.resize n) rfl]
    exact .edited () ho hauthorized (h n hn)

end Operations

theorem edits_addProperty (ho : m.heap.object? id = some o)
    (hauthorized : m.authorizeOwner actor o.owner access = .ok ())
    (hnew : o.properties.get? key = none) :
    Edits id actor access False (Object.Assigned · key v) m (addProperty id o key v) := by
  unfold addProperty
  dsimp only
  split
  · exact .failed _
  · rename_i hextensible
    apply edits_modifyHeap ho hauthorized
    exact .added (by simpa using hextensible) hnew

theorem edits_setProperty (m : Machine) (id : ObjectId) (key : String) (v : Value)
    (actor : Option Owner) : Edits id actor .write False (Object.Assigned · key v) m
      (setProperty (.object id) key v actor) := by
  apply edits_authorize_bind
  intro o ho hauthorized
  cases hown : o.properties.get? key with
  | some own =>
    dsimp only
    split
    · exact .failed _
    · rename_i hwritable
      have hwritable : own.writable = true := by simpa using hwritable
      split
      · rename_i hlength
        obtain ⟨harray, hkey⟩ := Bool.and_eq_true_iff.1 hlength
        obtain rfl := beq_iff_eq.1 hkey
        apply edits_setArrayLength ho hauthorized
        intro n hn
        exact .length own n harray rfl hown hwritable hn
      · rename_i hplain
        apply edits_modifyHeap ho hauthorized
        exact .value own hown hwritable (by simpa using hplain)
  | none =>
    -- The inherited property decides whether the key may be added.
    have hadd := edits_addProperty (v := v) ho hauthorized hown
    dsimp only
    split
    · apply edits_query_bind
      intro inherited _
      split
      · split
        · exact .failed _
        · exact hadd
      · exact hadd
    · exact hadd

theorem edits_storeProperty {d : Descriptor} {merged : Property}
    (ho : m.heap.object? id = some o) (hauthorized : m.authorizeOwner actor o.owner access = .ok ())
    (hmerged : definedProperty o key d = .ok merged) :
    Edits id actor access False (Object.Redefined · key d) m (storeProperty id o key d merged) := by
  unfold storeProperty
  split
  · rename_i hlength
    obtain ⟨harray, hkey⟩ := Bool.and_eq_true_iff.1 hlength
    obtain rfl := beq_iff_eq.1 hkey
    cases hv : d.value with
    | none =>
      change EndsEditing _ _ _ _ _ _ (modifyObject id (fun o => o.limited merged.writable) m)
      rw [modifyObject_run ho, withObject_congr ho (g := fun _ => o.limited merged.writable) rfl]
      exact .edited () ho hauthorized (.flag merged harray rfl hmerged hv)
    | some v =>
      change EndsEditing _ _ _ _ _ _
        ((setArrayLength id v >>= fun _ => modifyObject id fun o => o.limited merged.writable) m)
      rw [bind_run, setArrayLength_run ho]
      cases hn : arrayLength? v with
      | none => exact .failed _
      | some n =>
        dsimp only
        rw [modifyObject_run (object?_withObject ho _), withObject_withObject,
          withObject_congr ho (g := fun _ => (o.resize n).limited merged.writable) rfl]
        exact .edited () ho hauthorized (.length merged v n harray rfl hmerged hv hn)
  · rename_i hplain
    apply edits_modifyHeap ho hauthorized
    exact .property merged hmerged (by simpa using hplain)

theorem edits_defineProperty (m : Machine) (id : ObjectId) (key : String) (d : Descriptor)
    (actor : Option Owner) : Edits id actor .define False (Object.Redefined · key d) m
      (defineProperty id key d actor) := by
  apply edits_authorize_bind
  intro o ho hauthorized
  apply edits_query_bind
  intro merged hmerged
  exact edits_storeProperty ho hauthorized hmerged

theorem edits_deleteProperty (m : Machine) (id : ObjectId) (key : String) (actor : Option Owner) :
    Edits id actor .delete True (Object.Erased · key) m (deleteProperty id key actor) := by
  apply edits_authorize_bind
  intro o ho hauthorized
  cases hp : o.properties.get? key with
  | none => exact .idle true trivial
  | some p =>
    dsimp only
    split
    · exact .failed _
    · rename_i hconfigurable
      change EndsEditing _ _ _ _ _ _ (.ok true (m.withObject id _))
      rw [withObject_congr ho
        (g := fun _ => { o with properties := o.properties.erase key }) rfl]
      exact .edited true ho hauthorized (.erased p hp (by simpa using hconfigurable))

theorem edits_setPrototype (m : Machine) (id : ObjectId) (proto : Option ObjectId)
    (actor : Option Owner) :
    Edits id actor .setPrototype True Object.Reshelled m (setPrototype id proto actor) := by
  unfold setPrototype
  dsimp only
  split
  · exact .failed _
  · apply edits_query_bind
    intro cyclic _
    split
    · exact .failed _
    · apply edits_authorize_bind
      intro o ho hauthorized
      split
      · exact .idle () trivial
      · split
        · exact .failed _
        · rename_i hextensible
          apply edits_modifyHeap ho hauthorized
          exact ⟨.link proto (by simpa using hextensible), rfl, rfl⟩

theorem edits_preventExtensions (m : Machine) (id : ObjectId) (actor : Option Owner) :
    Edits id actor .preventExtensions False Object.Reshelled m (preventExtensions id actor) := by
  apply edits_authorize_bind
  intro o ho hauthorized
  exact edits_modifyHeap ho hauthorized ⟨.close, rfl, rfl⟩

theorem edits_setOwnerOf (m : Machine) (id : ObjectId) (owner : Owner) (actor : Option Owner) :
    Edits id actor .setOwner False Object.Reshelled m (setOwnerOf id owner actor) := by
  apply edits_authorize_bind
  intro o ho hauthorized
  exact edits_modifyHeap ho hauthorized ⟨.give owner, rfl, rfl⟩

namespace Edits

variable {idle : Prop} {E : Object → Object → Prop} {x : Exec α}

/-- An operation that fails leaves the machine as it was. -/
theorem eq_of_error {e : Failure} (h : Edits id actor access idle E m x)
    (hrun : x m = .error e m') : m' = m := by
  unfold Edits at h
  rw [hrun] at h
  cases h
  rfl

theorem of_ok {a : α} (h : Edits id actor access idle E m x) (hrun : x m = .ok a m') :
    idle ∧ m' = m ∨ ∃ o o', m.heap.object? id = some o ∧ E o o' ∧
      m' = m.withObject id fun _ => o' := by
  unfold Edits at h
  rw [hrun] at h
  cases h with
  | idle _ hidle => exact .inl ⟨hidle, rfl⟩
  | edited _ ho _ hE => exact .inr ⟨_, _, ho, hE, rfl⟩

/-- An operation that always has something to do has done it when it succeeds. -/
theorem exists_of_ok {a : α} (h : Edits id actor access False E m x) (hrun : x m = .ok a m') :
    ∃ o o', m.heap.object? id = some o ∧ E o o' ∧ m' = m.withObject id fun _ => o' :=
  (h.of_ok hrun).resolve_left fun hidle => hidle.1

theorem object?_of_ok {a : α} (h : Edits id actor access False E m x)
    (ho : m.heap.object? id = some o) (hrun : x m = .ok a m') :
    ∃ o', m'.heap.object? id = some o' ∧ E o o' := by
  obtain ⟨p, o', hp, hedited, rfl⟩ := h.exists_of_ok hrun
  obtain rfl : o = p := Option.some.inj (ho.symm.trans hp)
  exact ⟨o', object?_withObject ho _, hedited⟩

/-- What is done to one object is authorized, and each edit is a change of the machine. -/
theorem doesAt {old : ObjectId → Prop} (h : Edits id actor access idle E m x)
    (haccess : access.isMutation = true) (hE : ∀ o o', E o o' → o.Rewritten o') :
    DoesAt old actor m (fun _ _ => True) x := by
  refine ⟨?_, fun _ _ _ => trivial⟩
  have hchange : ∀ {m : Machine} {o o' : Object}, m.heap.object? id = some o →
      m.authorizeOwner actor o.owner access = .ok () → o.Edit o' →
      Change old actor m (m.withObject id fun _ => o') := by
    intro m o o' ho hauthorized hedit
    refine .edit id access _ ⟨o, ho, hauthorized⟩ haccess fun p hp => ?_
    rw [ho] at hp
    exact Option.some.inj hp ▸ hedit
  cases hrun : x m with
  | error e m' =>
    rw [after_of_error hrun, h.eq_of_error hrun]
  | ok a m' =>
    rw [after_of_ok hrun]
    unfold Edits at h
    rw [hrun] at h
    cases h with
    | idle => exact .refl
    | @edited _ o o' ho hauthorized hedited =>
      cases hE _ _ hedited with
      | once hedit => exact .single (hchange ho hauthorized hedit)
      | @twice o₁ _ hfirst howner hsecond =>
        have ho₁ := object?_withObject ho fun _ => o₁
        have hauthorized₁ : (m.withObject id fun _ => o₁).authorizeOwner actor o₁.owner access =
            .ok () := howner ▸ hauthorized
        rw [← withObject_withObject m id (fun _ => o₁) fun _ => o']
        exact .head (hchange ho hauthorized hfirst) (.single (hchange ho₁ hauthorized₁ hsecond))

end Edits

end Machine

end ScriptMachine
