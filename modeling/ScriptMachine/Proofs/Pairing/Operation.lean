import ScriptMachine.Machine.Error
import ScriptMachine.Proofs.Pairing.Machine

/-!
# Paired operations on the heap

Bindings, properties and prototypes are the same on paired machines, read and written. Walks along
a chain end before their fuel does on both sides.
-/

namespace ScriptMachine

namespace Pairing

open Machine Exec

variable {p : Pairing}

/-! ## Slots -/

namespace Heaps

variable {k k' : Heap}

section Reading

variable (hp : p.Heaps k k')

include hp

theorem pairs_object {id id' : ObjectId} (hid : p.Pairs id id') :
    p.Pairs (k.object id) (k'.object id') := by
  obtain ⟨o, ho, ho', hw⟩ := hp.object id hid.within
  rw [hid.eq, Heap.object_eq_ok_iff.2 ho, Heap.object_eq_ok_iff.2 ho']
  exact pairs_ok ⟨hw, rfl⟩

theorem pairs_scope {id id' : ScopeId} (hid : p.Pairs id id') :
    p.Pairs (k.scope id) (k'.scope id') := by
  obtain ⟨s, hs, hs', hw⟩ := hp.scope id hid.within
  rw [hid.eq, Heap.scope_eq_ok_iff.2 hs, Heap.scope_eq_ok_iff.2 hs']
  exact pairs_ok ⟨hw, rfl⟩

theorem pairs_program {id id' : ProgramId} (hid : p.Pairs id id') :
    p.Pairs (k.program id) (k'.program id') := by
  obtain ⟨t, ht, ht', hw⟩ := hp.program id hid.within
  rw [hid.eq, Heap.program_eq_ok_iff.2 ht, Heap.program_eq_ok_iff.2 ht']
  exact pairs_ok ⟨hw, rfl⟩

end Reading

/-! ## Walks -/

/-- What a walk along prototypes does follows from what it does at one object, given what it does
at the next one. -/
theorem walk_protos (hp : p.Heaps k k') {C : Nat → ObjectId → Prop}
    (step : ∀ {n : Nat} {id : ObjectId} {o : Object}, k.object? id = some o →
      k'.object? (image p id) = some (image p o) → Within p id → Within p o →
      (∀ next, o.proto = some next → ∃ i, n = i + 1 ∧ C i next) → C n id)
    {n : Nat} {id : ObjectId} (hchain : Chain k.protoLink n id) (hid : Within p id) : C n id := by
  induction hchain with
  | last hlink =>
    obtain ⟨o, ho, ho', hw⟩ := hp.object _ hid
    refine step ho ho' hid hw fun next hnext => ?_
    rw [Heap.protoLink, ho, Option.map_some, hnext] at hlink
    cases hlink
  | next hlink rest ih =>
    obtain ⟨o, ho, ho', hw⟩ := hp.object _ hid
    refine step ho ho' hid hw fun next hnext => ?_
    rw [Heap.protoLink, ho, Option.map_some, hnext] at hlink
    obtain rfl := Option.some.inj (Option.some.inj hlink)
    exact ⟨_, rfl, ih (hw.proto _ hnext)⟩

theorem walk_outers (hp : p.Heaps k k') {C : Nat → ScopeId → Prop}
    (step : ∀ {n : Nat} {id : ScopeId} {s : Scope}, k.scope? id = some s →
      k'.scope? (image p id) = some (image p s) → Within p id → Within p s →
      (∀ next, s.outer = some next → ∃ i, n = i + 1 ∧ C i next) → C n id)
    {n : Nat} {id : ScopeId} (hchain : Chain k.outerLink n id) (hid : Within p id) : C n id := by
  induction hchain with
  | last hlink =>
    obtain ⟨s, hs, hs', hw⟩ := hp.scope _ hid
    refine step hs hs' hid hw fun next hnext => ?_
    rw [Heap.outerLink, hs, Option.map_some, hnext] at hlink
    cases hlink
  | next hlink rest ih =>
    obtain ⟨s, hs, hs', hw⟩ := hp.scope _ hid
    refine step hs hs' hid hw fun next hnext => ?_
    rw [Heap.outerLink, hs, Option.map_some, hnext] at hlink
    obtain rfl := Option.some.inj (Option.some.inj hlink)
    exact ⟨_, rfl, ih (hw.outer _ hnext)⟩

theorem walk_targets (hp : p.Heaps k k') {C : Nat → ObjectId → Prop}
    (step : ∀ {n : Nat} {id : ObjectId} {o : Object}, k.object? id = some o →
      k'.object? (image p id) = some (image p o) → Within p id → Within p o →
      (∀ next receiver args, o.function = some (.bound next receiver args) →
        ∃ i, n = i + 1 ∧ C i next) → C n id)
    {n : Nat} {id : ObjectId} (hchain : Chain k.targetLink n id) (hid : Within p id) : C n id := by
  have htarget : ∀ {o : Object} {next receiver args},
      o.function = some (.bound next receiver args) → Heap.targetOf o = some next := by
    intro o next receiver args hfunction
    rw [Heap.targetOf, hfunction]
  induction hchain with
  | last hlink =>
    obtain ⟨o, ho, ho', hw⟩ := hp.object _ hid
    refine step ho ho' hid hw fun next _ _ hnext => ?_
    rw [Heap.targetLink, ho, Option.map_some, htarget hnext] at hlink
    cases hlink
  | next hlink rest ih =>
    obtain ⟨o, ho, ho', hw⟩ := hp.object _ hid
    refine step ho ho' hid hw fun next _ _ hnext => ?_
    rw [Heap.targetLink, ho, Option.map_some, htarget hnext] at hlink
    obtain rfl := Option.some.inj (Option.some.inj hlink)
    exact ⟨_, rfl, ih (within_targetOf hw _ (htarget hnext))⟩

theorem pairs_lookup (hp : p.Heaps k k') {id id' : ObjectId} (hid : p.Pairs id id')
    (key : String) : p.Pairs (k.lookup id key) (k'.lookup id' key) := by
  obtain ⟨hid, rfl⟩ := hid
  obtain ⟨n, hchain, hn, hn'⟩ := hp.exists_protos hid
  refine hp.walk_protos (C := fun n id => ∀ fuel fuel', n ≤ fuel → n ≤ fuel' →
    p.Pairs (k.lookupFrom key (fuel + 1) id) (k'.lookupFrom key (fuel' + 1) (image p id)))
    (fun {n id o} ho ho' _ hw ih fuel fuel' hfuel hfuel' => ?_) hchain hid _ _ (by omega) (by omega)
  rw [Heap.lookupFrom, Heap.lookupFrom, Heap.object_eq_ok_iff.2 ho, Heap.object_eq_ok_iff.2 ho']
  dsimp only [bind, Except.bind]
  rw [image_properties, get?_image]
  have hget := within_get? hw.properties key
  cases hprop : o.properties.get? key with
  | some prop => exact pairs_ok ⟨hprop ▸ hget, rfl⟩
  | none =>
    dsimp only [image_none]
    rw [image_proto]
    cases hproto : o.proto with
    | none => exact pairs_ok ⟨within_none p, rfl⟩
    | some next =>
      obtain ⟨i, rfl, hi⟩ := ih next hproto
      obtain ⟨fuel, rfl⟩ := Nat.exists_eq_add_of_lt hfuel
      obtain ⟨fuel', rfl⟩ := Nat.exists_eq_add_of_lt hfuel'
      exact hi _ _ (by omega) (by omega)

theorem pairs_resolve (hp : p.Heaps k k') {id id' : ScopeId} (hid : p.Pairs id id')
    (name : String) : p.Pairs (k.resolve id name) (k'.resolve id' name) := by
  obtain ⟨hid, rfl⟩ := hid
  obtain ⟨n, hchain, hn, hn'⟩ := hp.exists_outers hid
  refine hp.walk_outers (C := fun n id => ∀ fuel fuel', n ≤ fuel → n ≤ fuel' →
    p.Pairs (k.resolveFrom name (fuel + 1) id) (k'.resolveFrom name (fuel' + 1) (image p id)))
    (fun {n id s} hs hs' hid hw ih fuel fuel' hfuel hfuel' => ?_) hchain hid _ _ (by omega)
    (by omega)
  rw [Heap.resolveFrom, Heap.resolveFrom, Heap.scope_eq_ok_iff.2 hs, Heap.scope_eq_ok_iff.2 hs']
  dsimp only [bind, Except.bind]
  rw [image_bindings, contains_image, image_outer]
  split
  · exact pairs_ok ⟨(within_some p id).2 hid, rfl⟩
  · cases houter : s.outer with
    | none => exact pairs_ok ⟨within_none p, rfl⟩
    | some next =>
      obtain ⟨i, rfl, hi⟩ := ih next houter
      obtain ⟨fuel, rfl⟩ := Nat.exists_eq_add_of_lt hfuel
      obtain ⟨fuel', rfl⟩ := Nat.exists_eq_add_of_lt hfuel'
      exact hi _ _ (by omega) (by omega)

theorem pairs_declarationTarget (hp : p.Heaps k k') {id id' : ScopeId} (hid : p.Pairs id id') :
    p.Pairs (k.declarationTarget id) (k'.declarationTarget id') := by
  obtain ⟨hid, rfl⟩ := hid
  obtain ⟨n, hchain, hn, hn'⟩ := hp.exists_outers hid
  refine hp.walk_outers (C := fun n id => ∀ fuel fuel', n ≤ fuel → n ≤ fuel' →
    p.Pairs (k.declarationTargetFrom (fuel + 1) id)
      (k'.declarationTargetFrom (fuel' + 1) (image p id)))
    (fun {n id s} hs hs' hid hw ih fuel fuel' hfuel hfuel' => ?_) hchain hid _ _ (by omega)
    (by omega)
  rw [Heap.declarationTargetFrom, Heap.declarationTargetFrom, Heap.scope_eq_ok_iff.2 hs,
    Heap.scope_eq_ok_iff.2 hs']
  dsimp only [bind, Except.bind]
  rw [image_kind, image_outer]
  cases s.kind with
  | dummy =>
    cases houter : s.outer with
    | none => exact pairs_ok ⟨hid, rfl⟩
    | some next =>
      obtain ⟨i, rfl, hi⟩ := ih next houter
      obtain ⟨fuel, rfl⟩ := Nat.exists_eq_add_of_lt hfuel
      obtain ⟨fuel', rfl⟩ := Nat.exists_eq_add_of_lt hfuel'
      exact hi _ _ (by omega) (by omega)
  | _ => exact pairs_ok ⟨hid, rfl⟩

/-- Whether an object stands on a chain of prototypes. -/
theorem pairs_onChain (hp : p.Heaps k k') (id : ObjectId) {start start' : Option ObjectId} (hstart : p.Pairs start start') :
    p.Pairs (onChain k id (k.objects.size + 2) start)
      (onChain k' (image p id) (k'.objects.size + 2) start') := by
  obtain ⟨hstart, rfl⟩ := hstart
  cases start with
  | none => exact pairs_ok ⟨trivial, rfl⟩
  | some first =>
    have hfirst := hstart first rfl
    obtain ⟨n, hchain, hn, hn'⟩ := hp.exists_protos hfirst
    refine hp.walk_protos (C := fun n next => ∀ fuel fuel', n ≤ fuel → n ≤ fuel' →
      p.Pairs (onChain k id (fuel + 2) (some next))
        (onChain k' (image p id) (fuel' + 2) (some (image p next))))
      (fun {n next o} ho ho' hnext hw ih fuel fuel' hfuel hfuel' => ?_) hchain hfirst _ _
      (by omega) (by omega)
    rw [onChain, onChain, Heap.object_eq_ok_iff.2 ho, Heap.object_eq_ok_iff.2 ho']
    have hbeq : (image p next == image p id) = (next == id) :=
      Bool.eq_iff_iff.2 (by simp)
    rw [hbeq]
    split
    · exact pairs_ok ⟨trivial, rfl⟩
    · change p.Pairs (onChain k id (fuel + 1) o.proto)
        (onChain k' (image p id) (fuel' + 1) (image p o.proto))
      cases hproto : o.proto with
      | none => exact pairs_ok ⟨trivial, rfl⟩
      | some next =>
        obtain ⟨i, rfl, hi⟩ := ih next hproto
        obtain ⟨fuel, rfl⟩ := Nat.exists_eq_add_of_lt hfuel
        obtain ⟨fuel', rfl⟩ := Nat.exists_eq_add_of_lt hfuel'
        rw [show i + fuel + 1 + 1 = (i + fuel) + 2 by omega,
          show i + fuel' + 1 + 1 = (i + fuel') + 2 by omega]
        exact hi _ _ (by omega) (by omega)

/-- The function behind any bindings. -/
theorem pairs_unbound (hp : p.Heaps k k') {id : ObjectId} (hid : Within p id) :
    p.Pairs (unbound k (k.objects.size + 1) id)
      (unbound k' (k'.objects.size + 1) (image p id)) := by
  obtain ⟨n, hchain, hn, hn'⟩ := hp.exists_targets hid
  refine hp.walk_targets (C := fun n id => ∀ fuel fuel', n ≤ fuel → n ≤ fuel' →
    p.Pairs (unbound k (fuel + 1) id) (unbound k' (fuel' + 1) (image p id)))
    (fun {n id o} ho ho' hid hw ih fuel fuel' hfuel hfuel' => ?_) hchain hid _ _ (by omega)
    (by omega)
  rw [unbound, unbound, Heap.object_eq_ok_iff.2 ho, Heap.object_eq_ok_iff.2 ho']
  dsimp only [bind, Except.bind]
  rw [image_function]
  cases hfunction : o.function with
  | none => exact pairs_ok ⟨hid, rfl⟩
  | some f =>
    cases f with
    | closure node scope => exact pairs_ok ⟨hid, rfl⟩
    | native name => exact pairs_ok ⟨hid, rfl⟩
    | bound target receiver args =>
      obtain ⟨i, rfl, hi⟩ := ih target receiver args hfunction
      obtain ⟨fuel, rfl⟩ := Nat.exists_eq_add_of_lt hfuel
      obtain ⟨fuel', rfl⟩ := Nat.exists_eq_add_of_lt hfuel'
      exact hi _ _ (by omega) (by omega)

/-- Whether a prototype stands above an object. -/
theorem pairs_inherits (hp : p.Heaps k k') (proto : ObjectId) {id : ObjectId}
    (hid : Within p id) : p.Pairs (inherits k proto (k.objects.size + 1) id)
      (inherits k' (image p proto) (k'.objects.size + 1) (image p id)) := by
  obtain ⟨n, hchain, hn, hn'⟩ := hp.exists_protos hid
  refine hp.walk_protos (C := fun n id => ∀ fuel fuel', n ≤ fuel → n ≤ fuel' →
    p.Pairs (inherits k proto (fuel + 1) id)
      (inherits k' (image p proto) (fuel' + 1) (image p id)))
    (fun {n id o} ho ho' hid hw ih fuel fuel' hfuel hfuel' => ?_) hchain hid _ _ (by omega)
    (by omega)
  rw [inherits, inherits, Heap.object_eq_ok_iff.2 ho, Heap.object_eq_ok_iff.2 ho']
  dsimp only [bind, Except.bind]
  rw [image_proto]
  cases hproto : o.proto with
  | none => exact pairs_ok ⟨trivial, rfl⟩
  | some next =>
    have hbeq : (image p next == image p proto) = (next == proto) :=
      Bool.eq_iff_iff.2 (by simp)
    simp only [image_some, hbeq]
    split
    · exact pairs_ok ⟨trivial, rfl⟩
    · obtain ⟨i, rfl, hi⟩ := ih next hproto
      obtain ⟨fuel, rfl⟩ := Nat.exists_eq_add_of_lt hfuel
      obtain ⟨fuel', rfl⟩ := Nat.exists_eq_add_of_lt hfuel'
      exact hi _ _ (by omega) (by omega)

end Heaps

/-! ## Reading -/

theorem beq_image (a b : ObjectId) : (image p a == image p b) = (a == b) :=
  Bool.eq_iff_iff.2 (by simp)

namespace Machines

variable {m m' : Machine}

section Reading

variable (hm : p.Machines m m')

include hm

/-- The policy answers alike on both sides. -/
theorem allows_image (actor root : Owner) (owner : Option Owner) (access : Access) :
    m.policy.allows ⟨image p actor, image p owner, access, image p root⟩ =
      m.policy.allows ⟨actor, owner, access, root⟩ := by
  rcases hm.compares with hwhole | hcompares
  · have hfixes := (hm.heap.same hwhole).1
    rw [Carried.image_of_fixes hfixes, Carried.image_of_fixes hfixes,
      Carried.image_of_fixes hfixes]
  · have hsame (o : Owner) : image p owner = some (image p o) ↔ owner = some o := by
      cases owner with
      | none => exact iff_of_false nofun nofun
      | some _ => simp
    refine hcompares _ _ rfl (by simp) ?_ (hsame actor) (hsame root)
    cases owner with
    | none => exact Iff.rfl
    | some _ => exact iff_of_false nofun nofun

theorem pairs_authorizeOwner {actor actor' owner owner' : Option Owner}
    (hactor : p.Pairs actor actor') (howner : p.Pairs owner owner') (access : Access) :
    p.Pairs (m.authorizeOwner actor owner access) (m'.authorizeOwner actor' owner' access) := by
  obtain ⟨hactor, rfl⟩ := hactor
  obtain ⟨howner, rfl⟩ := howner
  unfold authorizeOwner
  rw [hm.policy, hm.rootOwner.eq]
  cases actor with
  | none => exact pairs_error ⟨trivial, rfl⟩
  | some actor =>
    dsimp only [image_some]
    rw [hm.allows_image]
    split
    · exact pairs_ok ⟨trivial, rfl⟩
    · exact pairs_error ⟨trivial, rfl⟩

theorem pairs_authorize {actor actor' : Option Owner} (hactor : p.Pairs actor actor')
    {id id' : ObjectId} (hid : p.Pairs id id') (access : Access) :
    p.Pairs (m.authorize actor id access) (m'.authorize actor' id' access) :=
  pairs_bind (hm.heap.pairs_object hid) fun _ ho =>
    pairs_bind (hm.pairs_authorizeOwner hactor (pairs_image ho.owner) access) fun _ _ =>
      pairs_ok (pairs_image ho)

theorem pairs_builtin (name : String) :
    p.Pairs (m.builtins.get? name) (m'.builtins.get? name) := by
  rw [hm.builtins.eq, get?_image]
  exact pairs_image (within_get? hm.builtins.within name)

/-- The object that a builtin is. -/
theorem pairs_builtinObject? (name : String) : p.Pairs ((m.builtins.get? name).bind Value.object?)
    ((m'.builtins.get? name).bind Value.object?) := by
  obtain ⟨hw, heq⟩ := hm.pairs_builtin name
  rw [heq]
  cases hget : m.builtins.get? name with
  | none => exact ⟨within_none p, rfl⟩
  | some v =>
    refine ⟨within_object? p (hw v hget), ?_⟩
    exact object?_image p v

/-- The object that the built-in name of a prototype stands for. -/
theorem pairs_namedPrototype (name : String) : p.Pairs
    (match (m.builtins.get? name).bind Value.object? with
      | some id => .ok (some id)
      | none => .error (.fault (.missingBuiltin name)) : Except Failure (Option ObjectId))
    (match (m'.builtins.get? name).bind Value.object? with
      | some id => .ok (some id)
      | none => .error (.fault (.missingBuiltin name))) := by
  obtain ⟨hw, heq⟩ := hm.pairs_builtinObject? name
  rw [heq]
  cases hget : (m.builtins.get? name).bind Value.object? with
  | none => exact pairs_error ⟨trivial, rfl⟩
  | some id => exact pairs_ok ⟨hget ▸ hw, rfl⟩

theorem pairs_primitivePrototype {v v' : Value} (hv : p.Pairs v v') :
    p.Pairs (m.primitivePrototype v) (m'.primitivePrototype v') := by
  obtain ⟨-, rfl⟩ := hv
  cases v with
  | string s => exact hm.pairs_namedPrototype _
  | number n => exact hm.pairs_namedPrototype _
  | bool b => exact hm.pairs_namedPrototype _
  | _ => exact pairs_ok ⟨within_none p, rfl⟩

theorem pairs_getOfObject {id id' : ObjectId} (hid : p.Pairs id id') (key : String)
    {actor actor' : Option Owner} (hactor : p.Pairs actor actor') :
    p.Pairs (m.getOfObject id key actor) (m'.getOfObject id' key actor') := by
  refine pairs_bind (hm.pairs_authorize hactor hid .read) fun _ _ =>
    pairs_bind (hm.heap.pairs_lookup hid key) fun found hfound => ?_
  cases found with
  | none => exact pairs_ok ⟨within_undefined p, rfl⟩
  | some prop => exact pairs_ok (pairs_image (hfound prop rfl))

theorem pairs_getOfBox {v v' : Value} (hv : p.Pairs v v') (key : String)
    {actor actor' : Option Owner} (hactor : p.Pairs actor actor') :
    p.Pairs (m.getOfBox v key actor) (m'.getOfBox v' key actor') := by
  refine pairs_bind (hm.pairs_primitivePrototype hv) fun proto hproto => ?_
  cases proto with
  | none => exact pairs_ok ⟨within_undefined p, rfl⟩
  | some id => exact hm.pairs_getOfObject (pairs_image (hproto id rfl)) key hactor

theorem pairs_getProperty {v v' : Value} (hv : p.Pairs v v') (key : String)
    {actor actor' : Option Owner} (hactor : p.Pairs actor actor') :
    p.Pairs (m.getProperty v key actor) (m'.getProperty v' key actor') := by
  have hbox := hm.pairs_getOfBox hv key hactor
  obtain ⟨hv, rfl⟩ := hv
  cases v with
  | object id => exact hm.pairs_getOfObject (pairs_image (hv id rfl)) key hactor
  | string s =>
    dsimp only [image_string, getProperty]
    split
    · exact pairs_ok ⟨within_ofNat p _, rfl⟩
    · split
      · exact pairs_ok ⟨within_string p _, rfl⟩
      · exact hbox
  | number n => exact hbox
  | bool b => exact hbox
  | undefined => exact pairs_error ⟨trivial, rfl⟩
  | null => exact pairs_error ⟨trivial, rfl⟩

theorem pairs_getOwnProperty {id id' : ObjectId} (hid : p.Pairs id id') (key : String)
    {actor actor' : Option Owner} (hactor : p.Pairs actor actor') :
    p.Pairs (m.getOwnProperty id key actor) (m'.getOwnProperty id' key actor') := by
  refine pairs_bind (hm.pairs_authorize hactor hid .read) fun o ho => pairs_ok ⟨?_, ?_⟩
  · exact within_get? ho.properties key
  · exact get?_image p o.properties key

theorem pairs_hasProperty {id id' : ObjectId} (hid : p.Pairs id id') (key : String)
    {actor actor' : Option Owner} (hactor : p.Pairs actor actor') :
    p.Pairs (m.hasProperty id key actor) (m'.hasProperty id' key actor') :=
  pairs_bind (hm.pairs_authorize hactor hid .read) fun _ _ =>
    pairs_bind (hm.heap.pairs_lookup hid key) fun found _ =>
      pairs_ok ⟨trivial, isSome_image p found⟩

theorem pairs_getPrototype {id id' : ObjectId} (hid : p.Pairs id id')
    {actor actor' : Option Owner} (hactor : p.Pairs actor actor') :
    p.Pairs (m.getPrototype id actor) (m'.getPrototype id' actor') :=
  pairs_bind (hm.pairs_authorize hactor hid .read) fun _ ho => pairs_ok (pairs_image ho.proto)

theorem pairs_ownKeys {id id' : ObjectId} (hid : p.Pairs id id')
    {actor actor' : Option Owner} (hactor : p.Pairs actor actor') (includeHidden : Bool) :
    p.Pairs (m.ownKeys id actor includeHidden) (m'.ownKeys id' actor' includeHidden) := by
  refine pairs_bind (hm.pairs_authorize hactor hid .enumerate) fun o _ => pairs_ok ⟨?_, ?_⟩
  · exact within_texts p _
  · rw [image_texts, image_properties, toList_image, List.filter_map, List.map_map]
    rfl

/-- The keys along a chain of prototypes. -/
theorem pairs_chainKeys {actor actor' : Option Owner} (hactor : p.Pairs actor actor')
    {start start' : Option ObjectId} (hstart : p.Pairs start start') (seen keys : List String) :
    p.Pairs (m.chainKeys actor (m.heap.objects.size + 2) start seen keys)
      (m'.chainKeys actor' (m'.heap.objects.size + 2) start' seen keys) := by
  obtain ⟨hstart, rfl⟩ := hstart
  cases start with
  | none => exact pairs_ok ⟨within_texts p _, (image_texts p _).symm⟩
  | some first =>
    have hfirst := hstart first rfl
    obtain ⟨n, hchain, hn, hn'⟩ := hm.heap.exists_protos hfirst
    refine hm.heap.walk_protos (C := fun n id => ∀ fuel fuel' seen keys, n ≤ fuel → n ≤ fuel' →
      p.Pairs (m.chainKeys actor (fuel + 2) (some id) seen keys)
        (m'.chainKeys actor' (fuel' + 2) (some (image p id)) seen keys))
      (fun {n id o} ho ho' hid hw ih fuel fuel' seen keys hfuel hfuel' => ?_) hchain hfirst _ _ _ _
      (by omega) (by omega)
    rw [chainKeys, chainKeys, Heap.object_eq_ok_iff.2 ho, Heap.object_eq_ok_iff.2 ho']
    refine pairs_bind (hm.pairs_ownKeys (pairs_image hid) hactor true) fun own _ => ?_
    have henumerable : ∀ key, (((image p o).properties.get? key).map (·.enumerable)).getD false =
        ((o.properties.get? key).map (·.enumerable)).getD false := by
      intro key
      rw [image_properties, get?_image]
      cases o.properties.get? key <;> rfl
    change p.Pairs (m.chainKeys actor (fuel + 1) o.proto _ _)
      (m'.chainKeys actor' (fuel' + 1) (image p o.proto) _ _)
    simp only [henumerable, image_texts]
    cases hproto : o.proto with
    | none => exact pairs_ok ⟨within_texts p _, (image_texts p _).symm⟩
    | some next =>
      obtain ⟨i, rfl, hi⟩ := ih next hproto
      obtain ⟨fuel, rfl⟩ := Nat.exists_eq_add_of_lt hfuel
      obtain ⟨fuel', rfl⟩ := Nat.exists_eq_add_of_lt hfuel'
      rw [show i + fuel + 1 + 1 = (i + fuel) + 2 by omega,
        show i + fuel' + 1 + 1 = (i + fuel') + 2 by omega]
      exact hi _ _ _ _ (by omega) (by omega)

theorem pairs_forInKeys {v v' : Value} (hv : p.Pairs v v') {actor actor' : Option Owner}
    (hactor : p.Pairs actor actor') :
    p.Pairs (m.forInKeys v actor) (m'.forInKeys v' actor') := by
  have hreverse : ∀ keys : List String,
      p.Pairs (.ok keys.reverse : Except Failure (List String)) (.ok (image p keys).reverse) :=
    fun keys => pairs_ok ⟨within_texts p _, by rw [image_texts, image_texts]⟩
  have hproto := hm.pairs_primitivePrototype hv
  obtain ⟨hv, rfl⟩ := hv
  cases v with
  | object id =>
    have hstart : p.Pairs (some id) (some (image p id)) := ⟨(within_some p id).2 (hv id rfl), rfl⟩
    exact pairs_bind (hm.pairs_chainKeys hactor hstart [] []) fun keys _ => hreverse keys
  | _ =>
    exact pairs_bind hproto fun proto hw =>
      pairs_bind (hm.pairs_chainKeys hactor (pairs_image hw) _ _) fun keys _ => hreverse keys

theorem isCallable {v v' : Value} (hv : p.Pairs v v') : m'.isCallable v' = m.isCallable v := by
  obtain ⟨hv, rfl⟩ := hv
  cases v with
  | object id =>
    obtain ⟨o, ho, ho', -⟩ := hm.heap.object id (hv id rfl)
    change ((m'.heap.object? (image p id)).map (·.isCallable)).getD false =
      ((m.heap.object? id).map (·.isCallable)).getD false
    rw [ho, ho']
    exact isCallable_image p o
  | _ => rfl

theorem pairs_instanceOf {v v' func func' : Value} (hv : p.Pairs v v') (hfunc : p.Pairs func func')
    {actor actor' : Option Owner} (hactor : p.Pairs actor actor') :
    p.Pairs (m.instanceOf v func actor) (m'.instanceOf v' func' actor') := by
  have hcallable := hm.isCallable hfunc
  obtain ⟨hfunc, rfl⟩ := hfunc
  obtain ⟨hv, rfl⟩ := hv
  unfold instanceOf
  rw [object?_image, object?_image, hcallable]
  have hstart := within_object? p hv
  have htarget := within_object? p hfunc
  cases hid : func.object? with
  | none => exact pairs_error ⟨trivial, rfl⟩
  | some id =>
    dsimp only [image_some]
    split
    · exact pairs_error ⟨trivial, rfl⟩
    refine pairs_bind (hm.heap.pairs_unbound (htarget id hid)) fun target htarget => ?_
    cases hget : v.object? with
    | none => exact pairs_ok ⟨trivial, rfl⟩
    | some start =>
      refine pairs_bind (hm.pairs_getProperty (v := .object target)
        ⟨(within_ofObject p target).2 htarget, rfl⟩ "prototype" hactor) fun proto hproto => ?_
      rw [object?_image]
      have hw := within_object? p hproto
      cases proto.object? with
      | none => exact pairs_error ⟨trivial, rfl⟩
      | some proto => exact hm.heap.pairs_inherits proto (hstart start hget)

theorem typeOf {v v' : Value} (hv : p.Pairs v v') : m'.typeOf v' = m.typeOf v := by
  have hcallable := hm.isCallable hv
  obtain ⟨hv, rfl⟩ := hv
  cases v with
  | object id =>
    change (if m'.isCallable (image p (.object id)) then "function" else "object") = _
    rw [hcallable]
    rfl
  | _ => rfl

theorem describe {v v' : Value} (hv : p.Pairs v v') : m'.describe v' = m.describe v := by
  obtain ⟨hv, rfl⟩ := hv
  cases v with
  | object id =>
    obtain ⟨o, ho, ho', -⟩ := hm.heap.object id (hv id rfl)
    unfold Machine.describe
    dsimp only [image_ofObject]
    rw [ho, ho']
    dsimp only
    rw [isCallable_image, ownValue_image, image_cls]
    cases o.ownValue "name" <;> rfl
  | bool b => cases b <;> rfl
  | _ => rfl

/-! ### Errors -/

theorem stackLine? {f f' : Frame} (hf : p.Pairs f f') : m'.stackLine? f' = m.stackLine? f := by
  obtain ⟨hf, rfl⟩ := hf
  have hinfo := hf.info
  unfold Machine.stackLine?
  rw [image_info]
  cases hc : f.info with
  | call c =>
    rw [hc] at hinfo
    dsimp only [image_call]
    rw [image_phase]
    split
    · rw [image_func, object?_image]
      have hfunc := within_object? p hinfo.func
      cases hid : c.func.object? with
      | none => rfl
      | some id =>
        obtain ⟨o, ho, ho', hw⟩ := hm.heap.object id (hfunc id hid)
        have hfunction := hw.function
        simp only [image_some, Option.bind_some, ho, ho', Option.map_some]
        rw [ownValue_image, image_function]
        refine congrArg some (congrArg₂ (· ++ ·) (congrArg ("\n    at " ++ ·) ?_) ?_)
        · cases o.ownValue "name" <;> rfl
        · cases hget : o.function with
          | none => rfl
          | some g =>
            cases g with
            | closure node scope =>
              obtain ⟨t, ht, ht', -⟩ :=
                hm.heap.program node.program (hfunction _ hget).1
              dsimp only [image_some, image_closure]
              rw [image_program, ht', ht]
              rfl
            | _ => rfl
    · rfl
  | _ => rfl

theorem renderStack {id : ThreadId} (hid : p.actor = some id) :
    m'.renderStack id = m.renderStack id := by
  obtain ⟨hw, heq⟩ := hm.thread?_actor hid
  unfold Machine.renderStack
  rw [heq]
  cases ht : m.thread? id with
  | none => rfl
  | some t =>
    have hframes : Within p t.stack.frames := (hw t ht).stack
    change (image p t.stack.frames).foldl _ "" = _
    refine (List.foldl_map.trans ?_)
    refine List.foldl_ext _ _ _ fun acc f hf => ?_
    rw [hm.stackLine? (pairs_image (hframes f hf))]

theorem textField? {id id' : ObjectId} (hid : p.Pairs id id') (key : String) :
    m'.textField? id' key = m.textField? id key := by
  obtain ⟨hw, heq⟩ := hm.heap.pairs_lookup hid key
  unfold Machine.textField?
  rw [heq]
  cases m.heap.lookup id key with
  | error e => rfl
  | ok found =>
    cases found with
    | none => rfl
    | some prop => exact string?_image p prop.value

theorem renderError {v v' : Value} (hv : p.Pairs v v') : m'.renderError v' = m.renderError v := by
  have hdescribe := hm.describe hv
  obtain ⟨hv, rfl⟩ := hv
  cases v with
  | object id =>
    have hid := pairs_image (p := p) (hv id rfl)
    have hname := hm.textField? hid "name"
    have hmessage := hm.textField? hid "message"
    unfold Machine.renderError
    dsimp only [image_ofObject] at hdescribe ⊢
    rw [hname, hmessage, hdescribe]
  | bool b => cases b <;> rfl
  | _ => rfl

end Reading

end Machines

end Pairing

end ScriptMachine
