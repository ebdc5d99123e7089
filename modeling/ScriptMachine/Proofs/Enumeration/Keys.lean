import ScriptMachine.Proofs.Pairing.Heap
import ScriptMachine.Proofs.Arrays.Extent

/-!
# The keys of an enumeration

An enumeration visits the enumerable names along a chain of prototypes. A name belongs to the
first object on the chain that has it: those behind contribute it neither when that is enumerable
nor when it is not. Every object contributes array indices in ascending order and then other names
in the order in which they were inserted.
-/

namespace ScriptMachine

open Exec

/-! ## Own names -/

namespace Machine

/-- One array index comes before another. -/
def Ascends (a b : String) : Prop := ∃ i j, arrayIndex? a = some i ∧ arrayIndex? b = some j ∧ i ≤ j

/-- The names that are array indices, with their numbers. -/
def indexed (keys : List String) : List (Nat × String) :=
  keys.filterMap fun k => (arrayIndex? k).map fun i => (i, k)

theorem arrayIndex?_of_mem_indexed {keys : List String} {e : Nat × String}
    (he : e ∈ indexed keys) : arrayIndex? e.2 = some e.1 := by
  obtain ⟨k, -, hk⟩ := List.mem_filterMap.1 he
  obtain ⟨i, hi, rfl⟩ := Option.map_eq_some_iff.1 hk
  exact hi

theorem map_snd_indexed (keys : List String) :
    (indexed keys).map (·.2) = keys.filter fun k => (arrayIndex? k).isSome := by
  induction keys with
  | nil => rfl
  | cons k keys ih =>
    rw [indexed, List.filterMap_cons, List.filter_cons]
    cases hindex : arrayIndex? k with
    | none => exact ih
    | some i => exact congrArg (k :: ·) ih

/-- The names that are array indices, in ascending order. -/
def indexNames (keys : List String) : List String :=
  ((indexed keys).mergeSort fun a b => a.1 ≤ b.1).map (·.2)

/-- The names that are none, in the order that they have. -/
def otherNames (keys : List String) : List String := keys.filter fun k => (arrayIndex? k).isNone

theorem enumerationOrder_eq (keys : List String) :
    enumerationOrder keys = indexNames keys ++ otherNames keys := rfl

theorem indexNames_perm (keys : List String) :
    (indexNames keys).Perm (keys.filter fun k => (arrayIndex? k).isSome) := by
  rw [← map_snd_indexed]
  exact (List.mergeSort_perm (indexed keys) fun a b => a.1 ≤ b.1).map (·.2)

theorem ascends_indexNames (keys : List String) : (indexNames keys).Pairwise Ascends := by
  have hsorted : ((indexed keys).mergeSort fun a b => a.1 ≤ b.1).Pairwise
      fun a b => decide (a.1 ≤ b.1) = true := by
    apply List.pairwise_mergeSort
    · intro a b c hab hbc
      rw [decide_eq_true_iff] at hab hbc ⊢
      exact Nat.le_trans hab hbc
    · intro a b
      rw [Bool.or_eq_true, decide_eq_true_iff, decide_eq_true_iff]
      exact Nat.le_total a.1 b.1
  rw [indexNames, List.pairwise_map]
  refine hsorted.imp_of_mem fun ha hb hle => ?_
  exact ⟨_, _, arrayIndex?_of_mem_indexed (List.mem_mergeSort.1 ha),
    arrayIndex?_of_mem_indexed (List.mem_mergeSort.1 hb), of_decide_eq_true hle⟩

theorem enumerationOrder_perm (keys : List String) : (enumerationOrder keys).Perm keys := by
  rw [enumerationOrder_eq]
  refine ((indexNames_perm keys).append_right _).trans ?_
  have hparts := List.filter_append_perm (fun k => (arrayIndex? k).isSome) keys
  simpa only [otherNames, Option.not_isSome] using hparts

theorem mem_enumerationOrder {keys : List String} {k : String} :
    k ∈ enumerationOrder keys ↔ k ∈ keys := (enumerationOrder_perm keys).mem_iff

theorem nodup_enumerationOrder {keys : List String} (h : keys.Nodup) :
    (enumerationOrder keys).Nodup := (enumerationOrder_perm keys).nodup_iff.2 h

end Machine

/-! ## Objects on a chain -/

namespace Object

variable {o : Object} {key : String}

/-- An object has a property of its own. -/
def owns (o : Object) (key : String) : Bool := (o.properties.get? key).isSome

/-- An own property is enumerable. -/
def enumerates (o : Object) (key : String) : Bool :=
  ((o.properties.get? key).map (·.enumerable)).getD false

theorem owns_iff : o.owns key = true ↔ key ∈ o.properties.keys := (mem_keys_iff o key).symm

theorem owns_of_enumerates (h : o.enumerates key = true) : o.owns key = true := by
  unfold enumerates at h
  unfold owns
  cases hget : o.properties.get? key with
  | none =>
    rw [hget] at h
    cases h
  | some p => rfl

/-- The names in the order of their enumeration. -/
def names (o : Object) : List String := Machine.enumerationOrder o.properties.keys

theorem nodup_names (o : Object) : o.names.Nodup :=
  Machine.nodup_enumerationOrder o.properties.nodup_keys

theorem mem_names : key ∈ o.names ↔ o.owns key = true :=
  Machine.mem_enumerationOrder.trans owns_iff.symm

/-- What an object contributes to an enumeration along some objects: array indices in ascending
order, and then other names in the order in which they were inserted. It is the first to have them. -/
structure Contributes (objects : List Object) (o : Object) (block : List String) : Prop where
  parts : ∃ indices others, block = indices ++ others ∧
    (∀ k ∈ indices, (arrayIndex? k).isSome = true) ∧ indices.Pairwise Machine.Ascends ∧
    (∀ k ∈ others, arrayIndex? k = none) ∧ others.Sublist o.properties.keys
  first : ∀ k ∈ block, objects.find? (·.owns k) = some o

/-- The enumerable names of an object that did not come before, in order. -/
def fresh (o : Object) (seen : String → Bool) : List String :=
  o.names.filter fun k => !seen k && o.enumerates k

theorem mem_fresh {seen : String → Bool} :
    key ∈ o.fresh seen ↔ seen key = false ∧ o.enumerates key = true := by
  rw [fresh, List.mem_filter, mem_names, Bool.and_eq_true, Bool.not_eq_true']
  exact ⟨fun h => h.2, fun h => ⟨owns_of_enumerates h.2, h⟩⟩

theorem contributes_fresh {seen : String → Bool} {before : List Object}
    (hseen : ∀ k, seen k = false → ∀ o ∈ before, o.owns k = false) (o : Object)
    (behind : List Object) : Contributes (before ++ o :: behind) o (o.fresh seen) where
  parts := by
    refine ⟨_, _, List.filter_append .., ?_, ?_, ?_, ?_⟩
    · intro k hk
      exact (List.mem_filter.1 ((Machine.indexNames_perm _).mem_iff.1 (List.mem_filter.1 hk).1)).2
    · exact (Machine.ascends_indexNames _).sublist List.filter_sublist
    · intro k hk
      exact Option.isNone_iff_eq_none.1 (List.mem_filter.1 (List.mem_filter.1 hk).1).2
    · exact List.filter_sublist.trans List.filter_sublist
  first := by
    intro k hk
    obtain ⟨hnew, henumerates⟩ := mem_fresh.1 hk
    have hbefore : before.find? (·.owns k) = none :=
      List.find?_eq_none.2 fun b hb => by simp [hseen k hnew b hb]
    rw [List.find?_append, hbefore, List.find?_cons, owns_of_enumerates henumerates]
    rfl

end Object

namespace Heap

variable {h : Heap}

/-- The objects from one on along their prototypes, where that comes to an end. -/
inductive Protos (h : Heap) : Option ObjectId → List Object → Prop where
  | nil : Protos h none []
  | cons {id : ObjectId} {o : Object} {behind : List Object} (ho : h.object? id = some o)
    (hbehind : Protos h o.proto behind) : Protos h (some id) (o :: behind)

theorem Protos.chain {start : Option ObjectId} {objects : List Object}
    (hp : h.Protos start objects) {id : ObjectId} (hid : start = some id) :
    ∃ n, objects.length = n + 1 ∧ Chain h.protoLink n id := by
  induction hp generalizing id with
  | nil => cases hid
  | @cons id' o behind ho hbehind ih =>
    obtain rfl := Option.some.inj hid
    have hlink : h.protoLink id' = some o.proto := by
      unfold protoLink
      rw [ho]
      rfl
    cases hproto : o.proto with
    | none =>
      rw [hproto] at hbehind hlink
      cases hbehind
      exact ⟨0, rfl, .last hlink⟩
    | some next =>
      obtain ⟨n, hlength, hchain⟩ := ih hproto
      rw [hproto] at hlink
      exact ⟨n + 1, congrArg (· + 1) hlength, .next hlink hchain⟩

/-- A chain that comes to an end has no more objects than there are. -/
theorem Protos.length_le {start : Option ObjectId} {objects : List Object}
    (hp : h.Protos start objects) : objects.length ≤ h.objects.size := by
  cases start with
  | none =>
    cases hp
    exact Nat.zero_le _
  | some id =>
    obtain ⟨n, hlength, hchain⟩ := hp.chain rfl
    have hlt := lt_size_of_protos hchain
    omega

end Heap

/-! ## What an enumeration lists -/

namespace Object

/-- What some objects contribute, one behind the other. -/
def contributions (seen : String → Bool) : List Object → List String
  | [] => []
  | o :: behind => o.fresh seen ++ contributions (fun k => seen k || o.owns k) behind

variable {seen : String → Bool} {objects : List Object} {key : String}

/-- A name is contributed if the first object that has it has it enumerable. -/
theorem mem_contributions : key ∈ contributions seen objects ↔ seen key = false ∧
    ∃ o, objects.find? (·.owns key) = some o ∧ o.enumerates key = true := by
  induction objects generalizing seen with
  | nil => simp [contributions]
  | cons o behind ih =>
    rw [contributions, List.mem_append, mem_fresh, ih, List.find?_cons]
    cases howns : o.owns key with
    | true => simp
    | false =>
      have hnot : o.enumerates key = false :=
        Bool.eq_false_iff.2 fun h => Bool.eq_false_iff.1 howns (owns_of_enumerates h)
      simp [hnot]

theorem nodup_contributions (seen : String → Bool) (objects : List Object) :
    (contributions seen objects).Nodup := by
  induction objects generalizing seen with
  | nil => exact List.nodup_nil
  | cons o behind ih =>
    rw [contributions]
    refine List.Nodup.append (o.nodup_names.filter _) (ih _) fun k hfresh hbehind => ?_
    have hnot := (mem_contributions.1 hbehind).1
    have howns := owns_of_enumerates (mem_fresh.1 hfresh).2
    rw [howns, Bool.or_true] at hnot
    cases hnot

theorem exists_blocks (seen : String → Bool) (before objects : List Object)
    (hseen : ∀ k, seen k = false → ∀ o ∈ before, o.owns k = false) : ∃ blocks,
    contributions seen objects = blocks.flatten ∧
      List.Forall₂ (Contributes (before ++ objects)) objects blocks := by
  induction objects generalizing seen before with
  | nil => exact ⟨[], rfl, .nil⟩
  | cons o behind ih =>
    have hseen' : ∀ k, (seen k || o.owns k) = false → ∀ b ∈ before ++ [o], b.owns k = false := by
      intro k hk b hb
      obtain ⟨hnew, hnot⟩ := Bool.or_eq_false_iff.1 hk
      rcases List.mem_append.1 hb with hb | hb
      · exact hseen k hnew b hb
      · rwa [List.mem_singleton.1 hb]
    obtain ⟨blocks, hblocks, hcontribute⟩ := ih _ _ hseen'
    rw [List.append_assoc] at hcontribute
    refine ⟨o.fresh seen :: blocks, ?_, .cons (contributes_fresh hseen o behind) hcontribute⟩
    rw [contributions, hblocks]
    rfl

end Object

namespace Machine

variable {m : Machine} {actor : Option Owner}

theorem bind_reading_eq_ok_iff {α β : Type} {x : Except Failure α} {f : α → Except Failure β}
    {b : β} : (x >>= f) = .ok b ↔ ∃ a, x = .ok a ∧ f a = .ok b := by
  cases x <;> simp [bind, Except.bind]

/-- Names that were not seen are seen from then on, and those of them that are shown are kept. -/
theorem foldl_names {step : List String × List String → String → List String × List String}
    (shows : String → Bool)
    (hold : ∀ seen keys k, seen.contains k = true → step (seen, keys) k = (seen, keys))
    (hnew : ∀ seen keys k, seen.contains k = false →
      step (seen, keys) k = (k :: seen, if shows k then k :: keys else keys))
    {names : List String} (hnames : names.Nodup) (seen keys : List String) :
    names.foldl step (seen, keys) =
      ((names.filter fun k => !seen.contains k).reverse ++ seen,
        (names.filter fun k => !seen.contains k && shows k).reverse ++ keys) := by
  induction names generalizing seen keys with
  | nil => rfl
  | cons k names ih =>
    obtain ⟨hk, hnames⟩ := List.nodup_cons.1 hnames
    rw [List.foldl_cons, List.filter_cons, List.filter_cons]
    cases hseen : seen.contains k with
    | true =>
      rw [hold seen keys k hseen, ih hnames]
      simp
    | false =>
      -- The other names are different, so that it makes no difference to them.
      have hother : ∀ x ∈ names, (k :: seen).contains x = seen.contains x := by
        intro x hx
        have hne : (x == k) = false := by
          rw [beq_eq_false_iff_ne]
          rintro rfl
          exact hk hx
        rw [List.contains_cons, hne, Bool.false_or]
      rw [hnew seen keys k hseen, ih hnames,
        List.filter_congr fun x hx => congrArg (!·) (hother x hx),
        List.filter_congr fun x hx => congrArg (!· && shows x) (hother x hx)]
      cases shows k <;> simp

theorem ownKeys_eq {id : ObjectId} {o : Object} (ho : m.heap.object? id = some o)
    (hallowed : m.authorizeOwner actor o.owner .enumerate = .ok ()) :
    m.ownKeys id actor true = .ok o.names := by
  unfold ownKeys
  rw [authorize_eq_ok_iff.2 ⟨ho, hallowed⟩]
  simp [bind, Except.bind, pure, Except.pure, Object.names, Table.keys]

/-- What is added along a chain, if the actor may enumerate every object on it. -/
theorem chainKeys_eq {start : Option ObjectId} {objects : List Object}
    (hp : m.heap.Protos start objects)
    (hallowed : ∀ o ∈ objects, m.authorizeOwner actor o.owner .enumerate = .ok ()) {fuel : Nat}
    (hfuel : objects.length < fuel) (seen keys : List String) :
    m.chainKeys actor fuel start seen keys =
      .ok ((Object.contributions seen.contains objects).reverse ++ keys) := by
  induction hp generalizing fuel seen keys with
  | nil =>
    obtain ⟨fuel, rfl⟩ : ∃ more, fuel = more + 1 := Nat.exists_eq_succ_of_ne_zero (by omega)
    rfl
  | @cons id o behind ho hbehind ih =>
    obtain ⟨fuel, rfl⟩ : ∃ more, fuel = more + 1 := Nat.exists_eq_succ_of_ne_zero (by omega)
    rw [List.length_cons, Nat.add_lt_add_iff_right] at hfuel
    have hobject : m.heap.object id = .ok o := Heap.object_eq_ok_iff.2 ho
    have hseen : ((o.names.filter fun k => !seen.contains k).reverse ++ seen).contains =
        fun k => seen.contains k || o.owns k := by
      funext k
      rw [Bool.eq_iff_iff]
      simp only [List.contains_iff_mem, List.mem_append, List.mem_reverse, List.mem_filter,
        Object.mem_names, Bool.not_eq_true', Bool.or_eq_true, ← Bool.not_eq_true]
      tauto
    rw [chainKeys, ownKeys_eq ho (hallowed o List.mem_cons_self), hobject]
    dsimp only [bind, Except.bind]
    rw [foldl_names o.enumerates _ _ o.nodup_names, ih _ hfuel, hseen]
    · simp [Object.contributions, Object.fresh]
    · exact fun o' ho' => hallowed o' (List.mem_cons_of_mem o ho')
    · intro seen keys k hk
      exact if_pos hk
    · intro seen keys k hk
      exact if_neg (by rw [hk]; exact Bool.false_ne_true)

/-- Keys come only of a chain whose objects the actor may all enumerate. -/
theorem authorized_of_chainKeys {start : Option ObjectId} {objects : List Object}
    (hp : m.heap.Protos start objects) {fuel : Nat} (hfuel : objects.length < fuel)
    {seen keys keys' : List String} (hkeys : m.chainKeys actor fuel start seen keys = .ok keys') :
    ∀ o ∈ objects, m.authorizeOwner actor o.owner .enumerate = .ok () := by
  induction hp generalizing fuel seen keys with
  | nil => exact fun o ho => absurd ho List.not_mem_nil
  | @cons id o behind ho hbehind ih =>
    obtain ⟨fuel, rfl⟩ : ∃ more, fuel = more + 1 := Nat.exists_eq_succ_of_ne_zero (by omega)
    rw [List.length_cons, Nat.add_lt_add_iff_right] at hfuel
    rw [chainKeys] at hkeys
    obtain ⟨own, hown, hkeys⟩ := bind_reading_eq_ok_iff.1 hkeys
    obtain ⟨o', ho', hkeys⟩ := bind_reading_eq_ok_iff.1 hkeys
    obtain rfl := Option.some.inj (ho.symm.trans (Heap.object_eq_ok_iff.1 ho'))
    unfold ownKeys at hown
    obtain ⟨o', ho', -⟩ := bind_reading_eq_ok_iff.1 hown
    obtain ⟨ho', hallowed⟩ := authorize_eq_ok_iff.1 ho'
    obtain rfl := Option.some.inj (ho.symm.trans ho')
    exact List.forall_mem_cons.2 ⟨hallowed, ih hfuel hkeys⟩

/-! ## What a loop starts with -/

/-- The indices of the UTF-16 units of a string. No other value has any. -/
def unitIndices : Value → List String
  | .string s => (List.range (Text.unitCount s)).map Number.natText
  | _ => []

/-- Where the chain of a value begins: an object is the first on its own. -/
def chainStart (m : Machine) : Value → Except Failure (Option ObjectId)
  | .object id => .ok (some id)
  | v => m.primitivePrototype v

/-- The keys of an enumeration, given the indices that come first and the objects on the chain. -/
structure Lists (own : List String) (objects : List Object) (keys : List String) : Prop where
  nodup : keys.Nodup
  mem_iff : ∀ k, k ∈ keys ↔ k ∈ own ∨
    ∃ o, objects.find? (·.owns k) = some o ∧ o.enumerates k = true
  ordered : ∃ blocks, keys = own ++ blocks.flatten ∧
    List.Forall₂ (Object.Contributes objects) objects blocks

theorem natText_injective : Function.Injective Number.natText := by
  intro i j hij
  rw [← Number.natOfDigits_decimalDigits i, ← Number.natOfDigits_decimalDigits j]
  exact congrArg (Number.natOfDigits 10) (String.ofList_injective hij)

theorem nodup_unitIndices (v : Value) : (unitIndices v).Nodup := by
  cases v with
  | string s => exact List.nodup_range.map natText_injective
  | _ => exact List.nodup_nil

theorem forInKeys_eq (m : Machine) (v : Value) (actor : Option Owner) :
    m.forInKeys v actor = do
      let start ← m.chainStart v
      let own := (unitIndices v).reverse
      return (← m.chainKeys actor (m.heap.objects.size + 2) start own own).reverse := by
  cases v <;> rfl

theorem lists_contributions {own : List String} (hown : own.Nodup) (objects : List Object) :
    Lists own objects (own ++ Object.contributions own.reverse.contains objects) where
  nodup := by
    refine hown.append (Object.nodup_contributions _ objects) fun k hk hbehind => ?_
    have hnot := (Object.mem_contributions.1 hbehind).1
    simp [hk] at hnot
  mem_iff := by
    intro k
    rw [List.mem_append, Object.mem_contributions]
    by_cases hk : k ∈ own <;> simp [hk]
  ordered := by
    obtain ⟨blocks, hblocks, hcontribute⟩ := Object.exists_blocks own.reverse.contains [] objects
      fun _ _ _ h => absurd h List.not_mem_nil
    exact ⟨blocks, congrArg (own ++ ·) hblocks, hcontribute⟩

/-- A loop lists keys if its actor may enumerate every object on the chain, and then these. -/
theorem forInKeys_lists {v : Value} {start : Option ObjectId} {objects : List Object}
    (hstart : m.chainStart v = .ok start) (hp : m.heap.Protos start objects) :
    ((∃ keys, m.forInKeys v actor = .ok keys) ↔
      ∀ o ∈ objects, m.authorizeOwner actor o.owner .enumerate = .ok ()) ∧
    ∀ keys, m.forInKeys v actor = .ok keys → Lists (unitIndices v) objects keys := by
  have hfuel : objects.length < m.heap.objects.size + 2 := by
    have := hp.length_le
    omega
  have heq := forInKeys_eq m v actor
  rw [hstart] at heq
  dsimp only [bind, Except.bind] at heq
  have hlisted (hallowed : ∀ o ∈ objects, m.authorizeOwner actor o.owner .enumerate = .ok ()) :
      m.forInKeys v actor = .ok (unitIndices v ++
        Object.contributions (unitIndices v).reverse.contains objects) := by
    rw [heq, chainKeys_eq hp hallowed hfuel]
    simp [pure, Except.pure]
  have hauthorized {keys : List String} (hkeys : m.forInKeys v actor = .ok keys) :
      ∀ o ∈ objects, m.authorizeOwner actor o.owner .enumerate = .ok () := by
    rw [heq] at hkeys
    obtain ⟨keys', hkeys', -⟩ := bind_reading_eq_ok_iff.1 hkeys
    exact authorized_of_chainKeys hp hfuel hkeys'
  refine ⟨⟨fun ⟨keys, hkeys⟩ => hauthorized hkeys, fun h => ⟨_, hlisted h⟩⟩, fun keys hkeys => ?_⟩
  obtain rfl := Except.ok.inj ((hlisted (hauthorized hkeys)).symm.trans hkeys)
  exact lists_contributions (nodup_unitIndices v) objects

end Machine

/-! ## What is present -/

namespace Heap

variable {h : Heap} {key : String} {id : ObjectId}

/-- An object, or one behind it along its prototypes, has a property of its own. -/
inductive Has (h : Heap) (key : String) : ObjectId → Prop where
  | own {id : ObjectId} {o : Object} (ho : h.object? id = some o) (howns : o.owns key = true) :
    Has h key id
  | behind {id next : ObjectId} {o : Object} (ho : h.object? id = some o)
    (hproto : o.proto = some next) (hnext : Has h key next) : Has h key id

/-- The way to the first object that has a property of its own. -/
def ownerLink (h : Heap) (key : String) (id : ObjectId) : Option (Option ObjectId) :=
  (h.object? id).map fun o => if o.owns key then none else o.proto

theorem lt_size_of_owners {n : Nat} (hchain : Chain (h.ownerLink key) n id) :
    n < h.objects.size :=
  hchain.lt_size index_injective fun b hb => lt_size_of_object? fun hnone =>
    hb (by rw [ownerLink, hnone]; rfl)

theorem Has.exists_chain (hhas : h.Has key id) : ∃ n, Chain (h.ownerLink key) n id := by
  induction hhas with
  | @own id o ho howns =>
    have hlast : h.ownerLink key id = some none := by
      rw [ownerLink, ho, Option.map_some, if_pos howns]
    exact ⟨0, .last hlast⟩
  | @behind id next o ho hproto hnext ih =>
    cases howns : o.owns key with
    | true =>
      have hlast : h.ownerLink key id = some none := by
        rw [ownerLink, ho, Option.map_some, if_pos howns]
      exact ⟨0, .last hlast⟩
    | false =>
      obtain ⟨n, hchain⟩ := ih
      have hlink : h.ownerLink key id = some (some next) := by
        rw [ownerLink, ho, Option.map_some, howns, if_neg Bool.false_ne_true, hproto]
      exact ⟨n + 1, .next hlink hchain⟩

theorem Has.lookupFrom (hhas : h.Has key id) {n fuel : Nat}
    (hchain : Chain (h.ownerLink key) n id) (hfuel : n < fuel) :
    ∃ p, h.lookupFrom key fuel id = .ok (some p) := by
  obtain ⟨fuel, rfl⟩ : ∃ more, fuel = more + 1 := Nat.exists_eq_succ_of_ne_zero (by omega)
  have hown {id : ObjectId} {o : Object} {fuel : Nat} (ho : h.object? id = some o)
      (howns : o.owns key = true) : ∃ p, h.lookupFrom key (fuel + 1) id = .ok (some p) := by
    obtain ⟨p, hp⟩ := Option.isSome_iff_exists.1 howns
    refine ⟨p, ?_⟩
    rw [Heap.lookupFrom, object_eq_ok_iff.2 ho]
    dsimp only [bind, Except.bind]
    rw [hp]
    rfl
  induction hhas generalizing n fuel with
  | own ho howns => exact hown ho howns
  | @behind id next o ho hproto hnext ih =>
    cases howns : o.owns key with
    | true => exact hown ho howns
    | false =>
      have hlink : h.ownerLink key id = some (some next) := by
        rw [ownerLink, ho, Option.map_some, howns, if_neg Bool.false_ne_true, hproto]
      have hnot : o.properties.get? key = none := Option.not_isSome_iff_eq_none.1 (by
        rw [← Object.owns, howns]
        exact Bool.false_ne_true)
      cases hchain with
      | last hlast => cases hlink.symm.trans hlast
      | next hlink' hchain =>
        obtain rfl := Option.some.inj (Option.some.inj (hlink.symm.trans hlink'))
        obtain ⟨fuel, rfl⟩ : ∃ more, fuel = more + 1 :=
          Nat.exists_eq_succ_of_ne_zero (by omega)
        obtain ⟨p, hp⟩ := ih hchain fuel (by omega)
        refine ⟨p, ?_⟩
        rw [Heap.lookupFrom, object_eq_ok_iff.2 ho]
        dsimp only [bind, Except.bind]
        rw [hnot, hproto]
        exact hp

theorem has_of_lookupFrom {fuel : Nat} {p : Property}
    (hlookup : h.lookupFrom key fuel id = .ok (some p)) : h.Has key id := by
  induction fuel generalizing id with
  | zero => cases hlookup
  | succ fuel ih =>
    rw [lookupFrom] at hlookup
    obtain ⟨o, ho, hlookup⟩ := Machine.bind_reading_eq_ok_iff.1 hlookup
    rw [object_eq_ok_iff] at ho
    cases hget : o.properties.get? key with
    | some p =>
      exact .own ho (by rw [Object.owns, hget]; rfl)
    | none =>
      rw [hget] at hlookup
      dsimp only at hlookup
      cases hproto : o.proto with
      | none =>
        rw [hproto] at hlookup
        cases hlookup
      | some next =>
        rw [hproto] at hlookup
        exact .behind ho hproto (ih hlookup)

/-- A property is found exactly where the chain has it, even if the chain should have no end. -/
theorem has_iff_of_lookup {found : Option Property} (hlookup : h.lookup id key = .ok found) :
    h.Has key id ↔ found.isSome = true := by
  constructor
  · intro hhas
    obtain ⟨n, hchain⟩ := hhas.exists_chain
    obtain ⟨p, hp⟩ := hhas.lookupFrom hchain
      (Nat.lt_succ_of_lt (lt_size_of_owners hchain) : n < h.objects.size + 1)
    obtain rfl := Except.ok.inj (hp.symm.trans hlookup)
    rfl
  · intro hsome
    obtain ⟨p, rfl⟩ := Option.isSome_iff_exists.1 hsome
    exact has_of_lookupFrom hlookup

end Heap

theorem Machine.has_iff_of_hasProperty {m : Machine} {id : ObjectId} {key : String}
    {actor : Option Owner} {present : Bool} (h : m.hasProperty id key actor = .ok present) :
    m.heap.Has key id ↔ present = true := by
  unfold Machine.hasProperty at h
  obtain ⟨o, -, h⟩ := Machine.bind_reading_eq_ok_iff.1 h
  obtain ⟨found, hlookup, h⟩ := Machine.bind_reading_eq_ok_iff.1 h
  obtain rfl := Except.ok.inj h
  exact Heap.has_iff_of_lookup hlookup

end ScriptMachine
