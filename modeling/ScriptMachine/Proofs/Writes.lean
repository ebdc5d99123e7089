import ScriptMachine.Proofs.Arrays.Uses
import ScriptMachine.Proofs.Reach

/-!
# Writes are whole or nothing

An operation that writes to an object makes its checks first. If one of them fails, the machine is
what it was. If none does, an assignment changes the property it names, and of an array the length
and the items behind it; whatever else there is stays as it was. A property that is defined as it is
already stays so, unless its array has a length that arrays do not have.
-/

namespace ScriptMachine

open Exec Machine

/-- A table is what it was when an entry becomes what it is. -/
theorem Table.modify_eq_self {α : Type} {t : Table α} {key : String} {f : α → α}
    (hf : ∀ v, t.get? key = some v → f v = v) : t.modify key f = t := by
  apply Table.ext
  apply Array.toList_inj.1
  rw [toList_modify]
  refine (List.map_congr_left fun e he => ?_).trans (List.map_id _)
  split
  · rename_i hkey
    have hget : t.get? key = some e.2 := hkey ▸ t.get?_eq_some_iff.2 he
    rw [hf e.2 hget]
    rfl
  · rfl

/-- A double that is a number is equal to itself. -/
theorem Number.beq_self {x : Float} (h : x.isNaN = false) : (x == x) = true := by
  change (x.toModel.unpack.compare x.toModel.unpack == some .eq) = true
  cases hx : x.toModel.unpack with
  | notANumber =>
    have hnan : x.isNaN = true := by
      change x.toModel.unpack.isNaN = true
      rw [hx]
      rfl
    rw [h] at hnan
    cases hnan
  | infinity s => cases s <;> rfl
  | zero s => rfl
  | finite s m e _ =>
    cases s <;> simp [Float.Model.UnpackedFloat.compare]

/-- A value is the same as itself as data. -/
theorem Value.sameValue_self (v : Value) : v.sameValue v = true := by
  cases v with
  | number x =>
    change (x.isNaN && x.isNaN || x == x && _ == Number.isNegative x) = true
    cases hnan : x.isNaN with
    | true => rfl
    | false =>
      rw [Number.beq_self hnan, beq_self_eq_true]
      rfl
  | _ => simp [sameValue, strictEquals]

/-- A definition that asks for a property as it is. -/
def Property.descriptor (p : Property) : Descriptor where
  value := some p.value
  writable := some p.writable
  enumerable := some p.enumerable
  configurable := some p.configurable

theorem Descriptor.merge?_descriptor (p : Property) : p.descriptor.merge? p = some p := by
  obtain ⟨v, writable, enumerable, configurable⟩ := p
  cases writable <;> cases configurable <;>
    simp [merge?, Property.descriptor, Value.sameValue_self]

namespace Object

variable {o o' : Object} {key : String} {v : Value}

/-- What an assignment that succeeds makes of an object. -/
inductive Written (o : Object) (key : String) (v : Value) (o' : Object) : Prop where
  /-- The property keeps its flags and its place. -/
  | kept (p : Property) (hp : o.properties.get? key = some p)
    (hplain : ¬ (o.isArray = true ∧ key = "length"))
    (hkeys : o'.properties.keys = o.properties.keys)
    (hvalue : o'.properties.get? key = some { p with value := v })
    (hothers : ∀ other, other ≠ key → o'.properties.get? other = o.properties.get? other)
  /-- The length of an array is the number of the value, and a length below it cuts the array. -/
  | length (p : Property) (n : Nat) (harray : o.isArray = true) (hkey : key = "length")
    (hp : o.properties.get? "length" = some p) (hn : n < 4294967296)
    (hv : (v.toNumber == Number.ofNat n) = true)
    (hkeys : o'.properties.keys =
      if n < o.length then o.properties.keys.filter (staysBelow n) else o.properties.keys)
    (hvalue : o'.properties.get? "length" = some { p with value := .nat n })
    (hothers : ∀ other ∈ o'.properties.keys, other ≠ "length" →
      o'.properties.get? other = o.properties.get? other)
  /-- A new property comes last and has every flag. -/
  | added (hnew : o.properties.get? key = none) (hfits : o.grownIndex? key = none)
    (hkeys : o'.properties.keys = o.properties.keys ++ [key])
    (hvalue : o'.properties.get? key = some (.data v))
    (hothers : ∀ other, other ≠ key → o'.properties.get? other = o.properties.get? other)
  /-- A new item at the length of an array or behind it makes the array as long as it must be. A
  length as arrays have it at first keeps its flags. -/
  | grown (i : Nat) (hnew : o.properties.get? key = none) (hgrown : o.grownIndex? key = some i)
    (hkeys : o'.properties.keys = o.properties.keys ++
      if "length" ∈ o.properties.keys then [key] else [key, "length"])
    (hvalue : o'.properties.get? key = some (.data v))
    (hlength : ∃ p, o'.properties.get? "length" = some p ∧ p.value = .nat (i + 1) ∧
      ∀ w, o.properties.get? "length" = some (.length w) → p = .length p.value)
    (hothers : ∀ other, other ≠ key → other ≠ "length" →
      o'.properties.get? other = o.properties.get? other)

theorem written_modify {p : Property} (hp : o.properties.get? key = some p)
    (hplain : ¬ (o.isArray = true ∧ key = "length")) :
    o.Written key v
      { o with properties := o.properties.modify key fun p => { p with value := v } } := by
  apply Written.kept p hp hplain
  · exact Table.keys_modify ..
  · rw [Table.get?_modify, if_pos rfl, hp]
    rfl
  · intro other hother
    rw [Table.get?_modify, if_neg hother]

theorem get?_resize_of_mem {n : Nat} {other : String}
    (hmem : other ∈ (o.resize n).properties.keys) (hother : other ≠ "length") :
    (o.resize n).properties.get? other = o.properties.get? other := by
  rw [get?_resize, if_neg hother]
  rw [keys_resize] at hmem
  split
  · rename_i hshorter
    rw [if_pos hshorter, List.mem_filter] at hmem
    have hstays := hmem.2
    unfold staysBelow at hstays
    cases o.properties.get? other with
    | none => rfl
    | some p => exact Option.filter_some_pos hstays
  · rfl

theorem written_resize {p : Property} {n : Nat} (harray : o.isArray = true)
    (hp : o.properties.get? "length" = some p) (hn : arrayLength? v = some n) :
    o.Written "length" v (o.resize n) := by
  obtain ⟨hbound, hv⟩ := arrayLength?_eq_some_iff.1 hn
  apply Written.length p n harray rfl hp hbound hv
  · exact o.keys_resize n
  · rw [get?_resize, if_pos rfl, hp]
    rfl
  · intro other hmem hother
    exact get?_resize_of_mem hmem hother

theorem written_added (hnew : o.properties.get? key = none) : o.Written key v (o.added key v) := by
  have hkey : key ∉ o.properties.keys := (Table.get?_eq_none_iff _).1 hnew
  cases hgrown : o.grownIndex? key with
  | none =>
    rw [added_of_fits hgrown]
    apply Written.added hnew hgrown
    · exact keys_put_of_not_mem hkey _
    · exact (get?_put ..).trans (if_pos rfl)
    · intro other hother
      exact (get?_put ..).trans (if_neg hother)
  | some i =>
    rw [added_of_grownIndex? hgrown]
    have hlength : "length" ≠ key := (ne_length_of_grownIndex? hgrown).symm
    apply Written.grown i hnew hgrown
    · split
      · rename_i hmem
        rw [keys_put_of_mem ((mem_keys_put ..).2 (.inr hmem)), keys_put_of_not_mem hkey]
      · rename_i hmem
        have habsent : "length" ∉ (o.put key (.data v)).properties.keys := by
          rw [mem_keys_put]
          exact not_or.2 ⟨hlength, hmem⟩
        rw [keys_put_of_not_mem habsent, keys_put_of_not_mem hkey, List.append_assoc]
        rfl
    · rw [get?_put, if_neg hlength.symm, get?_put, if_pos rfl]
    · exact ⟨_, (get?_put ..).trans (if_pos rfl), rfl, fun w _ => rfl⟩
    · intro other hother hother'
      rw [get?_put, if_neg hother', get?_put, if_neg hother]

/-- As far as a property concerns it, an array has a length that arrays have: the length is a count,
and an item lies below the length. -/
def Regular (o : Object) (key : String) : Prop :=
  o.isArray = true →
    if key = "length" then ∃ n < 4294967296, o.ownValue "length" = .nat n
    else o.properties.get? "length" = none ∨ ∀ i, arrayIndex? key = some i → i < o.length

theorem regular_length_iff {p : Property} (harray : o.isArray = true)
    (hp : o.properties.get? "length" = some p) :
    o.Regular "length" ↔ ∃ n < 4294967296, p.value = .nat n := by
  unfold Regular ownValue
  rw [hp, if_pos rfl]
  exact ⟨fun h => h harray, fun h _ => h⟩

/-- A length that is given the number it has, and the flag it has, is what it was if it was a
count. -/
theorem limited_resize_eq_self_iff {p : Property} {n : Nat}
    (hp : o.properties.get? "length" = some p) (hn : n < 4294967296) :
    (o.resize n).limited p.writable = o ↔ p.value = .nat n := by
  constructor
  · intro h
    have hget : ((o.resize n).limited p.writable).properties.get? "length" =
        some { p with value := .nat n } := by
      rw [limited]
      dsimp only
      rw [Table.get?_modify, if_pos rfl, get?_resize, if_pos rfl, hp]
      rfl
    rw [h, hp] at hget
    exact congrArg Property.value (Option.some.inj hget)
  · intro hvalue
    have hlength : ¬ n < o.length := by
      rw [length_eq hp hvalue hn]
      exact Nat.lt_irrefl n
    have hresize : o.resize n = o := by
      unfold resize
      dsimp only
      rw [if_neg hlength, Table.modify_eq_self]
      intro q hq
      rw [hp] at hq
      rw [← Option.some.inj hq, ← hvalue]
    rw [hresize, limited, Table.modify_eq_self]
    intro q hq
    rw [hp] at hq
    rw [← Option.some.inj hq]

theorem put_eq_self {p : Property} (hp : o.properties.get? key = some p) : o.put key p = o := by
  have hmem : key ∈ o.properties.keys := (o.mem_keys_iff key).2 (hp ▸ rfl)
  rw [put, Table.insert_eq_modify _ _ hmem, Table.modify_eq_self]
  intro q hq
  rw [hp] at hq
  exact Option.some.inj hq

theorem defined_eq_self_iff {p : Property} (hp : o.properties.get? key = some p)
    (hplain : o.isArray = true → key ≠ "length") : o.defined key p = o ↔ o.Regular key := by
  cases hgrown : o.grownIndex? key with
  | none =>
    rw [defined_of_fits hgrown, put_eq_self hp]
    refine iff_of_true rfl fun harray => ?_
    rw [if_neg (hplain harray)]
    right
    intro i hindex
    by_contra hle
    rw [grownIndex?_eq_some_iff.2 ⟨harray, hindex, Nat.le_of_not_lt hle⟩] at hgrown
    cases hgrown
  | some i =>
    obtain ⟨harray, hindex, hle⟩ := grownIndex?_eq_some_iff.1 hgrown
    unfold Regular
    rw [if_neg (hplain harray)]
    constructor
    · intro h _
      have hget := get?_defined_of_grownIndex? hgrown p "length"
      rw [h, if_pos rfl] at hget
      cases hlength : o.properties.get? "length" with
      | none => exact .inl rfl
      | some q =>
        -- The length would be what the item makes it, and the item would lie below it.
        rw [hlength] at hget
        have hvalue : q.value = .nat (i + 1) :=
          congrArg Property.value (Option.some.inj hget)
        have hbound := lt_of_arrayIndex? hindex
        have := length_eq hlength hvalue (by omega)
        omega
    · intro h
      rcases h harray with hnone | hbelow
      · rw [defined, hgrown]
        dsimp only
        rw [put_eq_self hp, Table.modify_eq_self]
        intro q hq
        rw [hnone] at hq
        cases hq
      · have := hbelow i hindex
        omega

theorem sameShell_added (o : Object) (key : String) (v : Value) : o.SameShell (o.added key v) := by
  unfold added
  split <;> exact ⟨rfl, rfl, rfl, rfl, rfl⟩

theorem Assigned.sameShell (h : o.Assigned key v o') : o.SameShell o' := by
  cases h with
  | value | length => exact ⟨rfl, rfl, rfl, rfl, rfl⟩
  | added => exact o.sameShell_added key v

theorem Assigned.written (h : o.Assigned key v o') : o.Written key v o' := by
  cases h with
  | value p hp _ hplain => exact written_modify hp (by simpa using hplain)
  | length p n harray hkey hp _ hn => exact hkey ▸ written_resize harray hp hn
  | added _ hnew => exact written_added hnew

end Object

namespace Machine

variable {m m' : Machine} {id : ObjectId} {o : Object} {key : String} {v : Value}
  {actor : Option Owner}

/-! ## What an assignment writes -/

theorem withObject_self (ho : m.heap.object? id = some o) : (m.withObject id fun _ => o) = m := by
  rw [withObject_congr ho (g := fun o => o) rfl]
  have hslot : m.heap.objects.modify id.index (Option.map fun o => o) = m.heap.objects := by
    apply Array.ext_getElem?
    intro i
    rw [Array.getElem?_modify]
    split <;> simp
  unfold withObject Heap.modifyObject
  rw [hslot]

/-- A machine is what it was when the object is. -/
theorem withObject_eq_self_iff (ho : m.heap.object? id = some o) (o' : Object) :
    (m.withObject id fun _ => o') = m ↔ o' = o := by
  constructor
  · intro h
    have ho' := object?_withObject ho fun _ => o'
    rw [h, ho] at ho'
    exact (Option.some.inj ho').symm
  · rintro rfl
    exact withObject_self ho

theorem arrayLength?_nat {n : Nat} (hn : n < 4294967296) : arrayLength? (.nat n) = some n :=
  arrayLength?_eq_some_iff.2 ⟨hn, Number.beq_ofNat_self (by omega)⟩

/-- An assignment that succeeds writes to a live object, and to nothing else. -/
theorem exists_written_of_setProperty {base : Value}
    (hrun : setProperty base key v actor m = .ok () m') :
    ∃ id o o', base = .object id ∧ m.heap.object? id = some o ∧ o.SameShell o' ∧
      o.Written key v o' ∧ m' = m.withObject id fun _ => o' := by
  cases base with
  | object id =>
    obtain ⟨o, o', ho, hassigned, rfl⟩ := (edits_setProperty m id key v actor).exists_of_ok hrun
    exact ⟨id, o, o', rfl, ho, hassigned.sameShell, hassigned.written, rfl⟩
  | _ => cases hrun

/-! ## Writes that fail -/

/-- An operation that fails leaves the machine as it was. -/
def Whole {α : Type} (m : Machine) (x : Exec α) : Prop :=
  ∀ e m', x m = .error e m' → m' = m

theorem Edits.whole {α : Type} {x : Exec α} {access : Access} {idle : Prop}
    {E : Object → Object → Prop} (h : Edits id actor access idle E m x) : Whole m x :=
  fun _ _ => h.eq_of_error

/-- An operation that writes to an object. -/
inductive Write where
  | put (base : Value) (key : String) (v : Value)
  | define (id : ObjectId) (key : String) (d : Descriptor)
  | delete (id : ObjectId) (key : String)
  | link (id : ObjectId) (proto : Option ObjectId)
  | close (id : ObjectId)
  | give (id : ObjectId) (owner : Owner)

/-- A write on behalf of an actor. -/
def Write.run (actor : Option Owner) : Write → Exec Unit
  | put base key v => setProperty base key v actor
  | define id key d => defineProperty id key d actor
  | delete id key => do
    let _ ← deleteProperty id key actor
  | link id proto => setPrototype id proto actor
  | close id => preventExtensions id actor
  | give id owner => setOwnerOf id owner actor

theorem Write.whole (w : Write) (actor : Option Owner) : Whole m (w.run actor) := by
  cases w with
  | put base key v =>
    cases base with
    | object id => exact (edits_setProperty m id key v actor).whole
    | _ =>
      rintro e m' ⟨⟩
      rfl
  | define id key d => exact (edits_defineProperty m id key d actor).whole
  | delete id key =>
    intro e m' hrun
    change (deleteProperty id key actor >>= fun _ => pure ()) m = .error e m' at hrun
    rw [bind_run] at hrun
    cases hdelete : deleteProperty id key actor m with
    | ok deleted mid =>
      rw [hdelete] at hrun
      cases hrun
    | error e' mid =>
      rw [hdelete] at hrun
      cases hrun
      exact (edits_deleteProperty m id key actor).whole e m' hdelete
  | link id proto => exact (edits_setPrototype m id proto actor).whole
  | close id => exact (edits_preventExtensions m id actor).whole
  | give id owner => exact (edits_setOwnerOf m id owner actor).whole

/-! ## Properties that are defined as they are -/

theorem storeProperty_descriptor {p : Property} (ho : m.heap.object? id = some o)
    (hp : o.properties.get? key = some p) :
    storeProperty id o key p.descriptor p m = .ok () m ↔ o.Regular key := by
  by_cases hlength : (o.isArray && key == "length") = true
  · obtain ⟨harray, hkey⟩ := Bool.and_eq_true_iff.1 hlength
    obtain rfl := beq_iff_eq.1 hkey
    rw [Object.regular_length_iff harray hp]
    unfold storeProperty
    rw [if_pos hlength]
    change (setArrayLength id p.value >>= fun _ => modifyObject id fun o => o.limited p.writable) m
      = _ ↔ _
    rw [bind_run, setArrayLength_run ho]
    cases hn : arrayLength? p.value with
    | none =>
      constructor
      · rintro ⟨⟩
      · rintro ⟨n, hbound, hvalue⟩
        rw [hvalue, arrayLength?_nat hbound] at hn
        cases hn
    | some n =>
      dsimp only
      rw [modifyObject_run (object?_withObject ho _), withObject_withObject,
        withObject_congr ho (g := fun _ => (o.resize n).limited p.writable) rfl]
      constructor
      · intro hrun
        injection hrun with _ hsame
        rw [withObject_eq_self_iff ho] at hsame
        exact ⟨n, lt_of_arrayLength? hn, (Object.limited_resize_eq_self_iff hp
          (lt_of_arrayLength? hn)).1 hsame⟩
      · rintro ⟨k, hbound, hvalue⟩
        rw [hvalue, arrayLength?_nat hbound] at hn
        cases hn
        rw [(Object.limited_resize_eq_self_iff hp hbound).2 hvalue, withObject_self ho]
  · unfold storeProperty
    rw [if_neg hlength]
    change EStateM.Result.ok () (m.withObject id _) = _ ↔ _
    rw [withObject_congr ho (g := fun _ => o.defined key p) rfl,
      ← Object.defined_eq_self_iff hp (by simpa using hlength)]
    constructor
    · intro hrun
      injection hrun with _ hsame
      exact (withObject_eq_self_iff ho _).1 hsame
    · intro hsame
      rw [hsame, withObject_self ho]

theorem defineProperty_descriptor {p : Property} (ho : m.heap.object? id = some o)
    (hp : o.properties.get? key = some p)
    (hauthorized : m.authorizeOwner actor o.owner .define = .ok ()) :
    defineProperty id key p.descriptor actor m = .ok () m ↔ o.Regular key := by
  have hdefined : definedProperty o key p.descriptor = .ok p := by
    unfold definedProperty
    rw [hp]
    dsimp only
    rw [Descriptor.merge?_descriptor]
  have hrun : defineProperty id key p.descriptor actor m =
      storeProperty id o key p.descriptor p m := by
    unfold defineProperty
    rw [authorize_bind_run ho, hauthorized]
    dsimp only
    rw [bind_run, query_run_ok hdefined]
  rw [hrun, storeProperty_descriptor ho hp]

/-! ## Whole or nothing -/

/-- An assignment that succeeds writes one property of one object, with its array's length where that
is concerned. A write that fails changes nothing. A property may be defined as it is, and that
changes nothing, exactly when its array, if it is one of an array, is regular there. -/
theorem writes_whole_or_nothing (m : Machine) (actor : Option Owner) :
    (∀ base key v m', (Write.put base key v).run actor m = .ok () m' →
      ∃ id o o', base = .object id ∧ m.heap.object? id = some o ∧ o.SameShell o' ∧
        o.Written key v o' ∧ m' = m.withObject id fun _ => o') ∧
    (∀ (w : Write) e m', w.run actor m = .error e m' → m' = m) ∧
    ∀ id o key p, m.heap.object? id = some o → o.properties.get? key = some p →
      m.authorizeOwner actor o.owner .define = .ok () →
      ((Write.define id key p.descriptor).run actor m = .ok () m ↔ o.Regular key) := by
  refine ⟨?_, ?_, ?_⟩
  · intro base key v m' hrun
    exact exists_written_of_setProperty hrun
  · intro w e m' hrun
    exact w.whole actor e m' hrun
  · intro id o key p ho hp hauthorized
    exact defineProperty_descriptor ho hp hauthorized

/-- A pair that belongs to the first owner. -/
def ownedPair : Machine := after (createArray [.null, .null] (some ⟨0⟩)) scant

/-- The length of an array that its owner may define is found by evaluation. -/
theorem exists_length {m : Machine} {p : Property}
    (h : (m.heap.object? ⟨1⟩).map (fun o => (o.isArray, o.properties.get? "length",
      (m.authorizeOwner (some ⟨0⟩) o.owner .define).toOption)) = some (true, some p, some ())) :
    ∃ o, m.heap.object? ⟨1⟩ = some o ∧ o.isArray = true ∧ o.properties.get? "length" = some p ∧
      m.authorizeOwner (some ⟨0⟩) o.owner .define = .ok () := by
  obtain ⟨o, ho, hfacts⟩ := Option.map_eq_some_iff.1 h
  simp only [Prod.mk.injEq] at hfacts
  obtain ⟨harray, hp, hauthorized⟩ := hfacts
  refine ⟨o, ho, harray, hp, ?_⟩
  cases hresult : m.authorizeOwner (some ⟨0⟩) o.owner .define with
  | ok u => rfl
  | error e =>
    rw [hresult] at hauthorized
    cases hauthorized

set_option maxRecDepth 10000 in
/-- The first owner assigns to an item of its pair, fails to assign to null and defines the length as
it is. -/
theorem writes_to_owned_pair :
    (∃ o o' m', ownedPair.heap.object? ⟨1⟩ = some o ∧ o.Written "0" (.bool true) o' ∧
      (Write.put (.object ⟨1⟩) "0" (.bool true)).run (some ⟨0⟩) ownedPair = .ok () m' ∧
      m' = ownedPair.withObject ⟨1⟩ fun _ => o') ∧
    (∃ e m', (Write.put .null "0" (.bool true)).run (some ⟨0⟩) ownedPair = .error e m' ∧
      m' = ownedPair) ∧
    ∃ o p, ownedPair.heap.object? ⟨1⟩ = some o ∧ o.properties.get? "length" = some p ∧
      (Write.define ⟨1⟩ "length" p.descriptor).run (some ⟨0⟩) ownedPair = .ok () ownedPair := by
  obtain ⟨hput, hfail, hdefine⟩ := writes_whole_or_nothing ownedPair (some ⟨0⟩)
  refine ⟨?_, ?_, ?_⟩
  · let write : Write := .put (.object ⟨1⟩) "0" (.bool true)
    have hsucceeds : (ran? (write.run (some ⟨0⟩)) ownedPair).isSome = true := by decide +kernel
    obtain ⟨m', hrun⟩ := Option.isSome_iff_exists.1 hsucceeds
    obtain ⟨id, o, o', hid, ho, -, hwritten, hm'⟩ := hput _ _ _ m' (ok_of_ran? hrun)
    cases hid
    exact ⟨o, o', m', ho, hwritten, ok_of_ran? hrun, hm'⟩
  · exact ⟨_, _, rfl, hfail (.put .null "0" (.bool true)) _ _ rfl⟩
  · obtain ⟨o, ho, harray, hp, hauthorized⟩ :=
      exists_length (m := ownedPair) (p := .length (.nat 2)) (by decide +kernel)
    have hregular : o.Regular "length" :=
      (Object.regular_length_iff harray hp).2 ⟨2, by decide, rfl⟩
    exact ⟨o, _, ho, hp, (hdefine ⟨1⟩ o "length" _ ho hp hauthorized).2 hregular⟩

/-- An array of the first owner whose length is a text. -/
def mislabelled : Machine :=
  after (defineHidden ⟨1⟩ "length" (.string "many") (some ⟨0⟩)) ownedPair

set_option maxRecDepth 10000 in
/-- A length that is no count cannot be defined as it is. -/
theorem text_length_not_redefined :
    ∃ o p, mislabelled.heap.object? ⟨1⟩ = some o ∧ o.properties.get? "length" = some p ∧
      mislabelled.authorizeOwner (some ⟨0⟩) o.owner .define = .ok () ∧
      defineProperty ⟨1⟩ "length" p.descriptor (some ⟨0⟩) mislabelled =
        .error invalidLength mislabelled := by
  obtain ⟨o, ho, -, hp, hauthorized⟩ :=
    exists_length (m := mislabelled) (p := .hidden (.string "many")) (by decide +kernel)
  refine ⟨o, _, ho, hp, hauthorized, ?_⟩
  have hfails : (failure? (defineProperty ⟨1⟩ "length" (Property.hidden (.string "many")).descriptor
      (some ⟨0⟩)) mislabelled).map Prod.fst = some invalidLength := by
    decide +kernel
  obtain ⟨r, hr, hfailure⟩ := Option.map_eq_some_iff.1 hfails
  have hrun := error_of_failure? hr
  rw [hrun, hfailure, (edits_defineProperty ..).eq_of_error hrun]

end Machine

end ScriptMachine
