import ScriptMachine.Proofs.Arrays.Uses
import ScriptMachine.Proofs.JsonText.Data

/-!
# Data that is written and read again

The text of data describes it, and a value that is built from the text is the same data again. Its
text is the same as well.
-/

namespace ScriptMachine

open Exec Machine

/-! ## Names in the order of their enumeration -/

theorem arrayIndex?_natText {i : Nat} (hi : i < 4294967295) :
    arrayIndex? (Number.natText i) = some i := by
  have hdigits : (Number.decimalDigits i).all Char.isDigit = true :=
    List.all_eq_true.2 (Json.isDigit_of_mem_decimalDigits i)
  have hempty : (Number.decimalDigits i).isEmpty = false := by
    simpa using Json.decimalDigits_ne_nil i
  have hleading : (decide ((Number.decimalDigits i).length > 1) &&
      (Number.decimalDigits i).head? == some '0') = false := by
    rcases Nat.eq_zero_or_pos i with rfl | hpos
    · rfl
    · obtain ⟨c, cs, hcs, hzero⟩ := Json.head?_digitsFrom (Json.lt_ten_pow_log2_succ i) hpos []
      rw [Number.decimalDigits, hcs]
      simp [hzero]
  rw [arrayIndex?, Number.natText, String.toList_ofList]
  dsimp only
  rw [hdigits, hempty, hleading, Number.natOfDigits_decimalDigits]
  exact (if_neg (by decide)).trans (if_pos hi)

namespace Machine

/-- Names that are indices are taken apart as they were put together. -/
theorem indexed_map_snd {es : List (Nat × String)} (h : ∀ e ∈ es, arrayIndex? e.2 = some e.1) :
    indexed (es.map (·.2)) = es := by
  induction es with
  | nil => rfl
  | cons e es ih =>
    obtain ⟨he, hes⟩ := List.forall_mem_cons.1 h
    have hrest := ih hes
    unfold indexed at hrest ⊢
    rw [List.map_cons, List.filterMap_cons, he, hrest]
    rfl

/-- Indices in ascending order stay in that order. -/
theorem indexNames_map_snd {es : List (Nat × String)} (h : ∀ e ∈ es, arrayIndex? e.2 = some e.1)
    (hsorted : es.Pairwise fun a b => a.1 ≤ b.1) : indexNames (es.map (·.2)) = es.map (·.2) := by
  rw [indexNames, indexed_map_snd h, List.mergeSort_of_pairwise]
  exact hsorted.imp fun hle => decide_eq_true hle

theorem indexed_append (names others : List String) :
    indexed (names ++ others) = indexed names ++ indexed others :=
  List.filterMap_append

theorem indexed_otherNames (keys : List String) : indexed (otherNames keys) = [] := by
  rw [indexed, List.filterMap_eq_nil_iff]
  intro k hk
  rw [Option.isNone_iff_eq_none.1 (List.mem_filter.1 hk).2]
  rfl

/-- Names that are in order stay in order. -/
theorem enumerationOrder_idem (keys : List String) :
    enumerationOrder (enumerationOrder keys) = enumerationOrder keys := by
  have hindexed : ∀ e ∈ (indexed keys).mergeSort fun a b => a.1 ≤ b.1,
      arrayIndex? e.2 = some e.1 :=
    fun e he => arrayIndex?_of_mem_indexed (List.mem_mergeSort.1 he)
  have hsorted : ((indexed keys).mergeSort fun a b => a.1 ≤ b.1).Pairwise fun a b => a.1 ≤ b.1 := by
    have hdecided : ((indexed keys).mergeSort fun a b => a.1 ≤ b.1).Pairwise
        fun a b => decide (a.1 ≤ b.1) = true := by
      apply List.pairwise_mergeSort
      · simpa using fun a b c => Nat.le_trans
      · simpa using Nat.le_total
    exact hdecided.imp of_decide_eq_true
  have hindices : indexNames (indexNames keys ++ otherNames keys) = indexNames keys := by
    have hnone : indexed (indexNames keys ++ otherNames keys) = indexed (indexNames keys) := by
      rw [indexed_append, indexed_otherNames, List.append_nil]
    have hsame := indexNames_map_snd hindexed hsorted
    unfold indexNames at hsame hnone ⊢
    rw [hnone, hsame]
  have hothers : otherNames (indexNames keys ++ otherNames keys) = otherNames keys := by
    have hnone : otherNames (indexNames keys) = [] := by
      rw [otherNames, List.filter_eq_nil_iff]
      intro k hk
      obtain ⟨e, he, rfl⟩ := List.mem_map.1 hk
      rw [hindexed e he]
      exact Bool.false_ne_true
    unfold otherNames at hnone ⊢
    rw [List.filter_append, hnone, List.nil_append, List.filter_filter]
    simp only [Bool.and_self]
  rw [enumerationOrder_eq keys, enumerationOrder_eq, hindices, hothers]

theorem enumerationOrder_indices {n : Nat} (hn : n < 2 ^ 32) :
    enumerationOrder ((List.range n).map Number.natText) = (List.range n).map Number.natText := by
  have hnames : (List.range n).map Number.natText =
      ((List.range n).map fun i => (i, Number.natText i)).map (·.2) := by
    rw [List.map_map]
    rfl
  have hindexed : ∀ e ∈ (List.range n).map fun i => (i, Number.natText i),
      arrayIndex? e.2 = some e.1 := by
    intro e he
    obtain ⟨i, hi, rfl⟩ := List.mem_map.1 he
    have hlt := List.mem_range.1 hi
    exact arrayIndex?_natText (by omega)
  have hsorted : ((List.range n).map fun i => (i, Number.natText i)).Pairwise
      fun a b => a.1 ≤ b.1 := by
    rw [List.pairwise_map]
    exact List.pairwise_lt_range.imp Nat.le_of_lt
  have hothers : otherNames ((List.range n).map Number.natText) = [] := by
    rw [otherNames, List.filter_eq_nil_iff, hnames]
    intro k hk
    obtain ⟨e, he, rfl⟩ := List.mem_map.1 hk
    rw [hindexed e he]
    exact Bool.false_ne_true
  rw [enumerationOrder_eq, hothers, List.append_nil, hnames, indexNames_map_snd hindexed hsorted]

end Machine

/-! ## New arrays -/

namespace Object

variable {o : Object} {key : String} {p : Property} {i : Nat}

theorem ownValue_of_mem (h : (key, p) ∈ o.properties.entries.toList) : o.ownValue key = p.value := by
  rw [ownValue, o.properties.get?_eq_some_iff.2 h]

theorem entries_put (h : key ∉ o.properties.keys) (p : Property) :
    (o.put key p).properties.entries.toList = o.properties.entries.toList ++ [(key, p)] := by
  have hplace := (Table.place?_eq_none_iff _).2 h
  rw [put, Table.entries_insert_of_place?_eq_none _ _ hplace, Array.toList_push]

/-- The entries of items from an index on. -/
def itemEntries : Nat → List Value → List (String × Property)
  | _, [] => []
  | i, v :: rest => (Number.natText i, .data v) :: itemEntries (i + 1) rest

theorem map_fst_itemEntries (i : Nat) (values : List Value) :
    (itemEntries i values).map (·.1) = (List.range' i values.length).map Number.natText := by
  induction values generalizing i with
  | nil => rfl
  | cons v rest ih => rw [itemEntries, List.map_cons, ih, List.length_cons, List.range'_succ,
      List.map_cons]

theorem enumerable_of_mem_itemEntries {values : List Value} {e : String × Property}
    (h : e ∈ itemEntries i values) : e.2.enumerable = true := by
  induction values generalizing i with
  | nil => cases h
  | cons v rest ih =>
    rcases List.mem_cons.1 h with rfl | h
    · rfl
    · exact ih h

theorem mem_itemEntries {values : List Value} {k : Nat} (hk : k < values.length) :
    (Number.natText (i + k), Property.data values[k]) ∈ itemEntries i values := by
  induction values generalizing i k with
  | nil => exact absurd hk (Nat.not_lt_zero k)
  | cons v rest ih =>
    cases k with
    | zero => exact List.mem_cons_self
    | succ k =>
      have hlater := ih (i := i + 1) (Nat.lt_of_succ_lt_succ hk)
      rw [Nat.add_assoc, Nat.add_comm 1] at hlater
      exact List.mem_cons_of_mem _ hlater

theorem entries_putItems (values : List Value)
    (h : ∀ k, i ≤ k → Number.natText k ∉ o.properties.keys) :
    (o.putItems i values).properties.entries.toList =
      o.properties.entries.toList ++ itemEntries i values := by
  induction values generalizing o i with
  | nil => rw [putItems, itemEntries, List.append_nil]
  | cons v rest ih =>
    have hlater : ∀ k, i + 1 ≤ k →
        Number.natText k ∉ (o.put (Number.natText i) (.data v)).properties.keys := by
      intro k hk hmem
      rcases (mem_keys_put ..).1 hmem with heq | hmem
      · have := natText_injective heq
        omega
      · exact h k (Nat.le_of_succ_le hk) hmem
    rw [putItems, ih hlater, entries_put (h i (Nat.le_refl i)), itemEntries, List.append_assoc,
      List.singleton_append]

theorem function_putItems (values : List Value) : (o.putItems i values).function = o.function := by
  induction values generalizing o i with
  | nil => rfl
  | cons v rest ih => rw [putItems, ih, put]

/-- An array of some values as it is made. -/
def newArray (owner : Option Owner) (proto : ObjectId) (values : List Value) : Object :=
  (({ owner, proto := some proto, cls := .array } : Object).putItems 0 values).put "length"
    (.length (.nat (values.length % 4294967296)))

variable {owner : Option Owner} {proto : ObjectId} {values : List Value}

theorem natText_ne_length (i : Nat) : Number.natText i ≠ "length" := by
  intro h
  have hdigits := Json.isDigit_of_mem_decimalDigits i 'l' (by
    rw [← String.toList_ofList (l := Number.decimalDigits i), ← Number.natText, h]
    decide)
  exact absurd hdigits (by decide)

theorem entries_newArray (owner : Option Owner) (proto : ObjectId) (values : List Value) :
    (newArray owner proto values).properties.entries.toList =
      itemEntries 0 values ++ [("length", .length (.nat (values.length % 4294967296)))] := by
  have hitems := entries_putItems (o := { owner, proto := some proto, cls := .array }) (i := 0)
    values fun k _ => List.not_mem_nil
  rw [newArray, entries_put, hitems]
  · rfl
  · rw [Table.keys, hitems, List.map_append, map_fst_itemEntries]
    intro hmem
    rcases List.mem_append.1 hmem with hmem | hmem
    · cases hmem
    · obtain ⟨k, -, hk⟩ := List.mem_map.1 hmem
      exact natText_ne_length k hk

theorem ownValue_newArray {k : Nat} (hk : k < values.length) :
    (newArray owner proto values).ownValue (Number.natText k) = values[k] := by
  have hmem := mem_itemEntries (i := 0) hk
  rw [Nat.zero_add] at hmem
  exact ownValue_of_mem (by rw [entries_newArray owner proto values]; exact List.mem_append_left _ hmem)

/-- A new array is dense. -/
theorem dense_newArray (hlength : values.length < 2 ^ 32) :
    (newArray owner proto values).Dense values.length where
  plain := by
    rw [isCallable, newArray, put, function_putItems]
    rfl
  isArray := ((Filled.empty owner (some proto) values.length).putItems values
    (Nat.zero_add _).le).isArray
  length := ownValue_of_mem (by
    have hcount : values.length % 4294967296 = values.length := Nat.mod_eq_of_lt hlength
    rw [entries_newArray owner proto values, hcount]
    exact List.mem_append_right _ List.mem_cons_self)
  bounded := hlength
  shown := by
    have hitems : (itemEntries 0 values).filter (·.2.enumerable) = itemEntries 0 values :=
      List.filter_eq_self.2 fun e he => enumerable_of_mem_itemEntries he
    have hhidden : [("length", Property.length (.nat (values.length % 4294967296)))].filter
        (·.2.enumerable) = [] := rfl
    rw [shown, entries_newArray, List.filter_append, hitems, hhidden, List.append_nil,
      map_fst_itemEntries, ← List.range_eq_range', enumerationOrder_indices hlength]

end Object

/-! ## Growing machines -/

namespace Machine

variable {m n k : Machine} {base : Option ObjectId} {id proto : ObjectId} {o : Object}
  {actor : Owner}

/-- A machine has grown: all objects that were live are as they were, but for one that is being
filled. -/
structure Grown (base : Option ObjectId) (m n : Machine) : Prop where
  builtins : n.builtins = m.builtins
  policy : n.policy = m.policy
  rootOwner : n.rootOwner = m.rootOwner
  tidy : m.heap.Tidy → n.heap.Tidy
  kept : ∀ id o, base ≠ some id → m.heap.object? id = some o → n.heap.object? id = some o
  live : ∀ id, n.heap.object? id = none → m.heap.object? id = none

theorem Grown.refl (base : Option ObjectId) (m : Machine) : Grown base m m :=
  ⟨rfl, rfl, rfl, id, fun _ _ _ ho => ho, fun _ ho => ho⟩

theorem Grown.trans (h : Grown base m n) (h' : Grown base n k) : Grown base m k where
  builtins := h'.builtins.trans h.builtins
  policy := h'.policy.trans h.policy
  rootOwner := h'.rootOwner.trans h.rootOwner
  tidy ht := h'.tidy (h.tidy ht)
  kept id o hid ho := h'.kept id o hid (h.kept id o hid ho)
  live id ho := h.live id (h'.live id ho)

theorem Grown.weaken (h : Grown none m n) (base : Option ObjectId) : Grown base m n :=
  ⟨h.builtins, h.policy, h.rootOwner, h.tidy, fun id o _ ho => h.kept id o nofun ho, h.live⟩

/-- What is filled does not count where it was not there before. -/
theorem Grown.trans_new (h : Grown none m n) (h' : Grown (some id) n k)
    (hnew : m.heap.object? id = none) : Grown none m k where
  builtins := h'.builtins.trans h.builtins
  policy := h'.policy.trans h.policy
  rootOwner := h'.rootOwner.trans h.rootOwner
  tidy ht := h'.tidy (h.tidy ht)
  kept other o _ ho := by
    refine h'.kept other o ?_ (h.kept other o nofun ho)
    rintro heq
    cases heq
    rw [hnew] at ho
    cases ho
  live other ho := h.live other (h'.live other ho)

theorem grown_withObject (id : ObjectId) (f : Object → Object) :
    Grown (some id) m (m.withObject id f) where
  builtins := rfl
  policy := rfl
  rootOwner := rfl
  tidy ht := ht.modifyObject id f
  kept other o hother ho := by
    rw [withObject, Heap.object?_modifyObject, if_neg, ho]
    intro hindex
    exact hother (congrArg some (by cases id; cases other; exact congrArg _ hindex))
  live other ho := by
    rw [withObject, Heap.object?_modifyObject] at ho
    split at ho
    · exact Option.map_eq_none_iff.1 ho
    · exact ho

theorem grown_alloc (ht : m.heap.Tidy) (o : Object) : ∃ id n, alloc o m = .ok id n ∧
    Grown none m n ∧ m.heap.object? id = none ∧ n.heap.object? id = some o := by
  refine ⟨(m.heap.allocObject o).1, { m with heap := (m.heap.allocObject o).2 }, rfl,
    ⟨rfl, rfl, rfl, fun ht => ht.allocObject o, fun _ _ _ ho => ht.allocObject_of_live o ho,
      fun other ho => ?_⟩, ht.allocObject_fresh o, ht.allocObject_self o⟩
  cases hlive : m.heap.object? other with
  | none => rfl
  | some p =>
    dsimp only at ho
    rw [ht.allocObject_of_live o hlive] at ho
    cases ho

/-- The objects that a machine has gained. -/
def gained (m n : Machine) (id : ObjectId) : Option Object :=
  if (m.heap.object? id).isNone then n.heap.object? id else none

theorem gained_eq_some_iff :
    gained m n id = some o ↔ m.heap.object? id = none ∧ n.heap.object? id = some o := by
  simp [gained]

/-- What was gained stays while another object is filled that was there before. -/
theorem gained_right (h : Grown base n k) (hbase : ∀ id, base = some id → m.heap.object? id ≠ none)
    (id : ObjectId) (o : Object) (hid : gained m n id = some o) : gained m k id = some o := by
  obtain ⟨hnew, ho⟩ := gained_eq_some_iff.1 hid
  exact gained_eq_some_iff.2 ⟨hnew, h.kept id o (fun heq => hbase id heq hnew) ho⟩

theorem gained_left (h : Grown base m n) (id : ObjectId) (o : Object)
    (hid : gained n k id = some o) : gained m k id = some o := by
  obtain ⟨hnew, ho⟩ := gained_eq_some_iff.1 hid
  exact gained_eq_some_iff.2 ⟨h.live id hnew, ho⟩

/-! ## New objects -/

/-- What an owner is allowed stays the same. -/
theorem Grown.authorizeOwner (h : Grown base m n) (actor owner : Option Owner) (access : Access) :
    n.authorizeOwner actor owner access = m.authorizeOwner actor owner access := by
  unfold Machine.authorizeOwner
  rw [h.policy, h.rootOwner]

/-- An owner can make and fill new arrays and objects: it may write what it owns, the prototypes are
there, and no property of the prototype of objects, own or inherited, is read-only. -/
structure Fillable (m : Machine) (actor : Owner) : Prop where
  tidy : m.heap.Tidy
  write : m.authorizeOwner (some actor) (some actor) .write = .ok ()
  array : ∃ id, (m.builtins.get? "Array.prototype").bind Value.object? = some id
  object : ∃ id objects, (m.builtins.get? "Object.prototype").bind Value.object? = some id ∧
    m.heap.Protos (some id) objects ∧
    ∀ o ∈ objects, ∀ key p, o.properties.get? key = some p → p.writable = true

theorem protos_kept {start : Option ObjectId} {objects : List Object} (h : Grown none m n)
    (hp : m.heap.Protos start objects) : n.heap.Protos start objects := by
  induction hp with
  | nil => exact .nil
  | cons ho _ ih => exact .cons (h.kept _ _ nofun ho) ih

theorem Fillable.grown (hm : Fillable m actor) (h : Grown none m n) : Fillable n actor where
  tidy := h.tidy hm.tidy
  write := by
    rw [h.authorizeOwner]
    exact hm.write
  array := by
    rw [h.builtins]
    exact hm.array
  object := by
    obtain ⟨id, objects, hid, hp, hwritable⟩ := hm.object
    rw [h.builtins]
    exact ⟨id, objects, hid, protos_kept h hp, hwritable⟩

theorem mem_of_lookupFrom {h : Heap} {key : String} {fuel : Nat} {objects : List Object}
    {p : Property} (hp : h.Protos (some id) objects)
    (hfound : h.lookupFrom key fuel id = .ok (some p)) :
    ∃ o ∈ objects, o.properties.get? key = some p := by
  induction fuel generalizing id objects with
  | zero => cases hfound
  | succ fuel ih =>
    cases hp with
    | @cons _ o behind ho hbehind =>
      rw [Heap.lookupFrom, Heap.object_eq_ok_iff.2 ho] at hfound
      dsimp only [bind, Except.bind] at hfound
      cases hown : o.properties.get? key with
      | some q =>
        rw [hown] at hfound
        cases hfound
        exact ⟨o, List.mem_cons_self, hown⟩
      | none =>
        rw [hown] at hfound
        cases hproto : o.proto with
        | none =>
          rw [hproto] at hfound
          cases hfound
        | some next =>
          rw [hproto] at hfound hbehind
          obtain ⟨o', ho', hget⟩ := ih hbehind hfound
          exact ⟨o', List.mem_cons_of_mem o ho', hget⟩

theorem builtinObject_run {name : String}
    (h : (m.builtins.get? name).bind Value.object? = some id) :
    builtinObject name m = .ok id m := by
  apply query_run_ok
  rw [h]

theorem createArray_run (hm : Fillable m actor) (values : List Value) (owner : Option Owner) :
    ∃ id proto n, createArray values owner m = .ok id n ∧ Grown none m n ∧
      m.heap.object? id = none ∧ n.heap.object? id = some (Object.newArray owner proto values) := by
  obtain ⟨proto, hproto⟩ := hm.array
  obtain ⟨id, n, hrun, hgrown, hnew, ho⟩ :=
    grown_alloc hm.tidy (Object.newArray owner proto values)
  exact ⟨id, proto, n, (bind_run_of_ok (builtinObject_run hproto)).trans hrun, hgrown, hnew, ho⟩

/-- An object of an actor that can be filled. -/
structure Unfilled (m : Machine) (actor : Owner) (o : Object) : Prop where
  owner : o.owner = some actor
  proto : o.proto = (m.builtins.get? "Object.prototype").bind Value.object?
  plain : o.isCallable = false
  isArray : o.isArray = false
  extensible : o.extensible = true

theorem Unfilled.of_builtins (h : Unfilled m actor o) (hsame : n.builtins = m.builtins) :
    Unfilled n actor o :=
  ⟨h.owner, by rw [h.proto, hsame], h.plain, h.isArray, h.extensible⟩

theorem createPlainObject_run (hm : Fillable m actor) :
    ∃ id o n, createPlainObject (some actor) m = .ok id n ∧ Grown none m n ∧
      m.heap.object? id = none ∧ n.heap.object? id = some o ∧ Unfilled n actor o ∧
      o.properties = .empty := by
  obtain ⟨proto, -, hproto, -⟩ := hm.object
  obtain ⟨id, n, hrun, hgrown, hnew, ho⟩ :=
    grown_alloc hm.tidy { owner := some actor, proto := some proto, cls := .object }
  have hproto' : (n.builtins.get? "Object.prototype").bind Value.object? = some proto := by
    rw [hgrown.builtins, hproto]
  exact ⟨id, _, n, (bind_run_of_ok (builtinObject_run hproto)).trans hrun, hgrown, hnew, ho,
    ⟨rfl, hproto'.symm, rfl, rfl, rfl⟩, rfl⟩

/-- A new property is assigned where nothing that is inherited is read-only. -/
theorem setProperty_new (hm : Fillable m actor) (ho : m.heap.object? id = some o)
    (hopen : Unfilled m actor o) {key : String} (hkey : key ∉ o.properties.keys) (v : Value) :
    setProperty (.object id) key v (some actor) m =
      .ok () (m.withObject id fun o => o.put key (.data v)) := by
  obtain ⟨proto, objects, hproto, hp, hwritable⟩ := hm.object
  obtain ⟨found, hfound⟩ := Heap.lookupFrom_of_protos key (m.heap.objects.size + 1) hp
  have hadd : addProperty id o key v m = .ok () (m.withObject id fun o => o.put key (.data v)) := by
    rw [addProperty, hopen.extensible, Object.grownIndex?, hopen.isArray]
    rfl
  have hallowed : m.authorizeOwner (some actor) o.owner .write = .ok () := by
    rw [hopen.owner]
    exact hm.write
  have hlookup : heapQuery (·.lookup proto key) m = .ok found m := query_run_ok hfound
  unfold setProperty
  dsimp only
  rw [authorize_bind_run ho, hallowed]
  dsimp only
  rw [(Table.get?_eq_none_iff _).2 hkey, hopen.proto, hproto]
  dsimp only
  rw [bind_run_of_ok hlookup]
  cases found with
  | none => exact hadd
  | some p =>
    obtain ⟨o', ho', hp'⟩ := mem_of_lookupFrom hp hfound
    dsimp only
    rw [hwritable o' ho' key p hp']
    exact hadd

end Machine

/-! ## Filling objects -/

namespace Object

variable {o o' o'' : Object} {names others : List String} {key : String}

/-- An object has got further properties, all enumerable. -/
structure Supplied (o : Object) (names : List String) (o' : Object) : Prop where
  function : o'.function = o.function
  cls : o'.cls = o.cls
  keys : o'.properties.keys = o.properties.keys ++ names
  enumerable : (∀ e ∈ o.properties.entries.toList, e.2.enumerable = true) →
    ∀ e ∈ o'.properties.entries.toList, e.2.enumerable = true
  kept : ∀ key ∈ o.properties.keys, o'.ownValue key = o.ownValue key

theorem Supplied.refl (o : Object) : o.Supplied [] o :=
  ⟨rfl, rfl, (List.append_nil _).symm, id, fun _ _ => rfl⟩

theorem Supplied.trans (h : o.Supplied names o') (h' : o'.Supplied others o'') :
    o.Supplied (names ++ others) o'' where
  function := h'.function.trans h.function
  cls := h'.cls.trans h.cls
  keys := by rw [h'.keys, h.keys, List.append_assoc]
  enumerable hall := h'.enumerable (h.enumerable hall)
  kept key hkey := by
    rw [h'.kept key, h.kept key hkey]
    rw [h.keys]
    exact List.mem_append_left _ hkey

theorem ownValue_put (o : Object) (key : String) (p : Property) :
    (o.put key p).ownValue key = p.value := by
  rw [ownValue, get?_put, if_pos rfl]

theorem supplied_put (hkey : key ∉ o.properties.keys) (v : Value) :
    o.Supplied [key] (o.put key (.data v)) where
  function := rfl
  cls := rfl
  keys := by
    rw [Table.keys, entries_put hkey, List.map_append]
    rfl
  enumerable hall := by
    rw [entries_put hkey]
    exact List.forall_mem_append.2 ⟨hall, List.forall_mem_singleton.2 rfl⟩
  kept other hother := by
    have hne : other ≠ key := by
      rintro rfl
      exact hkey hother
    rw [ownValue, ownValue, get?_put, if_neg hne]

/-- An object that was empty shows what it has got. -/
theorem Supplied.shows (h : o.Supplied names o') (hempty : o.properties = .empty)
    (hplain : o.isCallable = false) (harray : o.isArray = false)
    (hnames : Machine.enumerationOrder names = names) : o'.Shows names where
  plain := by rw [isCallable, h.function, ← hplain, isCallable]
  isArray := by rw [isArray, h.cls, ← harray, isArray]
  shown := by
    have hall : ∀ e ∈ o'.properties.entries.toList, e.2.enumerable = true := by
      apply h.enumerable
      rw [hempty]
      exact fun e he => absurd he List.not_mem_nil
    have hkeys : o'.properties.keys = names := by
      rw [h.keys, hempty]
      rfl
    rw [shown, List.filter_eq_self.2 hall]
    exact (congrArg Machine.enumerationOrder hkeys).trans hnames

end Object

/-! ## Building data -/

namespace Builtin.JsonText

open Machine

variable {m : Machine} {actor : Owner} {find : ObjectId → Option Object}

/-- Items are those of an array that has their values at its indices. -/
theorem depictsItems_of_forall₂ {values : List Value} {items : List Json} {o : Object} {i : Nat}
    (h : List.Forall₂ (Depicts find) values items)
    (hown : ∀ k (hk : k < values.length), o.ownValue (Number.natText (i + k)) = values[k]) :
    DepictsItems find o i items := by
  induction h generalizing i with
  | nil => exact trivial
  | @cons v j values items hv _ ih =>
    constructor
    · have hfirst := hown 0 (Nat.succ_pos _)
      rw [Nat.add_zero] at hfirst
      rw [hfirst]
      exact hv
    · apply ih
      intro k hk
      have hlater := hown (k + 1) (Nat.succ_lt_succ hk)
      rw [Nat.add_assoc, Nat.add_comm 1]
      exact hlater

mutual

/-- What is built from JSON that describes data is the same data, made of new objects. -/
theorem build_run {m : Machine} (hm : Fillable m actor) {v : Value} {j : Json} (h : Depicts find v j) :
    ∃ w n, build (some actor) j m = .ok w n ∧ Grown none m n ∧ Depicts (gained m n) w j := by
  match j, h with
  | .null, _ => exact ⟨.null, m, by rw [build]; rfl, .refl _ m, rfl⟩
  | .bool b, _ => exact ⟨.bool b, m, by rw [build]; rfl, .refl _ m, rfl⟩
  | .int i, h => exact ⟨.number (Number.ofInt i), m, by rw [build]; rfl, .refl _ m, h.1, rfl⟩
  | .str s, _ => exact ⟨.string s, m, by rw [build]; rfl, .refl _ m, rfl⟩
  | .arr items, ⟨_, _, _, _, hdense, hitems⟩ =>
    obtain ⟨values, m₁, hvalues, hgrown₁, hall⟩ := buildItems_run hm hitems
    obtain ⟨id, proto, n, hmade, hgrown₂, hnew, ho⟩ :=
      createArray_run (hm.grown hgrown₁) values (some actor)
    have hlength : values.length = items.length := hall.length_eq
    have hall' : List.Forall₂ (Depicts (gained m n)) values items :=
      hall.imp fun _ _ hv => hv.mono (gained_right hgrown₂ nofun)
    have hrun : build (some actor) (.arr items) m = .ok (.object id) n := by
      rw [build, bind_run_of_ok hvalues, bind_run_of_ok hmade]
      rfl
    refine ⟨.object id, n, hrun, hgrown₁.trans hgrown₂, id, _, rfl,
      gained_eq_some_iff.2 ⟨hgrown₁.live id hnew, ho⟩, ?_, ?_⟩
    · rw [← hlength]
      exact Object.dense_newArray (hlength ▸ hdense.bounded)
    · refine depictsItems_of_forall₂ hall' fun k hk => ?_
      rw [Nat.zero_add, Object.ownValue_newArray hk]
  | .obj fields, ⟨_, x, _, _, hshows, hfields⟩ =>
    obtain ⟨id, o, m₁, hmade, hgrown₁, hnew, ho, hopen, hempty⟩ := createPlainObject_run hm
    have hnodup : (o.properties.keys ++ fields.map Prod.fst).Nodup := by
      rw [hempty, ← hshows.shown]
      exact x.nodup_shown
    obtain ⟨n, o', hfilled, hgrown₂, ho', hsupplied, hfields'⟩ :=
      buildFields_run hm hgrown₁ hnew ho hopen hfields hnodup
    have hrun : build (some actor) (.obj fields) m = .ok (.object id) n := by
      rw [build, bind_run_of_ok hmade, bind_run_of_ok hfilled]
      rfl
    have horder : enumerationOrder (fields.map Prod.fst) = fields.map Prod.fst := by
      rw [← hshows.shown]
      exact enumerationOrder_idem _
    exact ⟨.object id, n, hrun, hgrown₁.trans_new hgrown₂ hnew, id, o', rfl,
      gained_eq_some_iff.2 ⟨hnew, ho'⟩,
      hsupplied.shows hempty hopen.plain hopen.isArray horder,
      hfields'.mono (gained_left hgrown₁)⟩

theorem buildItems_run {m : Machine} (hm : Fillable m actor) {o : Object} {i : Nat} {items : List Json}
    (h : DepictsItems find o i items) : ∃ values n,
      buildItems (some actor) items m = .ok values n ∧ Grown none m n ∧
        List.Forall₂ (Depicts (gained m n)) values items := by
  match items, h with
  | [], _ => exact ⟨[], m, by rw [buildItems]; rfl, .refl _ m, .nil⟩
  | j :: rest, ⟨hj, hrest⟩ =>
    obtain ⟨w, m₁, hw, hgrown₁, hdata⟩ := build_run hm hj
    obtain ⟨values, n, hvalues, hgrown₂, hall⟩ := buildItems_run (hm.grown hgrown₁) hrest
    have hrun : buildItems (some actor) (j :: rest) m = .ok (w :: values) n := by
      rw [buildItems, bind_run_of_ok hw, bind_run_of_ok hvalues]
      rfl
    exact ⟨w :: values, n, hrun, hgrown₁.trans hgrown₂,
      .cons (hdata.mono (gained_right hgrown₂ nofun))
        (hall.imp fun _ _ hv => hv.mono (gained_left hgrown₁))⟩

theorem buildFields_run {older m : Machine} (hold : Fillable older actor) {base : ObjectId} {o : Object}
    (hgrown : Grown none older m) (hnew : older.heap.object? base = none)
    (ho : m.heap.object? base = some o) (hopen : Unfilled m actor o) {x : Object}
    {fields : List (String × Json)} (h : DepictsFields find x fields)
    (hnodup : (o.properties.keys ++ fields.map Prod.fst).Nodup) : ∃ n o',
      buildFields (some actor) (.object base) fields m = .ok () n ∧ Grown (some base) m n ∧
        n.heap.object? base = some o' ∧ o.Supplied (fields.map Prod.fst) o' ∧
        DepictsFields (gained m n) o' fields := by
  match fields, h with
  | [], _ => exact ⟨m, o, by rw [buildFields]; rfl, .refl _ m, ho, .refl o, trivial⟩
  | (key, j) :: rest, ⟨hj, hrest⟩ =>
    have hm := hold.grown hgrown
    obtain ⟨w, m₁, hw, hgrown₁, hdata⟩ := build_run hm hj
    have ho₁ := hgrown₁.kept base o nofun ho
    have hkey : key ∉ o.properties.keys := fun hmem =>
      (List.nodup_append.1 hnodup).2.2 key hmem key List.mem_cons_self rfl
    have hset := setProperty_new (hm.grown hgrown₁) ho₁ (hopen.of_builtins hgrown₁.builtins) hkey w
    have hput := Object.supplied_put hkey w
    have hgrown₂ := grown_withObject (m := m₁) base fun o => o.put key (.data w)
    have ho₂ := object?_withObject ho₁ fun o => o.put key (.data w)
    have hopen₂ : Unfilled (m₁.withObject base fun o => o.put key (.data w)) actor
        (o.put key (.data w)) :=
      ⟨hopen.owner, by rw [hgrown₂.builtins, hgrown₁.builtins]; exact hopen.proto, hopen.plain,
        hopen.isArray, hopen.extensible⟩
    have hnodup₂ : ((o.put key (.data w)).properties.keys ++ rest.map Prod.fst).Nodup := by
      rw [hput.keys, List.append_assoc]
      exact hnodup
    obtain ⟨n, o', hfilled, hgrown₃, ho', hsupplied, hfields⟩ := buildFields_run hold
      ((hgrown.trans hgrown₁).trans_new hgrown₂ hnew) hnew ho₂ hopen₂ hrest hnodup₂
    have hrun : buildFields (some actor) (.object base) ((key, j) :: rest) m = .ok () n := by
      rw [buildFields, bind_run_of_ok hw, bind_run_of_ok hset]
      exact hfilled
    have hvalue : o'.ownValue key = w := by
      rw [hsupplied.kept key, Object.ownValue_put]
      · rfl
      · rw [hput.keys]
        exact List.mem_append_right _ List.mem_cons_self
    have hlater := hgrown₂.trans hgrown₃
    have hall := (hgrown₁.weaken (some base)).trans hlater
    refine ⟨n, o', hrun, hall, ho', hput.trans hsupplied, ?_, ?_⟩
    · rw [hvalue]
      refine hdata.mono (gained_right hlater fun id heq hnone => ?_)
      cases heq
      rw [ho] at hnone
      cases hnone
    · exact hfields.mono (gained_left ((hgrown₁.weaken (some base)).trans hgrown₂))

end

/-! ## The text of data -/

variable {find : ObjectId → Option Object}

mutual

theorem Depicts.keysDiffer {v : Value} {j : Json} (h : Depicts find v j) : j.KeysDiffer := by
  match j, h with
  | .null, _ => exact trivial
  | .bool _, _ => exact trivial
  | .int _, _ => exact trivial
  | .str _, _ => exact trivial
  | .arr items, ⟨_, _, _, _, _, hitems⟩ => exact DepictsItems.keysDiffer hitems
  | .obj fields, ⟨_, o, _, _, hshows, hfields⟩ =>
    exact ⟨by rw [← hshows.shown]; exact o.nodup_shown, DepictsFields.keysDiffer hfields⟩

theorem DepictsItems.keysDiffer {o : Object} {i : Nat} {items : List Json}
    (h : DepictsItems find o i items) : Json.ItemsDiffer items := by
  match items, h with
  | [], _ => exact trivial
  | j :: rest, ⟨hj, hrest⟩ => exact ⟨Depicts.keysDiffer hj, DepictsItems.keysDiffer hrest⟩

theorem DepictsFields.keysDiffer {o : Object} {fields : List (String × Json)}
    (h : DepictsFields find o fields) : Json.FieldsDiffer fields := by
  match fields, h with
  | [], _ => exact trivial
  | (_, j) :: rest, ⟨hj, hrest⟩ => exact ⟨Depicts.keysDiffer hj, DepictsFields.keysDiffer hrest⟩

end

mutual

theorem Depicts.survive {v : Value} {j : Json} (h : Depicts find v j) :
    ∀ x ∈ j.numbers, x.Survives := by
  match j, h with
  | .null, _ => exact fun x hx => absurd hx List.not_mem_nil
  | .bool _, _ => exact fun x hx => absurd hx List.not_mem_nil
  | .int i, ⟨hi, _⟩ => exact List.forall_mem_singleton.2 (Json.survives_int hi)
  | .str _, _ => exact fun x hx => absurd hx List.not_mem_nil
  | .arr items, ⟨_, _, _, _, _, hitems⟩ => exact DepictsItems.survive hitems
  | .obj fields, ⟨_, _, _, _, _, hfields⟩ => exact DepictsFields.survive hfields

theorem DepictsItems.survive {o : Object} {i : Nat} {items : List Json}
    (h : DepictsItems find o i items) : ∀ x ∈ Json.itemsNumbers items, x.Survives := by
  match items, h with
  | [], _ => exact fun x hx => absurd hx List.not_mem_nil
  | j :: rest, ⟨hj, hrest⟩ =>
    exact List.forall_mem_append.2 ⟨Depicts.survive hj, DepictsItems.survive hrest⟩

theorem DepictsFields.survive {o : Object} {fields : List (String × Json)}
    (h : DepictsFields find o fields) : ∀ x ∈ Json.fieldsNumbers fields, x.Survives := by
  match fields, h with
  | [], _ => exact fun x hx => absurd hx List.not_mem_nil
  | (_, j) :: rest, ⟨hj, hrest⟩ =>
    exact List.forall_mem_append.2 ⟨Depicts.survive hj, DepictsFields.survive hrest⟩

end

/-- The text of JSON with an indentation, which may be empty. -/
def textOf (indent : String) (j : Json) : String :=
  if indent.isEmpty then j.compact else j.pretty indent

/-- JSON that describes data is read back from its text. -/
theorem read_textOf {v : Value} {j : Json} {indent : String} (h : Depicts find v j)
    (hdepth : j.depth ≤ 127) (hindent : Json.Blank indent.toList) :
    Json.read (textOf indent j) = .ok j := by
  have hshallow : j.depth < 128 := Nat.lt_succ_of_le hdepth
  unfold textOf
  split
  · exact (Json.survives_iff j h.keysDiffer hshallow).2 h.survive
  · exact Json.read_pretty hindent h.keysDiffer hshallow h.survive

theorem stringify_run {m : Machine} {j : Json} {c : NativeCall}
    (h : Depicts (shownTo m c.owner) (c.arg 0) j) (hdepth : j.depth ≤ maxDepth) :
    stringify c m = .ok (.string (textOf (indentOf (c.arg 2)) j)) m := by
  have hjson : toJson m c.owner maxDepth [] (c.arg 0) = .ok (some j) :=
    toJson_of_depicts h hdepth fun id hid => absurd hid List.not_mem_nil
  have hquery : query (fun m => toJson m c.owner maxDepth [] (c.arg 0)) m = .ok (some j) m :=
    query_run_ok hjson
  rw [stringify, bind_run_of_ok hquery]
  rfl

theorem parse_run {n : Machine} {text : String} {j : Json} {c : NativeCall}
    (hc : c.arg 0 = .string text) (hread : Json.read text = .ok j) :
    parse c n = build c.owner j n := by
  rw [parse, hc]
  dsimp only [Value.toText]
  rw [hread]

theorem parse_ne_ok {n : Machine} {text : String} {e : Json.ReadError} {c : NativeCall}
    (hc : c.arg 0 = .string text) (hread : Json.read text = .error e) (w : Value) (k : Machine) :
    parse c n ≠ .ok w k := by
  rw [parse, hc]
  dsimp only [Value.toText]
  rw [hread]
  intro h
  cases h

/-- Data that is shown to the caller and nested no more than 127 deep has a text, and from the text
the same data is built on any machine whose prototype of objects has no read-only property. That data
has the same text for every caller to whom it is shown. An indentation has to consist of blanks. -/
theorem data_read_back {m : Machine} {j : Json} {c : NativeCall}
    (hdata : Depicts (shownTo m c.owner) (c.arg 0) j) (hdepth : j.depth ≤ 127)
    (hindent : Json.Blank (indentOf (c.arg 2)).toList) :
    ∃ text, stringify c m = .ok (.string text) m ∧
      ∀ (n : Machine) (reader : Owner) (d : NativeCall), Fillable n reader →
        d.owner = some reader → d.arg 0 = .string text →
        ∃ w k, parse d n = .ok w k ∧ k.policy = n.policy ∧ Depicts k.heap.object? w j ∧
          ∀ e : NativeCall, Depicts (shownTo k e.owner) w j → e.arg 0 = w → e.arg 2 = c.arg 2 →
            stringify e k = .ok (.string text) k := by
  have hwritten : j.depth ≤ maxDepth := Nat.le_trans hdepth (by decide)
  refine ⟨_, stringify_run hdata hwritten, ?_⟩
  intro n reader d hfill hd htext
  have hread := read_textOf hdata hdepth hindent
  obtain ⟨w, k, hbuilt, hgrown, hagain⟩ : ∃ w k, build (some reader) j n = .ok w k ∧
      Grown none n k ∧ Depicts (gained n k) w j := build_run hfill hdata
  refine ⟨w, k, ?_, hgrown.policy, ?_, ?_⟩
  · rw [parse_run htext hread, hd]
    exact hbuilt
  · exact hagain.mono fun _ _ hid => (gained_eq_some_iff.1 hid).2
  · intro e hshown hw hsame
    rw [← hsame]
    exact stringify_run (hw ▸ hshown) hwritten

/-! ## A record with a list -/

/-- A machine with the prototypes that data needs, and an object that holds a list and, later but
shown first, a text under an index. -/
def recorded : Machine where
  heap := { objects := #[some { owner := none, proto := none, cls := .object },
    some { owner := none, proto := some ⟨0⟩, cls := .array },
    some ((({ owner := none, proto := some ⟨0⟩, cls := .object } : Object).put "list"
      (.data (.object ⟨3⟩))).put "2" (.data (.string "two"))),
    some (Object.newArray none ⟨1⟩ [.number (Number.ofInt 1), .string "a", .null])] }
  builtins := (Table.empty.insert "Object.prototype" (.object ⟨0⟩)).insert "Array.prototype"
    (.object ⟨1⟩)

/-- The data of the object. -/
def record : Json := .obj [("2", .str "two"), ("list", .arr [.int 1, .str "a", .null])]

/-- A call by the root owner. -/
def calledWith (args : List Value) : NativeCall where
  func := ⟨0⟩
  receiver := .undefined
  args := args
  owner := some ⟨0⟩
  scope := ⟨0⟩
  thread := ⟨1⟩
  construct := false

theorem fillable_recorded : Fillable recorded ⟨0⟩ where
  tidy := by
    constructor
    · refine ⟨.nil, fun i => iff_of_false List.not_mem_nil fun hi => ?_⟩
      match i with
      | 0 => cases hi
      | 1 => cases hi
      | 2 => cases hi
      | 3 => cases hi
      | i + 4 => cases hi
    · exact ⟨.nil, fun i => iff_of_false List.not_mem_nil nofun⟩
  write := rfl
  array := ⟨⟨1⟩, by decide +kernel⟩
  object := by
    refine ⟨⟨0⟩, [{ owner := none, proto := none, cls := .object }], by decide +kernel,
      .cons rfl .nil, ?_⟩
    intro o ho key p hp
    obtain rfl := List.mem_singleton.1 ho
    cases hp

theorem depicts_recorded : Depicts (shownTo recorded (some ⟨0⟩)) (.object ⟨2⟩) record := by
  rw [shownTo_of_policy (.inl rfl)]
  have hlist : ∀ k (hk : k < 3),
      (Object.newArray none ⟨1⟩ [.number (Number.ofInt 1), .string "a", .null]).ownValue
        (Number.natText k) = [.number (Number.ofInt 1), .string "a", .null][k] :=
    fun _ hk => Object.ownValue_newArray hk
  refine ⟨⟨2⟩, _, rfl, rfl, ⟨rfl, rfl, by decide +kernel⟩, ?_⟩
  constructor
  · change Object.ownValue _ "2" = .string "two"
    decide +kernel
  · refine ⟨⟨⟨3⟩, _, by decide +kernel, rfl, Object.dense_newArray (by decide), ?_⟩, trivial⟩
    exact ⟨⟨by decide, hlist 0 (by decide)⟩, hlist 1 (by decide), hlist 2 (by decide), trivial⟩

/-- A record is read back from lines that are indented by two blanks. -/
theorem record_read_back_from_lines :
    Fillable recorded ⟨0⟩ ∧ Depicts (shownTo recorded (some ⟨0⟩)) (.object ⟨2⟩) record ∧
    record.depth ≤ 127 ∧
    Json.Blank (indentOf ((calledWith [.object ⟨2⟩, .undefined, .number 2]).arg 2)).toList ∧
    ∃ text, stringify (calledWith [.object ⟨2⟩, .undefined, .number 2]) recorded =
        .ok (.string text) recorded ∧
      ∃ w k, parse (calledWith [.string text]) recorded = .ok w k ∧
        Depicts k.heap.object? w record ∧
        stringify (calledWith [w, .undefined, .number 2]) k = .ok (.string text) k := by
  have hindent : Json.Blank
      (indentOf ((calledWith [.object ⟨2⟩, .undefined, .number 2]).arg 2)).toList := by
    have htwo : (indentOf (.number 2)).toList = [' ', ' '] := by decide +kernel
    intro c hc
    change c ∈ (indentOf (.number 2)).toList at hc
    rw [htwo] at hc
    rcases List.mem_cons.1 hc with rfl | hc
    · rfl
    · rw [List.mem_singleton.1 hc]
      rfl
  obtain ⟨text, htext, hread⟩ := data_read_back (j := record)
    (c := calledWith [.object ⟨2⟩, .undefined, .number 2]) depicts_recorded (by decide) hindent
  obtain ⟨w, k, hparse, hpolicy, hdata, hagain⟩ := hread recorded ⟨0⟩ (calledWith [.string text])
    fillable_recorded rfl rfl
  have hshown : Depicts (shownTo k (some ⟨0⟩)) w record := by
    rw [shownTo_of_policy (.inl hpolicy)]
    exact hdata
  exact ⟨fillable_recorded, depicts_recorded, by decide, hindent, text, htext, w, k, hparse, hdata,
    hagain (calledWith [w, .undefined, .number 2]) hshown rfl rfl⟩

/-- A record is not read back from lines that are indented by a dash. -/
theorem record_not_read_back_from_dashes :
    Fillable recorded ⟨0⟩ ∧ Depicts (shownTo recorded (some ⟨0⟩)) (.object ⟨2⟩) record ∧
    record.depth ≤ 127 ∧
    ∃ text, stringify (calledWith [.object ⟨2⟩, .undefined, .string "-"]) recorded =
        .ok (.string text) recorded ∧
      ∀ w k, parse (calledWith [.string text]) recorded ≠ .ok w k := by
  have htext := stringify_run (c := calledWith [.object ⟨2⟩, .undefined, .string "-"])
    depicts_recorded (by decide)
  have hlayout : textOf (indentOf (.string "-")) record =
      String.ofList (Json.indentedChars ['-'] 0 record) := by
    have hdash : indentOf (.string "-") = "-" := by decide +kernel
    rw [hdash, ← String.ofList_toList (s := textOf "-" record)]
    exact congrArg String.ofList (Json.toList_pretty "-" record)
  have hrefused : (Json.read (textOf (indentOf (.string "-")) record)).toOption = none := by
    rw [hlayout]
    decide +kernel
  refine ⟨fillable_recorded, depicts_recorded, by decide, _, htext, ?_⟩
  cases hread : Json.read (textOf (indentOf (.string "-")) record) with
  | ok j =>
    rw [hread] at hrefused
    cases hrefused
  | error e => exact parse_ne_ok rfl hread

end Builtin.JsonText

end ScriptMachine
