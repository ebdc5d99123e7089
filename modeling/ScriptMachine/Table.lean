import Std.Data.ExtTreeMap

/-!
# Tables in insertion order

A table maps names to values and keeps the order in which names were first inserted. Writing to a
name that is present keeps its place; removing a name keeps the order of the rest. The entries stand
in an array, and a search tree knows the place of every name, so that a long table is not walked to
find one. The tree and the array agree: no name occurs twice, and the entries determine the table.
-/

namespace ScriptMachine

structure Table (α : Type) where
  entries : Array (String × α) := #[]
  /-- Where each name stands among the entries. -/
  places : Std.ExtTreeMap String Nat := {}
  places_eq_some_iff : ∀ (key : String) (i : Nat),
    places[key]? = some i ↔ entries[i]?.map Prod.fst = some key := by simp

namespace Table

variable {α : Type}

/-- The table of nothing. -/
def empty : Table α := {}

instance : Inhabited (Table α) := ⟨empty⟩

/-- The names, in order. -/
def keys (t : Table α) : List String :=
  t.entries.toList.map Prod.fst

/-- The values, in the order of their names. -/
def values (t : Table α) : List α :=
  t.entries.toList.map Prod.snd

def size (t : Table α) : Nat := t.entries.size

/-- The place of a name. -/
def place? (t : Table α) (key : String) : Option Nat := t.places[key]?

def get? (t : Table α) (key : String) : Option α :=
  match t.place? key with
  | some i => t.entries[i]?.map Prod.snd
  | none => none

def contains (t : Table α) (key : String) : Bool := (t.place? key).isSome

theorem place?_eq_some_iff (t : Table α) {key : String} {i : Nat} :
    t.place? key = some i ↔ t.entries[i]?.map Prod.fst = some key :=
  t.places_eq_some_iff key i

/-- The entries determine the table. -/
theorem ext {t u : Table α} (h : t.entries = u.entries) : t = u := by
  have hplaces : t.places = u.places := by
    refine Std.ExtTreeMap.ext_getElem? fun key => Option.ext fun i => ?_
    rw [t.places_eq_some_iff, u.places_eq_some_iff, h]
  cases t
  cases u
  simp_all

/-! ## Changes -/

/-- Changes the value at a place. -/
def modifyAt (t : Table α) (i : Nat) (f : α → α) : Table α where
  entries := t.entries.modify i fun e => (e.1, f e.2)
  places := t.places
  places_eq_some_iff := by
    intro key j
    rw [t.places_eq_some_iff, Array.getElem?_modify]
    split <;> simp [Function.comp_def]

/-- Changes the value of a name that is present. -/
def modify (t : Table α) (key : String) (f : α → α) : Table α :=
  match t.place? key with
  | some i => t.modifyAt i f
  | none => t

theorem places_insert_eq_some_iff (t : Table α) {key : String} (value : α)
    (h : t.place? key = none) (k : String) (i : Nat) :
    (t.places.insert key t.entries.size)[k]? = some i ↔
      (t.entries.push (key, value))[i]?.map Prod.fst = some k := by
  have hk := t.places_eq_some_iff k i
  rw [Std.ExtTreeMap.getElem?_insert, Array.getElem?_push]
  by_cases hkey : key = k <;> by_cases hi : i = t.entries.size
  · simp [hkey, hi]
  · subst hkey
    simp_all [place?, eq_comm]
  · simp_all
  · simp_all

/-- Adds a name that is not present. -/
def append (t : Table α) (key : String) (value : α) (h : t.place? key = none) : Table α :=
  let places := t.places.insert key t.entries.size
  ⟨t.entries.push (key, value), places, t.places_insert_eq_some_iff value h⟩

/-- Sets a name, in place when it is present and at the end otherwise. -/
def insert (t : Table α) (key : String) (value : α) : Table α :=
  match h : t.place? key with
  | some i => t.modifyAt i fun _ => value
  | none => t.append key value h

/-- The places when the name at a place is gone. Names behind it move up. -/
def placesWithout (t : Table α) (i : Nat) (key : String) : Std.ExtTreeMap String Nat :=
  let rest := t.places.erase key
  if i + 1 = t.entries.size then rest else rest.map fun _ j => if i < j then j - 1 else j

theorem places_erase_eq_some_iff (t : Table α) {i : Nat} {key : String}
    (h : t.entries[i]?.map Prod.fst = some key) (k : String) (j : Nat) :
    (t.places.erase key)[k]? = some j ↔ j ≠ i ∧ t.entries[j]?.map Prod.fst = some k := by
  rw [Std.ExtTreeMap.getElem?_erase, ← t.places_eq_some_iff]
  rw [← t.places_eq_some_iff] at h
  by_cases hkey : key = k
  · subst hkey
    simp [h, eq_comm]
  · have hk : ∀ j, t.places[k]? = some j → j ≠ i := by
      rintro j hj rfl
      rw [t.places_eq_some_iff] at h hj
      exact hkey (Option.some.inj (h.symm.trans hj))
    simpa [hkey] using hk j

theorem placesWithout_eq_some_iff (t : Table α) {i : Nat} {key : String}
    (h : t.entries[i]?.map Prod.fst = some key) (k : String) (j : Nat) :
    (t.placesWithout i key)[k]? = some j ↔
      (if j < i then t.entries[j]? else t.entries[j + 1]?).map Prod.fst = some k := by
  unfold placesWithout
  have rest := t.places_erase_eq_some_iff h k
  by_cases hlast : i + 1 = t.entries.size
  · rw [if_pos hlast, rest]
    split
    · simp
      omega
    · have hnext : t.entries[j + 1]? = none := Array.getElem?_eq_none (by omega)
      by_cases hj : j = i
      · simp [hj, hlast]
      · have hhere : t.entries[j]? = none := Array.getElem?_eq_none (by omega)
        simp [hhere, hnext]
  · rw [if_neg hlast, Std.ExtTreeMap.getElem?_map, Option.map_eq_some_iff]
    constructor
    · rintro ⟨p, hp, rfl⟩
      obtain ⟨hne, hp⟩ := (rest p).1 hp
      by_cases hlt : i < p
      · rw [if_pos hlt, if_neg (by omega), Nat.sub_add_cancel (by omega)]
        exact hp
      · rw [if_neg hlt, if_pos (by omega)]
        exact hp
    · intro hj
      split at hj
      · exact ⟨j, (rest j).2 ⟨by omega, hj⟩, if_neg (by omega)⟩
      · exact ⟨j + 1, (rest (j + 1)).2 ⟨by omega, hj⟩, by rw [if_pos (by omega)]; rfl⟩

/-- Removes the entry at a place. -/
def eraseAt (t : Table α) (i : Nat) (h : i < t.entries.size) : Table α where
  entries := t.entries.eraseIdx i h
  places := t.placesWithout i t.entries[i].1
  places_eq_some_iff := by
    intro key j
    rw [t.placesWithout_eq_some_iff (by simp [h]), Array.getElem?_eraseIdx]

/-- Removes a name. -/
def erase (t : Table α) (key : String) : Table α :=
  match t.place? key with
  | some i => if h : i < t.entries.size then t.eraseAt i h else t
  | none => t

/-- Keeps the entries that satisfy a test. -/
def filter (t : Table α) (p : String → α → Bool) : Table α :=
  if t.entries.all fun e => p e.1 e.2 then t
  else t.entries.foldl (fun u e => if p e.1 e.2 then u.insert e.1 e.2 else u) {}

/-! ## Views -/

theorem place?_eq_none_iff (t : Table α) {key : String} : t.place? key = none ↔ key ∉ t.keys := by
  constructor
  · intro h hmem
    obtain ⟨i, hi⟩ := List.getElem?_of_mem hmem
    have : t.place? key = some i := t.place?_eq_some_iff.2 (by simpa [keys] using hi)
    simp [h] at this
  · intro h
    rw [Option.eq_none_iff_forall_ne_some]
    intro i hi
    refine h (List.mem_of_getElem? (i := i) ?_)
    simpa [keys] using t.place?_eq_some_iff.1 hi

/-- No name occurs twice. -/
theorem nodup_keys (t : Table α) : t.keys.Nodup := by
  refine List.pairwise_iff_getElem.2 fun i j hi hj hlt heq => ?_
  have at_place : ∀ (k : Nat) (h : k < t.keys.length), t.place? t.keys[k] = some k := by
    intro k h
    refine t.place?_eq_some_iff.2 ?_
    have := List.getElem?_eq_getElem h
    simpa [keys] using this
  have := at_place j hj
  rw [← heq, at_place i hi] at this
  injection this
  omega

/-- The value of a name is that of the entry with the name. -/
theorem get?_eq_find? (t : Table α) (key : String) :
    t.get? key = (t.entries.find? (·.1 == key)).map Prod.snd := by
  unfold get?
  cases hfind : t.entries.find? (·.1 == key) with
  | none =>
    have habsent : t.place? key = none := by
      rw [place?_eq_none_iff]
      intro hmem
      obtain ⟨e, he, rfl⟩ := List.mem_map.1 hmem
      exact Array.find?_eq_none.1 hfind e (by simpa using he) (by simp)
    rw [habsent]
    rfl
  | some e =>
    obtain ⟨i, hi⟩ := Array.getElem?_of_mem (Array.mem_of_find?_eq_some hfind)
    have hkey : e.1 = key := by simpa using Array.find?_some hfind
    have hplace : t.place? key = some i := t.place?_eq_some_iff.2 (by simp [hi, hkey])
    rw [hplace]
    simp [hi]

@[simp] theorem keys_modifyAt (t : Table α) (i : Nat) (f : α → α) :
    (t.modifyAt i f).keys = t.keys := by
  refine List.ext_getElem? fun j => ?_
  simp only [keys, modifyAt, List.getElem?_map, Array.getElem?_toList, Array.getElem?_modify]
  split <;> simp [Function.comp_def]

@[simp] theorem keys_modify (t : Table α) (key : String) (f : α → α) :
    (t.modify key f).keys = t.keys := by
  unfold modify
  split <;> simp

theorem entries_insert_of_place?_eq_none (t : Table α) {key : String} (value : α)
    (h : t.place? key = none) : (t.insert key value).entries = t.entries.push (key, value) := by
  unfold insert
  split
  · simp_all
  · rfl

theorem keys_insert_of_place?_eq_none (t : Table α) {key : String} (value : α)
    (h : t.place? key = none) : (t.insert key value).keys = t.keys ++ [key] := by
  simp [keys, entries_insert_of_place?_eq_none t value h]

theorem keys_erase (t : Table α) (key : String) : (t.erase key).keys = t.keys.erase key := by
  unfold erase
  split
  · rename_i i hplace
    have hkey := t.place?_eq_some_iff.1 hplace
    have hi : i < t.entries.size := Nat.lt_of_not_le fun hle => by
      simp [Array.getElem?_eq_none hle] at hkey
    rw [dif_pos hi]
    have hget : t.keys[i]? = some key := by simpa [keys] using hkey
    obtain ⟨hlen, hget⟩ := List.getElem?_eq_some_iff.1 hget
    have hidx : t.keys.idxOf key = i := hget ▸ t.nodup_keys.idxOf_getElem i hlen
    rw [List.erase_eq_eraseIdx_of_idxOf hidx]
    refine List.ext_getElem? fun j => ?_
    simp only [keys, eraseAt, Array.toList_eraseIdx, List.getElem?_map, List.getElem?_eraseIdx]
    split <;> rfl
  · rename_i hplace
    rw [List.erase_of_not_mem (t.place?_eq_none_iff.1 hplace)]

theorem entries_filter (t : Table α) (p : String → α → Bool) :
    (t.filter p).entries = t.entries.filter fun e => p e.1 e.2 := by
  unfold filter
  split
  · rename_i h
    exact (Array.filter_eq_self.2 (Array.all_eq_true_iff_forall_mem.1 h)).symm
  · suffices general : ∀ (l : List (String × α)) (u : Table α), (l.map Prod.fst).Nodup →
        (∀ e ∈ l, u.place? e.1 = none) →
        (l.foldl (fun u e => if p e.1 e.2 then u.insert e.1 e.2 else u) u).entries.toList =
          u.entries.toList ++ l.filter fun e => p e.1 e.2 by
      have := general t.entries.toList {} t.nodup_keys (by simp [place?])
      rw [← Array.foldl_toList]
      exact Array.toList_inj.1 (by simpa using this)
    intro l
    induction l with
    | nil => simp
    | cons e rest ih =>
      intro u hnodup habsent
      obtain ⟨hfresh, hrest⟩ := List.nodup_cons.1 hnodup
      rw [List.foldl_cons, List.filter_cons]
      split
      · have he := habsent e (by simp)
        rw [ih (u.insert e.1 e.2) hrest, entries_insert_of_place?_eq_none u e.2 he]
        · simp
        · intro d hd
          have := (u.place?_eq_none_iff).1 (habsent d (by simp [hd]))
          rw [place?_eq_none_iff, keys_insert_of_place?_eq_none u e.2 he]
          have hne : d.1 ≠ e.1 := fun h => hfresh (h ▸ List.mem_map_of_mem hd)
          simp [this, hne]
      · exact ih u hrest fun d hd => habsent d (by simp [hd])

/-! ## Entries as a list

Each operation says what it does to the list of entries, which determines the table. -/

theorem get?_eq_find?_toList (t : Table α) (key : String) :
    t.get? key = (t.entries.toList.find? (·.1 == key)).map Prod.snd := by
  rw [get?_eq_find?, ← Array.find?_toList]

/-- The entry with a name is where the name stands. -/
theorem toList_modify (t : Table α) (key : String) (f : α → α) :
    (t.modify key f).entries.toList =
      t.entries.toList.map fun e => if e.1 = key then (e.1, f e.2) else e := by
  refine List.ext_getElem? fun j => ?_
  rw [List.getElem?_map]
  unfold modify
  split
  · rename_i i hplace
    have hkey := t.place?_eq_some_iff.1 hplace
    simp only [modifyAt, Array.getElem?_toList, Array.getElem?_modify]
    by_cases hij : i = j
    · subst hij
      cases hi : t.entries[i]? with
      | none => simp
      | some e =>
        have he : e.1 = key := by simpa [hi] using hkey
        simp [he]
    · cases hj : t.entries[j]? with
      | none => simp [hij]
      | some e =>
        have hne : e.1 ≠ key := by
          rintro rfl
          have hplace' := t.place?_eq_some_iff.2 (by simp [hj] : t.entries[j]?.map Prod.fst = some e.1)
          rw [hplace] at hplace'
          exact hij (Option.some.inj hplace')
        simp [hij, hne]
  · rename_i hplace
    rw [Array.getElem?_toList]
    cases hj : t.entries[j]? with
    | none => rfl
    | some e =>
      have hne : e.1 ≠ key := by
        rintro rfl
        have hplace' := t.place?_eq_some_iff.2 (by simp [hj] : t.entries[j]?.map Prod.fst = some e.1)
        rw [hplace] at hplace'
        cases hplace'
      simp [hne]

theorem insert_eq_modify (t : Table α) {key : String} (value : α) (h : key ∈ t.keys) :
    t.insert key value = t.modify key fun _ => value := by
  have hplace : t.place? key ≠ none := fun hnone => t.place?_eq_none_iff.1 hnone h
  unfold insert modify
  split
  · rename_i i hi
    rw [hi]
  · rename_i hnone
    exact absurd hnone hplace

/-- A name that is present keeps its place, and a new one comes last. -/
theorem toList_insert (t : Table α) (key : String) (value : α) :
    (t.insert key value).entries.toList =
      if key ∈ t.keys then t.entries.toList.map fun e => if e.1 = key then (e.1, value) else e
      else t.entries.toList ++ [(key, value)] := by
  split
  · rename_i h
    rw [insert_eq_modify t value h, toList_modify]
  · rename_i h
    rw [entries_insert_of_place?_eq_none t value (t.place?_eq_none_iff.2 h), Array.toList_push]

theorem toList_filter (t : Table α) (p : String → α → Bool) :
    (t.filter p).entries.toList = t.entries.toList.filter fun e => p e.1 e.2 := by
  rw [entries_filter, Array.toList_filter]

theorem toList_erase (t : Table α) (key : String) :
    (t.erase key).entries.toList = t.entries.toList.filter fun e => e.1 != key := by
  unfold erase
  split
  · rename_i i hplace
    have hkey := t.place?_eq_some_iff.1 hplace
    have hi : i < t.entries.size := Nat.lt_of_not_le fun hle => by
      simp [Array.getElem?_eq_none hle] at hkey
    have he : t.entries[i].1 = key := by
      rw [Array.getElem?_eq_getElem hi] at hkey
      simpa using hkey
    have hdrop : t.entries.toList.drop i = t.entries[i] :: t.entries.toList.drop (i + 1) :=
      List.drop_eq_getElem_cons (by simpa using hi)
    have hsplit : t.entries.toList = t.entries.toList.take i ++ t.entries.toList.drop i :=
      (List.take_append_drop i _).symm
    have hnodup := t.nodup_keys
    unfold keys at hnodup
    rw [hsplit, hdrop] at hnodup
    simp only [List.map_append, List.map_cons, he] at hnodup
    obtain ⟨-, htail, hapart⟩ := List.nodup_append.1 hnodup
    rw [dif_pos hi]
    simp only [eraseAt, Array.toList_eraseIdx, List.eraseIdx_eq_take_drop_succ]
    conv => rhs; rw [hsplit, hdrop]
    rw [List.filter_append, List.filter_cons_of_neg (by simp [he])]
    congr 1
    · refine (List.filter_eq_self.2 fun e hmem => ?_).symm
      have := hapart e.1 (List.mem_map_of_mem hmem) key (by simp)
      simpa using this
    · refine (List.filter_eq_self.2 fun e hmem => ?_).symm
      have hne : e.1 ≠ key := by
        rintro rfl
        exact (List.nodup_cons.1 htail).1 (List.mem_map_of_mem hmem)
      simpa using hne
  · rename_i hplace
    refine (List.filter_eq_self.2 fun e hmem => ?_).symm
    have hne : e.1 ≠ key := by
      rintro rfl
      exact t.place?_eq_none_iff.1 hplace (List.mem_map_of_mem hmem)
    simpa using hne

theorem get?_eq_some_iff (t : Table α) {key : String} {v : α} :
    t.get? key = some v ↔ (key, v) ∈ t.entries.toList := by
  rw [get?_eq_find?_toList]
  constructor
  · intro h
    obtain ⟨e, he, rfl⟩ := Option.map_eq_some_iff.1 h
    have hkey : e.1 = key := by simpa using List.find?_some he
    exact hkey ▸ List.mem_of_find?_eq_some he
  · intro h
    obtain ⟨i, hi⟩ := List.getElem?_of_mem h
    rw [Array.getElem?_toList] at hi
    have hplace : t.place? key = some i := t.place?_eq_some_iff.2 (by simp [hi])
    rw [← get?_eq_find?_toList, get?, hplace]
    simp [hi]

theorem get?_eq_none_iff (t : Table α) {key : String} : t.get? key = none ↔ key ∉ t.keys := by
  rw [Option.eq_none_iff_forall_ne_some]
  constructor
  · rintro h hmem
    obtain ⟨e, he, rfl⟩ := List.mem_map.1 hmem
    exact h e.2 (t.get?_eq_some_iff.2 he)
  · intro h v hv
    exact h (List.mem_map_of_mem (t.get?_eq_some_iff.1 hv))

theorem get?_modify (t : Table α) (key : String) (f : α → α) (other : String) :
    (t.modify key f).get? other =
      if other = key then (t.get? other).map f else t.get? other := by
  refine Option.ext fun v => ?_
  rw [get?_eq_some_iff, toList_modify, List.mem_map]
  split
  · rename_i hkey
    subst hkey
    rw [Option.map_eq_some_iff]
    constructor
    · rintro ⟨e, he, heq⟩
      by_cases hfst : e.1 = other
      · rw [if_pos hfst, Prod.mk.injEq] at heq
        exact ⟨e.2, t.get?_eq_some_iff.2 (heq.1 ▸ he), heq.2⟩
      · rw [if_neg hfst] at heq
        exact absurd (congrArg Prod.fst heq) hfst
    · rintro ⟨u, hu, rfl⟩
      exact ⟨(other, u), t.get?_eq_some_iff.1 hu, by simp⟩
  · rename_i hkey
    rw [get?_eq_some_iff]
    constructor
    · rintro ⟨e, he, heq⟩
      by_cases hfst : e.1 = key
      · rw [if_pos hfst, Prod.mk.injEq] at heq
        exact absurd (heq.1.symm.trans hfst) hkey
      · rw [if_neg hfst] at heq
        exact heq ▸ he
    · intro h
      exact ⟨(other, v), h, by simp [hkey]⟩

theorem get?_insert (t : Table α) (key : String) (value : α) (other : String) :
    (t.insert key value).get? other = if other = key then some value else t.get? other := by
  by_cases hmem : key ∈ t.keys
  · rw [insert_eq_modify t value hmem, get?_modify]
    split
    · rename_i hkey
      obtain ⟨e, he, hfst⟩ := List.mem_map.1 hmem
      have hget : t.get? other = some e.2 := t.get?_eq_some_iff.2 (by rw [hkey, ← hfst]; exact he)
      rw [hget]
      rfl
    · rfl
  · refine Option.ext fun v => ?_
    rw [get?_eq_some_iff, toList_insert, if_neg hmem, List.mem_append, List.mem_singleton,
      ← get?_eq_some_iff, Prod.mk.injEq]
    split
    · rename_i hkey
      subst hkey
      rw [t.get?_eq_none_iff.2 hmem]
      simp [eq_comm]
    · rename_i hkey
      simp [hkey]

theorem get?_filter (t : Table α) (p : String → α → Bool) (key : String) :
    (t.filter p).get? key = (t.get? key).filter (p key) := by
  refine Option.ext fun v => ?_
  rw [get?_eq_some_iff, toList_filter, List.mem_filter, ← get?_eq_some_iff, Option.filter_eq_some_iff]

theorem get?_erase (t : Table α) (key other : String) :
    (t.erase key).get? other = if other = key then none else t.get? other := by
  refine Option.ext fun v => ?_
  rw [get?_eq_some_iff, toList_erase, List.mem_filter, ← get?_eq_some_iff]
  split <;> simp_all

end Table

end ScriptMachine
