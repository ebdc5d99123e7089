import ScriptMachine.Builtin.Json
import ScriptMachine.Proofs.Enumeration.Keys

/-!
# What can be written as JSON

Objects may contain each other in any way. A value can be written if and only if no chain of objects
that contain one another is longer than the nesting that is written. An object that stands twice on
a chain makes chains of any length, so it cannot, and how many chains an object stands on does not
matter.
-/

namespace ScriptMachine

open Machine

/-! ## Reading along prototypes -/

namespace Heap

variable {h : Heap} {id : ObjectId} {objects : List Object}

theorem lookupFrom_of_protos (key : String) (fuel : Nat) (hp : h.Protos (some id) objects) :
    ∃ found, h.lookupFrom key fuel id = .ok found := by
  induction fuel generalizing id objects with
  | zero => exact ⟨none, rfl⟩
  | succ fuel ih =>
    cases hp with
    | @cons _ o behind ho hbehind =>
      rw [lookupFrom, object_eq_ok_iff.2 ho]
      dsimp only [bind, Except.bind]
      cases o.properties.get? key with
      | some p => exact ⟨some p, rfl⟩
      | none =>
        cases hproto : o.proto with
        | none => exact ⟨none, rfl⟩
        | some next =>
          rw [hproto] at hbehind
          exact ih hbehind

end Heap

namespace Builtin.JsonText

variable {m : Machine} {actor : Option Owner} {id : ObjectId} {v w : Value} {chain : List ObjectId}

/-! ## Chains of objects -/

/-- An actor may read an object and list its properties, and its prototypes come to an end. -/
structure Legible (m : Machine) (actor : Option Owner) (id : ObjectId) : Prop where
  read : ∃ o, m.authorize actor id .read = .ok o
  enumerate : ∃ o, m.authorize actor id .enumerate = .ok o
  protos : ∃ objects, m.heap.Protos (some id) objects

/-- An array contains its elements below its length, as an actor reads them, and another object the
values of its enumerable properties. -/
inductive Contains (m : Machine) (actor : Option Owner) (id : ObjectId) : Value → Prop
  | item {o : Object} {length v : Value} {i : Nat} (ho : m.heap.object? id = some o)
    (harray : o.isArray = true) (hlength : m.getProperty (.object id) "length" actor = .ok length)
    (hi : i < elementCount length.toNumber)
    (hv : m.getProperty (.object id) (Number.natText i) actor = .ok v) : Contains m actor id v
  | field {o : Object} {key : String} {p : Property} (ho : m.heap.object? id = some o)
    (harray : o.isArray = false) (hp : o.properties.get? key = some p)
    (hshown : p.enumerable = true) : Contains m actor id p.value

/-- Objects that contain one another, from a value on. Functions are not among them. -/
inductive Nested (m : Machine) (actor : Option Owner) : Value → List ObjectId → Prop
  | nil (v : Value) : Nested m actor v []
  | last {id : ObjectId} (hplain : m.isCallable (.object id) = false) :
    Nested m actor (.object id) [id]
  | cons {id : ObjectId} {w : Value} {chain : List ObjectId}
    (hplain : m.isCallable (.object id) = false) (hw : Contains m actor id w)
    (hchain : Nested m actor w chain) : Nested m actor (.object id) (id :: chain)

/-- A chain goes through the object that it has at a place, and can go on from there in any other
way. -/
theorem Nested.append (before behind : List ObjectId)
    (h : Nested m actor v (before ++ id :: behind)) :
    Nested m actor (.object id) (id :: behind) ∧ ∀ other,
      Nested m actor (.object id) (id :: other) → Nested m actor v (before ++ id :: other) := by
  induction before generalizing v with
  | nil =>
    cases h with
    | last hplain => exact ⟨.last hplain, fun _ h => h⟩
    | cons hplain hw hchain => exact ⟨.cons hplain hw hchain, fun _ h => h⟩
  | cons first before ih =>
    generalize hwhole : first :: before ++ id :: behind = chain at h
    cases h with
    | nil => cases hwhole
    | last hplain => simp at hwhole
    | cons hplain hw hchain =>
      obtain ⟨rfl, rfl⟩ := List.cons_eq_cons.1 hwhole
      obtain ⟨hbehind, hother⟩ := ih hchain
      exact ⟨hbehind, fun other h => .cons hplain hw (hother other h)⟩

/-- A chain that comes back to an object can go around again. -/
theorem Nested.exists_longer {between : List ObjectId}
    (h : Nested m actor (.object id) (id :: (between ++ [id]))) (n : Nat) :
    ∃ other, n ≤ other.length ∧ Nested m actor (.object id) (id :: other) := by
  induction n with
  | zero => exact ⟨_, Nat.zero_le _, h⟩
  | succ n ih =>
    obtain ⟨other, hlength, hother⟩ := ih
    have haround := (Nested.append (id :: between) [] h).2 other hother
    refine ⟨between ++ id :: other, ?_, haround⟩
    rw [List.length_append, List.length_cons]
    omega

/-- Where chains are bounded, no object stands twice on one. -/
theorem Nested.nodup {bound : Nat} (h : Nested m actor v chain)
    (hbound : ∀ other, Nested m actor v other → other.length ≤ bound) : chain.Nodup := by
  induction h with
  | nil => exact List.nodup_nil
  | last => exact List.nodup_singleton _
  | @cons id w chain hplain hw hchain ih =>
    have hinner : ∀ other, Nested m actor w other → other.length ≤ bound := fun other hother =>
      Nat.le_of_succ_le (hbound _ (.cons hplain hw hother))
    refine List.nodup_cons.2 ⟨fun hid => ?_, ih hinner⟩
    obtain ⟨between, behind, rfl⟩ := List.append_of_mem hid
    have haround : Nested m actor (.object id) (id :: (between ++ [id])) :=
      (Nested.append (id :: between) behind (.cons hplain hw hchain)).2 [] (.last hplain)
    obtain ⟨other, hlength, hlong⟩ := haround.exists_longer bound
    have hle := hbound _ hlong
    rw [List.length_cons] at hle
    omega

/-! ## Writing what is contained -/

theorem getProperty_of_legible (h : Legible m actor id) (key : String) :
    ∃ v, m.getProperty (.object id) key actor = .ok v := by
  obtain ⟨o, ho⟩ := h.read
  obtain ⟨objects, hobjects⟩ := h.protos
  obtain ⟨found, hfound⟩ := Heap.lookupFrom_of_protos key (m.heap.objects.size + 1) hobjects
  refine ⟨(found.map (·.value)).getD .undefined, ?_⟩
  rw [getProperty, getOfObject, ho, Heap.lookup, hfound]
  rfl

/-- An own property is read where the object may be read. -/
theorem getProperty_of_own {o : Object} {key : String} {p : Property}
    (hread : m.authorize actor id .read = .ok o) (hp : o.properties.get? key = some p) :
    m.getProperty (.object id) key actor = .ok p.value := by
  obtain ⟨ho, -⟩ := authorize_eq_ok_iff.1 hread
  rw [getProperty, getOfObject, hread, Heap.lookup, Heap.lookupFrom, Heap.object_eq_ok_iff.2 ho]
  dsimp only [bind, Except.bind]
  rw [hp]
  rfl

theorem mem_ownKeys {o : Object} {key : String} {keys : List String}
    (hkeys : m.ownKeys id actor false = .ok keys) (ho : m.heap.object? id = some o) :
    key ∈ keys ↔ ∃ p, o.properties.get? key = some p ∧ p.enumerable = true := by
  unfold ownKeys at hkeys
  obtain ⟨o', ho', hkeys⟩ := bind_reading_eq_ok_iff.1 hkeys
  obtain rfl := Option.some.inj (ho.symm.trans (authorize_eq_ok_iff.1 ho').1)
  cases hkeys
  rw [mem_enumerationOrder, List.mem_map]
  constructor
  · rintro ⟨⟨k, p⟩, hmem, rfl⟩
    obtain ⟨hentry, hshown⟩ := List.mem_filter.1 hmem
    exact ⟨p, o.properties.get?_eq_some_iff.2 hentry, by simpa using hshown⟩
  · rintro ⟨p, hp, hshown⟩
    refine ⟨(key, p), List.mem_filter.2 ⟨o.properties.get?_eq_some_iff.1 hp, ?_⟩, rfl⟩
    simpa using hshown

section

variable {α β : Type} {f : α → Except Failure β} {xs : List α}

/-- Items are all read if each of them is. -/
theorem mapM_eq_ok_iff : (∃ ys, xs.mapM f = .ok ys) ↔ ∀ x ∈ xs, ∃ y, f x = .ok y := by
  induction xs with
  | nil => simp [pure, Except.pure]
  | cons x xs ih =>
    rw [List.forall_mem_cons, ← ih, List.mapM_cons]
    constructor
    · rintro ⟨ys, hys⟩
      obtain ⟨y, hy, hys⟩ := bind_reading_eq_ok_iff.1 hys
      obtain ⟨rest, hrest, -⟩ := bind_reading_eq_ok_iff.1 hys
      exact ⟨⟨y, hy⟩, rest, hrest⟩
    · rintro ⟨⟨y, hy⟩, rest, hrest⟩
      exact ⟨y :: rest, bind_reading_eq_ok_iff.2
        ⟨y, hy, bind_reading_eq_ok_iff.2 ⟨rest, hrest, rfl⟩⟩⟩

/-- Where items are not all read, one of them is not. -/
theorem mapM_eq_error {e : Failure} (h : xs.mapM f = .error e) : ∃ x ∈ xs, f x = .error e := by
  induction xs with
  | nil => cases h
  | cons x xs ih =>
    rw [List.mapM_cons] at h
    cases hx : f x with
    | error e' =>
      rw [hx] at h
      cases h
      exact ⟨x, List.mem_cons_self, hx⟩
    | ok y =>
      rw [hx] at h
      cases hxs : xs.mapM f with
      | error e' =>
        rw [hxs] at h
        cases h
        obtain ⟨x', hx', hfail⟩ := ih hxs
        exact ⟨x', List.mem_cons_of_mem _ hx', hfail⟩
      | ok ys =>
        rw [hxs] at h
        cases h

end

/-- An object contains itself. -/
def circular : Failure := .typeError "Converting circular structure to JSON"

/-- Objects contain one another too deeply. -/
def tooDeep : Failure := .rangeError "JSON.stringify nesting too deep"

section

variable {depth : Nat} {visiting : List ObjectId} {j : Option Json} {e : Failure}

theorem toJson_object (hplain : m.isCallable (.object id) = false) (hnew : id ∉ visiting) :
    toJson m actor (depth + 1) visiting (.object id) = (do
      let inner (key : String) : Except Failure (Option Json) := do
        toJson m actor depth (id :: visiting) (← m.getProperty (.object id) key actor)
      if (← m.heap.object id).isArray then
        let length ← m.getProperty (.object id) "length" actor
        let items ← (List.range (elementCount length.toNumber)).mapM fun i =>
          inner (Number.natText i)
        return some (.arr (items.map (·.getD .null)))
      else
        let keys ← m.ownKeys id actor false
        let fields ← keys.mapM fun key => return (key, ← inner key)
        return some (.obj (fields.filterMap fun (key, j) => j.map fun j => (key, j)))) := by
  have hcontains : visiting.contains id = false := by simpa using hnew
  rw [toJson, hplain, hcontains]
  rfl

/-- An object is written only if all that it contains is. -/
theorem toJson_of_contains (hplain : m.isCallable (.object id) = false) (hnew : id ∉ visiting)
    (h : toJson m actor (depth + 1) visiting (.object id) = .ok j) (hw : Contains m actor id w) :
    ∃ j, toJson m actor depth (id :: visiting) w = .ok j := by
  rw [toJson_object hplain hnew] at h
  obtain ⟨o, ho, h⟩ := bind_reading_eq_ok_iff.1 h
  rw [Heap.object_eq_ok_iff] at ho
  cases hw with
  | @item o' length v i ho' harray hlength hi hv =>
    obtain rfl := Option.some.inj (ho.symm.trans ho')
    rw [if_pos harray] at h
    obtain ⟨length', hlength', h⟩ := bind_reading_eq_ok_iff.1 h
    obtain rfl := Except.ok.inj (hlength.symm.trans hlength')
    obtain ⟨items, hitems, -⟩ := bind_reading_eq_ok_iff.1 h
    obtain ⟨j, hj⟩ := mapM_eq_ok_iff.1 ⟨items, hitems⟩ i (List.mem_range.2 hi)
    obtain ⟨v', hv', hj⟩ := bind_reading_eq_ok_iff.1 hj
    obtain rfl := Except.ok.inj (hv.symm.trans hv')
    exact ⟨j, hj⟩
  | @field o' key p ho' harray hp hshown =>
    obtain rfl := Option.some.inj (ho.symm.trans ho')
    rw [if_neg (Bool.eq_false_iff.1 harray)] at h
    obtain ⟨keys, hkeys, h⟩ := bind_reading_eq_ok_iff.1 h
    obtain ⟨fields, hfields, -⟩ := bind_reading_eq_ok_iff.1 h
    have hkey := (mem_ownKeys hkeys ho).2 ⟨p, hp, hshown⟩
    obtain ⟨field, hfield⟩ := mapM_eq_ok_iff.1 ⟨fields, hfields⟩ key hkey
    obtain ⟨j, hj, -⟩ := bind_reading_eq_ok_iff.1 hfield
    obtain ⟨v, hv, hj⟩ := bind_reading_eq_ok_iff.1 hj
    -- The object was read, so the value is that of its own property.
    obtain ⟨o', hread, -⟩ := bind_reading_eq_ok_iff.1 hv
    obtain rfl := Option.some.inj (ho.symm.trans (authorize_eq_ok_iff.1 hread).1)
    obtain rfl := Except.ok.inj ((getProperty_of_own hread hp).symm.trans hv)
    exact ⟨j, hj⟩

theorem bind_eq_error {α β : Type} {x : Except Failure α} {f : α → Except Failure β}
    (h : (x >>= f) = .error e) : x = .error e ∨ ∃ a, x = .ok a ∧ f a = .error e := by
  cases x with
  | error e' => exact .inl (by cases h; rfl)
  | ok a => exact .inr ⟨a, rfl, h⟩

/-- An object that may be read is not written only because something that it contains is not. -/
theorem exists_contains_of_error (hplain : m.isCallable (.object id) = false)
    (hnew : id ∉ visiting) (hlegible : Legible m actor id)
    (h : toJson m actor (depth + 1) visiting (.object id) = .error e) :
    ∃ w, Contains m actor id w ∧ toJson m actor depth (id :: visiting) w = .error e := by
  obtain ⟨o, hread⟩ := hlegible.read
  have ho := (authorize_eq_ok_iff.1 hread).1
  have hinner {key : String} (hkey : (do
      toJson m actor depth (id :: visiting) (← m.getProperty (.object id) key actor)) = .error e) :
      ∃ v, m.getProperty (.object id) key actor = .ok v ∧
        toJson m actor depth (id :: visiting) v = .error e := by
    obtain ⟨v, hv⟩ := getProperty_of_legible hlegible key
    rw [hv] at hkey
    exact ⟨v, hv, hkey⟩
  rw [toJson_object hplain hnew, Heap.object_eq_ok_iff.2 ho] at h
  dsimp only [bind, Except.bind] at h
  cases harray : o.isArray with
  | true =>
    obtain ⟨length, hlength⟩ := getProperty_of_legible hlegible "length"
    rw [if_pos harray, hlength] at h
    rcases bind_eq_error h with h | ⟨items, -, h⟩
    · obtain ⟨i, hi, h⟩ := mapM_eq_error h
      obtain ⟨v, hv, h⟩ := hinner h
      exact ⟨v, .item ho harray hlength (List.mem_range.1 hi) hv, h⟩
    · cases h
  | false =>
    obtain ⟨o', hlist⟩ := hlegible.enumerate
    obtain ⟨keys, hkeys⟩ : ∃ keys, m.ownKeys id actor false = .ok keys := by
      unfold ownKeys
      rw [hlist]
      exact ⟨_, rfl⟩
    rw [if_neg (Bool.eq_false_iff.1 harray), hkeys] at h
    rcases bind_eq_error h with h | ⟨fields, -, h⟩
    · obtain ⟨key, hkey, h⟩ := mapM_eq_error h
      obtain ⟨p, hp, hshown⟩ := (mem_ownKeys hkeys ho).1 hkey
      rcases bind_eq_error h with h | ⟨j, -, h⟩
      · obtain ⟨v, hv, h⟩ := hinner h
        obtain rfl := Except.ok.inj ((getProperty_of_own hread hp).symm.trans hv)
        exact ⟨p.value, .field ho harray hp hshown, h⟩
      · cases h
    · cases h

end

/-! ## What is written -/

/-- Chains from a value are no longer than what is allowed, and come to none of the objects around
it nor to an object twice. -/
def Fits (m : Machine) (actor : Option Owner) (depth : Nat) (visiting : List ObjectId) (v : Value) :
    Prop :=
  ∀ chain, Nested m actor v chain →
    chain.length ≤ depth ∧ chain.Nodup ∧ ∀ id ∈ chain, id ∉ visiting

section

variable {depth : Nat} {visiting : List ObjectId} {j : Option Json} {e : Failure}

/-- An object that is written is not around itself, and there is nesting left for it. -/
theorem allowed_of_toJson (hplain : m.isCallable (.object id) = false)
    (h : toJson m actor depth visiting (.object id) = .ok j) :
    id ∉ visiting ∧ ∃ rest, depth = rest + 1 := by
  rw [toJson.eq_def] at h
  dsimp only at h
  rw [hplain, if_neg Bool.false_ne_true] at h
  by_cases hvisiting : visiting.contains id
  · rw [if_pos hvisiting] at h
    cases h
  · rw [if_neg hvisiting] at h
    cases depth with
    | zero => cases h
    | succ rest => exact ⟨by simpa using hvisiting, rest, rfl⟩

theorem fits_of_toJson (h : toJson m actor depth visiting v = .ok j) :
    Fits m actor depth visiting v := by
  intro chain hchain
  induction hchain generalizing depth visiting j with
  | nil => exact ⟨Nat.zero_le _, List.nodup_nil, fun _ hid => absurd hid List.not_mem_nil⟩
  | last hplain =>
    obtain ⟨hnew, rest, rfl⟩ := allowed_of_toJson hplain h
    refine ⟨Nat.succ_le_succ (Nat.zero_le _), List.nodup_singleton _, fun id hid => ?_⟩
    rwa [List.mem_singleton.1 hid]
  | cons hplain hw hchain ih =>
    obtain ⟨hnew, rest, rfl⟩ := allowed_of_toJson hplain h
    obtain ⟨j', hj'⟩ := toJson_of_contains hplain hnew h hw
    obtain ⟨hlength, hnodup, hapart⟩ := ih hj'
    refine ⟨Nat.succ_le_succ hlength, List.nodup_cons.2 ⟨fun hid => ?_, hnodup⟩, ?_⟩
    · exact hapart _ hid List.mem_cons_self
    · refine List.forall_mem_cons.2 ⟨hnew, fun other hother hvisited => ?_⟩
      exact hapart other hother (List.mem_cons_of_mem _ hvisited)

/-- What is not written is an object. It may contain itself, and otherwise, where no nesting is
left, that is the reason. -/
theorem object_of_error (h : toJson m actor depth visiting v = .error e) : ∃ id,
    v = .object id ∧ m.isCallable (.object id) = false ∧
      (id ∈ visiting ∧ e = circular ∨ id ∉ visiting ∧ (depth = 0 → e = tooDeep)) := by
  cases v with
  | object id =>
    rw [toJson.eq_def] at h
    dsimp only at h
    refine ⟨id, rfl, ?_⟩
    cases hplain : m.isCallable (.object id) with
    | true =>
      rw [hplain, if_pos rfl] at h
      cases h
    | false =>
      rw [hplain, if_neg Bool.false_ne_true] at h
      by_cases hvisiting : visiting.contains id
      · rw [if_pos hvisiting] at h
        cases h
        exact ⟨rfl, .inl ⟨by simpa using hvisiting, rfl⟩⟩
      · rw [if_neg hvisiting] at h
        refine ⟨rfl, .inr ⟨by simpa using hvisiting, fun hdepth => ?_⟩⟩
        subst hdepth
        cases h
        rfl
  | _ =>
    rw [toJson.eq_def] at h
    cases h

/-- A value of objects that may be read is not written only because of a chain that comes to an
object again, or one that goes further than is allowed. -/
theorem exists_chain_of_error
    (hlegible : ∀ chain, Nested m actor v chain → ∀ id ∈ chain, Legible m actor id)
    (h : toJson m actor depth visiting v = .error e) : ∃ chain id,
      Nested m actor v (chain ++ [id]) ∧
        (e = circular ∧ (id ∈ chain ∨ id ∈ visiting) ∨ e = tooDeep ∧ chain.length = depth) := by
  induction depth generalizing v visiting with
  | zero =>
    obtain ⟨id, rfl, hplain, ⟨hvisiting, he⟩ | ⟨-, he⟩⟩ := object_of_error h
    · exact ⟨[], id, .last hplain, .inl ⟨he, .inr hvisiting⟩⟩
    · exact ⟨[], id, .last hplain, .inr ⟨he rfl, rfl⟩⟩
  | succ depth ih =>
    obtain ⟨id, rfl, hplain, ⟨hvisiting, he⟩ | ⟨hnew, -⟩⟩ := object_of_error h
    · exact ⟨[], id, .last hplain, .inl ⟨he, .inr hvisiting⟩⟩
    · have hid := hlegible [id] (.last hplain) id List.mem_cons_self
      obtain ⟨w, hw, h⟩ := exists_contains_of_error hplain hnew hid h
      have hinner : ∀ chain, Nested m actor w chain → ∀ other ∈ chain, Legible m actor other :=
        fun chain hchain other hother => hlegible (id :: chain) (.cons hplain hw hchain) other
          (List.mem_cons_of_mem _ hother)
      obtain ⟨chain, last, hchain, hwhy⟩ := ih hinner h
      refine ⟨id :: chain, last, .cons hplain hw hchain, ?_⟩
      rcases hwhy with ⟨he, hlast | hlast⟩ | ⟨he, hlength⟩
      · exact .inl ⟨he, .inl (List.mem_cons_of_mem _ hlast)⟩
      · rcases List.mem_cons.1 hlast with rfl | hlast
        · exact .inl ⟨he, .inl List.mem_cons_self⟩
        · exact .inl ⟨he, .inr hlast⟩
      · exact .inr ⟨he, congrArg (· + 1) hlength⟩

end

/-- A value of objects that an actor may read is written if and only if no chain of objects from it
is longer than 512. It is not if a chain comes to an object twice, and the only other reason is a
chain that is too long. -/
theorem written_iff_chains_bounded
    (hlegible : ∀ chain, Nested m actor v chain → ∀ id ∈ chain, Legible m actor id) :
    ((∃ j, toJson m actor maxDepth [] v = .ok j) ↔
      ∀ chain, Nested m actor v chain → chain.length ≤ 512) ∧
    (∀ chain, Nested m actor v chain → ¬ chain.Nodup →
      ∃ e, toJson m actor maxDepth [] v = .error e) ∧
    ∀ e, toJson m actor maxDepth [] v = .error e → ∃ chain id,
      Nested m actor v (chain ++ [id]) ∧
        (e = circular ∧ id ∈ chain ∨ e = tooDeep ∧ chain.length = 512) := by
  refine ⟨⟨?_, fun hbound => ?_⟩, fun chain hchain htwice => ?_, fun e h => ?_⟩
  · rintro ⟨j, hj⟩ chain hchain
    exact (fits_of_toJson hj chain hchain).1
  · cases h : toJson m actor maxDepth [] v with
    | ok j => exact ⟨j, rfl⟩
    | error e =>
      obtain ⟨chain, id, hchain, hwhy⟩ := exists_chain_of_error hlegible h
      rcases hwhy with ⟨-, hid | hid⟩ | ⟨-, hlength⟩
      · have hnodup := hchain.nodup hbound
        exact absurd (List.nodup_append.1 hnodup).2.2 fun hapart =>
          hapart id hid id List.mem_cons_self rfl
      · cases hid
      · have hle := hbound _ hchain
        rw [List.length_append, hlength, List.length_singleton] at hle
        exact absurd hle (by decide)
  · cases h : toJson m actor maxDepth [] v with
    | ok j => exact absurd (fits_of_toJson h chain hchain).2.1 htwice
    | error e => exact ⟨e, rfl⟩
  · obtain ⟨chain, id, hchain, hwhy⟩ := exists_chain_of_error hlegible h
    rcases hwhy with ⟨he, hid | hid⟩ | ⟨he, hlength⟩
    · exact ⟨chain, id, hchain, .inl ⟨he, hid⟩⟩
    · cases hid
    · exact ⟨chain, id, hchain, .inr ⟨he, hlength⟩⟩

/-- An object that has another one in two of its properties. -/
def sharing : Machine where
  heap := { objects := #[some { owner := none, proto := none, cls := .object, properties :=
        (Table.empty.insert "a" (.data (.object ⟨1⟩))).insert "b" (.data (.object ⟨1⟩)) },
      some { owner := none, proto := none, cls := .object }] }

/-- What is shared is written, as often as it is contained. -/
theorem shared_object_written :
    (∀ chain, Nested sharing (some ⟨0⟩) (.object ⟨0⟩) chain →
      ∀ id ∈ chain, Legible sharing (some ⟨0⟩) id) ∧
    (∀ chain, Nested sharing (some ⟨0⟩) (.object ⟨0⟩) chain → chain.length ≤ 512) ∧
    ∃ j, toJson sharing (some ⟨0⟩) maxDepth [] (.object ⟨0⟩) = .ok j := by
  have hlegible (id : ObjectId) (hid : id = ⟨0⟩ ∨ id = ⟨1⟩) : Legible sharing (some ⟨0⟩) id := by
    rcases hid with rfl | rfl
    · exact ⟨⟨_, rfl⟩, ⟨_, rfl⟩, _, .cons rfl .nil⟩
    · exact ⟨⟨_, rfl⟩, ⟨_, rfl⟩, _, .cons rfl .nil⟩
  have hinner {w : Value} : ¬ Contains sharing (some ⟨0⟩) ⟨1⟩ w := by
    rintro (⟨ho, harray, -⟩ | ⟨ho, -, hp, -⟩)
    · cases ho
      cases harray
    · cases ho
      cases hp
  have houter {w : Value} (hw : Contains sharing (some ⟨0⟩) ⟨0⟩ w) : w = .object ⟨1⟩ := by
    rcases hw with ⟨ho, harray, -⟩ | ⟨ho, -, hp, -⟩
    · cases ho
      cases harray
    · cases ho
      rw [Table.get?_insert, Table.get?_insert] at hp
      split at hp
      · cases hp
        rfl
      · split at hp
        · cases hp
          rfl
        · cases hp
  have hchains {chain : List ObjectId} (h : Nested sharing (some ⟨0⟩) (.object ⟨0⟩) chain) :
      chain = [] ∨ chain = [⟨0⟩] ∨ chain = [⟨0⟩, ⟨1⟩] := by
    cases h with
    | nil => exact .inl rfl
    | last => exact .inr (.inl rfl)
    | cons _ hw hchain =>
      obtain rfl := houter hw
      cases hchain with
      | nil => exact .inr (.inl rfl)
      | last => exact .inr (.inr rfl)
      | cons _ hw _ => exact absurd hw hinner
  have hall : ∀ chain, Nested sharing (some ⟨0⟩) (.object ⟨0⟩) chain →
      ∀ id ∈ chain, Legible sharing (some ⟨0⟩) id := by
    intro chain hchain id hid
    apply hlegible
    rcases hchains hchain with rfl | rfl | rfl
    · cases hid
    · exact .inl (List.mem_singleton.1 hid)
    · simpa using hid
  have hbound : ∀ chain, Nested sharing (some ⟨0⟩) (.object ⟨0⟩) chain → chain.length ≤ 512 := by
    intro chain hchain
    rcases hchains hchain with rfl | rfl | rfl <;> decide
  exact ⟨hall, hbound, (written_iff_chains_bounded hall).1.2 hbound⟩

end Builtin.JsonText

end ScriptMachine
