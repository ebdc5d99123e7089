import ScriptMachine.Builtin.Array
import ScriptMachine.Proofs.Arrays.Extent
import ScriptMachine.Proofs.Authority

/-!
# Arrays in use

An array is made by a call, by a literal or by its constructor, and then properties are assigned,
defined and deleted and items are pushed and popped. Whatever of that fails or succeeds, the array
keeps an extent, and a write that succeeds decides which.
-/

namespace ScriptMachine

open Exec Machine

namespace Object

variable {o o' : Object} {n : Nat} {key : String}

theorem Cut.limited (h : o.Cut n o') (writable : Bool) : o.Cut n (o'.limited writable) where
  keys := by
    rw [Object.limited, ← h.keys]
    exact Table.keys_modify ..
  others := by
    intro other hother hlength
    rw [Object.limited] at hother ⊢
    dsimp only at hother ⊢
    rw [Table.keys_modify] at hother
    rw [Table.get?_modify, if_neg hlength]
    exact h.others other hother hlength
  shell := ⟨h.shell.owner, h.shell.proto, h.shell.cls, h.shell.extensible, h.shell.function⟩

namespace Extent

theorem reach_of_mem (h : o.Extent n) (hkey : key ∈ o.properties.keys) : reach n key = n := by
  unfold reach
  cases hindex : arrayIndex? key with
  | none => rfl
  | some i => exact Nat.max_eq_left (h.above key i hkey hindex)

theorem assigned (h : o.Extent n) {v : Value} (ha : o.Assigned key v o') (hkey : key ≠ "length") :
    o'.Extent (reach n key) := by
  cases ha with
  | value p hp =>
    rw [h.reach_of_mem ((mem_keys_iff ..).2 (hp ▸ rfl))]
    exact h.modify hkey _
  | length p k _ hlength => exact absurd hlength hkey
  | added => exact h.added hkey v

theorem redefined (h : o.Extent n) {d : Descriptor} (hd : o.Redefined key d o')
    (hkey : key ≠ "length") : o'.Extent (reach n key) := by
  cases hd with
  | length p v k _ hlength => exact absurd hlength hkey
  | flag p _ hlength => exact absurd hlength hkey
  | property p => exact h.defined hkey p

/-- A length that is assigned cuts the array or makes it longer. -/
theorem assigned_length (h : o.Extent n) {v : Value} (ha : o.Assigned "length" v o') :
    ∃ k, arrayLength? v = some k ∧ o'.Extent k ∧ o.Cut k o' := by
  cases ha with
  | value p _ _ hplain =>
    rw [h.isArray] at hplain
    cases hplain
  | length p k _ _ _ _ hk => exact ⟨k, hk, h.resize (lt_of_arrayLength? hk), h.cut_resize k⟩
  | added _ hnew => exact absurd h.mem_length ((Table.get?_eq_none_iff _).1 hnew)

theorem redefined_length (h : o.Extent n) {d : Descriptor} (hd : o.Redefined "length" d o')
    {v : Value} (hv : d.value = some v) :
    ∃ k, arrayLength? v = some k ∧ o'.Extent k ∧ o.Cut k o' := by
  cases hd with
  | length p w k _ _ _ hw hk =>
    obtain rfl : v = w := Option.some.inj (hv.symm.trans hw)
    exact ⟨k, hk, (h.resize (lt_of_arrayLength? hk)).limit p.writable,
      (h.cut_resize k).limited p.writable⟩
  | flag _ _ _ _ hnone =>
    rw [hv] at hnone
    cases hnone
  | property p _ hplain =>
    rw [h.isArray] at hplain
    cases hplain

end Extent

end Object

/-! ## Operations -/

namespace Machine

/-- An array is live. -/
def HasArray (m : Machine) (id : ObjectId) : Prop :=
  ∃ o n, m.heap.object? id = some o ∧ o.Extent n

variable {m m' : Machine} {id : ObjectId} {o : Object} {n : Nat} {actor : Option Owner}

theorem authorize_run (ho : m.heap.object? id = some o) (access : Access) :
    m.authorize actor id access = (m.authorizeOwner actor o.owner access).map fun _ => o := by
  unfold authorize
  rw [Heap.object_eq_ok_iff.2 ho]
  cases hauthorized : m.authorizeOwner actor o.owner access <;>
    simp [bind, Except.bind, hauthorized, Except.map, pure, Except.pure]

/-- An operation that asks for authorization fails with the refusal or goes on. -/
theorem authorize_bind_run {α : Type} (ho : m.heap.object? id = some o) (access : Access)
    (k : Object → Exec α) :
    ((query fun m => m.authorize actor id access) >>= k) m =
      match m.authorizeOwner actor o.owner access with
      | .error e => .error e m
      | .ok () => k o m := by
  rw [bind_run, query, authorize_run ho]
  cases m.authorizeOwner actor o.owner access with
  | error e => rfl
  | ok _ => rfl

/-! ## What operations keep -/

/-- An operation leaves an array an array, whether it fails or not. -/
def KeepsArray {α : Type} (id : ObjectId) (x : Exec α) : Prop :=
  ∀ m : Machine, m.HasArray id → (after x m).HasArray id

theorem KeepsArray.of_edits {α : Type} {x : Exec α} {access : Access} {idle : Prop}
    {E : Object → Object → Prop} (hx : ∀ m, Edits id actor access idle E m x)
    (hE : ∀ o o' n, o.Extent n → E o o' → ∃ n', o'.Extent n') : KeepsArray id x := by
  rintro m ⟨o, n, ho, h⟩
  cases hrun : x m with
  | error e m' =>
    rw [after_of_error hrun, (hx m).eq_of_error hrun]
    exact ⟨o, n, ho, h⟩
  | ok a m' =>
    rw [after_of_ok hrun]
    rcases (hx m).of_ok hrun with ⟨-, rfl⟩ | ⟨p, o', hp, hedited, rfl⟩
    · exact ⟨o, n, ho, h⟩
    · obtain rfl : o = p := Option.some.inj (ho.symm.trans hp)
      obtain ⟨n', hn'⟩ := hE o o' n h hedited
      exact ⟨o', n', object?_withObject ho _, hn'⟩

theorem KeepsArray.bind {α β : Type} {x : Exec α} {f : α → Exec β} (hx : KeepsArray id x)
    (hf : ∀ a, KeepsArray id (f a)) : KeepsArray id (x >>= f) := by
  intro m hm
  exact after_bind_of (hx m hm) (fun _ h => h) fun a m' _ hm' => hf a m' hm'

theorem keepsArray_pure {α : Type} (a : α) : KeepsArray id (pure a : Exec α) :=
  fun _ hm => hm

theorem keepsArray_query {α : Type} (f : Machine → Except Failure α) :
    KeepsArray id (query f) := by
  intro m hm
  rw [after_query]
  exact hm

theorem keepsArray_setProperty (key : String) (v : Value) :
    KeepsArray id (setProperty (.object id) key v actor) := by
  apply KeepsArray.of_edits fun m => edits_setProperty m id key v actor
  intro o o' n h hassigned
  by_cases hkey : key = "length"
  · subst hkey
    obtain ⟨k, -, hk, -⟩ := h.assigned_length hassigned
    exact ⟨k, hk⟩
  · exact ⟨_, h.assigned hassigned hkey⟩

theorem keepsArray_defineProperty (key : String) (d : Descriptor) :
    KeepsArray id (defineProperty id key d actor) := by
  apply KeepsArray.of_edits fun m => edits_defineProperty m id key d actor
  intro o o' n h hredefined
  cases hredefined with
  | length p v k _ _ _ _ hk => exact ⟨k, (h.resize (lt_of_arrayLength? hk)).limit p.writable⟩
  | flag p => exact ⟨n, h.limit p.writable⟩
  | property p _ hplain =>
    refine ⟨_, h.defined ?_ p⟩
    rintro rfl
    rw [h.isArray] at hplain
    cases hplain

theorem keepsArray_deleteProperty (key : String) :
    KeepsArray id (deleteProperty id key actor) := by
  apply KeepsArray.of_edits fun m => edits_deleteProperty m id key actor
  rintro o o' n h ⟨p, hp, hconfigurable⟩
  exact ⟨n, h.erase hp hconfigurable⟩

theorem keepsArray_pushFrom (i : Nat) (values : List Value) :
    KeepsArray id (Builtin.Arrays.pushFrom (.object id) actor i values) := by
  induction values generalizing i with
  | nil => exact keepsArray_pure i
  | cons v rest ih => exact (keepsArray_setProperty _ v).bind fun _ => ih (i + 1)

theorem keepsArray_push (c : NativeCall) :
    KeepsArray id (Builtin.Arrays.push { c with receiver := .object id }) := by
  apply KeepsArray.bind (keepsArray_query fun m => Builtin.Arrays.lengthOf m id c.owner)
  intro length
  apply (keepsArray_pushFrom length c.args).bind
  intro length
  exact (keepsArray_setProperty _ _).bind fun _ => keepsArray_pure _

theorem keepsArray_pop (c : NativeCall) :
    KeepsArray id (Builtin.Arrays.pop { c with receiver := .object id }) := by
  apply KeepsArray.bind (keepsArray_query fun m => Builtin.Arrays.lengthOf m id c.owner)
  intro length
  cases length with
  | zero => exact (keepsArray_setProperty _ _).bind fun _ => keepsArray_pure _
  | succ last =>
    apply KeepsArray.bind (keepsArray_query fun m => Builtin.Arrays.item m id last c.owner)
    intro v
    apply (keepsArray_deleteProperty _).bind
    intro deleted
    exact (keepsArray_setProperty _ _).bind fun _ => keepsArray_pure _

/-!
## Arrays that are made

Arrays are made in three ways: from a list of values, by a literal that fills its array one item at a
time, and by the constructor. From then on an array keeps an extent through any sequence of uses,
whatever else happens to the machine in between.
-/

variable {m m' : Machine} {id : ObjectId} {o : Object} {n : Nat} {actor : Option Owner}

/-! ## Making an array -/

theorem createArray_ok {values : List Value} (ht : m.heap.Tidy)
    (hrun : createArray values actor m = .ok id m') :
    ∃ o : Object, o.Filled values.length ∧ (values ≠ [] → "0" ∈ o.properties.keys) ∧
      m'.heap.object? id = some (o.put "length" (.length (.nat (values.length % 4294967296)))) := by
  obtain ⟨proto, mid, hproto, hrun⟩ := bind_eq_ok_iff.1 hrun
  obtain ⟨-, rfl⟩ := query_eq_ok_iff.1 hproto
  cases hrun
  have hempty := Object.Filled.empty actor (some proto) values.length
  refine ⟨_, hempty.putItems values (Nat.zero_add _).le, fun hne => ?_, ht.allocObject_self _⟩
  cases values with
  | nil => exact absurd rfl hne
  | cons v rest => exact Object.Filled.mem_keys_putItems ((Object.mem_keys_put ..).2 (.inl rfl)) 1 rest

theorem hasArray_createArray {values : List Value} (ht : m.heap.Tidy)
    (hlength : values.length < 4294967296) (hrun : createArray values actor m = .ok id m') :
    m'.HasArray id := by
  obtain ⟨o, hfilled, -, ho⟩ := createArray_ok ht hrun
  exact ⟨_, _, ho, hfilled.extent hlength⟩

/-- A call with one number makes an array of that length, any other call an array of its
arguments. -/
theorem construct_cases (c : NativeCall) :
    (∃ x, c.args = [.number x] ∧ arrayLength? (.number x) = none ∧
      Builtin.Arrays.construct c = throw invalidLength) ∨
    (∃ x, c.args = [.number x] ∧ Builtin.Arrays.construct c =
      createArray [] c.owner >>= fun id =>
        setProperty (.object id) "length" (.number x) c.owner >>= fun _ => pure (.object id)) ∨
    Builtin.Arrays.construct c = createArray c.args c.owner >>= fun id => pure (.object id) := by
  unfold Builtin.Arrays.construct
  split
  · rename_i x hargs
    cases hlength : arrayLength? (.number x) with
    | none => exact .inl ⟨x, hargs, hlength, rfl⟩
    | some k => exact .inr (.inl ⟨x, hargs, rfl⟩)
  · exact .inr (.inr rfl)

theorem hasArray_construct {c : NativeCall} (ht : m.heap.Tidy)
    (hlength : c.args.length < 4294967296)
    (hrun : Builtin.Arrays.construct c m = .ok (.object id) m') : m'.HasArray id := by
  rcases construct_cases c with ⟨x, -, -, heq⟩ | ⟨x, -, heq⟩ | heq
  · rw [heq] at hrun
    cases hrun
  · rw [heq] at hrun
    obtain ⟨made, mid, hmade, hrun⟩ := bind_eq_ok_iff.1 hrun
    have hmid := hasArray_createArray ht (by decide) hmade
    obtain ⟨u, last, hset, hrun⟩ := bind_eq_ok_iff.1 hrun
    cases hrun
    have hkeeps : KeepsArray id (setProperty (.object id) "length" (.number x) c.owner) :=
      keepsArray_setProperty _ _
    have hkept := hkeeps mid hmid
    rwa [after_of_ok hset] at hkept
  · rw [heq] at hrun
    obtain ⟨made, mid, hmade, hrun⟩ := bind_eq_ok_iff.1 hrun
    cases hrun
    exact hasArray_createArray ht hlength hmade

/-! ## Literals -/

/-- The frame of a literal on its way, in the machine where it goes on. -/
inductive Building (elements : List (Option Tree.NodeId)) : Frame → Machine → Prop where
  /-- The literal has no array yet. -/
  | fresh {f : Frame} {m : Machine} (hinfo : ∀ id, f.info ≠ .object id) (ht : m.heap.Tidy) :
    Building elements f m
  /-- An element is entered. -/
  | enter {f f' child : Frame} {m m' : Machine} {here : NodeRef} (h : Building elements f m)
    (hrun : stepArray f here elements m = .ok (.push f' child) m') : Building elements f' m'
  /-- The element gives its value, in a machine where the array is as it was left. -/
  | resume {f : Frame} {m m' : Machine} {id : ObjectId} (h : Building elements f m) (v : Value)
    (hinfo : f.info = .object id) (hsame : m'.heap.object? id = m.heap.object? id) :
    Building elements { f with value := v } m'

/-- What a literal on its way has so far. -/
def HasItems (f : Frame) (m : Machine) (n : Nat) : Prop :=
  (∃ id o, f.info = .object id ∧ m.heap.object? id = some o ∧ o.Filled n) ∨
    ((∀ id, f.info ≠ .object id) ∧ m.heap.Tidy)

/-- Whatever an operation gives, it gives it with a machine of some kind. -/
def OkAt {α : Type} (m : Machine) (x : Exec α) (Q : α → Machine → Prop) : Prop :=
  ∀ a m', x m = .ok a m' → Q a m'

theorem OkAt.bind {α β : Type} {x : Exec α} {f : α → Exec β} {P : α → Machine → Prop}
    {Q : β → Machine → Prop} (hx : OkAt m x P) (hf : ∀ a m', P a m' → OkAt m' (f a) Q) :
    OkAt m (x >>= f) Q := by
  intro b m' hrun
  obtain ⟨a, mid, ha, hb⟩ := bind_eq_ok_iff.1 hrun
  exact hf a mid (hx a mid ha) b m' hb

theorem okAt_modifyObject (ho : m.heap.object? id = some o) (f : Object → Object) :
    OkAt m (modifyObject id f) fun _ m' => m'.heap.object? id = some (f o) := by
  intro a m' hrun
  rw [modifyObject_run ho] at hrun
  cases hrun
  exact object?_withObject ho f

theorem okAt_literalObject {f : Frame} (h : HasItems f m n) :
    OkAt m (literalObject f (createArray [])) fun id m' =>
      ∃ o, m'.heap.object? id = some o ∧ o.Filled n := by
  unfold literalObject
  rcases h with ⟨id, o, hinfo, ho, hfilled⟩ | ⟨hinfo, ht⟩
  · rw [hinfo]
    rintro id' m' ⟨⟩
    exact ⟨o, ho, hfilled⟩
  · split
    · rename_i id hid
      exact absurd hid (hinfo id)
    · intro id m' hrun
      obtain ⟨owner, mid, howner, hrun⟩ := bind_eq_ok_iff.1 hrun
      unfold scopeOwner heapQuery at howner
      obtain ⟨-, rfl⟩ := query_eq_ok_iff.1 howner
      obtain ⟨o, hfilled, -, ho⟩ := createArray_ok ht hrun
      exact ⟨_, ho, (hfilled.mono (Nat.zero_le n)).putName Object.arrayIndex?_length _⟩

/-- A step of a literal stores the value of an element in its place, and goes on to the next element
or finishes the array. -/
theorem okAt_stepArray {f : Frame} (here : NodeRef) {elements : List (Option Tree.NodeId)}
    (h : HasItems f m elements.length) :
    OkAt m (stepArray f here elements) fun s m' => ∃ id o,
      ((∃ f' child, s = .push f' child ∧ f'.info = .object id) ∧
        m'.heap.object? id = some o ∧ o.Filled elements.length) ∨
      (s = .done (.object id) ∧ o.Filled elements.length ∧
        m'.heap.object? id = some (o.put "length" (.length (.nat (elements.length % 4294967296))))) := by
  unfold stepArray
  refine (okAt_literalObject h).bind ?_
  rintro id m₁ ⟨o, ho, hfilled⟩
  extract_lets stored cleared g next rest
  have hrest : ∀ {m : Machine} {o : Object} (u : Unit), m.heap.object? id = some o →
      o.Filled elements.length → OkAt m (rest u) fun s m' => ∃ id o,
        ((∃ f' child, s = .push f' child ∧ f'.info = .object id) ∧
          m'.heap.object? id = some o ∧ o.Filled elements.length) ∨
        (s = .done (.object id) ∧ o.Filled elements.length ∧
          m'.heap.object? id = some (o.put "length" (.length (.nat (elements.length % 4294967296))))) := by
    intro m o u ho hfilled
    dsimp only [rest]
    split
    · rintro s m' ⟨⟩
      exact ⟨id, o, .inl ⟨⟨_, _, rfl, rfl⟩, ho, hfilled⟩⟩
    · refine (okAt_modifyObject ho _).bind ?_
      rintro u m₂ ho₂ s m' ⟨⟩
      exact ⟨id, o, .inr ⟨rfl, hfilled, ho₂⟩⟩
  split
  · rename_i hstored
    refine (okAt_modifyObject ho _).bind ?_
    intro u m₂ ho₂
    apply hrest u ho₂
    apply hfilled.putItem
    -- The element whose value is stored was entered by the step before.
    dsimp only [stored] at hstored
    cases hstep : f.step with
    | zero =>
      rw [hstep] at hstored
      cases hstored
    | succ i =>
      rw [hstep] at hstored
      by_contra hbound
      have hnone : elements[i]? = none := List.getElem?_eq_none (by omega)
      dsimp only at hstored
      rw [hnone] at hstored
      cases hstored
  · exact hrest () ho hfilled

theorem Building.hasItems {elements : List (Option Tree.NodeId)} {f : Frame}
    (h : Building elements f m) : HasItems f m elements.length := by
  induction h with
  | fresh hinfo ht => exact .inr ⟨hinfo, ht⟩
  | enter _ hrun ih =>
    obtain ⟨id, o, ⟨⟨f', child, hs, hinfo⟩, ho, hfilled⟩ | ⟨hs, -⟩⟩ :=
      okAt_stepArray _ ih _ _ hrun
    · cases hs
      exact .inl ⟨id, o, hinfo, ho, hfilled⟩
    · cases hs
  | resume _ v hinfo hsame ih =>
    rcases ih with ⟨id, o, hid, ho, hfilled⟩ | ⟨hnone, -⟩
    · rw [hinfo] at hid
      cases hid
      exact .inl ⟨_, o, hinfo, hsame.trans ho, hfilled⟩
    · exact absurd hinfo (hnone _)

/-- The last step of a literal leaves an array. -/
theorem Building.hasArray {elements : List (Option Tree.NodeId)} {f : Frame} {here : NodeRef}
    (h : Building elements f m) (hlength : elements.length < 4294967296)
    (hrun : stepArray f here elements m = .ok (.done (.object id)) m') : m'.HasArray id := by
  obtain ⟨id', o, ⟨⟨f', child, hs, -⟩, -⟩ | ⟨hs, hfilled, ho⟩⟩ :=
    okAt_stepArray here h.hasItems _ _ hrun
  · cases hs
  · cases hs
    exact ⟨_, _, ho, hfilled.extent hlength⟩

/-! ## Uses -/

/-- What may be done with an array. -/
inductive Use where
  | put (key : String) (v : Value) (actor : Option Owner)
  | define (key : String) (d : Descriptor) (actor : Option Owner)
  | delete (key : String) (actor : Option Owner)
  | push (c : NativeCall)
  | pop (c : NativeCall)

namespace Use

/-- A use of an object, which receives the calls of methods. -/
def run (id : ObjectId) : Use → Exec Unit
  | put key v actor => setProperty (.object id) key v actor
  | define key d actor => defineProperty id key d actor
  | delete key actor => do
    let _ ← deleteProperty id key actor
  | push c => do
    let _ ← Builtin.Arrays.push { c with receiver := .object id }
  | pop c => do
    let _ ← Builtin.Arrays.pop { c with receiver := .object id }

/-- The property that is written. -/
def target? : Use → Option String
  | put key _ _ => some key
  | define key _ _ => some key
  | _ => none

/-- The value that is written to the length. -/
def length? : Use → Option Value
  | put key v _ => if key = "length" then some v else none
  | define key d _ => if key = "length" then d.value else none
  | _ => none

/-- What refuses an assignment to the length before the value is looked at: the policy, or a length
that is read-only. -/
def assignRefusal? (m : Machine) (o : Object) (actor : Option Owner) : Option Failure :=
  match m.authorizeOwner actor o.owner .write with
  | .error e => some e
  | .ok () =>
    if (o.properties.get? "length").any (·.writable) then none else some (readOnly "length")

/-- What refuses a definition of the length before the value is looked at: the policy, or the rules
of redefinition. -/
def defineRefusal? (m : Machine) (o : Object) (d : Descriptor) (actor : Option Owner) :
    Option Failure :=
  match m.authorizeOwner actor o.owner .define with
  | .error e => some e
  | .ok () =>
    match definedProperty o "length" d with
    | .error e => some e
    | .ok _ => none

def refusal? (m : Machine) (o : Object) : Use → Option Failure
  | put _ _ actor => assignRefusal? m o actor
  | define _ d actor => defineRefusal? m o d actor
  | _ => none

theorem keepsArray_run (u : Use) : KeepsArray id (u.run id) := by
  cases u with
  | put key v actor => exact keepsArray_setProperty key v
  | define key d actor => exact keepsArray_defineProperty key d
  | delete key actor => exact (keepsArray_deleteProperty key).bind fun _ => keepsArray_pure _
  | push c => exact (keepsArray_push c).bind fun _ => keepsArray_pure _
  | pop c => exact (keepsArray_pop c).bind fun _ => keepsArray_pure _

/-- A length that is written is a count, and the array is cut to it. -/
theorem cut_of_run (ho : m.heap.object? id = some o) (h : o.Extent n) {u : Use} {v : Value}
    (hu : u.length? = some v) (hrun : u.run id m = .ok () m') :
    ∃ k o', arrayLength? v = some k ∧ m'.heap.object? id = some o' ∧ o'.Extent k ∧ o.Cut k o' := by
  cases u with
  | put key w actor =>
    obtain ⟨rfl, hw⟩ := Option.ite_none_right_eq_some.1 hu
    obtain rfl : w = v := Option.some.inj hw
    obtain ⟨o', ho', hassigned⟩ := (edits_setProperty m id "length" w actor).object?_of_ok ho hrun
    obtain ⟨k, hk, hextent, hcut⟩ := h.assigned_length hassigned
    exact ⟨k, o', hk, ho', hextent, hcut⟩
  | define key d actor =>
    obtain ⟨rfl, hv⟩ := Option.ite_none_right_eq_some.1 hu
    obtain ⟨o', ho', hredefined⟩ :=
      (edits_defineProperty m id "length" d actor).object?_of_ok ho hrun
    obtain ⟨k, hk, hextent, hcut⟩ := h.redefined_length hredefined hv
    exact ⟨k, o', hk, ho', hextent, hcut⟩
  | delete | push | pop => cases hu

/-- An array is as long as it must be for an item that is written. -/
theorem extent_of_run (ho : m.heap.object? id = some o) (h : o.Extent n) {u : Use} {key : String}
    (hu : u.target? = some key) (hkey : key ≠ "length") (hrun : u.run id m = .ok () m') :
    ∃ o', m'.heap.object? id = some o' ∧ o'.Extent (Object.reach n key) := by
  cases u with
  | put other v actor =>
    obtain rfl : other = key := Option.some.inj hu
    obtain ⟨o', ho', hassigned⟩ := (edits_setProperty m id other v actor).object?_of_ok ho hrun
    exact ⟨o', ho', h.assigned hassigned hkey⟩
  | define other d actor =>
    obtain rfl : other = key := Option.some.inj hu
    obtain ⟨o', ho', hredefined⟩ :=
      (edits_defineProperty m id other d actor).object?_of_ok ho hrun
    exact ⟨o', ho', h.redefined hredefined hkey⟩
  | delete | push | pop => cases hu

/-- A length that is no count is refused, and nothing changes. -/
theorem run_of_invalid (ho : m.heap.object? id = some o) (h : o.Extent n) {u : Use} {v : Value}
    (hu : u.length? = some v) (hv : arrayLength? v = none) :
    u.run id m = .error ((u.refusal? m o).getD invalidLength) m := by
  obtain ⟨writable, hlength⟩ := h.length
  cases u with
  | put key w actor =>
    obtain ⟨rfl, hw⟩ := Option.ite_none_right_eq_some.1 hu
    obtain rfl : w = v := Option.some.inj hw
    change setProperty (.object id) "length" w actor m =
      .error ((assignRefusal? m o actor).getD invalidLength) m
    unfold setProperty assignRefusal?
    dsimp only
    rw [authorize_bind_run ho]
    cases m.authorizeOwner actor o.owner .write with
    | error e => rfl
    | ok _ =>
      dsimp only
      rw [hlength, h.isArray]
      cases writable with
      | false => rfl
      | true =>
        change setArrayLength id w m = _
        rw [setArrayLength_run ho, hv]
        rfl
  | define key d actor =>
    obtain ⟨rfl, hd⟩ := Option.ite_none_right_eq_some.1 hu
    change defineProperty id "length" d actor m =
      .error ((defineRefusal? m o d actor).getD invalidLength) m
    unfold defineProperty defineRefusal?
    rw [authorize_bind_run ho]
    cases m.authorizeOwner actor o.owner .define with
    | error e => rfl
    | ok _ =>
      dsimp only
      rw [bind_run, query]
      cases definedProperty o "length" d with
      | error e => rfl
      | ok merged =>
        dsimp only
        unfold storeProperty
        rw [h.isArray, hd]
        change (setArrayLength id v >>= _) m = _
        rw [bind_run, setArrayLength_run ho, hv]
        rfl
  | delete | push | pop => cases hu

end Use

/-! ## Arrays over time -/

/-- An array was made and from then on used, in machines that may otherwise differ in any way. The
free lists of the heap it is made in name empty slots. -/
inductive Produced (id : ObjectId) : Machine → Prop where
  | created {m m' : Machine} (values : List Value) (owner : Option Owner) (ht : m.heap.Tidy)
    (hlength : values.length < 4294967296) (hrun : createArray values owner m = .ok id m') :
    Produced id m'
  | written {m m' : Machine} {elements : List (Option Tree.NodeId)} {f : Frame} {here : NodeRef}
    (h : Building elements f m) (hlength : elements.length < 4294967296)
    (hrun : stepArray f here elements m = .ok (.done (.object id)) m') : Produced id m'
  | constructed {m m' : Machine} (c : NativeCall) (ht : m.heap.Tidy)
    (hlength : c.args.length < 4294967296)
    (hrun : Builtin.Arrays.construct c m = .ok (.object id) m') : Produced id m'
  | used {m : Machine} (u : Use) (h : Produced id m) : Produced id (after (u.run id) m)
  | elsewhere {m m' : Machine} (h : Produced id m)
    (hsame : m'.heap.object? id = m.heap.object? id) : Produced id m'

theorem Produced.hasArray (h : Produced id m) : m.HasArray id := by
  induction h with
  | created values owner ht hlength hrun => exact hasArray_createArray ht hlength hrun
  | written h hlength hrun => exact h.hasArray hlength hrun
  | constructed c ht hlength hrun => exact hasArray_construct ht hlength hrun
  | used u _ ih => exact u.keepsArray_run _ ih
  | elsewhere _ hsame ih =>
    obtain ⟨o, n, ho, hextent⟩ := ih
    exact ⟨o, n, hsame.trans ho, hextent⟩

/-- How an array stands and what its next use does to it. -/
structure Represents (m : Machine) (id : ObjectId) (o : Object) (n : Nat) : Prop where
  live : m.heap.object? id = some o
  extent : o.Extent n
  /-- A length that is written is a natural number, and the array is cut to it. -/
  cuts : ∀ (u : Use) (v : Value) (m' : Machine), u.length? = some v → u.run id m = .ok () m' →
    ∃ k o', (v.toNumber == Number.ofNat k) = true ∧ m'.heap.object? id = some o' ∧
      o'.Extent k ∧ o.Cut k o'
  /-- An item at the length or behind it makes the array just long enough. -/
  grows : ∀ (u : Use) (key : String) (i : Nat) (m' : Machine), u.target? = some key →
    arrayIndex? key = some i → n ≤ i → u.run id m = .ok () m' →
    ∃ o', m'.heap.object? id = some o' ∧ o'.Extent (i + 1)
  /-- What is no natural number below `2 ^ 32` is no length. -/
  refuses : ∀ (u : Use) (v : Value), u.length? = some v →
    (∀ k < 4294967296, (v.toNumber == Number.ofNat k) = false) →
    u.run id m = .error ((u.refusal? m o).getD invalidLength) m

/-- An array that was made and used in whatever way has a length that is a count above all of its
items. A write to the length cuts it, a write to an item lets it grow, and an invalid length fails
and changes nothing. -/
theorem Produced.represents (h : Produced id m) : ∃ o n, m.Represents id o n := by
  obtain ⟨o, n, ho, hextent⟩ := h.hasArray
  refine ⟨o, n, ho, hextent, ?_, ?_, ?_⟩
  · intro u v m' hu hrun
    obtain ⟨k, o', hk, ho', hextent', hcut⟩ := Use.cut_of_run ho hextent hu hrun
    exact ⟨k, o', (arrayLength?_eq_some_iff.1 hk).2, ho', hextent', hcut⟩
  · intro u key i m' hu hindex hle hrun
    have hkey : key ≠ "length" := by
      rintro rfl
      rw [Object.arrayIndex?_length] at hindex
      cases hindex
    obtain ⟨o', ho', hextent'⟩ := Use.extent_of_run ho hextent hu hkey hrun
    have hreach : Object.reach n key = i + 1 := by
      rw [Object.reach, hindex]
      exact Nat.max_eq_right (Nat.le_succ_of_le hle)
    rw [hreach] at hextent'
    exact ⟨o', ho', hextent'⟩
  · intro u v hu hinvalid
    apply Use.run_of_invalid ho hextent hu
    cases hv : arrayLength? v with
    | none => rfl
    | some k =>
      obtain ⟨hk, heq⟩ := arrayLength?_eq_some_iff.1 hv
      rw [hinvalid k hk] at heq
      cases heq

/-! ## Lengths that are refused -/

/-- A machine with nothing but the prototype of arrays. -/
def scant : Machine where
  heap := { objects := #[some { owner := none, proto := none, cls := .object }] }
  builtins := Table.empty.insert "Array.prototype" (.object ⟨0⟩)

theorem tidy_scant : scant.heap.Tidy where
  objects := by
    refine ⟨List.nodup_nil, fun i => ?_⟩
    cases i <;> simp [scant]
  scopes := by
    refine ⟨List.nodup_nil, fun i => ?_⟩
    simp [scant]

theorem createArray_scant (values : List Value) (owner : Option Owner) :
    createArray values owner scant = .ok ⟨1⟩ (after (createArray values owner) scant) := by
  have hproto : builtinObject "Array.prototype" scant = .ok ⟨0⟩ scant := by
    apply query_run_ok
    rw [scant]
    dsimp only
    rw [Table.get?_insert, if_pos rfl]
    rfl
  have hrun : ∃ m, createArray values owner scant = .ok ⟨1⟩ m := ⟨_, bind_run_of_ok hproto⟩
  obtain ⟨m, hm⟩ := hrun
  rw [after_of_ok hm, hm]

/-- A pair stands and is used as arrays are. -/
theorem pair_represents : ∃ m o n, createArray [.null, .null] none scant = .ok ⟨1⟩ m ∧
    m.heap.object? ⟨1⟩ = some o ∧ m.Represents ⟨1⟩ o n := by
  have hrun := createArray_scant [.null, .null] none
  obtain ⟨o, n, h⟩ := (Produced.created _ none tidy_scant (by decide) hrun).represents
  exact ⟨_, o, n, hrun, h.live, h⟩

/-- An array of the first owner whose length is read-only. -/
def closed : Machine :=
  after ((Use.define "length" { writable := some false } (some ⟨0⟩)).run ⟨1⟩)
    (after (createArray [] (some ⟨0⟩)) scant)

set_option maxRecDepth 10000 in
/-- An invalid length is no matter when the length is read-only, and a list of `2 ^ 32` values is
too long for an array. -/
theorem invalid_length_is_read_only :
    (∃ m : Machine, ∃ x : Float, Produced ⟨1⟩ m ∧ arrayLength? (.number x) = none ∧
      setProperty (.object ⟨1⟩) "length" (.number x) (some ⟨0⟩) m = .error (readOnly "length") m ∧
      readOnly "length" ≠ invalidLength) ∧
    ∃ values m, createArray values none scant = .ok ⟨1⟩ m ∧ ¬ m.HasArray ⟨1⟩ := by
  constructor
  · have hproduced : Produced ⟨1⟩ closed :=
      .used _ (.created [] (some ⟨0⟩) tidy_scant (by decide) (createArray_scant [] _))
    have hinvalid : arrayLength? (.number (-1)) = none := by decide
    refine ⟨closed, -1, hproduced, hinvalid, ?_, by decide⟩
    obtain ⟨o, n, ho, hextent⟩ := hproduced.hasArray
    have hrefusal : (closed.heap.object? ⟨1⟩).map
        (fun o => Use.assignRefusal? closed o (some ⟨0⟩)) = some (some (readOnly "length")) := by
      decide +kernel
    rw [ho, Option.map_some, Option.some.injEq] at hrefusal
    let write : Use := .put "length" (.number (-1)) (some ⟨0⟩)
    have hrun := Use.run_of_invalid (u := write) ho hextent rfl hinvalid
    rw [show write.refusal? closed o = _ from hrefusal] at hrun
    exact hrun
  · obtain ⟨values, hvalues⟩ : ∃ values : List Value, values.length = 4294967296 :=
      ⟨List.replicate _ .null, List.length_replicate⟩
    refine ⟨values, _, createArray_scant values none, ?_⟩
    rintro ⟨o, n, ho, hextent⟩
    obtain ⟨p, -, hfirst, hp⟩ := createArray_ok tidy_scant (createArray_scant values none)
    rw [ho] at hp
    obtain rfl := Option.some.inj hp
    obtain ⟨writable, hlength⟩ := hextent.length
    rw [Object.get?_put, if_pos rfl, hvalues] at hlength
    have hnat : Number.ofNat 0 = Number.ofNat n := by
      injection hlength with hlength
      injection hlength with hvalue
      injection hvalue
    have hbounded := hextent.bounded
    have hread := Number.toNat?_ofNat (n := n) (by omega)
    rw [← hnat, Number.toNat?_ofNat (by decide)] at hread
    -- The length has started over, but the first item is there.
    have hzero : 0 < n := by
      refine hextent.above "0" 0 ((Object.mem_keys_put ..).2 (.inr (hfirst ?_))) (by decide)
      rintro rfl
      cases hvalues
    have := Option.some.inj hread
    omega

end Machine

end ScriptMachine
