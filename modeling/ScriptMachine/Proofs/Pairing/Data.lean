import ScriptMachine.Proofs.Pairing.Basic

/-!
# Data of a machine carried over

Tables, objects, scopes, frames, threads and answers of host functions, each with the handles in it
replaced. What a function computes from carried data is the carried result, and a result without
handles is the same.
-/

namespace ScriptMachine

/-! ## Tables -/

namespace Table

variable {α : Type}

/-- Changes every value. -/
def map (t : Table α) (f : α → α) : Table α where
  entries := t.entries.map fun e => (e.1, f e.2)
  places := t.places
  places_eq_some_iff := by
    intro key i
    rw [t.places_eq_some_iff, Array.getElem?_map]
    cases t.entries[i]? <;> rfl

@[simp] theorem toList_map (t : Table α) (f : α → α) :
    (t.map f).entries.toList = t.entries.toList.map fun e => (e.1, f e.2) :=
  Array.toList_map

@[simp] theorem place?_map (t : Table α) (f : α → α) (key : String) :
    (t.map f).place? key = t.place? key := rfl

@[simp] theorem keys_map (t : Table α) (f : α → α) : (t.map f).keys = t.keys := by
  simp [keys, Function.comp_def]

@[simp] theorem get?_map (t : Table α) (f : α → α) (key : String) :
    (t.map f).get? key = (t.get? key).map f := by
  unfold get?
  rw [place?_map]
  cases t.place? key with
  | none => rfl
  | some i =>
    simp only [map, Array.getElem?_map]
    cases t.entries[i]? <;> rfl

theorem ext_toList {t u : Table α} (h : t.entries.toList = u.entries.toList) : t = u :=
  Table.ext (Array.toList_inj.1 h)

theorem insert_map (t : Table α) (f : α → α) (key : String) (v : α) :
    (t.map f).insert key (f v) = (t.insert key v).map f := by
  refine ext_toList ?_
  rw [toList_insert, toList_map, toList_map, toList_insert, keys_map]
  split
  · rw [List.map_map, List.map_map]
    refine List.map_congr_left fun e _ => ?_
    simp only [Function.comp_apply]
    split <;> rfl
  · rw [List.map_append]
    rfl

theorem modify_map (t : Table α) (f : α → α) (key : String) {g g' : α → α}
    (h : ∀ v, g' (f v) = f (g v)) : (t.map f).modify key g' = (t.modify key g).map f := by
  refine ext_toList ?_
  rw [toList_modify, toList_map, toList_map, toList_modify, List.map_map, List.map_map]
  refine List.map_congr_left fun e _ => ?_
  simp only [Function.comp_apply]
  split
  · rw [h]
  · rfl

theorem erase_map (t : Table α) (f : α → α) (key : String) :
    (t.map f).erase key = (t.erase key).map f := by
  refine ext_toList ?_
  rw [toList_erase, toList_map, toList_map, toList_erase, List.filter_map]
  rfl

theorem filter_map (t : Table α) (f : α → α) (q : String → Bool) :
    ((t.map f).filter fun key _ => q key) = (t.filter fun key _ => q key).map f := by
  refine ext_toList ?_
  rw [toList_filter, toList_map, toList_map, toList_filter, List.filter_map]
  rfl

end Table

section Tables

variable {α : Type} [Carried α] (p : Pairing)

instance : Carried (Table α) where
  image p t := t.map (image p)
  Within p t := ∀ key v, t.get? key = some v → Within p v
  image_of_extends {p q t} h ht := by
    refine Table.ext_toList ?_
    rw [Table.toList_map, Table.toList_map]
    refine List.map_congr_left fun e he => ?_
    rw [Carried.image_of_extends h (ht e.1 e.2 (t.get?_eq_some_iff.2 he))]
  within_mono h ht key v hv := Carried.within_mono h (ht key v hv)
  image_of_fixes {p t} h := by
    refine Table.ext_toList ((Table.toList_map t _).trans (.trans ?_ (List.map_id _)))
    exact List.map_congr_left fun _ _ => Prod.ext rfl (Carried.image_of_fixes h)

variable (t : Table α)

@[simp] theorem contains_image (key : String) : (image p t).contains key = t.contains key := rfl

@[simp] theorem get?_image (key : String) : (image p t).get? key = image p (t.get? key) :=
  Table.get?_map t _ key

theorem toList_image :
    (image p t).entries.toList = t.entries.toList.map fun e => (e.1, image p e.2) :=
  Table.toList_map t _

@[simp] theorem insert_image (key : String) (v : α) :
    (image p t).insert key (image p v) = image p (t.insert key v) :=
  Table.insert_map t _ key v

@[simp] theorem erase_image (key : String) : (image p t).erase key = image p (t.erase key) :=
  Table.erase_map t _ key

variable {p} {t}

theorem within_get? (h : Within p t) (key : String) : Within p (t.get? key) :=
  fun v hv => h key v hv

theorem within_emptyTable : Within p (Table.empty : Table α) := by
  intro key v hv
  simp [Table.get?_eq_find?, Table.empty] at hv

@[simp] theorem image_emptyTable : image p (Table.empty : Table α) = Table.empty :=
  Table.ext_toList (Table.toList_map _ _)

theorem within_insert (h : Within p t) {v : α} (hv : Within p v) (key : String) :
    Within p (t.insert key v) := by
  intro other w hw
  rw [Table.get?_insert] at hw
  split at hw
  · exact Option.some.inj hw ▸ hv
  · exact h other w hw

theorem within_modify (h : Within p t) {f : α → α} (hf : ∀ v, Within p v → Within p (f v))
    (key : String) : Within p (t.modify key f) := by
  intro other w hw
  rw [Table.get?_modify] at hw
  split at hw
  · obtain ⟨v, hv, rfl⟩ := Option.map_eq_some_iff.1 hw
    exact hf v (h other v hv)
  · exact h other w hw

theorem within_filter (h : Within p t) (q : String → α → Bool) : Within p (t.filter q) := by
  intro key v hv
  rw [Table.get?_filter] at hv
  exact h key v (Option.filter_eq_some_iff.1 hv).1

theorem within_erase (h : Within p t) (key : String) : Within p (t.erase key) := by
  intro other v hv
  rw [Table.get?_erase] at hv
  split at hv
  · cases hv
  · exact h other v hv

end Tables

/-! ## Objects -/

section Objects

variable (p : Pairing)

/-- What it takes for the value of a property to be known. -/
instance : Carried Property where
  image p prop := { prop with value := image p prop.value }
  Within p prop := Within p prop.value
  image_of_extends h hp := by rw [Carried.image_of_extends h hp]
  within_mono h hp := Carried.within_mono h hp
  image_of_fixes h := by rw [Carried.image_of_fixes h]

instance : Carried Binding where
  image p b := { b with value := image p b.value }
  Within p b := Within p b.value
  image_of_extends h hb := by rw [Carried.image_of_extends h hb]
  within_mono h hb := Carried.within_mono h hb
  image_of_fixes h := by rw [Carried.image_of_fixes h]

instance : Carried NodeRef where
  image p r := { r with program := image p r.program }
  Within p r := Within p r.program
  image_of_extends h hr := by rw [Carried.image_of_extends h hr]
  within_mono h hr := Carried.within_mono h hr
  image_of_fixes h := by rw [Carried.image_of_fixes h]

namespace Callable

def image (p : Pairing) : Callable → Callable
  | .closure node scope => .closure (Carried.image p node) (Carried.image p scope)
  | .bound target receiver args =>
    .bound (Carried.image p target) (Carried.image p receiver) (Carried.image p args)
  | .native id => .native id

def Within (p : Pairing) : Callable → Prop
  | .closure node scope => Carried.Within p node ∧ Carried.Within p scope
  | .bound target receiver args =>
    Carried.Within p target ∧ Carried.Within p receiver ∧ Carried.Within p args
  | .native _ => True

end Callable

instance : Carried Callable where
  image := Callable.image
  Within := Callable.Within
  image_of_extends {p q f} h hf := by
    cases f with
    | closure node scope =>
      exact congrArg₂ Callable.closure (Carried.image_of_extends h hf.1) (Carried.image_of_extends h hf.2)
    | bound target receiver args =>
      simp only [Callable.image, Carried.image_of_extends h hf.1, Carried.image_of_extends h hf.2.1,
        Carried.image_of_extends h hf.2.2]
    | native id => rfl
  within_mono {p q f} h hf := by
    cases f with
    | closure node scope => exact ⟨Carried.within_mono h hf.1, Carried.within_mono h hf.2⟩
    | bound target receiver args =>
      exact ⟨Carried.within_mono h hf.1, Carried.within_mono h hf.2.1,
        Carried.within_mono h hf.2.2⟩
    | native id => trivial
  image_of_fixes {p f} h := by
    cases f with
    | closure node scope =>
      exact congrArg₂ Callable.closure (Carried.image_of_fixes h) (Carried.image_of_fixes h)
    | bound target receiver args => simp only [Callable.image, Carried.image_of_fixes h]
    | native id => rfl

/-- Every handle of an object is known. -/
structure Object.Within (p : Pairing) (o : Object) : Prop where
  owner : Carried.Within p o.owner
  proto : Carried.Within p o.proto
  properties : Carried.Within p o.properties
  function : Carried.Within p o.function

instance : Carried Object where
  image p o :=
    { o with
      owner := image p o.owner
      proto := image p o.proto
      properties := image p o.properties
      function := image p o.function }
  Within := Object.Within
  image_of_extends h ho := by
    simp only [Carried.image_of_extends h ho.owner, Carried.image_of_extends h ho.proto,
      Carried.image_of_extends h ho.properties, Carried.image_of_extends h ho.function]
  within_mono h ho :=
    ⟨Carried.within_mono h ho.owner, Carried.within_mono h ho.proto,
      Carried.within_mono h ho.properties, Carried.within_mono h ho.function⟩
  image_of_fixes h := by simp only [Carried.image_of_fixes h]

/-- Every handle of a scope is known. -/
structure Scope.Within (p : Pairing) (s : Scope) : Prop where
  owner : Carried.Within p s.owner
  outer : Carried.Within p s.outer
  receiver : Carried.Within p s.receiver
  bindings : Carried.Within p s.bindings

instance : Carried Scope where
  image p s :=
    { s with
      owner := image p s.owner
      outer := image p s.outer
      receiver := image p s.receiver
      bindings := image p s.bindings }
  Within := Scope.Within
  image_of_extends h hs := by
    simp only [Carried.image_of_extends h hs.owner, Carried.image_of_extends h hs.outer,
      Carried.image_of_extends h hs.receiver, Carried.image_of_extends h hs.bindings]
  within_mono h hs :=
    ⟨Carried.within_mono h hs.owner, Carried.within_mono h hs.outer,
      Carried.within_mono h hs.receiver, Carried.within_mono h hs.bindings⟩
  image_of_fixes h := by simp only [Carried.image_of_fixes h]

@[simp] theorem image_value (prop : Property) : (image p prop).value = image p prop.value := rfl
@[simp] theorem image_writable (prop : Property) : (image p prop).writable = prop.writable := rfl
@[simp] theorem image_enumerable (prop : Property) :
    (image p prop).enumerable = prop.enumerable := rfl
@[simp] theorem image_configurable (prop : Property) :
    (image p prop).configurable = prop.configurable := rfl
@[simp] theorem image_data (v : Value) : Property.data (image p v) = image p (.data v) := rfl

@[simp] theorem image_program (node : NodeRef) :
    (image p node).program = image p node.program := rfl

@[simp] theorem image_closure (node : NodeRef) (scope : ScopeId) :
    image p (Callable.closure node scope) = .closure (image p node) (image p scope) := rfl
@[simp] theorem image_bound (target : ObjectId) (receiver : Value) (args : List Value) :
    image p (Callable.bound target receiver args) =
      .bound (image p target) (image p receiver) (image p args) := rfl
@[simp] theorem image_native (id : String) : image p (Callable.native id) = .native id := rfl

variable (o : Object)

@[simp] theorem image_owner : (image p o).owner = image p o.owner := rfl
@[simp] theorem image_proto : (image p o).proto = image p o.proto := rfl
@[simp] theorem image_cls : (image p o).cls = o.cls := rfl
@[simp] theorem image_extensible : (image p o).extensible = o.extensible := rfl
@[simp] theorem image_properties : (image p o).properties = image p o.properties := rfl
@[simp] theorem image_function : (image p o).function = image p o.function := rfl
@[simp] theorem isArray_image : (image p o).isArray = o.isArray := rfl

@[simp] theorem isCallable_image : (image p o).isCallable = o.isCallable :=
  isSome_image p o.function

@[simp] theorem put_image (key : String) (prop : Property) :
    (image p o).put key (image p prop) = image p (o.put key prop) := by
  simp only [Object.put, image_properties, insert_image]
  rfl

@[simp] theorem ownValue_image (key : String) :
    (image p o).ownValue key = image p (o.ownValue key) := by
  simp only [Object.ownValue, image_properties, get?_image]
  cases o.properties.get? key <;> rfl

@[simp] theorem length_imageObject : (image p o).length = o.length := by
  simp only [Object.length, image_properties, get?_image]
  cases hget : o.properties.get? "length" with
  | none => rfl
  | some prop =>
    obtain ⟨v, w, e, c⟩ := prop
    cases v <;> rfl

@[simp] theorem grownIndex?_image (key : String) :
    (image p o).grownIndex? key = o.grownIndex? key := by
  simp [Object.grownIndex?]

theorem resize_image (length : Nat) : (image p o).resize length = image p (o.resize length) := by
  have hkept : ∀ t : Table Property,
      (image p t).modify "length" (fun q => { q with value := .nat length }) =
        image p (t.modify "length" fun q => { q with value := .nat length }) :=
    fun t => t.modify_map _ _ fun _ => rfl
  simp only [Object.resize, length_imageObject, image_properties]
  split
  · refine congrArg (fun t => ({ image p o with properties := t } : Object)) ?_
    rw [← hkept]
    exact congrArg (fun t : Table Property => t.modify "length" _)
      (o.properties.filter_map (image p) _)
  · exact congrArg (fun t => ({ image p o with properties := t } : Object)) (hkept _)

theorem putItems_image (values : List Value) (i : Nat) :
    (image p o).putItems i (image p values) = image p (o.putItems i values) := by
  induction values generalizing o i with
  | nil => rfl
  | cons v rest ih =>
    simp only [image_cons, Object.putItems, image_data, put_image]
    exact ih _ _

variable {p} {o}

theorem within_put (h : Within p o) {prop : Property} (hp : Within p prop) (key : String) :
    Within p (o.put key prop) :=
  ⟨h.owner, h.proto, within_insert h.properties hp key, h.function⟩

theorem within_ownValue (h : Within p o) (key : String) : Within p (o.ownValue key) := by
  unfold Object.ownValue
  split
  · rename_i prop hprop
    exact h.properties key prop hprop
  · exact within_undefined p

/-- The properties that an array keeps when it gets a length. -/
theorem within_keptProperties (h : Within p o) (length : Nat) :
    Within p (if length < o.length then o.properties.filter fun key _ =>
      match arrayIndex? key with
      | some i => i < length
      | none => true
    else o.properties) := by
  split
  · exact within_filter h.properties _
  · exact h.properties

theorem within_resize (h : Within p o) (length : Nat) : Within p (o.resize length) := by
  refine ⟨h.owner, h.proto, ?_, h.function⟩
  exact within_modify (within_keptProperties h length)
    (f := fun q => { q with value := .nat length }) (fun _ _ => within_ofNat p length) "length"

theorem within_putItems (h : Within p o) {values : List Value} (hv : Within p values) (i : Nat) :
    Within p (o.putItems i values) := by
  induction values generalizing o i with
  | nil => exact h
  | cons v rest ih =>
    obtain ⟨hhead, hrest⟩ := (within_cons p v rest).1 hv
    exact ih (within_put h hhead _) hrest _

variable (p) (s : Scope)

@[simp] theorem image_kind : (image p s).kind = s.kind := rfl
@[simp] theorem image_scopeOwner : (image p s).owner = image p s.owner := rfl
@[simp] theorem image_outer : (image p s).outer = image p s.outer := rfl
@[simp] theorem image_scopeReceiver : (image p s).receiver = image p s.receiver := rfl
@[simp] theorem image_bindings : (image p s).bindings = image p s.bindings := rfl
@[simp] theorem image_mutable (b : Binding) : (image p b).mutable = b.mutable := rfl

@[simp] theorem bind_image (name : String) (v : Value) (mutable : Bool) :
    (image p s).bind name (image p v) mutable = image p (s.bind name v mutable) :=
  congrArg (fun t => ({ image p s with bindings := t } : Scope))
    (insert_image p s.bindings name ⟨v, mutable⟩)

variable {p} {s}

theorem within_bind (h : Within p s) {v : Value} (hv : Within p v) (name : String)
    (mutable : Bool) : Within p (s.bind name v mutable) :=
  ⟨h.owner, h.outer, h.receiver, within_insert h.bindings hv name⟩

end Objects

end ScriptMachine
