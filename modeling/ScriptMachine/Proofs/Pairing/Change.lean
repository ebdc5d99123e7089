import ScriptMachine.Machine.Closure
import ScriptMachine.Proofs.Pairing.Operation

/-!
# Paired changes of the heap

Scopes, objects and closures are made on both machines alike, and bindings and properties are
written alike. What allocates follows; what only writes mirrors.
-/

namespace ScriptMachine

namespace Pairing

open Machine Exec

variable {p q : Pairing}

section Pairs

variable {α : Type} [Carried α]

theorem pairs_some {x x' : α} (h : p.Pairs x x') : p.Pairs (some x) (some x') :=
  ⟨(within_some p x).2 h.within, congrArg some h.eq⟩

theorem pairs_none : p.Pairs (none : Option α) none := ⟨within_none p, rfl⟩

theorem pairs_ofObject {id id' : ObjectId} (h : p.Pairs id id') :
    p.Pairs (Value.object id) (.object id') :=
  ⟨(within_ofObject p id).2 h.within, congrArg Value.object h.eq⟩

theorem pairs_undefined : p.Pairs Value.undefined .undefined := ⟨within_undefined p, rfl⟩

theorem pairs_string (s : String) : p.Pairs (Value.string s) (.string s) :=
  ⟨within_string p s, rfl⟩

theorem pairs_number (n : Float) : p.Pairs (Value.number n) (.number n) :=
  ⟨within_number p n, rfl⟩

theorem pairs_ofNat (n : Nat) : p.Pairs (Value.nat n) (.nat n) := ⟨within_ofNat p n, rfl⟩

theorem pairs_ofBool (b : Bool) : p.Pairs (Value.bool b) (.bool b) := ⟨within_ofBool p b, rfl⟩

theorem pairs_unit : p.Pairs () () := ⟨trivial, rfl⟩

theorem Pairs.put {o o' : Object} (ho : p.Pairs o o') {prop prop' : Property}
    (hprop : p.Pairs prop prop') (key : String) : p.Pairs (o.put key prop) (o'.put key prop') := by
  obtain ⟨ho, rfl⟩ := ho
  obtain ⟨hprop, rfl⟩ := hprop
  exact ⟨within_put ho hprop key, put_image p o key prop⟩

theorem pairs_data {v v' : Value} (h : p.Pairs v v') :
    p.Pairs (Property.data v) (.data v') := ⟨h.within, by rw [h.eq]; rfl⟩

theorem pairs_hidden {v v' : Value} (h : p.Pairs v v') :
    p.Pairs (Property.hidden v) (.hidden v') := ⟨h.within, by rw [h.eq]; rfl⟩

theorem pairs_frozen {v v' : Value} (h : p.Pairs v v') :
    p.Pairs (Property.frozen v) (.frozen v') := ⟨h.within, by rw [h.eq]; rfl⟩

theorem pairs_length {v v' : Value} (h : p.Pairs v v') :
    p.Pairs (Property.length v) (.length v') := ⟨h.within, by rw [h.eq]; rfl⟩

/-- An object without properties. -/
theorem pairs_newObject {owner owner' : Option Owner} (howner : p.Pairs owner owner')
    {proto proto' : Option ObjectId} (hproto : p.Pairs proto proto') (cls : ObjectClass)
    {function function' : Option Callable} (hfunction : p.Pairs function function') :
    p.Pairs ({ owner, proto, cls, function } : Object)
      { owner := owner', proto := proto', cls, function := function' } := by
  obtain ⟨howner, rfl⟩ := howner
  obtain ⟨hproto, rfl⟩ := hproto
  obtain ⟨hfunction, rfl⟩ := hfunction
  refine ⟨⟨howner, hproto, within_emptyTable, hfunction⟩, ?_⟩
  exact congrArg (fun t => ({ image p ({ owner, proto, cls, function } : Object) with
    properties := t } : Object)) image_emptyTable.symm

end Pairs

/-! ## Scopes and bindings -/

theorem follows_allocScope {s s' : Scope} (hs : p.Pairs s s') :
    p.Follows (allocScope s) (allocScope s') := by
  intro m m' hm
  obtain ⟨hw, rfl⟩ := hs
  obtain ⟨hle, hheap⟩ := hm.heap.allocScope hw
  exact ⟨_, hle, hm.setHeap hle hheap, pairs_addScope _ _⟩

theorem follows_newScope (kind : ScopeKind) {outer outer' : Option ScopeId}
    (houter : p.Pairs outer outer') {owner owner' : Option Owner} (howner : p.Pairs owner owner')
    {receiver receiver' : Option Value} (hreceiver : p.Pairs receiver receiver') :
    p.Follows (newScope kind outer owner receiver) (newScope kind outer' owner' receiver') := by
  have halloc : ∀ v : Value, Within p v → p.Follows
      (allocScope { kind, owner, outer, receiver := v })
      (allocScope { kind, owner := owner', outer := outer', receiver := image p v }) := by
    intro v hv
    refine follows_allocScope ⟨⟨howner.within, houter.within, hv, within_emptyTable⟩, ?_⟩
    rw [howner.eq, houter.eq]
    exact congrArg (fun t => (Scope.mk kind (image p owner) (image p outer) (image p v) t))
      image_emptyTable.symm
  obtain ⟨hreceiver, rfl⟩ := hreceiver
  unfold newScope
  cases receiver with
  | some v => exact (mirrors_pure (pairs_image (hreceiver v rfl))).bind_follows halloc
  | none =>
    obtain ⟨houter, rfl⟩ := houter
    cases outer with
    | none => exact (mirrors_pure pairs_undefined).bind_follows halloc
    | some id =>
      refine (mirrors_heapQuery fun _ _ hk =>
        hk.pairs_scope (pairs_image (houter id rfl))).bind_follows fun s hs => ?_
      exact (mirrors_pure (pairs_image hs.receiver)).bind_follows halloc

theorem mirrors_resolveBinding {scope scope' : ScopeId} (hs : p.Pairs scope scope')
    (name : String) : p.Mirrors (resolveBinding scope name) (resolveBinding scope' name) :=
  mirrors_heapQuery fun _ _ hk => hk.pairs_resolve hs name

theorem mirrors_readBinding {scope scope' : ScopeId} (hs : p.Pairs scope scope') (name : String) :
    p.Mirrors (readBinding scope name) (readBinding scope' name) := by
  refine mirrors_heapQuery fun k k' hk => pairs_bind (hk.pairs_scope hs) fun s hs => ?_
  rw [image_bindings, get?_image]
  have hget := within_get? hs.bindings name
  cases hb : s.bindings.get? name with
  | none => exact pairs_error ⟨trivial, rfl⟩
  | some b => exact pairs_ok (pairs_image (x := b.value) (hget b hb))

theorem mirrors_getBinding {scope scope' : ScopeId} (hs : p.Pairs scope scope') (name : String) :
    p.Mirrors (getBinding scope name) (getBinding scope' name) := by
  refine (mirrors_resolveBinding hs name).bind fun found hfound => ?_
  cases found with
  | none => exact mirrors_throw ⟨trivial, rfl⟩
  | some id => exact mirrors_readBinding (pairs_image (hfound id rfl)) name

theorem mirrors_modifyScope {scope scope' : ScopeId} (hs : p.Pairs scope scope')
    {f f' : Scope → Scope} (hf : ∀ s, Within p s → p.Pairs (f s) (f' (image p s)))
    (houter : ∀ s, (f s).outer = s.outer) :
    p.Mirrors (modifyHeap (·.modifyScope scope f)) (modifyHeap (·.modifyScope scope' f')) := by
  obtain ⟨-, rfl⟩ := hs
  exact mirrors_modifyHeap fun _ _ hk => hk.modifyScope hf houter

theorem mirrors_writeBinding {scope scope' : ScopeId} (hs : p.Pairs scope scope') (name : String)
    {v v' : Value} (hv : p.Pairs v v') :
    p.Mirrors (writeBinding scope name v) (writeBinding scope' name v') := by
  refine (mirrors_heapQuery fun _ _ hk => hk.pairs_scope hs).bind fun s _ => ?_
  rw [image_bindings, get?_image]
  cases s.bindings.get? name with
  | none => exact mirrors_throw ⟨trivial, rfl⟩
  | some b =>
    dsimp only [image_some]
    rw [image_mutable]
    split
    · exact mirrors_throw_bind ⟨by trivial, rfl⟩ _ _
    · refine mirrors_modifyScope hs (fun s hs => ⟨?_, ?_⟩) fun _ => rfl
      · exact ⟨hs.owner, hs.outer, hs.receiver,
          within_modify hs.bindings (fun _ _ => hv.within) name⟩
      · refine congrArg (fun t => ({ image p s with bindings := t } : Scope)) ?_
        exact s.bindings.modify_map (image p) name fun b => by rw [hv.eq]; rfl

theorem mirrors_setBinding {scope scope' : ScopeId} (hs : p.Pairs scope scope') (name : String)
    {v v' : Value} (hv : p.Pairs v v') :
    p.Mirrors (setBinding scope name v) (setBinding scope' name v') := by
  refine (mirrors_resolveBinding hs name).bind fun found hfound => ?_
  cases found with
  | none => exact mirrors_throw ⟨trivial, rfl⟩
  | some id => exact mirrors_writeBinding (pairs_image (hfound id rfl)) name hv

theorem mirrors_declare {scope scope' : ScopeId} (hs : p.Pairs scope scope') (name : String)
    {v v' : Value} (hv : p.Pairs v v') (mutable : Bool) :
    p.Mirrors (declare scope name v mutable) (declare scope' name v' mutable) := by
  refine (mirrors_heapQuery fun _ _ hk => hk.pairs_declarationTarget hs).bind fun target ht => ?_
  refine (mirrors_heapQuery fun _ _ hk => hk.pairs_scope (pairs_image ht)).bind fun s _ => ?_
  rw [image_bindings, contains_image]
  split
  · exact mirrors_throw_bind ⟨by trivial, rfl⟩ _ _
  · refine mirrors_modifyScope (pairs_image ht) (fun s hs => ⟨within_bind hs hv.within name mutable,
      ?_⟩) fun _ => rfl
    rw [hv.eq]
    exact bind_image p s name v mutable

theorem mirrors_bindsLocally {scope scope' : ScopeId} (hs : p.Pairs scope scope')
    (name : String) : p.Mirrors (bindsLocally scope name) (bindsLocally scope' name) :=
  mirrors_heapQuery fun _ _ hk => pairs_bind (hk.pairs_declarationTarget hs) fun _ ht =>
    pairs_bind (hk.pairs_scope (pairs_image ht)) fun _ _ => pairs_ok ⟨trivial, rfl⟩

theorem mirrors_scopeOwner {scope scope' : ScopeId} (hs : p.Pairs scope scope') :
    p.Mirrors (scopeOwner scope) (scopeOwner scope') :=
  mirrors_heapQuery fun _ _ hk => pairs_bind (hk.pairs_scope hs) fun _ hs =>
    pairs_ok (pairs_image hs.owner)

theorem mirrors_scopeReceiver {scope scope' : ScopeId} (hs : p.Pairs scope scope') :
    p.Mirrors (scopeReceiver scope) (scopeReceiver scope') :=
  mirrors_heapQuery fun _ _ hk => pairs_bind (hk.pairs_scope hs) fun _ hs =>
    pairs_ok (pairs_image hs.receiver)

theorem mirrors_setScopeOwner {scope scope' : ScopeId} (hs : p.Pairs scope scope')
    {owner owner' : Owner} (howner : p.Pairs owner owner') :
    p.Mirrors (setScopeOwner scope owner) (setScopeOwner scope' owner') := by
  refine (mirrors_heapQuery fun _ _ hk => hk.pairs_scope hs).bind fun _ _ => ?_
  refine mirrors_modifyScope hs (fun s hs => ⟨?_, ?_⟩) fun _ => rfl
  · exact { hs with owner := (within_some p owner).2 howner.within }
  · rw [howner.eq]
    rfl

theorem mirrors_setGlobal (name : String) {v v' : Value} (hv : p.Pairs v v') :
    p.Mirrors (setGlobal name v) (setGlobal name v') := by
  refine mirrors_get_bind fun m m' hm => ?_
  refine (mirrors_bindsLocally hm.globalScope name).bind fun bound _ => ?_
  rw [image_bool]
  split
  · exact mirrors_writeBinding hm.globalScope name hv
  · exact mirrors_declare hm.globalScope name hv true

/-! ## Objects -/

theorem follows_alloc {o o' : Object} (ho : p.Pairs o o') : p.Follows (alloc o) (alloc o') := by
  intro m m' hm
  obtain ⟨hw, rfl⟩ := ho
  obtain ⟨hle, hheap⟩ := hm.heap.allocObject hw
  exact ⟨_, hle, hm.setHeap hle hheap, pairs_addObject _ _⟩

theorem mirrors_builtinObject (name : String) :
    p.Mirrors (builtinObject name) (builtinObject name) := by
  refine mirrors_query fun m m' hm => ?_
  obtain ⟨hw, heq⟩ := hm.pairs_builtinObject? name
  rw [heq]
  cases hget : (m.builtins.get? name).bind Value.object? with
  | none => exact pairs_error ⟨trivial, rfl⟩
  | some id => exact pairs_ok ⟨hw id hget, rfl⟩

theorem follows_createObject {proto proto' : Option ObjectId} (hproto : p.Pairs proto proto')
    {owner owner' : Option Owner} (howner : p.Pairs owner owner') :
    p.Follows (createObject proto owner) (createObject proto' owner') :=
  follows_alloc (pairs_newObject howner hproto .object pairs_none)

theorem follows_createPlainObject {owner owner' : Option Owner} (howner : p.Pairs owner owner') :
    p.Follows (createPlainObject owner) (createPlainObject owner') :=
  (mirrors_builtinObject "Object.prototype").bind_follows fun _ hid =>
    follows_createObject (pairs_some (pairs_image hid)) howner

theorem Pairs.putItems {o o' : Object} (ho : p.Pairs o o') {values values' : List Value}
    (hvalues : p.Pairs values values') (i : Nat) :
    p.Pairs (o.putItems i values) (o'.putItems i values') := by
  obtain ⟨ho, rfl⟩ := ho
  obtain ⟨hvalues, rfl⟩ := hvalues
  exact ⟨within_putItems ho hvalues i, putItems_image p o values i⟩

theorem follows_createArray {values values' : List Value} (hvalues : p.Pairs values values')
    {owner owner' : Option Owner} (howner : p.Pairs owner owner') :
    p.Follows (createArray values owner) (createArray values' owner') := by
  refine (mirrors_builtinObject "Array.prototype").bind_follows fun id hid => follows_alloc ?_
  have hlength : values'.length = values.length := by rw [hvalues.eq, length_image]
  rw [hlength]
  exact ((pairs_newObject howner (pairs_some (pairs_image hid)) .array pairs_none).putItems hvalues
    0).put (pairs_length (pairs_ofNat _)) "length"

/-- An object is changed alike without its prototype and without what a call of it does. -/
theorem mirrors_editObject {id id' : ObjectId} (hid : p.Pairs id id') {f f' : Object → Object}
    (hf : ∀ o, Within p o → p.Pairs (f o) (f' (image p o))) (hproto : ∀ o, (f o).proto = o.proto)
    (hfunction : ∀ o, (f o).function = o.function) :
    p.Mirrors (modifyHeap (·.modifyObject id f)) (modifyHeap (·.modifyObject id' f')) := by
  obtain ⟨-, rfl⟩ := hid
  exact mirrors_modifyHeap fun _ _ hk =>
    hk.modifyObject hf hfunction (hk.protos_modifyObject hproto)

theorem mirrors_modifyObject {id id' : ObjectId} (hid : p.Pairs id id') {f f' : Object → Object}
    (hf : ∀ o, Within p o → p.Pairs (f o) (f' (image p o))) (hproto : ∀ o, (f o).proto = o.proto)
    (hfunction : ∀ o, (f o).function = o.function) :
    p.Mirrors (modifyObject id f) (modifyObject id' f') :=
  (mirrors_heapQuery fun _ _ hk => hk.pairs_object hid).bind fun _ _ =>
    mirrors_editObject hid hf hproto hfunction

theorem mirrors_authorize {actor actor' : Option Owner} (hactor : p.Pairs actor actor')
    {id id' : ObjectId} (hid : p.Pairs id id') (access : Access) :
    p.Mirrors (query fun m => m.authorize actor id access)
      (query fun m => m.authorize actor' id' access) :=
  mirrors_query fun _ _ hm => hm.pairs_authorize hactor hid access

theorem mirrors_getProperty {v v' : Value} (hv : p.Pairs v v') (key : String)
    {actor actor' : Option Owner} (hactor : p.Pairs actor actor') :
    p.Mirrors (query fun m => m.getProperty v key actor)
      (query fun m => m.getProperty v' key actor') :=
  mirrors_query fun _ _ hm => hm.pairs_getProperty hv key hactor

/-! ## Properties -/

theorem Pairs.modifyProperty {o o' : Object} (ho : p.Pairs o o') (key : String)
    {g g' : Property → Property} (hg : ∀ prop, Within p prop → Within p (g prop))
    (himage : ∀ prop, g' (image p prop) = image p (g prop)) :
    p.Pairs ({ o with properties := o.properties.modify key g } : Object)
      { o' with properties := o'.properties.modify key g' } := by
  obtain ⟨ho, rfl⟩ := ho
  refine ⟨{ ho with properties := within_modify ho.properties hg key }, ?_⟩
  exact congrArg (fun t => ({ image p o with properties := t } : Object))
    (o.properties.modify_map (image p) key himage)

theorem mirrors_setArrayLength {id id' : ObjectId} (hid : p.Pairs id id') {v v' : Value}
    (hv : p.Pairs v v') : p.Mirrors (setArrayLength id v) (setArrayLength id' v') := by
  unfold setArrayLength
  rw [hv.eq, arrayLength?_image]
  cases arrayLength? v with
  | none => exact mirrors_throw ⟨trivial, rfl⟩
  | some length =>
    exact mirrors_modifyObject hid (fun o ho => ⟨within_resize ho length, resize_image p o length⟩)
      (fun _ => rfl) fun _ => rfl

theorem mirrors_addProperty {id id' : ObjectId} (hid : p.Pairs id id') {o o' : Object}
    (ho : p.Pairs o o') (key : String) {v v' : Value} (hv : p.Pairs v v') :
    p.Mirrors (addProperty id o key v) (addProperty id' o' key v') := by
  obtain ⟨-, rfl⟩ := ho
  unfold addProperty
  rw [image_extensible]
  split
  · exact mirrors_throw_bind ⟨by trivial, rfl⟩ _ _
  · simp only [grownIndex?_image]
    refine mirrors_editObject hid (fun o ho => ?_) (fun _ => ?_) fun _ => ?_
    · have hput := (pairs_image ho).put (pairs_data hv) key
      split
      · exact hput.put (pairs_length (pairs_ofNat _)) "length"
      · exact hput
    · split <;> rfl
    · split <;> rfl

theorem mirrors_setProperty {base base' : Value} (hbase : p.Pairs base base') (key : String)
    {v v' : Value} (hv : p.Pairs v v') {actor actor' : Option Owner}
    (hactor : p.Pairs actor actor') :
    p.Mirrors (setProperty base key v actor) (setProperty base' key v' actor') := by
  obtain ⟨hbase, rfl⟩ := hbase
  cases base with
  | object id =>
    have hid := pairs_image (p := p) (hbase id rfl)
    refine (mirrors_authorize hactor hid .write).bind fun o ho => ?_
    rw [image_properties, get?_image]
    cases hown : o.properties.get? key with
    | some own =>
      dsimp only [image_some]
      rw [image_writable, isArray_image]
      split
      · exact mirrors_throw_bind ⟨by trivial, rfl⟩ _ _
      · split
        · exact mirrors_setArrayLength hid hv
        · refine mirrors_editObject hid (fun o ho => ?_) (fun _ => rfl) fun _ => rfl
          exact (pairs_image ho).modifyProperty key (fun _ _ => hv.within)
            fun prop => by rw [hv.eq]; rfl
    | none =>
      have hadd := mirrors_addProperty hid (pairs_image ho) key hv
      dsimp only [image_none]
      rw [image_proto]
      cases hproto : o.proto with
      | none => exact hadd
      | some proto =>
        have hw := pairs_image (p := p) (ho.proto proto hproto)
        refine (mirrors_heapQuery fun _ _ hk => hk.pairs_lookup hw key).bind fun found _ => ?_
        cases found with
        | none => exact hadd
        | some inherited =>
          dsimp only [image_some]
          rw [image_writable]
          split
          · exact mirrors_throw_bind ⟨by trivial, rfl⟩ _ _
          · exact hadd
  | undefined => exact mirrors_throw ⟨trivial, rfl⟩
  | null => exact mirrors_throw ⟨trivial, rfl⟩
  | bool b => exact mirrors_throw ⟨trivial, rfl⟩
  | number n => exact mirrors_throw ⟨trivial, rfl⟩
  | string s => exact mirrors_throw ⟨trivial, rfl⟩

/-! ## Definitions -/

instance : Carried Descriptor where
  image p d := { d with value := image p d.value }
  Within p d := Within p d.value
  image_of_extends h hd := by rw [Carried.image_of_extends h hd]
  within_mono h hd := Carried.within_mono h hd
  image_of_fixes h := by rw [Carried.image_of_fixes h]

theorem getD_image? (found : Option Value) (v : Value) :
    (image p found).getD (image p v) = image p (found.getD v) := by
  cases found <;> rfl

theorem within_getD? {found : Option Value} (h : Within p found) {v : Value} (hv : Within p v) :
    Within p (found.getD v) := by
  cases found with
  | none => exact hv
  | some w => exact h w rfl

theorem pairs_merge? {d d' : Descriptor} (hd : p.Pairs d d') {current current' : Property}
    (hcurrent : p.Pairs current current') : p.Pairs (d.merge? current) (d'.merge? current') := by
  obtain ⟨hd, rfl⟩ := hd
  obtain ⟨hcurrent, rfl⟩ := hcurrent
  have hsame : ((image p d.value).map fun v => !v.sameValue (image p current.value)) =
      d.value.map fun v => !v.sameValue current.value := by
    cases d.value with
    | none => rfl
    | some v => exact congrArg (fun b => some !b) (sameValue_image p v current.value)
  have hfinal : (image p d).merge? (image p current) = image p (d.merge? current) := by
    unfold Descriptor.merge?
    simp only [image_writable, image_enumerable, image_configurable, image_value]
    rw [show (image p d).value = image p d.value from rfl, hsame, getD_image?]
    change (if _ then _ else _) = Option.map (image p) (if _ then _ else _)
    rw [apply_ite (Option.map (image p))]
    rfl
  refine ⟨?_, hfinal⟩
  unfold Descriptor.merge?
  dsimp only
  split
  · exact within_none p
  · have hvalue : Within p d.value := hd
    have hold : Within p current.value := hcurrent
    exact (within_some p _).2 (within_getD? hvalue hold)

theorem pairs_definedProperty {o o' : Object} (ho : p.Pairs o o') (key : String)
    {d d' : Descriptor} (hd : p.Pairs d d') :
    p.Pairs (definedProperty o key d) (definedProperty o' key d') := by
  obtain ⟨ho, rfl⟩ := ho
  unfold definedProperty
  rw [image_properties, get?_image, image_extensible]
  have hget := within_get? ho.properties key
  cases hown : o.properties.get? key with
  | none =>
    obtain ⟨hd, rfl⟩ := hd
    have hvalue : Within p d.value := hd
    dsimp only [image_none]
    split
    · exact pairs_error (pairs_raised _ _)
    · exact pairs_ok ⟨within_getD? hvalue (within_undefined p),
        congrArg (Property.mk · _ _ _) (getD_image? d.value .undefined)⟩
  | some current =>
    obtain ⟨hw, heq⟩ := pairs_merge? hd (pairs_image (hget current hown))
    dsimp only [image_some]
    rw [heq]
    cases hmerged : d.merge? current with
    | none => exact pairs_error (pairs_raised _ _)
    | some merged => exact pairs_ok ⟨hw merged hmerged, rfl⟩

theorem mirrors_storeProperty {id id' : ObjectId} (hid : p.Pairs id id') {o o' : Object}
    (ho : p.Pairs o o') (key : String) {d d' : Descriptor} (hd : p.Pairs d d')
    {merged merged' : Property} (hmerged : p.Pairs merged merged') :
    p.Mirrors (storeProperty id o key d merged) (storeProperty id' o' key d' merged') := by
  obtain ⟨-, rfl⟩ := ho
  unfold storeProperty
  rw [isArray_image]
  split
  · have hflag : p.Mirrors
        (modifyObject id fun o => { o with properties := o.properties.modify "length" fun p =>
          { p with writable := merged.writable } })
        (modifyObject id' fun o => { o with properties := o.properties.modify "length" fun p =>
          { p with writable := merged'.writable } }) := by
      refine mirrors_modifyObject hid (fun o ho => ?_) (fun _ => rfl) fun _ => rfl
      exact (pairs_image ho).modifyProperty "length" (fun _ h => h) fun _ => by
        rw [hmerged.eq]
        rfl
    obtain ⟨hd, rfl⟩ := hd
    have hvalue : Within p d.value := hd
    rw [show (image p d).value = image p d.value from rfl]
    cases hv : d.value with
    | none => exact hflag
    | some v =>
      exact (mirrors_setArrayLength hid (pairs_image (hvalue v hv))).bind fun _ _ => hflag
  · simp only [grownIndex?_image]
    refine mirrors_editObject hid (fun o ho => ?_) (fun _ => ?_) fun _ => ?_
    · have hput := (pairs_image ho).put hmerged key
      split
      · exact hput.modifyProperty "length" (fun _ _ => within_ofNat p _) fun _ => rfl
      · exact hput
    · split <;> rfl
    · split <;> rfl

theorem mirrors_defineProperty {id id' : ObjectId} (hid : p.Pairs id id') (key : String)
    {d d' : Descriptor} (hd : p.Pairs d d') {actor actor' : Option Owner}
    (hactor : p.Pairs actor actor') :
    p.Mirrors (defineProperty id key d actor) (defineProperty id' key d' actor') :=
  (mirrors_authorize hactor hid .define).bind fun _ ho =>
    (mirrors_query fun _ _ _ => pairs_definedProperty (pairs_image ho) key hd).bind fun _ hmerged =>
      mirrors_storeProperty hid (pairs_image ho) key hd (pairs_image hmerged)

theorem mirrors_putProperty {id id' : ObjectId} (hid : p.Pairs id id') (key : String)
    {prop prop' : Property} (hprop : p.Pairs prop prop') :
    p.Mirrors (modifyObject id fun o => o.put key prop)
      (modifyObject id' fun o => o.put key prop') :=
  mirrors_modifyObject hid (fun _ ho => (pairs_image ho).put hprop key) (fun _ => rfl)
    fun _ => rfl

theorem mirrors_deleteProperty {id id' : ObjectId} (hid : p.Pairs id id') (key : String)
    {actor actor' : Option Owner} (hactor : p.Pairs actor actor') :
    p.Mirrors (deleteProperty id key actor) (deleteProperty id' key actor') := by
  refine (mirrors_authorize hactor hid .delete).bind fun o _ => ?_
  rw [image_properties, get?_image]
  cases o.properties.get? key with
  | none => exact mirrors_pure ⟨trivial, rfl⟩
  | some own =>
    dsimp only [image_some]
    rw [image_configurable]
    split
    · exact mirrors_throw_bind ⟨by trivial, rfl⟩ _ _
    · refine Mirrors.bind ?_ fun _ _ => mirrors_pure ⟨trivial, rfl⟩
      refine mirrors_editObject hid (fun o ho => ⟨?_, ?_⟩) (fun _ => rfl) fun _ => rfl
      · exact { ho with properties := within_erase ho.properties key }
      · exact congrArg (fun t => ({ image p o with properties := t } : Object))
          (erase_image p o.properties key)

/-! ## Structure -/

theorem agree_query_bind {α β : Type} [Carried α] [Carried β] {m m' : Machine}
    {f f' : Machine → Except Failure α} {g g' : α → Exec β} (hm : p.Machines m m')
    (hf : p.Pairs (f m) (f' m'))
    (hg : ∀ a, Within p a → f m = .ok a → p.Agree (g a m) (g' (image p a) m')) :
    p.Agree ((query f >>= g) m) ((query f' >>= g') m') := by
  obtain ⟨hw, heq⟩ := hf
  rw [bind_run, bind_run]
  unfold query
  rw [heq]
  revert hw hg
  cases f m with
  | ok a => exact fun hg hw => hg a hw rfl
  | error e => exact fun _ hw => ⟨hm, hw, rfl⟩

/-- A chain of prototypes that an object is not on is there when the object gets another
prototype. -/
theorem exists_chain_of_onChain_false {k : Heap} {id next : ObjectId} {f : Object → Object}
    {n fuel : Nat} (hchain : Chain k.protoLink n next) (hfuel : n + 2 ≤ fuel)
    (hfree : onChain k id fuel (some next) = .ok false) :
    ∃ i, Chain (k.modifyObject id f).protoLink i next := by
  have hkept : ∀ {a : ObjectId}, a ≠ id →
      (k.modifyObject id f).protoLink a = k.protoLink a := by
    intro a hne
    rw [Heap.protoLink, Heap.protoLink, Heap.object?_modifyObject,
      if_neg fun heq => hne (Heap.index_injective heq.symm)]
  induction hchain generalizing fuel with
  | @last a hlink =>
    obtain ⟨fuel, rfl⟩ := Nat.exists_eq_add_of_lt hfuel
    rw [onChain] at hfree
    have hne : a ≠ id := fun heq => by
      rw [if_pos (by simpa using heq)] at hfree
      cases hfree
    exact ⟨0, .last ((hkept hne).trans hlink)⟩
  | @next a b n hlink rest ih =>
    obtain ⟨fuel, rfl⟩ := Nat.exists_eq_add_of_lt hfuel
    rw [onChain] at hfree
    have hne : a ≠ id := fun heq => by
      rw [if_pos (by simpa using heq)] at hfree
      cases hfree
    rw [if_neg (by simpa using hne)] at hfree
    obtain ⟨o, ho, hproto⟩ := Option.map_eq_some_iff.1 hlink
    rw [Heap.object_eq_ok_iff.2 ho] at hfree
    have hnext : onChain k id (n + 2 + fuel) (some b) = .ok false := by
      rw [← hproto]
      exact hfree
    obtain ⟨i, hi⟩ := ih (by omega) hnext
    exact ⟨i + 1, .next ((hkept hne).trans hlink) hi⟩

/-- Chains of prototypes end although an object got another prototype, if the chain from that one
ends. -/
theorem Heaps.protos_setPrototype {k k' : Heap} (hp : p.Heaps k k') {id : ObjectId}
    {proto : Option ObjectId}
    (hproto : ∀ next, proto = some next →
      ∃ i, Chain (k.modifyObject id fun o => { o with proto }).protoLink i next)
    (a : ObjectId) (ha : Within p a) :
    ∃ n, Chain (k.modifyObject id fun o => { o with proto }).protoLink n a := by
  obtain ⟨n, hchain⟩ := hp.protos a ha
  have hnew : k.protoLink id ≠ none →
      (k.modifyObject id fun o => { o with proto }).protoLink id = some proto := by
    intro hlive
    rw [Heap.protoLink, Heap.object?_modifyObject, if_pos rfl]
    cases ho : k.object? id with
    | none => simp [Heap.protoLink, ho] at hlive
    | some o => rfl
  have hkept : ∀ {b : ObjectId}, b ≠ id →
      (k.modifyObject id fun o => { o with proto }).protoLink b = k.protoLink b := by
    intro b hne
    rw [Heap.protoLink, Heap.protoLink, Heap.object?_modifyObject,
      if_neg fun heq => hne (Heap.index_injective heq.symm)]
  have hself : k.protoLink id ≠ none →
      ∃ n, Chain (k.modifyObject id fun o => { o with proto }).protoLink n id := by
    intro hlive
    cases hnext : proto with
    | none => exact ⟨0, .last (hnext ▸ hnew hlive)⟩
    | some next =>
      obtain ⟨i, hi⟩ := hproto next hnext
      subst hnext
      exact ⟨i + 1, .next (hnew hlive) hi⟩
  induction hchain with
  | @last b hlink =>
    by_cases hb : b = id
    · exact hb ▸ hself (by simp [← hb, hlink])
    · exact ⟨0, .last ((hkept hb).trans hlink)⟩
  | @next b c n hlink rest ih =>
    by_cases hb : b = id
    · exact hb ▸ hself (by simp [← hb, hlink])
    · obtain ⟨i, hi⟩ := ih (hp.within_of_protoLink ha hlink)
      exact ⟨i + 1, .next ((hkept hb).trans hlink) hi⟩

theorem Heaps.setPrototype {k k' : Heap} (hp : p.Heaps k k') {id : ObjectId}
    {proto : Option ObjectId} (hproto : Within p proto)
    (hfree : onChain k id (k.objects.size + 2) proto = .ok false) :
    p.Heaps (k.modifyObject id fun o => { o with proto })
      (k'.modifyObject (image p id) fun o => { o with proto := image p proto }) := by
  refine hp.modifyObject (fun o ho => ⟨{ ho with proto := hproto }, rfl⟩) (fun _ => rfl) ?_
  refine hp.protos_setPrototype fun next hnext => ?_
  obtain ⟨n, hchain, hn, -⟩ := hp.exists_protos (hproto next hnext)
  have hfuel : n + 2 ≤ k.objects.size + 2 := by omega
  exact exists_chain_of_onChain_false hchain hfuel (hnext ▸ hfree)

theorem mirrors_setPrototype {id id' : ObjectId} (hid : p.Pairs id id')
    {proto proto' : Option ObjectId} (hproto : p.Pairs proto proto')
    {actor actor' : Option Owner} (hactor : p.Pairs actor actor') :
    p.Mirrors (setPrototype id proto actor) (setPrototype id' proto' actor') := by
  have hauthorize := fun (m m' : Machine) (hm : p.Machines m m') =>
    hm.pairs_authorize hactor hid .setPrototype
  obtain ⟨hactor, rfl⟩ := hactor
  unfold setPrototype
  rw [isNone_image]
  split
  · exact mirrors_throw_bind (pairs_raised _ _) _ _
  intro m m' hm
  refine agree_query_bind hm (hid.eq ▸ hm.heap.pairs_onChain id hproto) fun found _ hfound => ?_
  cases found with
  | true => exact mirrors_throw_bind (pairs_raised _ _) _ _ m m' hm
  | false =>
    refine agree_query_bind hm (hauthorize m m' hm) fun o ho _ => ?_
    have hsame : ((image p o).proto == proto') = (o.proto == proto) := by
      rw [hproto.eq, image_proto]
      exact Bool.eq_iff_iff.2 (by cases o.proto <;> cases proto <;> simp)
    rw [hsame, image_extensible]
    split
    · exact ⟨hm, pairs_unit⟩
    · split
      · exact mirrors_throw_bind (pairs_raised _ _) _ _ m m' hm
      · obtain ⟨hproto, rfl⟩ := hproto
        obtain ⟨-, rfl⟩ := hid
        exact ⟨hm.setHeap (le_refl p) (hm.heap.setPrototype hproto hfound), pairs_unit⟩

theorem mirrors_preventExtensions {id id' : ObjectId} (hid : p.Pairs id id')
    {actor actor' : Option Owner} (hactor : p.Pairs actor actor') :
    p.Mirrors (preventExtensions id actor) (preventExtensions id' actor') :=
  (mirrors_authorize hactor hid .preventExtensions).bind fun _ _ =>
    mirrors_editObject hid (fun _ ho => ⟨⟨ho.owner, ho.proto, ho.properties, ho.function⟩, rfl⟩)
      (fun _ => rfl) fun _ => rfl

theorem mirrors_setOwnerOf {id id' : ObjectId} (hid : p.Pairs id id') {owner owner' : Owner}
    (howner : p.Pairs owner owner') {actor actor' : Option Owner}
    (hactor : p.Pairs actor actor') :
    p.Mirrors (setOwnerOf id owner actor) (setOwnerOf id' owner' actor') :=
  (mirrors_authorize hactor hid .setOwner).bind fun _ _ =>
    mirrors_editObject hid (fun _ ho =>
      ⟨{ ho with owner := (within_some p owner).2 howner.within }, by rw [howner.eq]; rfl⟩)
      (fun _ => rfl) fun _ => rfl

end Pairing

end ScriptMachine
