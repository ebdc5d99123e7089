import Mathlib.Logic.Equiv.Basic
import Mathlib.Order.Defs.PartialOrder
import ScriptMachine.Builtin.Basic
import ScriptMachine.Proofs.Collection
import ScriptMachine.Value.Operator

/-!
# Handles of two machines

Two machines can be in the same state although their handles differ, because an allocation takes
whatever slot is free. A pairing says which handle of the second machine stands for a handle of the
first one, and which handles of the first are known to have a counterpart. Data is carried from the
first machine to the second by replacing the handles in it.
-/

namespace ScriptMachine

/-- Handles of a first machine and the handles of a second one that stand for them. -/
structure Pairing where
  object : Equiv.Perm ObjectId
  scope : Equiv.Perm ScopeId
  program : Equiv.Perm ProgramId
  /-- The handles of the first machine that have a counterpart. -/
  known : Handle → Prop
  /-- The thread that is being stepped. -/
  actor : Option ThreadId
  /-- The machines are one, and every slot in use is known. -/
  whole : Prop

namespace Pairing

/-- What has a counterpart in one pairing has the same one in the other. -/
structure Extends (p q : Pairing) : Prop where
  object : ∀ id, p.known (.object id) → q.object id = p.object id
  scope : ∀ id, p.known (.scope id) → q.scope id = p.scope id
  program : ∀ id, p.known (.program id) → q.program id = p.program id

/-- A pairing grows when allocations add counterparts. -/
structure Grows (p q : Pairing) : Prop extends Extends p q where
  known : ∀ x, p.known x → q.known x
  actor : q.actor = p.actor
  whole : q.whole ↔ p.whole

instance : Preorder Pairing where
  le := Grows
  le_refl p := ⟨⟨fun _ _ => rfl, fun _ _ => rfl, fun _ _ => rfl⟩, fun _ h => h, rfl, .rfl⟩
  le_trans p q r h k :=
    ⟨⟨fun id hid => (k.object id (h.known _ hid)).trans (h.object id hid),
      fun id hid => (k.scope id (h.known _ hid)).trans (h.scope id hid),
      fun id hid => (k.program id (h.known _ hid)).trans (h.program id hid)⟩,
      fun x hx => k.known x (h.known x hx), k.actor.trans h.actor, k.whole.trans h.whole⟩

/-- Every handle stands for itself. -/
structure Fixes (p : Pairing) : Prop where
  object : ∀ id, p.object id = id
  scope : ∀ id, p.scope id = id
  program : ∀ id, p.program id = id

end Pairing

/-- Data with handles in it. -/
class Carried (α : Type) where
  /-- The data with every handle replaced by its counterpart. -/
  image : Pairing → α → α
  /-- Every handle in the data is known. -/
  Within : Pairing → α → Prop
  image_of_extends {p q : Pairing} {x : α} : p.Extends q → Within p x → image q x = image p x
  within_mono {p q : Pairing} {x : α} : (∀ y, p.known y → q.known y) → Within p x → Within q x
  image_of_fixes {p : Pairing} {x : α} : p.Fixes → image p x = x

export Carried (image Within)

theorem Carried.image_of_le {α : Type} [Carried α] {p q : Pairing} {x : α} (h : p ≤ q)
    (hx : Within p x) : image q x = image p x :=
  Carried.image_of_extends h.toExtends hx

theorem Carried.within_of_le {α : Type} [Carried α] {p q : Pairing} {x : α} (h : p ≤ q)
    (hx : Within p x) : Within q x :=
  Carried.within_mono h.known hx

/-- The second is the first carried over, and nothing of it is unknown. -/
structure Pairing.Pairs {α : Type} [Carried α] (p : Pairing) (x y : α) : Prop where
  within : Within p x
  eq : y = image p x

namespace Pairing

variable {α : Type} [Carried α] {p q : Pairing} {x y : α}

theorem Pairs.mono (h : p.Pairs x y) (hle : p ≤ q) : q.Pairs x y :=
  ⟨Carried.within_of_le hle h.within, h.eq.trans (Carried.image_of_le hle h.within).symm⟩

theorem pairs_image (h : Within p x) : p.Pairs x (image p x) := ⟨h, rfl⟩

end Pairing

/-! ## Data without handles -/

namespace Carried

/-- How data without handles is carried. -/
@[reducible] def plain {α : Type} : Carried α where
  image _ x := x
  Within _ _ := True
  image_of_extends _ _ := rfl
  within_mono _ _ := trivial
  image_of_fixes _ := rfl

end Carried

section Plain

variable (p : Pairing)

instance : Carried Unit := .plain
instance : Carried Bool := .plain
instance : Carried Nat := .plain
instance : Carried Float := .plain
instance : Carried String := .plain
instance : Carried Json := .plain
instance : Carried ThreadId := .plain
instance : Carried Tree.Program := .plain
instance : Carried Tree.NodeKind := .plain
instance : Carried Tree.FunctionNode := .plain

@[simp] theorem image_bool (x : Bool) : image p x = x := rfl
@[simp] theorem image_nat (x : Nat) : image p x = x := rfl
@[simp] theorem image_float (x : Float) : image p x = x := rfl
@[simp] theorem image_threadId (x : ThreadId) : image p x = x := rfl
@[simp] theorem image_nodeKind (x : Tree.NodeKind) : image p x = x := rfl
@[simp] theorem image_functionNode (x : Tree.FunctionNode) : image p x = x := rfl

end Plain

/-! ## Handles -/

section Handles

variable (p : Pairing)

instance : Carried ObjectId where
  image p id := p.object id
  Within p id := p.known (.object id)
  image_of_extends h hx := h.object _ hx
  within_mono h hx := h _ hx
  image_of_fixes h := h.object _

instance : Carried ScopeId where
  image p id := p.scope id
  Within p id := p.known (.scope id)
  image_of_extends h hx := h.scope _ hx
  within_mono h hx := h _ hx
  image_of_fixes h := h.scope _

instance : Carried ProgramId where
  image p id := p.program id
  Within p id := p.known (.program id)
  image_of_extends h hx := h.program _ hx
  within_mono h hx := h _ hx
  image_of_fixes h := h.program _

@[simp] theorem image_objectId_inj (a b : ObjectId) : image p a = image p b ↔ a = b :=
  p.object.injective.eq_iff

@[simp] theorem image_scopeId_inj (a b : ScopeId) : image p a = image p b ↔ a = b :=
  p.scope.injective.eq_iff

end Handles

/-! ## Containers -/

section Containers

variable {α β : Type} [Carried α] [Carried β] (p : Pairing)

instance : Carried (Option α) where
  image p := Option.map (image p)
  Within p o := ∀ x, o = some x → Within p x
  image_of_extends {p q o} h ho := by
    cases o with
    | none => rfl
    | some x => exact congrArg some (Carried.image_of_extends h (ho x rfl))
  within_mono h ho x hx := Carried.within_mono h (ho x hx)
  image_of_fixes {p o} h := by
    cases o with
    | none => rfl
    | some x => exact congrArg some (Carried.image_of_fixes h)

instance : Carried (List α) where
  image p := List.map (image p)
  Within p l := ∀ x ∈ l, Within p x
  image_of_extends h hl := List.map_congr_left fun x hx => Carried.image_of_extends h (hl x hx)
  within_mono h hl x hx := Carried.within_mono h (hl x hx)
  image_of_fixes {_ l} h :=
    (List.map_congr_left fun _ _ => Carried.image_of_fixes h).trans (List.map_id l)

instance : Carried (α × β) where
  image p x := (image p x.1, image p x.2)
  Within p x := Within p x.1 ∧ Within p x.2
  image_of_extends h hx := congrArg₂ Prod.mk (Carried.image_of_extends h hx.1) (Carried.image_of_extends h hx.2)
  within_mono h hx := ⟨Carried.within_mono h hx.1, Carried.within_mono h hx.2⟩
  image_of_fixes h := congrArg₂ Prod.mk (Carried.image_of_fixes h) (Carried.image_of_fixes h)

@[simp] theorem image_none : image p (none : Option α) = none := rfl
@[simp] theorem image_some (x : α) : image p (some x) = some (image p x) := rfl
@[simp] theorem within_none : Within p (none : Option α) := fun _ h => by cases h
@[simp] theorem within_some (x : α) : Within p (some x) ↔ Within p x :=
  ⟨fun h => h x rfl, fun h _ hy => Option.some.inj hy ▸ h⟩

@[simp] theorem image_pair (x : α) (y : β) : image p (x, y) = (image p x, image p y) := rfl

@[simp] theorem isSome_image (o : Option α) : (image p o).isSome = o.isSome := by
  cases o <;> rfl

@[simp] theorem isNone_image (o : Option α) : (image p o).isNone = o.isNone := by
  cases o <;> rfl

@[simp] theorem or_image (a b : Option α) : (image p a).or (image p b) = image p (a.or b) := by
  cases a <;> rfl

theorem within_or {a b : Option α} (ha : Within p a) (hb : Within p b) : Within p (a.or b) := by
  cases a with
  | none => exact hb
  | some x => exact ha

@[simp] theorem image_nil : image p ([] : List α) = [] := rfl
@[simp] theorem image_cons (x : α) (l : List α) : image p (x :: l) = image p x :: image p l := rfl
@[simp] theorem within_nil : Within p ([] : List α) := fun _ h => by cases h
@[simp] theorem within_cons (x : α) (l : List α) :
    Within p (x :: l) ↔ Within p x ∧ Within p l := List.forall_mem_cons

@[simp] theorem image_append (l k : List α) : image p (l ++ k) = image p l ++ image p k :=
  List.map_append

@[simp] theorem within_append (l k : List α) : Within p (l ++ k) ↔ Within p l ∧ Within p k :=
  List.forall_mem_append

@[simp] theorem length_image (l : List α) : (image p l).length = l.length :=
  List.length_map _

@[simp] theorem isEmpty_image (l : List α) : (image p l).isEmpty = l.isEmpty := by
  cases l <;> rfl

@[simp] theorem drop_image (n : Nat) (l : List α) : (image p l).drop n = image p (l.drop n) :=
  (List.map_drop).symm

theorem within_drop {l : List α} (h : Within p l) (n : Nat) : Within p (l.drop n) :=
  fun x hx => h x (List.mem_of_mem_drop hx)

@[simp] theorem tail_image (l : List α) : (image p l).tail = image p l.tail := by
  cases l <;> rfl

theorem within_tail {l : List α} (h : Within p l) : Within p l.tail :=
  fun x hx => h x (List.mem_of_mem_tail hx)

@[simp] theorem head?_image (l : List α) : (image p l).head? = image p l.head? := by
  cases l <;> rfl

theorem within_head? {l : List α} (h : Within p l) : Within p l.head? := by
  cases l with
  | nil => simp
  | cons x l => exact (within_some p x).2 (h x List.mem_cons_self)

@[simp] theorem getElem?_image (l : List α) (i : Nat) : (image p l)[i]? = image p l[i]? :=
  List.getElem?_map

theorem within_getElem? {l : List α} (h : Within p l) (i : Nat) : Within p l[i]? :=
  fun x hx => h x (List.mem_of_getElem? hx)

@[simp] theorem set_image (l : List α) (i : Nat) (x : α) :
    (image p l).set i (image p x) = image p (l.set i x) :=
  (List.map_set).symm

theorem within_set {l : List α} {x : α} (h : Within p l) (hx : Within p x) (i : Nat) :
    Within p (l.set i x) := by
  intro y hy
  obtain hy | rfl := List.mem_or_eq_of_mem_set hy
  · exact h y hy
  · exact hx

@[simp] theorem image_texts (l : List String) : image p l = l := List.map_id l

@[simp] theorem within_texts (l : List String) : Within p l := fun _ _ => trivial

@[simp] theorem image_text? (o : Option String) : image p o = o := by cases o <;> rfl

@[simp] theorem within_text? (o : Option String) : Within p o := fun _ _ => trivial

end Containers

/-! ## Values -/

section Values

variable (p : Pairing)

instance : Carried Value where
  image p
    | .object id => .object (image p id)
    | v => v
  Within p v := ∀ id, v = .object id → Within p id
  image_of_extends {p q v} h hv := by
    cases v with
    | object id => exact congrArg Value.object (Carried.image_of_extends h (hv id rfl))
    | _ => rfl
  within_mono h hv id hid := Carried.within_mono h (hv id hid)
  image_of_fixes {p v} h := by
    cases v with
    | object id => exact congrArg Value.object (Carried.image_of_fixes h)
    | _ => rfl

@[simp] theorem image_undefined : image p Value.undefined = .undefined := rfl
@[simp] theorem image_null : image p Value.null = .null := rfl
@[simp] theorem image_ofBool (b : Bool) : image p (Value.bool b) = .bool b := rfl
@[simp] theorem image_number (n : Float) : image p (Value.number n) = .number n := rfl
@[simp] theorem image_string (s : String) : image p (Value.string s) = .string s := rfl
@[simp] theorem image_ofObject (id : ObjectId) :
    image p (Value.object id) = .object (image p id) := rfl
@[simp] theorem image_ofNat (n : Nat) : image p (Value.nat n) = .nat n := rfl

@[simp] theorem within_undefined : Within p Value.undefined := fun _ h => by cases h
@[simp] theorem within_null : Within p Value.null := fun _ h => by cases h
@[simp] theorem within_ofBool (b : Bool) : Within p (Value.bool b) := fun _ h => by cases h
@[simp] theorem within_number (n : Float) : Within p (Value.number n) := fun _ h => by cases h
@[simp] theorem within_string (s : String) : Within p (Value.string s) := fun _ h => by cases h
@[simp] theorem within_ofNat (n : Nat) : Within p (Value.nat n) := fun _ h => by cases h
@[simp] theorem within_ofObject (id : ObjectId) : Within p (Value.object id) ↔ Within p id :=
  ⟨fun h => h id rfl, fun h _ hid => Value.object.inj hid ▸ h⟩

@[simp] theorem object?_image (v : Value) : (image p v).object? = image p v.object? := by
  cases v <;> rfl

theorem within_object? {v : Value} (h : Within p v) : Within p v.object? := by
  cases v with
  | object id => exact (within_some p id).2 ((within_ofObject p id).1 h)
  | _ => exact within_none p

@[simp] theorem isObject_image (v : Value) : (image p v).isObject = v.isObject := by
  cases v <;> rfl

@[simp] theorem isNullish_image (v : Value) : (image p v).isNullish = v.isNullish := by
  cases v <;> rfl

@[simp] theorem string?_image (v : Value) : (image p v).string? = v.string? := by
  cases v <;> rfl

@[simp] theorem truthy_image (v : Value) : (image p v).truthy = v.truthy := by
  cases v <;> rfl

@[simp] theorem toText_image (v : Value) : (image p v).toText = v.toText := by
  cases v with
  | bool b => cases b <;> rfl
  | _ => rfl

@[simp] theorem toNumber_image (v : Value) : (image p v).toNumber = v.toNumber := by
  cases v <;> rfl

@[simp] theorem toWord_image (v : Value) : (image p v).toWord = v.toWord := by
  simp [Value.toWord]

@[simp] theorem strictEquals_image (v w : Value) :
    (image p v).strictEquals (image p w) = v.strictEquals w := by
  cases v <;> cases w <;> simp [Value.strictEquals]

@[simp] theorem sameValue_image (v w : Value) :
    (image p v).sameValue (image p w) = v.sameValue w := by
  cases v <;> cases w <;> simp [Value.sameValue, Value.strictEquals]

@[simp] theorem image_beq_undefined (v : Value) :
    (image p v == Value.undefined) = (v == Value.undefined) := by
  cases v <;> rfl

@[simp] theorem looseEquals_image (v w : Value) :
    (image p v).looseEquals (image p w) = v.looseEquals w := by
  cases v <;> cases w <;>
    simp [Value.looseEquals, Value.strictEquals, Value.isNullish, Value.isObject,
      Value.toNumber]

@[simp] theorem less?_image (v w : Value) : (image p v).less? (image p w) = v.less? w := by
  cases v <;> cases w <;> rfl

/-- What an operator gives on primitives and objects has no handle in it. -/
theorem applyBinary?_image (op : Tree.BinaryOp) (v w : Value) :
    Value.applyBinary? op (image p v) (image p w) = Value.applyBinary? op v w := by
  cases op with
  | add => cases v <;> cases w <;> rfl
  | _ => simp [Value.applyBinary?]

theorem image_applyBinary? (op : Tree.BinaryOp) (v w : Value) {r : Value}
    (h : Value.applyBinary? op v w = some r) : Within p r ∧ image p r = r := by
  have hr : ∀ id, r ≠ .object id := by
    rintro id rfl
    cases op with
    | add => cases v <;> cases w <;> simp [Value.applyBinary?] at h
    | _ =>
      simp [Value.applyBinary?, Value.ofSigned, Value.ofUnsigned, Value.nat] at h
  cases r with
  | object id => exact absurd rfl (hr id)
  | _ => exact ⟨(fun _ h => by cases h), rfl⟩

@[simp] theorem conversionHint_image (op : Tree.BinaryOp) (v w : Value) (isLeft : Bool) :
    conversionHint op (image p v) (image p w) isLeft = conversionHint op v w isLeft := by
  simp only [conversionHint, isObject_image, isNullish_image]

@[simp] theorem ofValue_image (v : Value) : Hint.ofValue (image p v) = Hint.ofValue v := by
  cases v <;> rfl

@[simp] theorem integerOf_image (v : Value) :
    Builtin.integerOf (image p v) = Builtin.integerOf v := by
  simp [Builtin.integerOf]

@[simp] theorem relativeIndex_image (v : Value) (length default : Nat) :
    Builtin.relativeIndex (image p v) length default = Builtin.relativeIndex v length default := by
  simp [Builtin.relativeIndex]

@[simp] theorem arrayLength?_image (v : Value) :
    Machine.arrayLength? (image p v) = Machine.arrayLength? v := by
  simp [Machine.arrayLength?]

@[simp] theorem getD_image (l : List Value) (i : Nat) :
    (image p l).getD i .undefined = image p (l.getD i .undefined) := by
  rw [List.getD_eq_getElem?_getD, List.getD_eq_getElem?_getD, getElem?_image]
  cases l[i]? <;> rfl

theorem within_getD {l : List Value} (h : Within p l) (i : Nat) :
    Within p (l.getD i .undefined) := by
  rw [List.getD_eq_getElem?_getD]
  have hi := within_getElem? p h i
  cases hget : l[i]? with
  | none => exact within_undefined p
  | some v => exact hi v hget

@[simp] theorem headD_image (l : List Value) :
    (image p l).headD .undefined = image p (l.headD .undefined) := by
  cases l <;> rfl

theorem within_headD {l : List Value} (h : Within p l) : Within p (l.headD .undefined) := by
  cases l with
  | nil => exact within_undefined p
  | cons v l => exact h v List.mem_cons_self

end Values

end ScriptMachine
