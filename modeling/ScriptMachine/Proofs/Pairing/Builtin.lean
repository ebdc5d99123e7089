import ScriptMachine.Proofs.Natives
import ScriptMachine.Proofs.Pairing.Statement

/-!
# Paired builtins

A builtin answers alike when it is called alike. What it reads of the heap is the same on both
machines, and what it allocates is known afterwards.
-/

namespace ScriptMachine

open Machine Exec

namespace Pairing

variable {p q : Pairing}

/-! ## Calls and answers -/

namespace Pairs

section Calls

variable {c c' : NativeCall} (hc : p.Pairs c c')

include hc

theorem calledOn : p.Pairs c.receiver c'.receiver :=
  ⟨hc.within.receiver, congrArg NativeCall.receiver hc.eq⟩
theorem given : p.Pairs c.args c'.args := ⟨hc.within.args, congrArg NativeCall.args hc.eq⟩
theorem caller : p.Pairs c.owner c'.owner := ⟨hc.within.owner, congrArg NativeCall.owner hc.eq⟩
theorem callerScope : p.Pairs c.scope c'.scope :=
  ⟨hc.within.scope, congrArg NativeCall.scope hc.eq⟩
theorem kept : p.Pairs c.scratch c'.scratch :=
  ⟨hc.within.scratch, congrArg NativeCall.scratch hc.eq⟩
theorem resumed : p.Pairs c.resumed c'.resumed :=
  ⟨hc.within.resumed, congrArg NativeCall.resumed hc.eq⟩
theorem thread_eq : c'.thread = c.thread := by rw [hc.eq]; rfl
theorem callPhase_eq : c'.phase = c.phase := by rw [hc.eq]; rfl

theorem arg (i : Nat) : p.Pairs (c.arg i) (c'.arg i) :=
  ⟨within_arg hc.within i, by rw [hc.eq, arg_image]⟩

theorem reply {r r' : NativeResult} (hr : p.Pairs r r') : p.Pairs (c.reply r) (c'.reply r') :=
  ⟨within_reply hc.within hr.within, by rw [hc.eq, hr.eq, reply_image]⟩

end Calls

section Lists

variable {α : Type} [Carried α] {l l' : List α} (hl : p.Pairs l l')

include hl

theorem tail : p.Pairs l.tail l'.tail := ⟨within_tail p hl.within, by rw [hl.eq, tail_image]⟩
theorem drop (n : Nat) : p.Pairs (l.drop n) (l'.drop n) :=
  ⟨within_drop p hl.within n, by rw [hl.eq, drop_image]⟩
theorem isEmpty_eq : l'.isEmpty = l.isEmpty := by rw [hl.eq, isEmpty_image]
theorem length_eq : l'.length = l.length := by rw [hl.eq, length_image]

end Lists

theorem isUndefined_eq {v v' : Value} (hv : p.Pairs v v') :
    (v' == Value.undefined) = (v == Value.undefined) := by
  rw [hv.eq, image_beq_undefined]

end Pairs

theorem pairs_value {v v' : Value} (hv : p.Pairs v v') :
    p.Pairs (NativeResult.value v) (.value v') :=
  ⟨hv.within, congrArg NativeResult.value hv.eq⟩

theorem pairs_call {func func' receiver receiver' : Value} (hfunc : p.Pairs func func')
    (hreceiver : p.Pairs receiver receiver') {args args' : List Value}
    (hargs : p.Pairs args args') :
    p.Pairs (NativeResult.call func receiver args) (.call func' receiver' args') :=
  ⟨⟨hfunc.within, hreceiver.within, hargs.within⟩, by rw [hfunc.eq, hreceiver.eq, hargs.eq]; rfl⟩

theorem pairs_reply {r r' : NativeResult} (hr : p.Pairs r r') (phase : Nat)
    {scratch scratch' : List Value} (hs : p.Pairs scratch scratch') :
    p.Pairs (NativeReply.mk r phase scratch) ⟨r', phase, scratch'⟩ :=
  ⟨⟨hr.within, hs.within⟩, by rw [hr.eq, hs.eq]; rfl⟩

theorem pairs_cons {α : Type} [Carried α] {x x' : α} (hx : p.Pairs x x') {l l' : List α}
    (hl : p.Pairs l l') : p.Pairs (x :: l) (x' :: l') :=
  ⟨(within_cons p x l).2 ⟨hx.within, hl.within⟩, by rw [hx.eq, hl.eq, image_cons]⟩

theorem pairs_nil {α : Type} [Carried α] : p.Pairs ([] : List α) [] := ⟨within_nil p, rfl⟩

/-- Results computed one after another. -/
theorem pairs_mapM {α β : Type} [Carried β] (l : List α) {f f' : α → Except Failure β}
    (h : ∀ a, p.Pairs (f a) (f' a)) : p.Pairs (l.mapM f) (l.mapM f') := by
  induction l with
  | nil => exact pairs_ok pairs_nil
  | cons a rest ih =>
    rw [List.mapM_cons, List.mapM_cons]
    exact pairs_bind (h a) fun b hb => pairs_bind ih fun bs hbs =>
      pairs_ok (pairs_cons (pairs_image hb) (pairs_image hbs))

/-- A behaviour that gives a value for its arguments alone. -/
theorem carries_pure {α : Type} [Carried α] {f : NativeCall → α}
    (h : ∀ ⦃p : Pairing⦄ ⦃c c' : NativeCall⦄, p.Pairs c c' → p.Pairs (f c) (f c')) :
    Carries fun c => (pure (f c) : Exec α) :=
  fun _ _ _ hc _ => follows_pure (h hc)

theorem carries_ofValue {f : NativeCall → Exec Value} (h : Carries f) :
    Carries (NativeCode.ofValue f) :=
  fun _ _ _ hc hactor => (h hc hactor).bind fun _ hle _ _ hv =>
    follows_pure ((hc.mono hle).reply (pairs_value hv))

end Pairing

namespace Builtin

open Pairing

variable {p q : Pairing} {c c' : NativeCall}

section Arguments

variable (hc : p.Pairs c c')

include hc

theorem mirrors_receiverObject (method : String) :
    p.Mirrors (receiverObject c method) (receiverObject c' method) := by
  obtain ⟨hw, heq⟩ := hc.calledOn.object?
  unfold receiverObject
  rw [heq]
  cases hid : c.receiver.object? with
  | none => exact mirrors_throw (pairs_raised _ _)
  | some id => exact mirrors_pure (pairs_image (hw id hid))

theorem mirrors_objectArg (i : Nat) (method : String) :
    p.Mirrors (objectArg c i method) (objectArg c' i method) := by
  obtain ⟨hw, heq⟩ := (hc.arg i).object?
  unfold objectArg
  rw [heq]
  cases hid : (c.arg i).object? with
  | none => exact mirrors_throw (pairs_raised _ _)
  | some id => exact mirrors_pure (pairs_image (hw id hid))

theorem mirrors_withPrimitive {v v' : Value} (hv : p.Pairs v v') (hint : Hint)
    {finish : Value → Value} (hfinish : ∀ v, p.Pairs (finish v) (finish (image p v))) :
    p.Mirrors (withPrimitive c v hint finish) (withPrimitive c' v' hint finish) := by
  obtain ⟨-, heq⟩ := hc.resumed
  unfold withPrimitive
  rw [heq, hv.isObject_eq]
  cases c.resumed with
  | some r => exact mirrors_pure (hc.reply (pairs_value (hfinish r)))
  | none =>
    dsimp only [image_none]
    split
    · refine Mirrors.bind (mirrors_query fun _ _ hm => hm.pairs_toPrimitiveFunction)
        fun func hfunc => mirrors_pure (hc.reply (pairs_call (pairs_image hfunc) pairs_undefined
          (pairs_cons hv (pairs_cons (pairs_string _) pairs_nil))))
    · exact mirrors_pure (hc.reply (pairs_value (hv.eq ▸ hfinish v)))

/-! ## Functions and conversions -/

theorem mirrors_tryMethods {v v' : Value} (hv : p.Pairs v v') (tried : Nat)
    (names : List String) : p.Mirrors (tryMethods c v tried names) (tryMethods c' v' tried names) := by
  induction names generalizing tried with
  | nil => exact mirrors_throw (pairs_raised _ _)
  | cons name rest ih =>
    refine (mirrors_getProperty hv name hc.caller).bind fun method hmethod => ?_
    refine mirrors_get_bind fun m m' hm => ?_
    rw [hm.isCallable (pairs_image hmethod)]
    split
    · exact mirrors_pure (pairs_reply (pairs_call (pairs_image hmethod) hv pairs_nil) _ hc.kept)
    · exact ih _

end Arguments

theorem carries_toPrimitive : Carries toPrimitive := by
  intro p c c' hc _
  have hv := hc.arg 0
  have hnames : conversionMethods (.ofValue (c'.arg 1)) = conversionMethods (.ofValue (c.arg 1)) := by
    rw [(hc.arg 1).eq, ofValue_image]
  have hattempt := mirrors_tryMethods hc hv c.phase
    ((conversionMethods (.ofValue (c.arg 1))).drop c.phase)
  obtain ⟨hw, heq⟩ := hc.resumed
  unfold toPrimitive
  dsimp only
  rw [hv.isObject_eq, hnames, hc.callPhase_eq, heq]
  split
  · exact follows_pure (hc.reply (pairs_value hv))
  · cases hr : c.resumed with
    | none => exact hattempt.follows
    | some r =>
      dsimp only [image_some]
      rw [isObject_image]
      split
      · exact hattempt.follows
      · exact follows_pure (hc.reply (pairs_value (pairs_image (hw r hr))))

namespace Functions

theorem carries_call : Carries call := by
  intro p c c' hc _
  obtain ⟨hw, heq⟩ := hc.resumed
  unfold call
  rw [heq]
  cases hr : c.resumed with
  | some r => exact follows_pure (hc.reply (pairs_value (pairs_image (hw r hr))))
  | none =>
    exact follows_pure (hc.reply (pairs_call hc.calledOn (hc.arg 0) hc.given.tail))

theorem pairs_listOf {m m' : Machine} (hm : p.Machines m m') {id id' : ObjectId}
    (hid : p.Pairs id id') {actor actor' : Option Owner} (hactor : p.Pairs actor actor') :
    p.Pairs (listOf m id actor) (listOf m' id' actor') := by
  refine pairs_bind (hm.pairs_authorize hactor hid .read) fun o _ => ?_
  rw [length_imageObject]
  exact pairs_mapM _ fun i => hm.pairs_getProperty (pairs_ofObject hid) _ hactor

theorem carries_apply : Carries apply := by
  intro p c c' hc _
  have hlist := hc.arg 1
  have hcall : ∀ args args' : List Value, p.Pairs args args' →
      p.Follows (pure (c.reply (.call c.receiver (c.arg 0) args)))
        (pure (c'.reply (.call c'.receiver (c'.arg 0) args'))) := fun _ _ hargs =>
    follows_pure (hc.reply (pairs_call hc.calledOn (hc.arg 0) hargs))
  obtain ⟨hw, heq⟩ := hc.resumed
  unfold apply
  rw [heq]
  cases hr : c.resumed with
  | some r => exact follows_pure (hc.reply (pairs_value (pairs_image (hw r hr))))
  | none =>
    obtain ⟨hlist, heq⟩ := hlist
    dsimp only [image_none]
    rw [heq]
    have hother : ∀ v : Value, p.Follows
        (do
          let args ← if v.isNullish then pure [] else
            throw (.typeError "CreateListFromArrayLike called on non-object")
          return c.reply (.call c.receiver (c.arg 0) args))
        (do
          let args ← if v.isNullish then pure [] else
            throw (.typeError "CreateListFromArrayLike called on non-object")
          return c'.reply (.call c'.receiver (c'.arg 0) args)) := by
      intro v
      split
      · exact hcall [] [] pairs_nil
      · exact follows_throw_bind (pairs_raised _ _) _ _
    cases hv : c.arg 1 with
    | object id =>
      rw [hv] at hlist
      refine Mirrors.bind_follows (mirrors_query fun m m' hm =>
        pairs_listOf hm (pairs_image (hlist id rfl)) hc.caller) fun args hargs => ?_
      exact hcall args _ (pairs_image hargs)
    | undefined => exact hother .undefined
    | null => exact hother .null
    | bool b => exact hother (.bool b)
    | number n => exact hother (.number n)
    | string s => exact hother (.string s)

theorem nameOf_image (o : Object) : nameOf (image p o) = nameOf o := by
  rw [nameOf, nameOf, ownValue_image, string?_image]

theorem boundLength_image (o : Object) (given : Nat) :
    boundLength (image p o) given = boundLength o given := by
  rw [boundLength, boundLength, ownValue_image]
  cases o.ownValue "length" <;> rfl

theorem carries_bind : Carries Functions.bind := by
  intro p c c' hc _
  refine (mirrors_receiverObject hc _).bind_follows fun target htarget => ?_
  refine (mirrors_heapQuery fun _ _ hk =>
    hk.pairs_object (pairs_image htarget)).bind_follows fun o _ => ?_
  dsimp only
  rw [isCallable_image, boundLength_image, nameOf_image, hc.given.tail.length_eq]
  split
  · exact follows_throw_bind (pairs_raised _ _) _ _
  refine (mirrors_builtinObject "Function.prototype").bind_follows fun proto hproto => ?_
  have hbound : p.Pairs (Callable.bound target (c.arg 0) c.args.tail)
      (.bound (image p target) (c'.arg 0) c'.args.tail) :=
    ⟨⟨htarget, (hc.arg 0).within, hc.given.tail.within⟩,
      by rw [(hc.arg 0).eq, hc.given.tail.eq]; rfl⟩
  refine (follows_alloc (((pairs_newObject hc.caller (pairs_some (pairs_image hproto)) .function
    (pairs_some hbound)).put (pairs_frozen (pairs_number _)) "length").put
      (pairs_frozen (pairs_string _)) "name")).bind fun _ _ _ _ hid => ?_
  exact follows_pure (pairs_ofObject hid)

theorem carries_toText : Carries Functions.toText := by
  intro p c c' hc _
  refine (mirrors_receiverObject hc _).bind_follows fun func hfunc => ?_
  refine (mirrors_heapQuery fun _ _ hk =>
    hk.pairs_object (pairs_image hfunc)).bind_follows fun o ho => ?_
  rw [image_function, nameOf_image]
  have hfunction := ho.function
  cases hget : o.function with
  | none => exact follows_throw (pairs_raised _ _)
  | some function =>
    cases function with
    | closure node scope =>
      have hnode := (hfunction _ hget).1
      exact (mirrors_heapQuery fun _ _ hk => hk.pairs_program
        (pairs_image (x := node.program) hnode)).bind_follows
          fun t _ => follows_pure (pairs_string _)
    | native name => exact follows_pure (pairs_string _)
    | bound target receiver args => exact follows_pure (pairs_string _)

end Functions

/-! ## Objects -/

namespace Objects

theorem mirrors_protoArg (hc : p.Pairs c c') (i : Nat) :
    p.Mirrors (protoArg c i) (protoArg c' i) := by
  obtain ⟨hw, heq⟩ := hc.arg i
  unfold protoArg
  rw [heq]
  cases hv : c.arg i with
  | object id =>
    rw [hv] at hw
    exact mirrors_pure (pairs_some (pairs_image (hw id rfl)))
  | null => exact mirrors_pure pairs_none
  | _ => exact mirrors_throw (pairs_raised _ _)

theorem pairs_orNull {id id' : Option ObjectId} (hid : p.Pairs id id') :
    p.Pairs (orNull id) (orNull id') := by
  obtain ⟨hid, rfl⟩ := hid
  cases id with
  | none => exact ⟨within_null p, rfl⟩
  | some id => exact pairs_ofObject (pairs_image (hid id rfl))

section Descriptors

variable {m m' : Machine} (hm : p.Machines m m') {actor actor' : Option Owner}
  (hactor : p.Pairs actor actor')

include hm hactor

theorem pairs_descriptorField {id id' : ObjectId} (hid : p.Pairs id id') (name : String) :
    p.Pairs (descriptorField m id actor name) (descriptorField m' id' actor' name) := by
  refine pairs_bind (hm.pairs_hasProperty hid name hactor) fun found _ => ?_
  rw [image_bool]
  split
  · exact pairs_bind (hm.pairs_getProperty (pairs_ofObject hid) name hactor) fun v hv =>
      pairs_ok (pairs_some (pairs_image hv))
  · exact pairs_ok pairs_none

theorem pairs_toDescriptor {v v' : Value} (hv : p.Pairs v v') :
    p.Pairs (toDescriptor m v actor) (toDescriptor m' v' actor') := by
  obtain ⟨hw, heq⟩ := hv.object?
  unfold toDescriptor
  rw [heq]
  cases hget : v.object? with
  | none => exact pairs_error (pairs_raised _ _)
  | some id =>
    have hfield := pairs_descriptorField hm hactor (pairs_image (hw id hget))
    have hflag : ∀ flag : Option Value,
        (image p flag).map Value.truthy = flag.map Value.truthy := by
      intro flag
      cases flag with
      | none => rfl
      | some v => exact congrArg some (truthy_image p v)
    refine pairs_bind (hfield "get") fun getter _ => ?_
    rw [isSome_image]
    split
    · exact pairs_error (pairs_raised _ _)
    refine pairs_bind (hfield "set") fun setter _ => ?_
    rw [isSome_image]
    split
    · exact pairs_error (pairs_raised _ _)
    refine pairs_bind (hfield "value") fun value hvalue => ?_
    refine pairs_bind (hfield "writable") fun writable _ => ?_
    refine pairs_bind (hfield "enumerable") fun enumerable _ => ?_
    refine pairs_bind (hfield "configurable") fun configurable _ => ?_
    rw [hflag, hflag, hflag]
    exact pairs_ok ⟨hvalue, rfl⟩

omit hm in
theorem mirrors_defineAll {target target' : ObjectId} (htarget : p.Pairs target target')
    {source source' : Value} (hsource : p.Pairs source source') (keys : List String) :
    p.Mirrors (defineAll target source actor keys) (defineAll target' source' actor' keys) := by
  induction keys with
  | nil => exact mirrors_pure pairs_unit
  | cons key rest ih =>
    refine (mirrors_getProperty hsource key hactor).bind fun v hv => ?_
    refine Mirrors.bind (mirrors_query fun _ _ hm =>
      pairs_toDescriptor hm hactor (pairs_image hv)) fun d hd => ?_
    exact (mirrors_defineProperty htarget key (pairs_image hd) hactor).bind fun _ _ => ih

end Descriptors

theorem mirrors_ownKeys {id id' : ObjectId} (hid : p.Pairs id id') {actor actor' : Option Owner}
    (hactor : p.Pairs actor actor') (includeHidden : Bool) :
    p.Mirrors (query fun m => m.ownKeys id actor includeHidden)
      (query fun m => m.ownKeys id' actor' includeHidden) :=
  mirrors_query fun _ _ hm => hm.pairs_ownKeys hid hactor includeHidden

theorem carries_construct : Carries construct := by
  intro p c c' hc _
  obtain ⟨hw, heq⟩ := hc.arg 0
  unfold construct
  rw [heq]
  have hnew : p.Follows (do return Value.object (← createPlainObject c.owner))
      (do return Value.object (← createPlainObject c'.owner)) :=
    (follows_createPlainObject hc.caller).bind fun _ _ _ _ hid =>
      follows_pure (pairs_ofObject hid)
  cases hv : c.arg 0 with
  | object id =>
    rw [hv] at hw
    exact follows_pure (pairs_ofObject (pairs_image (hw id rfl)))
  | _ => exact hnew

theorem carries_create : Carries create := by
  intro p c c' hc _
  refine (mirrors_protoArg hc 0).bind_follows fun proto hproto => ?_
  refine (follows_createObject (pairs_image hproto) hc.caller).bind fun q hle id id' hid => ?_
  have hc := hc.mono hle
  obtain ⟨hw, heq⟩ := hc.arg 1
  rw [heq]
  cases hv : c.arg 1 with
  | object source =>
    rw [hv] at hw
    have hsource := pairs_image (p := q) (hw source rfl)
    refine Mirrors.bind_follows (mirrors_ownKeys hsource hc.caller false) fun keys _ => ?_
    rw [image_texts]
    exact Mirrors.bind_follows (mirrors_defineAll hc.caller hid (pairs_ofObject hsource) keys)
      fun _ _ => follows_pure (pairs_ofObject hid)
  | _ => exact follows_pure (pairs_ofObject hid)

theorem carries_getPrototypeOf : Carries getPrototypeOf := by
  intro p c c' hc _
  refine (mirrors_objectArg hc 0 _).bind_follows fun id hid => ?_
  exact Mirrors.bind_follows (mirrors_query fun _ _ hm =>
    hm.pairs_getPrototype (pairs_image hid) hc.caller) fun proto hproto =>
      follows_pure (pairs_orNull (pairs_image hproto))

theorem carries_setPrototypeOf : Carries setPrototypeOf := by
  intro p c c' hc _
  refine (mirrors_objectArg hc 0 _).bind_follows fun id hid => ?_
  refine (mirrors_protoArg hc 1).bind_follows fun proto hproto => ?_
  exact (mirrors_setPrototype (pairs_image hid) (pairs_image hproto) hc.caller).bind_follows
    fun _ _ => follows_pure (pairs_ofObject (pairs_image hid))

theorem keyArg_eq (hc : p.Pairs c c') (i : Nat) : keyArg c' i = keyArg c i :=
  (hc.arg i).toText_eq

theorem carries_defineOne : Carries defineOne := by
  intro p c c' hc _
  refine (mirrors_objectArg hc 0 _).bind_follows fun id hid => ?_
  refine Mirrors.bind_follows (mirrors_query fun _ _ hm =>
    pairs_toDescriptor hm hc.caller (hc.arg 2)) fun d hd => ?_
  rw [keyArg_eq hc]
  exact (mirrors_defineProperty (pairs_image hid) _ (pairs_image hd) hc.caller).bind_follows
    fun _ _ => follows_pure (pairs_ofObject (pairs_image hid))

theorem carries_getDescriptor : Carries getDescriptor := by
  intro p c c' hc _
  refine (mirrors_objectArg hc 0 _).bind_follows fun id hid => ?_
  rw [keyArg_eq hc]
  refine Mirrors.bind_follows (mirrors_query fun _ _ hm =>
    hm.pairs_getOwnProperty (pairs_image hid) _ hc.caller) fun found hfound => ?_
  cases found with
  | none => exact follows_pure pairs_undefined
  | some prop =>
    have hvalue : p.Pairs prop.value (image p prop).value :=
      pairs_image (x := prop.value) (hfound prop rfl)
    refine (follows_createPlainObject hc.caller).bind fun q hle record record' hrecord => ?_
    refine Mirrors.bind_follows (mirrors_modifyObject hrecord (fun o ho => ?_) (fun _ => rfl)
      fun _ => rfl) fun _ _ => follows_pure (pairs_ofObject hrecord)
    exact ((((pairs_image ho).put (pairs_data (hvalue.mono hle)) "value").put
      (pairs_data (pairs_ofBool _)) "writable").put (pairs_data (pairs_ofBool _))
        "enumerable").put (pairs_data (pairs_ofBool _)) "configurable"

theorem carries_keysArray (includeHidden : Bool) (method : String) :
    Carries (keysArray includeHidden method) := by
  intro p c c' hc _
  refine (mirrors_objectArg hc 0 _).bind_follows fun id hid => ?_
  refine (mirrors_ownKeys (pairs_image hid) hc.caller includeHidden).bind_follows fun keys _ => ?_
  rw [image_texts]
  have hnames : p.Pairs (keys.map Value.string) (keys.map Value.string) := by
    induction keys with
    | nil => exact pairs_nil
    | cons key rest ih => exact pairs_cons (pairs_string key) (ih fun _ _ => trivial)
  exact (follows_createArray hnames hc.caller).bind fun _ _ _ _ hid =>
    follows_pure (pairs_ofObject hid)

theorem carries_closeObject : Carries closeObject := by
  intro p c c' hc _
  refine (mirrors_objectArg hc 0 _).bind_follows fun id hid => ?_
  exact (mirrors_preventExtensions (pairs_image hid) hc.caller).bind_follows fun _ _ =>
    follows_pure (pairs_ofObject (pairs_image hid))

theorem carries_isExtensible : Carries isExtensible := by
  intro p c c' hc _
  refine (mirrors_objectArg hc 0 _).bind_follows fun id hid => ?_
  exact (mirrors_authorize hc.caller (pairs_image hid) .read).bind_follows fun _ _ =>
    follows_pure (pairs_ofBool _)

theorem carries_getOwnerOf : Carries getOwnerOf := by
  intro p c c' hc _
  refine (mirrors_objectArg hc 0 _).bind_follows fun id hid => ?_
  exact (mirrors_authorize hc.caller (pairs_image hid) .read).bind_follows fun o ho =>
    follows_pure (pairs_orNull (pairs_image ho.owner))

theorem carries_giveOwner : Carries giveOwner := by
  intro p c c' hc _
  refine (mirrors_objectArg hc 0 _).bind_follows fun id hid => ?_
  refine (mirrors_objectArg hc 1 _).bind_follows fun owner howner => ?_
  exact (mirrors_setOwnerOf (pairs_image hid) (pairs_image howner) hc.caller).bind_follows
    fun _ _ => follows_pure (pairs_ofObject (pairs_image hid))

theorem carries_hasOwn : Carries hasOwn := by
  intro p c c' hc _
  refine (mirrors_receiverObject hc _).bind_follows fun id hid => ?_
  rw [keyArg_eq hc]
  refine Mirrors.bind_follows (mirrors_query fun _ _ hm =>
    hm.pairs_getOwnProperty (pairs_image hid) _ hc.caller) fun found _ => ?_
  rw [isSome_image]
  exact follows_pure (pairs_ofBool _)

theorem carries_toText : Carries Objects.toText := by
  intro p c c' hc _
  obtain ⟨hw, heq⟩ := hc.calledOn
  unfold toText
  rw [heq]
  cases hv : c.receiver with
  | object id =>
    rw [hv] at hw
    exact Mirrors.bind_follows (mirrors_heapQuery fun _ _ hk =>
      hk.pairs_object (pairs_image (hw id rfl))) fun _ _ => follows_pure (pairs_string _)
  | _ => exact follows_pure (pairs_string _)

end Objects

/-! ## Arrays -/

namespace Arrays

section Reading

variable {m m' : Machine} (hm : p.Machines m m') {id id' : ObjectId} (hid : p.Pairs id id')
  {actor actor' : Option Owner} (hactor : p.Pairs actor actor')

include hm hid hactor

theorem pairs_lengthOf : p.Pairs (lengthOf m id actor) (lengthOf m' id' actor') := by
  refine pairs_bind (hm.pairs_getProperty (pairs_ofObject hid) "length" hactor) fun v _ => ?_
  rw [integerOf_image]
  exact pairs_ok ⟨trivial, rfl⟩

theorem pairs_item (i : Nat) : p.Pairs (item m id i actor) (item m' id' i actor') :=
  hm.pairs_getProperty (pairs_ofObject hid) _ hactor

theorem pairs_searchFrom {v v' : Value} (hv : p.Pairs v v') (left i : Nat) :
    p.Pairs (searchFrom m id v actor left i) (searchFrom m' id' v' actor' left i) := by
  induction left generalizing i with
  | zero => exact pairs_ok pairs_none
  | succ left ih =>
    refine pairs_bind (hm.heap.pairs_object hid) fun o _ => ?_
    rw [image_properties, contains_image]
    split
    · exact ih _
    · refine pairs_bind (pairs_item hm hid hactor i) fun found hfound => ?_
      rw [(pairs_image hfound).strictEquals_eq hv]
      split
      · exact pairs_ok ⟨fun _ _ => trivial, rfl⟩
      · exact ih _

end Reading

section Reading

variable {id id' : ObjectId} (hid : p.Pairs id id') {actor actor' : Option Owner}
  (hactor : p.Pairs actor actor')

include hid hactor

theorem mirrors_lengthOf :
    p.Mirrors (query fun m => lengthOf m id actor) (query fun m => lengthOf m id' actor') :=
  mirrors_query fun _ _ hm => pairs_lengthOf hm hid hactor

theorem mirrors_item (i : Nat) :
    p.Mirrors (query fun m => item m id i actor) (query fun m => item m id' i actor') :=
  mirrors_query fun _ _ hm => pairs_item hm hid hactor i

/-- The length of an array is assigned. -/
theorem mirrors_setLength {v v' : Value} (hv : p.Pairs v v') :
    p.Mirrors (setProperty (.object id) "length" v actor)
      (setProperty (.object id') "length" v' actor') :=
  mirrors_setProperty (pairs_ofObject hid) "length" hv hactor

end Reading

theorem carries_construct : Carries construct := by
  intro p c c' hc _
  have hlist : ∀ args args' : List Value, p.Pairs args args' →
      p.Follows (do return Value.object (← createArray args c.owner))
        (do return Value.object (← createArray args' c'.owner)) := fun _ _ hargs =>
    (follows_createArray hargs hc.caller).bind fun _ _ _ _ hid => follows_pure (pairs_ofObject hid)
  obtain ⟨hw, heq⟩ := hc.given
  unfold construct
  rw [heq]
  cases hargs : c.args with
  | nil => exact hlist [] [] pairs_nil
  | cons v rest =>
    rw [hargs] at hw
    have hpairs := pairs_image hw
    cases rest with
    | nil =>
      cases v with
      | number n =>
        dsimp only [image_cons, image_nil, image_number]
        cases arrayLength? (.number n) with
        | none => exact follows_throw (pairs_raised _ _)
        | some length =>
          refine (follows_createArray pairs_nil hc.caller).bind
            fun q hle id id' hid => ?_
          exact (mirrors_setLength hid (hc.mono hle).caller
            (pairs_number n)).bind_follows fun _ _ => follows_pure (pairs_ofObject hid)
      | _ => exact hlist _ _ hpairs
    | cons w rest => cases v <;> exact hlist _ _ hpairs

theorem carries_isArray : Carries isArray := by
  intro p c c' hc _
  obtain ⟨hw, heq⟩ := hc.arg 0
  unfold isArray
  rw [heq]
  cases hv : c.arg 0 with
  | object id =>
    rw [hv] at hw
    exact Mirrors.bind_follows (mirrors_heapQuery fun _ _ hk =>
      hk.pairs_object (pairs_image (hw id rfl))) fun _ _ => follows_pure (pairs_ofBool _)
  | _ => exact follows_pure (pairs_ofBool _)

theorem mirrors_pushFrom {base base' : Value} (hbase : p.Pairs base base')
    {actor actor' : Option Owner} (hactor : p.Pairs actor actor') (i : Nat)
    {values values' : List Value} (hvalues : p.Pairs values values') :
    p.Mirrors (pushFrom base actor i values) (pushFrom base' actor' i values') := by
  obtain ⟨hvalues, rfl⟩ := hvalues
  induction values generalizing i with
  | nil => exact mirrors_pure ⟨trivial, rfl⟩
  | cons v rest ih =>
    obtain ⟨hv, hrest⟩ := (within_cons p v rest).1 hvalues
    exact (mirrors_setProperty hbase _ (pairs_image hv) hactor).bind fun _ _ => ih _ hrest

theorem carries_push : Carries push := by
  intro p c c' hc _
  refine (mirrors_receiverObject hc _).bind_follows fun id hid => ?_
  refine (mirrors_lengthOf (pairs_image hid) hc.caller).bind_follows fun length _ => ?_
  refine (mirrors_pushFrom (pairs_ofObject (pairs_image hid)) hc.caller length
    hc.given).bind_follows fun length _ => ?_
  exact (mirrors_setLength (pairs_image hid) hc.caller (pairs_ofNat length)).bind_follows
    fun _ _ => follows_pure (pairs_ofNat length)

theorem carries_pop : Carries pop := by
  intro p c c' hc _
  refine (mirrors_receiverObject hc _).bind_follows fun id hid => ?_
  have hid := pairs_image (p := p) hid
  refine (mirrors_lengthOf hid hc.caller).bind_follows fun length _ => ?_
  rw [image_nat]
  cases length with
  | zero =>
    exact (mirrors_setLength hid hc.caller (pairs_ofNat 0)).bind_follows
      fun _ _ => follows_pure pairs_undefined
  | succ last =>
    refine (mirrors_item hid hc.caller last).bind_follows fun v hv => ?_
    refine (mirrors_deleteProperty hid _ hc.caller).bind_follows fun _ _ => ?_
    exact (mirrors_setLength hid hc.caller (pairs_ofNat last)).bind_follows
      fun _ _ => follows_pure (pairs_image hv)

theorem mirrors_joinFrom (hc : p.Pairs c c') {id id' : ObjectId} (hid : p.Pairs id id')
    (separator : String) {func func' : Option Value} (hfunc : p.Pairs func func')
    (left i : Nat) (out : String) :
    p.Mirrors (joinFrom c id separator func left i out)
      (joinFrom c' id' separator func' left i out) := by
  obtain ⟨hfunc, rfl⟩ := hfunc
  induction left generalizing i out with
  | zero => exact mirrors_pure (pairs_reply (pairs_value (pairs_string _)) i hc.kept)
  | succ left ih =>
    refine (mirrors_item hid hc.caller i).bind fun v hv => ?_
    have hv := pairs_image (p := p) hv
    rw [hv.isObject_eq, hv.isNullish_eq, hv.toText_eq]
    split
    · cases func with
      | none => exact mirrors_throw ⟨trivial, rfl⟩
      | some func =>
        exact mirrors_pure (pairs_reply (pairs_call (pairs_image (hfunc func rfl))
          pairs_undefined (pairs_cons hv (pairs_cons (pairs_string _) pairs_nil))) _
            (pairs_cons (pairs_string _) pairs_nil))
    · exact ih _ _

theorem carries_joinWith (separator : String) : Carries (joinWith separator) := by
  intro p c c' hc _
  refine (mirrors_receiverObject hc _).bind_follows fun id hid => ?_
  refine (mirrors_lengthOf (pairs_image hid) hc.caller).bind_follows fun length _ => ?_
  have hrest : ∀ out : String, p.Follows
      (do joinFrom c id separator ((← get).builtin? "ToPrimitive") (length - c.phase) c.phase out)
      (do joinFrom c' (image p id) separator ((← get).builtin? "ToPrimitive") (length - c.phase)
            c.phase out) := by
    intro out
    exact follows_get_bind fun m m' hm =>
      (mirrors_joinFrom hc (pairs_image hid) separator (hm.pairs_builtin _) _ _ _).follows
  dsimp only
  rw [hc.kept.eq, head?_image, hc.resumed.eq, hc.callPhase_eq, image_nat]
  cases c.resumed with
  | none =>
    cases c.scratch.head? with
    | none => exact hrest _
    | some v => cases v <;> exact hrest _
  | some r =>
    dsimp only [image_some]
    rw [toText_image]
    cases c.scratch.head? with
    | none => exact hrest _
    | some v => cases v <;> exact hrest _

theorem carries_join : Carries join := by
  intro p c c' hc hactor
  have hv := hc.arg 0
  have hwith := fun separator => carries_joinWith separator hc hactor
  obtain ⟨hw, heq⟩ := hv
  unfold join
  rw [heq]
  cases c.arg 0 with
  | undefined => exact hwith ","
  | null => exact hwith _
  | bool b => exact hwith _
  | number n => exact hwith _
  | string s => exact hwith _
  | object id => exact hwith _

theorem relativeIndex_eq (hc : p.Pairs c c') (i length default : Nat) :
    relativeIndex (c'.arg i) length default = relativeIndex (c.arg i) length default := by
  rw [(hc.arg i).eq, relativeIndex_image]

theorem carries_indexOf : Carries Arrays.indexOf := by
  intro p c c' hc _
  refine (mirrors_receiverObject hc _).bind_follows fun id hid => ?_
  refine (mirrors_lengthOf (pairs_image hid) hc.caller).bind_follows fun length _ => ?_
  rw [image_nat]
  dsimp only
  rw [relativeIndex_eq hc]
  refine Mirrors.bind_follows (mirrors_query fun _ _ hm =>
    pairs_searchFrom hm (pairs_image hid) hc.caller (hc.arg 0) _ _) fun found _ => ?_
  cases found with
  | none => exact follows_pure (pairs_number _)
  | some i => exact follows_pure (pairs_ofNat i)

theorem carries_slice : Carries Arrays.slice := by
  intro p c c' hc _
  refine (mirrors_receiverObject hc _).bind_follows fun id hid => ?_
  refine (mirrors_lengthOf (pairs_image hid) hc.caller).bind_follows fun length _ => ?_
  rw [image_nat]
  dsimp only
  rw [relativeIndex_eq hc, relativeIndex_eq hc]
  refine Mirrors.bind_follows (mirrors_query fun _ _ hm => pairs_mapM _ fun i =>
    pairs_item hm (pairs_image hid) hc.caller i) fun values hvalues => ?_
  exact (follows_createArray (pairs_image hvalues) hc.caller).bind fun _ _ _ _ hid =>
    follows_pure (pairs_ofObject hid)

end Arrays

/-! ## Other values -/

namespace Errors

theorem textOr_eq {v v' : Value} (hv : p.Pairs v v') (default : String) :
    textOr v' default = textOr v default := by
  obtain ⟨-, rfl⟩ := hv
  cases v with
  | bool b => cases b <;> rfl
  | _ => rfl

theorem carries_construct (kind : ErrorKind) : Carries (construct kind) := by
  intro p c c' hc hactor
  unfold construct
  rw [textOr_eq (hc.arg 0), hc.thread_eq]
  refine (follows_createError kind _ hc.caller fun id hid => ?_).bind fun _ _ _ _ hid =>
    follows_pure (pairs_ofObject hid)
  exact .inr (Option.some.inj hid ▸ hactor)

theorem carries_toText : Carries Errors.toText := by
  intro p c c' hc _
  refine (mirrors_receiverObject hc _).bind_follows fun _ _ => ?_
  refine (mirrors_getProperty hc.calledOn "name" hc.caller).bind_follows fun name hname => ?_
  refine (mirrors_getProperty hc.calledOn "message" hc.caller).bind_follows
    fun message hmessage => ?_
  dsimp only
  rw [textOr_eq (pairs_image hname), textOr_eq (pairs_image hmessage)]
  exact follows_pure (pairs_string _)

end Errors

namespace Strings

theorem pairs_receiverText (hc : p.Pairs c c') (method : String) :
    p.Pairs (receiverText c method) (receiverText c' method) := by
  obtain ⟨-, heq⟩ := hc.calledOn
  unfold receiverText
  rw [heq]
  cases c.receiver with
  | string s => exact pairs_ok ⟨trivial, rfl⟩
  | bool b => exact pairs_ok ⟨trivial, rfl⟩
  | number n => exact pairs_ok ⟨trivial, rfl⟩
  | _ => exact pairs_error (pairs_raised _ _)

theorem carries_onText {name : String} {arity : Nat} {f : String → NativeCall → Value}
    (hf : ∀ ⦃p : Pairing⦄ ⦃c c' : NativeCall⦄, p.Pairs c c' → ∀ s, p.Pairs (f s c) (f s c')) :
    Carries (onText name arity f).code :=
  carries_ofValue fun _ _ _ hc _ =>
    (mirrors_query fun _ _ _ => pairs_receiverText hc name).bind_follows fun s _ =>
      follows_pure (hf hc s)

section Texts

variable (hc : p.Pairs c c') (s : String)

include hc

theorem unitArg?_eq : unitArg? s c' = unitArg? s c := by
  unfold unitArg? position?
  rw [(hc.arg 0).eq, integerOf_image]

theorem clampedIndex_eq (i length default : Nat) :
    clampedIndex (c'.arg i) length default = clampedIndex (c.arg i) length default := by
  unfold clampedIndex
  rw [(hc.arg i).eq, image_beq_undefined, integerOf_image]

theorem pairs_charAt : p.Pairs (charAt s c) (charAt s c') := by
  unfold charAt
  rw [unitArg?_eq hc]
  cases unitArg? s c <;> exact pairs_string _

theorem pairs_charCodeAt : p.Pairs (charCodeAt s c) (charCodeAt s c') := by
  unfold charCodeAt
  rw [unitArg?_eq hc]
  cases unitArg? s c with
  | none => exact pairs_number _
  | some unit => exact pairs_ofNat unit

theorem pairs_indexOf : p.Pairs (Strings.indexOf s c) (Strings.indexOf s c') := by
  unfold indexOf
  rw [(hc.arg 0).toText_eq, clampedIndex_eq hc]
  dsimp only
  split
  · exact pairs_ofNat _
  cases Text.indexOf? s (c.arg 0).toText (clampedIndex (c.arg 1) (Text.unitCount s) 0) with
  | none => exact pairs_number _
  | some i => exact pairs_ofNat i

theorem pairs_slice : p.Pairs (Strings.slice s c) (Strings.slice s c') := by
  unfold slice
  dsimp only
  rw [Arrays.relativeIndex_eq hc, Arrays.relativeIndex_eq hc]
  exact pairs_string _

theorem pairs_substring : p.Pairs (substring s c) (substring s c') := by
  unfold substring
  dsimp only
  rw [clampedIndex_eq hc, clampedIndex_eq hc]
  exact pairs_string _

end Texts

theorem carries_toText : Carries Strings.toText := by
  intro p c c' hc _
  obtain ⟨-, heq⟩ := hc.calledOn
  unfold toText
  rw [heq]
  cases c.receiver with
  | string s => exact follows_pure (pairs_string s)
  | _ => exact follows_throw (pairs_raised _ _)

theorem carries_convert : Carries Strings.convert := by
  intro p c c' hc _
  unfold convert
  rw [hc.given.isEmpty_eq]
  split
  · exact follows_pure (hc.reply (pairs_value (pairs_string _)))
  · refine (mirrors_withPrimitive hc (hc.arg 0) .string fun v => ?_).follows
    rw [toText_image]
    exact pairs_string _

end Strings

namespace Numbers

theorem mirrors_receiverNumber (hc : p.Pairs c c') (method : String) :
    p.Mirrors (receiverNumber c method) (receiverNumber c' method) := by
  obtain ⟨-, heq⟩ := hc.calledOn
  unfold receiverNumber
  rw [heq]
  cases c.receiver with
  | number n => exact mirrors_pure ⟨trivial, rfl⟩
  | _ => exact mirrors_throw (pairs_raised _ _)

theorem mirrors_receiverBool (hc : p.Pairs c c') (method : String) :
    p.Mirrors (receiverBool c method) (receiverBool c' method) := by
  obtain ⟨-, heq⟩ := hc.calledOn
  unfold receiverBool
  rw [heq]
  cases c.receiver with
  | bool b => exact mirrors_pure ⟨trivial, rfl⟩
  | _ => exact mirrors_throw (pairs_raised _ _)

theorem carries_toText : Carries Numbers.toText := by
  intro p c c' hc _
  refine (mirrors_receiverNumber hc _).bind_follows fun n _ => ?_
  have hinteger : integerOf (c'.arg 0) = integerOf (c.arg 0) := by
    rw [(hc.arg 0).eq, integerOf_image]
  dsimp only
  rw [(hc.arg 0).isUndefined_eq, hinteger]
  generalize (if c.arg 0 == .undefined then 10 else integerOf (c.arg 0)) = radix
  split
  · exact follows_pure (pairs_string _)
  · exact follows_throw (pairs_raised _ _)

theorem carries_toFixed : Carries Numbers.toFixed := by
  intro p c c' hc _
  refine (mirrors_receiverNumber hc _).bind_follows fun n _ => ?_
  have hinteger : integerOf (c'.arg 0) = integerOf (c.arg 0) := by
    rw [(hc.arg 0).eq, integerOf_image]
  dsimp only
  rw [hinteger]
  split
  · exact follows_pure (pairs_string _)
  · exact follows_throw (pairs_raised _ _)

theorem carries_valueOf : Carries Numbers.valueOf :=
  fun _ _ _ hc _ => (mirrors_receiverNumber hc _).bind_follows fun n _ =>
    follows_pure (pairs_number n)

theorem carries_boolText : Carries fun c => do
    return Value.string (Value.bool (← receiverBool c "toString")).toText :=
  fun _ _ _ hc _ => (mirrors_receiverBool hc _).bind_follows fun _ _ =>
    follows_pure (pairs_string _)

theorem carries_boolValue : Carries fun c => do return Value.bool (← receiverBool c "valueOf") :=
  fun _ _ _ hc _ => (mirrors_receiverBool hc _).bind_follows fun b _ =>
    follows_pure (pairs_ofBool b)

theorem carries_convert : Carries Numbers.convert := by
  intro p c c' hc _
  unfold convert
  rw [hc.given.isEmpty_eq]
  split
  · exact follows_pure (hc.reply (pairs_value (pairs_number _)))
  · refine (mirrors_withPrimitive hc (hc.arg 0) .number fun v => ?_).follows
    rw [toNumber_image]
    exact pairs_number _

end Numbers

namespace Mathematics

theorem carries_random : Carries random := fun _ _ _ _ _ =>
  (mirrors_modifyGet (α := Value) fun _ _ hm =>
    ⟨hm.host (g := fun m => { m with random := m.random.next.2 })
      ⟨fun _ _ _ _ _ _ _ _ _ => rfl, fun _ => rfl, fun _ => rfl⟩,
      within_number _ _, congrArg (fun r => Value.number r.next.1) hm.random⟩).follows

/-- A method that gives a number for its arguments as numbers. -/
theorem carries_onNumber (name : String) (f : Float → Float) : Carries (onNumber name f).code :=
  carries_ofValue <| carries_pure fun p c c' hc => by
    rw [(hc.arg 0).toNumber_eq]
    exact pairs_number _

theorem toNumbers_eq (hc : p.Pairs c c') : c'.args.map Value.toNumber = c.args.map Value.toNumber := by
  rw [hc.given.eq]
  refine List.map_map.trans (List.map_congr_left fun v _ => ?_)
  exact toNumber_image p v

end Mathematics

/-! ## JSON -/

namespace JsonText

theorem contains_image (visiting : List ObjectId) (id : ObjectId) :
    (image p visiting).contains (image p id) = visiting.contains id := by
  induction visiting with
  | nil => rfl
  | cons a rest ih =>
    rw [image_cons, List.contains_cons, List.contains_cons, ih, beq_image]

theorem image_json? (j : Option Json) : image p j = j := by cases j <;> rfl

theorem pairs_json (j : Option Json) : p.Pairs j j := ⟨fun _ _ => trivial, (image_json? j).symm⟩

theorem pairs_toJson {m m' : Machine} (hm : p.Machines m m') {actor actor' : Option Owner}
    (hactor : p.Pairs actor actor') (depth : Nat) {visiting visiting' : List ObjectId}
    (hvisiting : p.Pairs visiting visiting') {v v' : Value} (hv : p.Pairs v v') :
    p.Pairs (toJson m actor depth visiting v) (toJson m' actor' depth visiting' v') := by
  induction depth generalizing visiting visiting' v v' with
  | zero =>
    have hcallable := hm.isCallable hv
    obtain ⟨hv, rfl⟩ := hv
    unfold toJson
    cases v with
    | object id =>
      dsimp only [image_ofObject, Value.object?, Option.bind_some] at hcallable ⊢
      rw [hcallable, hvisiting.eq, contains_image]
      split
      · exact pairs_ok (pairs_json _)
      · split
        · exact pairs_error (pairs_raised _ _)
        · exact pairs_error (pairs_raised _ _)
    | _ => exact pairs_ok (pairs_json _)
  | succ depth ih =>
    have hcallable := hm.isCallable hv
    obtain ⟨hv, rfl⟩ := hv
    unfold toJson
    cases v with
    | object id =>
      have hid := pairs_image (p := p) (hv id rfl)
      have hinner : ∀ key : String, p.Pairs
          (do toJson m actor depth (id :: visiting) (← m.getProperty (.object id) key actor))
          (do toJson m' actor' depth (image p id :: visiting')
                (← m'.getProperty (.object (image p id)) key actor')) := fun key =>
        pairs_bind (hm.pairs_getProperty (pairs_ofObject hid) key hactor) fun v hv =>
          ih (pairs_cons hid hvisiting) (pairs_image hv)
      dsimp only [image_ofObject, Value.object?, Option.bind_some] at hcallable ⊢
      rw [hcallable, hvisiting.eq, contains_image, ← hvisiting.eq]
      split
      · exact pairs_ok (pairs_json _)
      split
      · exact pairs_error (pairs_raised _ _)
      refine pairs_bind (hm.heap.pairs_object hid) fun o _ => ?_
      rw [isArray_image]
      split
      · refine pairs_bind (hm.pairs_getProperty (pairs_ofObject hid) "length" hactor)
          fun length _ => ?_
        rw [toNumber_image]
        refine pairs_bind (pairs_mapM _ fun i => hinner _) fun items _ => ?_
        rw [show image p items = items from
          (List.map_congr_left fun j _ => image_json? j).trans (List.map_id items)]
        exact pairs_ok (pairs_json _)
      · refine pairs_bind (hm.pairs_ownKeys hid hactor false) fun keys _ => ?_
        rw [image_texts]
        refine pairs_bind (pairs_mapM keys fun key => pairs_bind (hinner key) fun j _ =>
          pairs_ok (pairs_image (x := (key, j)) ⟨trivial, fun _ _ => trivial⟩))
            fun fields _ => ?_
        rw [show image p fields = fields from
          (List.map_congr_left fun e _ => congrArg (Prod.mk e.1) (image_json? e.2)).trans
            (List.map_id fields)]
        exact pairs_ok (pairs_json _)
    | _ => exact pairs_ok (pairs_json _)

theorem indentOf_eq {v v' : Value} (hv : p.Pairs v v') : indentOf v' = indentOf v := by
  rw [hv.eq]
  cases v <;> rfl

theorem carries_stringify : Carries stringify := by
  intro p c c' hc _
  unfold stringify
  rw [indentOf_eq (hc.arg 2)]
  refine Mirrors.bind_follows (mirrors_query fun _ _ hm =>
    pairs_toJson hm hc.caller maxDepth pairs_nil (hc.arg 0)) fun j _ => ?_
  rw [image_json?]
  cases j with
  | none => exact follows_pure pairs_undefined
  | some j => exact follows_pure (pairs_string _)

mutual

theorem follows_build {p : Pairing} {owner owner' : Option Owner} (howner : p.Pairs owner owner') (j : Json) :
    p.Follows (build owner j) (build owner' j) := by
  match j with
  | .null =>
    unfold build
    exact follows_pure ⟨within_null p, rfl⟩
  | .bool b =>
    unfold build
    exact follows_pure (pairs_ofBool b)
  | .int i =>
    unfold build
    exact follows_pure (pairs_number _)
  | .float n =>
    unfold build
    exact follows_pure (pairs_number n)
  | .str s =>
    unfold build
    exact follows_pure (pairs_string s)
  | .arr items =>
    unfold build
    refine (follows_buildItems howner items).bind fun q hle values values' hvalues => ?_
    exact (follows_createArray hvalues (howner.mono hle)).bind fun _ _ _ _ hid =>
      follows_pure (pairs_ofObject hid)
  | .obj fields =>
    unfold build
    refine (follows_createPlainObject howner).bind fun q hle id id' hid => ?_
    refine (follows_buildFields (howner.mono hle) (pairs_ofObject hid) fields).bind
      fun r hle _ _ _ => ?_
    exact follows_pure (pairs_ofObject (hid.mono hle))

theorem follows_buildItems {p : Pairing} {owner owner' : Option Owner}
    (howner : p.Pairs owner owner') (items : List Json) : p.Follows (buildItems owner items) (buildItems owner' items) := by
  match items with
  | [] =>
    unfold buildItems
    exact follows_pure pairs_nil
  | j :: rest =>
    unfold buildItems
    refine (follows_build howner j).bind fun q hle v v' hv => ?_
    refine (follows_buildItems (howner.mono hle) rest).bind fun r hle vs vs' hvs => ?_
    exact follows_pure (pairs_cons (hv.mono hle) hvs)

theorem follows_buildFields {p : Pairing} {owner owner' : Option Owner}
    (howner : p.Pairs owner owner') {base base' : Value} (hbase : p.Pairs base base') (fields : List (String × Json)) :
    p.Follows (buildFields owner base fields) (buildFields owner' base' fields) := by
  match fields with
  | [] =>
    unfold buildFields
    exact follows_pure pairs_unit
  | (key, j) :: rest =>
    unfold buildFields
    refine (follows_build howner j).bind fun q hle v v' hv => ?_
    exact (mirrors_setProperty (hbase.mono hle) key hv (howner.mono hle)).bind_follows
      fun _ _ => follows_buildFields (howner.mono hle) (hbase.mono hle) rest

end

theorem carries_parse : Carries JsonText.parse := by
  intro p c c' hc _
  unfold parse
  rw [(hc.arg 0).toText_eq]
  dsimp only
  cases Json.read (c.arg 0).toText with
  | error e => exact follows_throw ⟨trivial, rfl⟩
  | ok j => exact follows_build hc.caller j

end JsonText

/-! ## Services of the host -/

namespace Consoles

theorem renderFlat_eq {m m' : Machine} (hm : p.Machines m m') {v v' : Value}
    (hv : p.Pairs v v') : renderFlat m' v' = renderFlat m v := by
  have hdescribe := hm.describe hv
  have herror := hm.renderError hv
  unfold renderFlat
  rw [hv.isObject_eq, hv.toText_eq, hdescribe, herror]
  obtain ⟨hv, rfl⟩ := hv
  cases v with
  | object id =>
    obtain ⟨o, ho, ho', -⟩ := hm.heap.object id (hv id rfl)
    dsimp only [image_ofObject, Value.object?, Option.bind_some]
    rw [ho, ho']
    rfl
  | _ => rfl

theorem render_eq {m m' : Machine} (hm : p.Machines m m') {v v' : Value} (hv : p.Pairs v v') :
    render m' v' = render m v := by
  have hflat := renderFlat_eq hm hv
  obtain ⟨hv, rfl⟩ := hv
  unfold render
  rw [hflat]
  cases v with
  | object id =>
    obtain ⟨o, ho, ho', hw⟩ := hm.heap.object id (hv id rfl)
    dsimp only [image_ofObject, Value.object?, Option.bind_some]
    rw [ho, ho']
    dsimp only
    rw [isArray_image, length_imageObject]
    split
    · refine congrArg _ (List.map_congr_left fun i _ => ?_)
      have hitem := renderFlat_eq hm (pairs_image (within_ownValue hw (Number.natText i)))
      rw [ownValue_image]
      revert hitem
      cases o.ownValue (Number.natText i) with
      | undefined => exact fun _ => rfl
      | _ => exact fun h => h
    · rfl
  | _ => rfl

theorem carries_writer (level : Host.Level) : Carries (Consoles.writer level).code := by
  refine carries_ofValue fun p c c' hc _ => follows_get_bind fun m m' hm => ?_
  have htexts : c'.args.map (render m') = c.args.map (render m) := by
    rw [hc.given.eq]
    refine List.map_map.trans (List.map_congr_left fun v hv => ?_)
    exact render_eq hm (pairs_image (hc.given.within v hv))
  rw [htexts]
  exact (mirrors_write level _).bind_follows fun _ _ => follows_pure pairs_undefined

end Consoles

theorem Globals.carries_evaluate : Carries Globals.evaluate := by
  intro p c c' hc _
  obtain ⟨hw, heq⟩ := hc.resumed
  obtain ⟨hv, heq'⟩ := hc.arg 0
  unfold evaluate
  rw [heq, heq']
  cases hr : c.resumed with
  | some r =>
    exact follows_pure (hc.reply (pairs_value (pairs_image (hw r hr))))
  | none =>
    have hother := pairs_image (p := p) hv
    cases hget : c.arg 0 with
    | string source =>
      refine (follows_load source).bind fun q hle program program' hprogram => ?_
      exact follows_pure ((hc.mono hle).reply
        ⟨hprogram.within, congrArg NativeResult.eval hprogram.eq⟩)
    | _ =>
      rw [hget] at hother
      exact follows_pure (hc.reply (pairs_value hother))

theorem Globals.radixOf_eq {v v' : Value} (hv : p.Pairs v v') : radixOf v' = radixOf v := by
  unfold radixOf
  rw [hv.isUndefined_eq, hv.toNumber_eq]

/-! ## Threads -/

namespace Threads

theorem threadArg?_eq (hc : p.Pairs c c') (i : Nat) : threadArg? c' i = threadArg? c i := by
  unfold threadArg?
  rw [(hc.arg i).toNumber_eq]

theorem millisArg_eq (hc : p.Pairs c c') (i : Nat) : millisArg c' i = millisArg c i := by
  unfold millisArg
  rw [(hc.arg i).toNumber_eq]

theorem carries_setTimeout : Carries setTimeout := by
  intro p c c' hc _
  obtain ⟨hw, heq⟩ := hc.caller
  unfold setTimeout
  rw [heq, millisArg_eq hc]
  cases howner : c.owner with
  | none => exact follows_throw ⟨trivial, rfl⟩
  | some owner =>
    exact (follows_spawnCallAs (hc.arg 0) pairs_undefined (hc.given.drop 2) _
      (pairs_image (hw owner howner)) false).bind fun q _ id id' hid =>
        follows_pure (by rw [hid.eq]; exact pairs_ofNat id.index)

theorem carries_clearTimeout : Carries clearTimeout := by
  intro p c c' hc _
  unfold clearTimeout
  rw [threadArg?_eq hc]
  cases threadArg? c 0 with
  | none => exact follows_pure pairs_undefined
  | some id =>
    exact (mirrors_killThread id).bind_follows fun _ _ => follows_pure pairs_undefined

theorem carries_suspend : Carries suspend := by
  intro p c c' hc _
  unfold suspend
  rw [millisArg_eq hc]
  exact mirrors_now.bind_follows fun _ _ => follows_pure (hc.reply ⟨trivial, rfl⟩)

theorem carries_kill : Carries kill := by
  intro p c c' hc _
  unfold kill
  rw [threadArg?_eq hc]
  cases threadArg? c 0 with
  | none => exact follows_pure (pairs_ofBool _)
  | some id => exact (mirrors_killThread id).bind_follows fun b _ => follows_pure (pairs_ofBool b)

theorem carries_limitThread : Carries limitThread := by
  intro p c c' hc hactor
  have hset : ∀ limit, p.Follows
      (do setTimeLimit c.thread limit; return Value.undefined)
      (do setTimeLimit c'.thread limit; return Value.undefined) := by
    intro limit
    rw [hc.thread_eq]
    exact (mirrors_setTimeLimit hactor limit).bind_follows fun _ _ =>
      follows_pure pairs_undefined
  unfold limitThread
  dsimp only
  rw [(hc.arg 0).isNullish_eq, (hc.arg 0).toNumber_eq]
  split
  · exact hset none
  · split
    · exact follows_throw_bind (pairs_raised _ _) _ _
    · exact hset _

theorem carries_getTimeLimit : Carries getTimeLimit := by
  intro p c c' hc hactor
  refine follows_get_bind fun m m' hm => ?_
  rw [hc.thread_eq, hm.timeLimit hactor]
  cases m.timeLimit c.thread with
  | none => exact follows_pure ⟨within_null p, rfl⟩
  | some n => exact follows_pure (pairs_number n)

theorem carries_perms : Carries perms := by
  intro p c c' hc _
  obtain ⟨hw, heq⟩ := hc.caller
  unfold perms
  rw [heq]
  cases howner : c.owner with
  | none => exact follows_pure ⟨within_null p, rfl⟩
  | some owner => exact follows_pure (pairs_ofObject (pairs_image (hw owner howner)))

theorem carries_setPerms : Carries setPerms := by
  intro p c c' hc _
  refine (mirrors_objectArg hc 0 _).bind_follows fun target htarget => ?_
  have htarget := pairs_image (p := p) htarget
  refine Mirrors.bind_follows (mirrors_query fun _ _ hm =>
    hm.pairs_authorizeOwner hc.caller (pairs_some htarget) .become) fun _ _ => ?_
  exact (mirrors_setScopeOwner hc.callerScope htarget).bind_follows fun _ _ =>
    follows_pure pairs_undefined

end Threads

/-! ## All builtins -/

/-- A method that gives a value at once. -/
theorem carries_direct {name : String} {arity : Nat} {f : NativeCall → Exec Value}
    (h : Carries f) : Carries (Method.direct name arity f).code :=
  carries_ofValue h

theorem Functions.each_carries : Functions.natives.Each (Carries (α := NativeReply)) := by
  refine .cons (carries_ofValue (carries_pure fun _ _ _ _ => pairs_undefined))
    (fun _ h => by cases h) (.methodNatives ?_)
  simp only [protoMethods, List.forall_mem_cons, List.not_mem_nil, false_imp_iff,
    implies_true, and_true]
  exact ⟨carries_call, carries_apply, carries_direct carries_bind, carries_direct carries_toText⟩

theorem Objects.each_carries : Objects.natives.Each (Carries (α := NativeReply)) := by
  have hnative := carries_ofValue carries_construct
  refine .append (.methodNatives ?_) (.cons hnative ?_ (.methodNatives ?_))
  · simp only [protoMethods, List.forall_mem_cons, List.not_mem_nil, false_imp_iff,
      implies_true, and_true]
    exact ⟨carries_direct carries_hasOwn, carries_direct carries_toText,
      carries_direct (carries_pure fun _ _ _ hc => hc.calledOn)⟩
  · rintro _ ⟨⟩
    exact hnative
  · simp only [methods, List.forall_mem_cons, List.not_mem_nil, false_imp_iff,
      implies_true, and_true]
    exact ⟨carries_direct carries_create, carries_direct carries_getPrototypeOf,
      carries_direct carries_setPrototypeOf, carries_direct carries_defineOne,
      carries_direct carries_getDescriptor, carries_direct (carries_keysArray _ _),
      carries_direct (carries_keysArray _ _), carries_direct carries_closeObject,
      carries_direct carries_isExtensible, carries_direct carries_getOwnerOf,
      carries_direct carries_giveOwner⟩

theorem Arrays.each_carries : Arrays.natives.Each (Carries (α := NativeReply)) := by
  have hnative := carries_ofValue carries_construct
  refine .append (.methodNatives ?_) (.cons hnative ?_ (.methodNatives ?_))
  · simp only [protoMethods, List.forall_mem_cons, List.not_mem_nil, false_imp_iff,
      implies_true, and_true]
    exact ⟨carries_direct carries_push, carries_direct carries_pop, carries_join,
      carries_direct carries_indexOf, carries_direct carries_slice, carries_joinWith _⟩
  · rintro _ ⟨⟩
    exact hnative
  · simp only [methods, List.forall_mem_cons, List.not_mem_nil, false_imp_iff,
      implies_true, and_true]
    exact carries_direct carries_isArray

theorem Errors.each_carries : Errors.natives.Each (Carries (α := NativeReply)) := by
  refine .append (.methodNatives ?_) fun e he => ?_
  · simp only [protoMethods, List.forall_mem_cons, List.not_mem_nil, false_imp_iff,
      implies_true, and_true]
    exact carries_direct carries_toText
  · obtain ⟨kind, -, rfl⟩ := List.mem_map.1 he
    have hnative := carries_ofValue (carries_construct kind)
    refine ⟨hnative, ?_⟩
    rintro _ ⟨⟩
    exact hnative

theorem Strings.each_carries : Strings.natives.Each (Carries (α := NativeReply)) := by
  refine .append (.methodNatives ?_) (.cons carries_convert (fun _ h => by cases h) .nil)
  simp only [protoMethods, List.forall_mem_cons, List.not_mem_nil, false_imp_iff,
    implies_true, and_true]
  have hcased : ∀ f : String → String, ∀ ⦃p : Pairing⦄ ⦃c c' : NativeCall⦄, p.Pairs c c' →
      ∀ s, p.Pairs (Value.string (f s)) (.string (f s)) := fun _ _ _ _ _ _ => pairs_string _
  exact ⟨carries_onText fun _ _ _ hc s => pairs_charAt hc s,
    carries_onText fun _ _ _ hc s => pairs_charCodeAt hc s,
    carries_onText fun _ _ _ hc s => pairs_indexOf hc s,
    carries_onText fun _ _ _ hc s => pairs_slice hc s,
    carries_onText fun _ _ _ hc s => pairs_substring hc s,
    carries_onText (hcased _), carries_onText (hcased _), carries_direct carries_toText,
    carries_direct carries_toText⟩

theorem Numbers.each_carries : Numbers.natives.Each (Carries (α := NativeReply)) := by
  refine .append (.append (.methodNatives ?_) (.cons carries_convert (fun _ h => by cases h)
    (.methodNatives ?_))) (.cons ?_ (fun _ h => by cases h) .nil)
  · simp only [protoMethods, List.forall_mem_cons, List.not_mem_nil, false_imp_iff,
      implies_true, and_true]
    exact ⟨carries_direct carries_toText, carries_direct carries_toFixed,
      carries_direct carries_valueOf⟩
  · simp only [boolMethods, List.forall_mem_cons, List.not_mem_nil, false_imp_iff,
      implies_true, and_true]
    exact ⟨carries_direct carries_boolText, carries_direct carries_boolValue⟩
  · exact carries_ofValue (carries_pure fun p c c' hc => by
      rw [(hc.arg 0).truthy_eq]
      exact pairs_ofBool _)

theorem Mathematics.each_carries : Mathematics.natives.Each (Carries (α := NativeReply)) := by
  refine .methodNatives ?_
  simp only [methods, List.forall_mem_cons, List.not_mem_nil, false_imp_iff,
    implies_true, and_true]
  have hbest : ∀ (better : Float → Float → Bool) (first : Float), Carries fun c =>
      (pure (Value.number (best better first (c.args.map Value.toNumber))) : Exec Value) :=
    fun _ _ => carries_pure fun p c c' hc => by
      rw [toNumbers_eq hc]
      exact pairs_number _
  have hpow : Carries fun c =>
      (pure (Value.number (pow (c.arg 0).toNumber (c.arg 1).toNumber)) : Exec Value) :=
    carries_pure fun p c c' hc => by
      rw [(hc.arg 0).toNumber_eq, (hc.arg 1).toNumber_eq]
      exact pairs_number _
  exact ⟨carries_onNumber _ _, carries_onNumber _ _, carries_onNumber _ _, carries_onNumber _ _,
    carries_onNumber _ _, carries_direct hpow, carries_direct (hbest _ _),
    carries_direct (hbest _ _), carries_direct carries_random⟩

theorem JsonText.each_carries : JsonText.natives.Each (Carries (α := NativeReply)) := by
  refine .methodNatives ?_
  simp only [methods, List.forall_mem_cons, List.not_mem_nil, false_imp_iff,
    implies_true, and_true]
  exact ⟨carries_direct carries_stringify, carries_direct carries_parse⟩

theorem Consoles.each_carries : Consoles.natives.Each (Carries (α := NativeReply)) := by
  refine .methodNatives fun m hm => ?_
  obtain ⟨level, -, rfl⟩ := List.mem_map.1 hm
  exact carries_writer level

theorem Globals.each_carries : Globals.natives.Each (Carries (α := NativeReply)) := by
  refine .globalNatives ?_
  simp only [methods, List.forall_mem_cons, List.not_mem_nil, false_imp_iff,
    implies_true, and_true]
  have hparse : ∀ f : String → Float, Carries fun c =>
      (pure (Value.number (f (c.arg 0).toText)) : Exec Value) := fun _ =>
    carries_pure fun p c c' hc => by
      rw [(hc.arg 0).toText_eq]
      exact pairs_number _
  have htest : ∀ f : Float → Bool, Carries fun c =>
      (pure (Value.bool (f (c.arg 0).toNumber)) : Exec Value) := fun _ =>
    carries_pure fun p c c' hc => by
      rw [(hc.arg 0).toNumber_eq]
      exact pairs_ofBool _
  have hparseInt : Carries fun c =>
      (pure (Value.number (Number.parseInt (c.arg 0).toText (radixOf (c.arg 1)))) : Exec Value) :=
    carries_pure fun p c c' hc => by
      rw [(hc.arg 0).toText_eq, radixOf_eq (hc.arg 1)]
      exact pairs_number _
  exact ⟨carries_evaluate, carries_direct hparseInt, carries_direct (hparse _),
    carries_direct (htest _), carries_direct (htest _)⟩

theorem Threads.each_carries : Threads.natives.Each (Carries (α := NativeReply)) := by
  refine .append (.globalNatives ?_) (.methodNatives ?_)
  · simp only [globals, List.forall_mem_cons, List.not_mem_nil, false_imp_iff,
      implies_true, and_true]
    exact ⟨carries_direct carries_setTimeout, carries_direct carries_clearTimeout,
      carries_suspend, carries_direct carries_perms, carries_direct carries_setPerms⟩
  · simp only [methods, List.forall_mem_cons, List.not_mem_nil, false_imp_iff,
      implies_true, and_true]
    have hcurrent : Carries fun c => (pure (Value.nat c.thread.index) : Exec Value) :=
      carries_pure fun p c c' hc => by
        rw [hc.thread_eq]
        exact pairs_ofNat _
    exact ⟨carries_direct hcurrent, carries_direct carries_kill,
      carries_direct carries_limitThread, carries_direct carries_getTimeLimit⟩

/-- Every builtin answers alike when it is called alike. -/
theorem each_carries : natives.Each (Carries (α := NativeReply)) :=
  .append (.append (.append (.append (.append (.append (.append (.append (.append
    (.append Functions.each_carries (.cons carries_toPrimitive (fun _ h => by cases h)
      Objects.each_carries)) Arrays.each_carries) Errors.each_carries)
    Strings.each_carries) Numbers.each_carries) Mathematics.each_carries)
    JsonText.each_carries) Consoles.each_carries) Globals.each_carries)
    Threads.each_carries

end Builtin

end ScriptMachine
