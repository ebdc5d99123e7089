import ScriptMachine.Builtin.All
import ScriptMachine.Proofs.Plain

/-!
# Tables of host functions

What holds of the behaviour of every entry holds of whatever a call finds.
-/

namespace ScriptMachine

open Machine

/-- A property of the behaviours of all entries of a table. -/
def Natives.Each (P : NativeCode → Prop) (natives : Natives) : Prop :=
  ∀ e ∈ natives, P e.2.call ∧ ∀ code, e.2.construct = some code → P code

namespace Natives.Each

variable {P : NativeCode → Prop}

theorem nil : Natives.Each P [] := fun _ h => by cases h

theorem mono {Q : NativeCode → Prop} {natives : Natives} (h : natives.Each P)
    (hPQ : ∀ code, P code → Q code) : natives.Each Q :=
  fun e he => ⟨hPQ _ (h e he).1, fun code hcode => hPQ code ((h e he).2 code hcode)⟩

theorem append {a b : Natives} (ha : a.Each P) (hb : b.Each P) : Natives.Each P (a ++ b) :=
  List.forall_mem_append.2 ⟨ha, hb⟩

theorem cons {name : String} {n : Native} {rest : Natives} (hcall : P n.call)
    (hconstruct : ∀ code, n.construct = some code → P code) (h : rest.Each P) :
    Natives.Each P ((name, n) :: rest) :=
  List.forall_mem_cons.2 ⟨⟨hcall, hconstruct⟩, h⟩

theorem methodNatives {holder : String} {methods : List Builtin.Method}
    (h : ∀ m ∈ methods, P m.code) : (Builtin.methodNatives holder methods).Each P := by
  intro e he
  obtain ⟨m, hm, rfl⟩ := List.mem_map.1 he
  exact ⟨h m hm, fun _ hcode => by cases hcode⟩

theorem globalNatives {methods : List Builtin.Method} (h : ∀ m ∈ methods, P m.code) :
    (Builtin.globalNatives methods).Each P := by
  intro e he
  obtain ⟨m, hm, rfl⟩ := List.mem_map.1 he
  exact ⟨h m hm, fun _ hcode => by cases hcode⟩

/-- What a call runs is the behaviour of an entry. -/
theorem of_nativeCode {natives : Natives} (h : natives.Each P) {id : String} {construct : Bool}
    {code : NativeCode} (hcode : nativeCode natives id construct = .ok code) : P code := by
  unfold nativeCode at hcode
  cases hlookup : natives.lookup id with
  | none =>
    rw [hlookup] at hcode
    cases hcode
  | some entry =>
    rw [hlookup] at hcode
    obtain ⟨before, rest, hsplit, -⟩ := List.lookup_eq_some_iff.1 hlookup
    have hmem : (id, entry) ∈ natives := by
      rw [hsplit]
      simp
    obtain ⟨hcall, hconstruct⟩ := h _ hmem
    cases construct with
    | false =>
      cases hcode
      exact hcall
    | true =>
      cases hfound : entry.construct with
      | none => simp [hfound] at hcode
      | some found =>
        simp only [hfound, if_true, Except.ok.injEq] at hcode
        exact hcode ▸ hconstruct found hfound

end Natives.Each

/-!
## What builtins are made of

All builtins but those that start, end, limit and park threads, and the one that changes the owner of
a scope, are made of plain operations and answer with a value, a call or a program to run. What holds
of every such answer, and of those six, holds of all builtins.
-/

open Exec

/-- Whether an answer takes the thread out of the run queue. -/
def NativeResult.parks : NativeResult → Bool
  | .block => true
  | .sleep _ => true
  | _ => false

/-- Properties of the operations that a call of a host function is made of, with one of the answers that
come of them and park nothing. -/
structure Exec.Serving (c : NativeCall) (P W : ∀ {α : Type}, Exec α → Prop)
    (R : Exec NativeReply → Prop) : Prop extends Writing (· = c.owner) P W where
  reply (r : NativeReply) (hr : r.result.parks = false) : R (Pure.pure r)
  fail (e : Failure) : R (MonadExcept.throw e)
  after {α : Type} {x : Exec α} {f : α → Exec NativeReply} (hx : P x) (hf : ∀ a, R (f a)) :
    R (x >>= f)
  value {x : Exec Value} (hx : W x) :
    R (x >>= fun v => Pure.pure (c.reply (.value v)))
  /-- Pushing and popping edit an array more than once. -/
  push : W (Builtin.Arrays.push c)
  pop : W (Builtin.Arrays.pop c)

namespace Builtin

section Receivers

variable {c : NativeCall} {P : ∀ {α : Type}, Exec α → Prop} (h : Regular P)

include h

theorem plain_receiverObject (method : String) : P (receiverObject c method) := by
  unfold receiverObject
  split
  · exact h.pure _
  · exact h.throw _

theorem plain_objectArg (i : Nat) (method : String) : P (objectArg c i method) := by
  unfold objectArg
  split
  · exact h.pure _
  · exact h.throw _

end Receivers

namespace Arrays

variable {c : NativeCall} {P : ∀ {α : Type}, Exec α → Prop} (h : Regular P)

include h

theorem plain_pushFrom {base : ObjectId} (hbase : Crafts (· = c.owner) P base) (i : Nat)
    (values : List Value) : P (pushFrom (.object base) c.owner i values) := by
  induction values generalizing i with
  | nil => exact h.pure _
  | cons v rest ih => exact h.bind (hbase.setProperty _ v _ rfl) fun _ => ih _

theorem plain_push (hreceiver : ∀ id, c.receiver.object? = some id → Crafts (· = c.owner) P id) :
    P (push c) := by
  unfold push receiverObject
  split
  · rename_i id hid
    have hcrafts := hreceiver id hid
    rw [pure_bind]
    refine h.bind (h.query _) fun length => h.bind (plain_pushFrom h hcrafts length _) fun _ => ?_
    exact h.bind (hcrafts.setProperty _ _ _ rfl) fun _ => h.pure _
  · exact h.throw_bind _ _

theorem plain_pop (hreceiver : ∀ id, c.receiver.object? = some id → Crafts (· = c.owner) P id) :
    P (pop c) := by
  unfold pop receiverObject
  split
  · rename_i id hid
    have hcrafts := hreceiver id hid
    rw [pure_bind]
    refine h.bind (h.query _) fun length => ?_
    split
    · exact h.bind (hcrafts.setProperty _ _ _ rfl) fun _ => h.pure _
    · refine h.bind (h.query _) fun v => h.bind (hcrafts.deleteProperty _ _ rfl) fun _ => ?_
      exact h.bind (hcrafts.setProperty _ _ _ rfl) fun _ => h.pure _
  · exact h.throw_bind _ _

end Arrays

end Builtin

/-- Answers are as good as the operations they are made of. -/
theorem Exec.Plain.serving {c : NativeCall} {P : ∀ {α : Type}, Exec α → Prop}
    (h : Plain (· = c.owner) P) : Serving c P P P where
  toWriting := h.writing
  reply r _ := h.pure r
  fail := h.throw
  after hx hf := h.bind hx hf
  value hx := h.bind hx fun _ => h.pure _
  push := Builtin.Arrays.plain_push h.toRegular fun id _ => h.crafts id
  pop := Builtin.Arrays.plain_pop h.toRegular fun id _ => h.crafts id

namespace Builtin

section Calls

variable {c : NativeCall} {P W : ∀ {α : Type}, Exec α → Prop} {R : Exec NativeReply → Prop}
  (h : Serving c P W R)

include h

theorem reply_withPrimitive (v : Value) (hint : Hint)
    (finish : Value → Value) : R (withPrimitive c v hint finish) := by
  unfold withPrimitive
  split
  · exact h.reply _ rfl
  · split
    · exact h.after (h.query _) fun _ => h.reply _ rfl
    · exact h.reply _ rfl

/-! ## Functions and conversions -/

theorem reply_tryMethods (v : Value) (tried : Nat) (names : List String) :
    R (tryMethods c v tried names) := by
  induction names generalizing tried with
  | nil => exact h.fail _
  | cons name rest ih =>
    refine h.after (h.query _) fun method => h.after h.get fun m => ?_
    split
    · exact h.reply _ rfl
    · exact ih _

theorem reply_toPrimitive : R (toPrimitive c) := by
  unfold toPrimitive
  dsimp only
  split
  · exact h.reply _ rfl
  · split
    · split
      · exact reply_tryMethods h _ _ _
      · exact h.reply _ rfl
    · exact reply_tryMethods h _ _ _

namespace Functions

theorem reply_call : R (call c) := by
  unfold call
  split
  · exact h.reply _ rfl
  · exact h.reply _ rfl

theorem reply_apply : R (apply c) := by
  unfold apply
  split
  · exact h.reply _ rfl
  · dsimp only
    split
    · exact h.after (h.query _) fun _ => h.reply _ rfl
    · split
      · exact h.reply _ rfl
      · exact h.fail _

theorem plain_bind : P (Functions.bind c) := by
  refine h.bind (plain_receiverObject h.toRegular _) fun target => ?_
  refine h.bind (h.heapQuery _) fun o => ?_
  dsimp only
  split
  · exact h.throw_bind _ _
  · refine h.bind (h.builtinObject _) fun proto => ?_
    exact h.bind (h.alloc _) fun _ => h.pure _

theorem plain_toText : P (Functions.toText c) := by
  refine h.bind (plain_receiverObject h.toRegular _) fun func => ?_
  refine h.bind (h.heapQuery _) fun o => ?_
  split
  · exact h.bind (h.heapQuery _) fun _ => h.pure _
  · exact h.pure _
  · exact h.throw _

end Functions

/-! ## Objects -/

namespace Objects

theorem plain_protoArg (i : Nat) : P (protoArg c i) := by
  unfold protoArg
  split
  · exact h.pure _
  · exact h.pure _
  · exact h.throw _

theorem plain_defineAll {target : ObjectId} (htarget : Crafts (· = c.owner) P target)
    (source : Value) (keys : List String) : P (defineAll target source c.owner keys) := by
  induction keys with
  | nil => exact h.pure _
  | cons key rest ih =>
    refine h.bind (h.query _) fun field => h.bind (h.query _) fun d => ?_
    exact h.bind (htarget.defineProperty key d _ rfl) fun _ => ih

theorem plain_construct : P (construct c) := by
  unfold construct
  split
  · exact h.pure _
  · exact h.bind (h.createPlainObject _) fun _ => h.pure _

theorem plain_create : P (create c) := by
  refine h.bind (plain_protoArg h 0) fun proto => ?_
  refine h.craft _ fun id hid => ?_
  dsimp only
  split
  · refine h.bind (h.query _) fun keys => ?_
    exact h.bind (plain_defineAll h hid _ keys) fun _ => h.pure _
  · exact h.pure _

theorem plain_getPrototypeOf : P (getPrototypeOf c) := by
  refine h.bind (plain_objectArg h.toRegular 0 _) fun id => ?_
  exact h.bind (h.query _) fun _ => h.pure _

theorem writing_setPrototypeOf : W (setPrototypeOf c) := by
  refine h.first (plain_objectArg h.toRegular 0 _) fun id => ?_
  refine h.first (plain_protoArg h 1) fun proto => ?_
  exact h.last (h.setPrototype id proto _ rfl) fun _ => h.pure _

theorem writing_defineOne : W (defineOne c) := by
  refine h.first (plain_objectArg h.toRegular 0 _) fun id => h.first (h.query _) fun d => ?_
  exact h.last (h.defineProperty id _ d _ rfl) fun _ => h.pure _

theorem plain_getDescriptor : P (getDescriptor c) := by
  refine h.bind (plain_objectArg h.toRegular 0 _) fun id => h.bind (h.query _) fun found => ?_
  cases found with
  | none => exact h.pure _
  | some p =>
    exact h.build c.owner (f := fun o => (((o.put "value" (.data p.value)).put "writable"
      (.data (.bool p.writable))).put "enumerable" (.data (.bool p.enumerable))).put "configurable"
        (.data (.bool p.configurable))) (fun _ => ⟨rfl, rfl, rfl, rfl, rfl⟩) Value.object

theorem plain_keysArray (includeHidden : Bool) (method : String) : P (keysArray includeHidden method c) := by
  refine h.bind (plain_objectArg h.toRegular 0 _) fun id => h.bind (h.query _) fun keys => ?_
  exact h.bind (h.createArray _ _) fun _ => h.pure _

theorem writing_closeObject : W (closeObject c) := by
  refine h.first (plain_objectArg h.toRegular 0 _) fun id => ?_
  exact h.last (h.preventExtensions id _ rfl) fun _ => h.pure _

theorem plain_isExtensible : P (isExtensible c) := by
  refine h.bind (plain_objectArg h.toRegular 0 _) fun id => ?_
  exact h.bind (h.query _) fun _ => h.pure _

theorem plain_getOwnerOf : P (getOwnerOf c) := by
  refine h.bind (plain_objectArg h.toRegular 0 _) fun id => ?_
  exact h.bind (h.query _) fun _ => h.pure _

theorem writing_giveOwner : W (giveOwner c) := by
  refine h.first (plain_objectArg h.toRegular 0 _) fun id => ?_
  refine h.first (plain_objectArg h.toRegular 1 _) fun owner => ?_
  exact h.last (h.setOwnerOf id owner _ rfl) fun _ => h.pure _

theorem plain_hasOwn : P (hasOwn c) := by
  refine h.bind (plain_receiverObject h.toRegular _) fun id => ?_
  exact h.bind (h.query _) fun _ => h.pure _

theorem plain_toText : P (Objects.toText c) := by
  unfold toText
  dsimp only
  split
  · exact h.pure _
  · exact h.pure _
  · exact h.pure _
  · exact h.pure _
  · exact h.pure _
  · exact h.bind (h.heapQuery _) fun _ => h.pure _

end Objects

/-! ## Arrays -/

namespace Arrays

theorem writing_construct : W (construct c) := by
  unfold construct
  split
  · split
    · exact h.mild (h.throw _)
    · refine h.first (h.createArray _ _) fun id => ?_
      exact h.last (h.setProperty _ _ _ _ rfl) fun _ => h.pure _
  · exact h.mild (h.bind (h.createArray _ _) fun _ => h.pure _)

theorem plain_isArray : P (isArray c) := by
  unfold isArray
  split
  · exact h.bind (h.heapQuery _) fun _ => h.pure _
  · exact h.pure _

theorem reply_joinFrom (id : ObjectId) (separator : String)
    (func : Option Value) (left i : Nat) (out : String) :
    R (joinFrom c id separator func left i out) := by
  induction left generalizing i out with
  | zero => exact h.reply _ rfl
  | succ left ih =>
    refine h.after (h.query _) fun v => ?_
    split
    · split
      · exact h.reply _ rfl
      · exact h.fail _
    · exact ih _ _

theorem reply_joinWith (separator : String) : R (joinWith separator c) := by
  refine h.after (plain_receiverObject h.toRegular _) fun id => h.after (h.query _) fun length => ?_
  exact h.after h.get fun m => reply_joinFrom h id separator _ _ _ _

theorem reply_join : R (join c) := by
  unfold join
  split
  · exact reply_joinWith h _
  · exact reply_joinWith h _

theorem plain_indexOf : P (Arrays.indexOf c) := by
  refine h.bind (plain_receiverObject h.toRegular _) fun id => h.bind (h.query _) fun length => ?_
  refine h.bind (h.query _) fun found => ?_
  split
  · exact h.pure _
  · exact h.pure _

theorem plain_slice : P (Arrays.slice c) := by
  refine h.bind (plain_receiverObject h.toRegular _) fun id => h.bind (h.query _) fun length => ?_
  refine h.bind (h.query _) fun values => ?_
  exact h.bind (h.createArray _ _) fun _ => h.pure _

end Arrays

/-! ## Other values -/

namespace Errors

theorem plain_construct (kind : ErrorKind) : P (construct kind c) :=
  h.bind (h.createError _ _ _ _) fun _ => h.pure _

theorem plain_toText : P (Errors.toText c) := by
  refine h.bind (plain_receiverObject h.toRegular _) fun _ => h.bind (h.query _) fun name => ?_
  exact h.bind (h.query _) fun message => h.pure _

end Errors

namespace Strings

theorem reply_onText (name : String) (arity : Nat) (f : String → NativeCall → Value) :
    R ((onText name arity f).code c) :=
  h.after (h.bind (h.query _) fun _ => h.pure _) fun _ => h.reply _ rfl

theorem plain_toText : P (Strings.toText c) := by
  unfold toText
  split
  · exact h.pure _
  · exact h.throw _

theorem reply_convert : R (Strings.convert c) := by
  unfold convert
  split
  · exact h.reply _ rfl
  · exact reply_withPrimitive h _ _ _

end Strings

namespace Numbers

theorem plain_receiverNumber (method : String) : P (receiverNumber c method) := by
  unfold receiverNumber
  split
  · exact h.pure _
  · exact h.throw _

theorem plain_receiverBool (method : String) : P (receiverBool c method) := by
  unfold receiverBool
  split
  · exact h.pure _
  · exact h.throw _

theorem plain_toText : P (Numbers.toText c) := by
  refine h.bind (plain_receiverNumber h _) fun n => ?_
  extract_lets radix
  split
  · exact h.pure _
  · exact h.throw _

theorem plain_toFixed : P (Numbers.toFixed c) := by
  refine h.bind (plain_receiverNumber h _) fun n => ?_
  dsimp only
  split
  · exact h.pure _
  · exact h.throw _

theorem plain_valueOf : P (Numbers.valueOf c) :=
  h.bind (plain_receiverNumber h _) fun _ => h.pure _

theorem reply_convert : R (Numbers.convert c) := by
  unfold convert
  split
  · exact h.reply _ rfl
  · exact reply_withPrimitive h _ _ _

end Numbers

namespace JsonText

theorem plain_stringify : P (stringify c) := by
  refine h.bind (h.query _) fun json => ?_
  split
  · exact h.pure _
  · exact h.pure _

mutual

theorem plain_buildValue (j : Json) : P (build c.owner j) := by
  match j with
  | .null | .bool _ | .int _ | .float _ | .str _ =>
    unfold build
    exact h.pure _
  | .arr items =>
    unfold build
    refine h.bind (plain_buildItems items) fun values => ?_
    exact h.bind (h.createArray _ _) fun _ => h.pure _
  | .obj fields =>
    unfold build
    refine h.craft_createPlainObject _ fun id hid => ?_
    exact h.bind (plain_buildFields hid fields) fun _ => h.pure _

theorem plain_buildItems (items : List Json) : P (buildItems c.owner items) := by
  match items with
  | [] =>
    unfold buildItems
    exact h.pure _
  | j :: rest =>
    unfold buildItems
    refine h.bind (plain_buildValue j) fun v => ?_
    exact h.bind (plain_buildItems rest) fun _ => h.pure _

theorem plain_buildFields {id : ObjectId} (hid : Crafts (· = c.owner) P id)
    (fields : List (String × Json)) : P (buildFields c.owner (.object id) fields) := by
  match fields with
  | [] =>
    unfold buildFields
    exact h.pure _
  | (key, j) :: rest =>
    unfold buildFields
    refine h.bind (plain_buildValue j) fun v => ?_
    exact h.bind (hid.setProperty key v _ rfl) fun _ => plain_buildFields hid rest

end

theorem plain_parse : P (JsonText.parse c) := by
  unfold parse
  dsimp only
  split
  · exact plain_buildValue h _
  · exact h.throw _

end JsonText

theorem Consoles.reply_writer (level : Host.Level) : R ((Consoles.writer level).code c) :=
  h.after (h.bind h.get fun _ => h.bind (h.write level _) fun _ => h.pure _) fun _ => h.reply _ rfl

theorem Globals.reply_evaluate : R (Globals.evaluate c) := by
  unfold evaluate
  split
  · exact h.reply _ rfl
  · exact h.after (h.load _) fun _ => h.reply _ rfl
  · exact h.reply _ rfl

namespace Threads

theorem reply_suspend (hsleep : ∀ time, R (pure (c.reply (.sleep time)))) : R (suspend c) :=
  h.after h.now fun _ => hsleep _

theorem plain_getTimeLimit : P (getTimeLimit c) := by
  refine h.bind h.get fun m => ?_
  split
  · exact h.pure _
  · exact h.pure _

theorem plain_perms : P (perms c) := by
  unfold perms
  split
  · exact h.pure _
  · exact h.pure _

end Threads

end Calls

/-! ## All builtins -/

section All

variable {P W : NativeCall → ∀ {α : Type}, Exec α → Prop} {R : NativeCall → Exec NativeReply → Prop}
  {G : NativeCode → Prop} (h : ∀ c, Serving c (P c) (W c) (R c))
  (hG : ∀ code : NativeCode, (∀ c, R c (code c)) → G code)

include h hG

/-- A host function that edits an object, and gives a value at once. -/
theorem good_writing {f : NativeCall → Exec Value} (hf : ∀ c, W c (f c)) : G (.ofValue f) :=
  hG _ fun c => (h c).value (hf c)

/-- A host function that gives a value at once. -/
theorem good_ofValue {f : NativeCall → Exec Value} (hf : ∀ c, P c (f c)) : G (.ofValue f) :=
  good_writing h hG fun c => (h c).mild (hf c)

/-- A method that gives a value at once. -/
theorem good_direct {name : String} {arity : Nat} {f : NativeCall → Exec Value}
    (hf : ∀ c, P c (f c)) : G (Method.direct name arity f).code :=
  good_ofValue h hG hf

/-- A method that computes a value. -/
theorem good_pure {name : String} {arity : Nat} (f : NativeCall → Value) :
    G (Method.direct name arity fun c => return f c).code :=
  good_direct h hG fun c => (h c).pure _

theorem Functions.each_of_serving : Functions.natives.Each G := by
  refine .cons (good_ofValue h hG fun c => (h c).pure _) (fun _ h => by cases h) (.methodNatives ?_)
  simp only [protoMethods, List.forall_mem_cons, List.not_mem_nil, false_imp_iff,
    implies_true, and_true]
  exact ⟨hG _ fun c => reply_call (h c), hG _ fun c => reply_apply (h c),
    good_direct h hG fun c => plain_bind (h c), good_direct h hG fun c => plain_toText (h c)⟩

theorem Objects.each_of_serving : Objects.natives.Each G := by
  have hnative : G (.ofValue construct) := good_ofValue h hG fun c => plain_construct (h c)
  have hdirect {name : String} {arity : Nat} {f : NativeCall → Exec Value} (hf : ∀ c, P c (f c)) :
      G (Method.direct name arity f).code := good_direct h hG hf
  refine .append (.methodNatives ?_) (.cons hnative ?_ (.methodNatives ?_))
  · simp only [protoMethods, List.forall_mem_cons, List.not_mem_nil, false_imp_iff,
      implies_true, and_true]
    exact ⟨hdirect fun c => plain_hasOwn (h c), hdirect fun c => plain_toText (h c), good_pure h hG _⟩
  · rintro _ ⟨⟩
    exact hnative
  · simp only [methods, List.forall_mem_cons, List.not_mem_nil, false_imp_iff,
      implies_true, and_true]
    exact ⟨hdirect fun c => plain_create (h c), hdirect fun c => plain_getPrototypeOf (h c),
      good_writing h hG fun c => writing_setPrototypeOf (h c),
      good_writing h hG fun c => writing_defineOne (h c),
      hdirect fun c => plain_getDescriptor (h c), hdirect fun c => plain_keysArray (h c) _ _,
      hdirect fun c => plain_keysArray (h c) _ _,
      good_writing h hG fun c => writing_closeObject (h c),
      hdirect fun c => plain_isExtensible (h c), hdirect fun c => plain_getOwnerOf (h c),
      good_writing h hG fun c => writing_giveOwner (h c)⟩

theorem Arrays.each_of_serving : Arrays.natives.Each G := by
  have hnative : G (.ofValue construct) := good_writing h hG fun c => writing_construct (h c)
  refine .append (.methodNatives ?_) (.cons hnative ?_ (.methodNatives ?_))
  · simp only [protoMethods, List.forall_mem_cons, List.not_mem_nil, false_imp_iff,
      implies_true, and_true]
    exact ⟨good_writing h hG fun c => (h c).push, good_writing h hG fun c => (h c).pop,
      hG _ fun c => reply_join (h c), good_direct h hG fun c => plain_indexOf (h c),
      good_direct h hG fun c => plain_slice (h c), hG _ fun c => reply_joinWith (h c) _⟩
  · rintro _ ⟨⟩
    exact hnative
  · simp only [methods, List.forall_mem_cons, List.not_mem_nil, false_imp_iff,
      implies_true, and_true]
    exact good_direct h hG fun c => plain_isArray (h c)

theorem Errors.each_of_serving : Errors.natives.Each G := by
  refine .append (.methodNatives ?_) fun e he => ?_
  · simp only [protoMethods, List.forall_mem_cons, List.not_mem_nil, false_imp_iff,
      implies_true, and_true]
    exact good_direct h hG fun c => plain_toText (h c)
  · obtain ⟨kind, -, rfl⟩ := List.mem_map.1 he
    have hnative : G (.ofValue (construct kind)) :=
      good_ofValue h hG fun c => plain_construct (h c) kind
    refine ⟨hnative, ?_⟩
    rintro _ ⟨⟩
    exact hnative

theorem Strings.each_of_serving : Strings.natives.Each G := by
  refine .append (.methodNatives ?_) (.cons ?_ (fun _ h => by cases h)
    fun _ h => by cases h)
  · simp only [protoMethods, List.forall_mem_cons, List.not_mem_nil, false_imp_iff,
      implies_true, and_true]
    have htext (name : String) (arity : Nat) (f : String → NativeCall → Value) :
        G (onText name arity f).code := hG _ fun c => reply_onText (h c) name arity f
    exact ⟨htext _ _ _, htext _ _ _, htext _ _ _, htext _ _ _, htext _ _ _, htext _ _ _,
      htext _ _ _, good_direct h hG fun c => plain_toText (h c),
      good_direct h hG fun c => plain_toText (h c)⟩
  · exact hG _ fun c => reply_convert (h c)

theorem Numbers.each_of_serving : Numbers.natives.Each G := by
  refine .append (.append (.methodNatives ?_) (.cons ?_ (fun _ h => by cases h)
    (.methodNatives ?_))) (.cons ?_ (fun _ h => by cases h) fun _ h => by cases h)
  · simp only [protoMethods, List.forall_mem_cons, List.not_mem_nil, false_imp_iff,
      implies_true, and_true]
    exact ⟨good_direct h hG fun c => plain_toText (h c),
      good_direct h hG fun c => plain_toFixed (h c), good_direct h hG fun c => plain_valueOf (h c)⟩
  · exact hG _ fun c => reply_convert (h c)
  · simp only [boolMethods, List.forall_mem_cons, List.not_mem_nil, false_imp_iff,
      implies_true, and_true]
    exact ⟨good_direct h hG fun c => (h c).bind (plain_receiverBool (h c) _) fun _ => (h c).pure _,
      good_direct h hG fun c => (h c).bind (plain_receiverBool (h c) _) fun _ => (h c).pure _⟩
  · exact good_ofValue h hG fun c => (h c).pure _

theorem Mathematics.each_of_serving : Mathematics.natives.Each G := by
  refine .methodNatives ?_
  simp only [methods, List.forall_mem_cons, List.not_mem_nil, false_imp_iff,
    implies_true, and_true]
  have hnumber : ∀ name f, G (onNumber name f).code :=
    fun _ _ => good_direct h hG fun c => (h c).pure _
  exact ⟨hnumber _ _, hnumber _ _, hnumber _ _, hnumber _ _, hnumber _ _, good_pure h hG _,
    good_pure h hG _, good_pure h hG _, good_direct h hG fun c => (h c).random c⟩

theorem JsonText.each_of_serving : JsonText.natives.Each G := by
  refine .methodNatives ?_
  simp only [methods, List.forall_mem_cons, List.not_mem_nil, false_imp_iff,
    implies_true, and_true]
  exact ⟨good_direct h hG fun c => plain_stringify (h c), good_direct h hG fun c => plain_parse (h c)⟩

theorem Consoles.each_of_serving : Consoles.natives.Each G := by
  refine .methodNatives fun m hm => ?_
  obtain ⟨level, -, rfl⟩ := List.mem_map.1 hm
  exact hG _ fun c => reply_writer (h c) level

theorem Globals.each_of_serving : Globals.natives.Each G := by
  refine .globalNatives ?_
  simp only [methods, List.forall_mem_cons, List.not_mem_nil, false_imp_iff,
    implies_true, and_true]
  exact ⟨hG _ fun c => reply_evaluate (h c), good_pure h hG _, good_pure h hG _, good_pure h hG _,
    good_pure h hG _⟩

/-- What holds of the answers of plain operations, and of the builtins that have to do with threads
and with owners of scopes, holds of all builtins. -/
theorem each_of_serving (hsetTimeout : G (.ofValue Threads.setTimeout))
    (hclearTimeout : G (.ofValue Threads.clearTimeout)) (hsuspend : G Threads.suspend)
    (hsetPerms : G (.ofValue Threads.setPerms)) (hkill : G (.ofValue Threads.kill))
    (hlimit : G (.ofValue Threads.limitThread)) : natives.Each G := by
  have hthreads : Threads.natives.Each G := by
    refine .append (.globalNatives ?_) (.methodNatives ?_)
    · simp only [Threads.globals, List.forall_mem_cons, List.not_mem_nil, false_imp_iff,
        implies_true, and_true]
      exact ⟨hsetTimeout, hclearTimeout, hsuspend,
        good_direct h hG fun c => Threads.plain_perms (h c), hsetPerms⟩
    · simp only [Threads.methods, List.forall_mem_cons, List.not_mem_nil, false_imp_iff,
        implies_true, and_true]
      exact ⟨good_pure h hG _, hkill, hlimit,
        good_direct h hG fun c => Threads.plain_getTimeLimit (h c)⟩
  have hprimitive : G toPrimitive := hG _ fun c => reply_toPrimitive (h c)
  exact .append (.append (.append (.append (.append (.append (.append (.append (.append
    (.append (Functions.each_of_serving h hG) (.cons hprimitive (fun _ h => by cases h)
      (Objects.each_of_serving h hG))) (Arrays.each_of_serving h hG))
    (Errors.each_of_serving h hG)) (Strings.each_of_serving h hG)) (Numbers.each_of_serving h hG))
    (Mathematics.each_of_serving h hG)) (JsonText.each_of_serving h hG))
    (Consoles.each_of_serving h hG)) (Globals.each_of_serving h hG)) hthreads

end All

/-- A property of operations that any change of the heap has is one of all builtins but those that
start a thread, end one or limit its time. -/
theorem each_of_free {P : ∀ {α : Type}, Exec α → Prop} (h : Free P) {G : NativeCode → Prop}
    (hG : ∀ code : NativeCode, (∀ c, P (code c)) → G code)
    (hsetTimeout : G (.ofValue Threads.setTimeout))
    (hclearTimeout : G (.ofValue Threads.clearTimeout)) (hkill : G (.ofValue Threads.kill))
    (hlimit : G (.ofValue Threads.limitThread)) : natives.Each G := by
  have hserving (c : NativeCall) : Serving c P P P := (h.plain _).serving
  have hsetPerms (c : NativeCall) : P (Threads.setPerms c) :=
    h.bind (plain_objectArg h.toRegular 0 _) fun _ => h.bind (h.query _) fun _ =>
      h.bind (h.setScopeOwner _ _) fun _ => h.pure _
  exact each_of_serving hserving hG hsetTimeout hclearTimeout
    (hG _ fun c => Threads.reply_suspend (hserving c) fun _ => h.pure _)
    (good_ofValue hserving hG hsetPerms) hkill hlimit

end Builtin

end ScriptMachine
