import ScriptMachine.Proofs.Natives
import ScriptMachine.Proofs.Pairing.Expression

/-!
# Paired calls

A call advances alike on paired machines, given host functions that do. The chain of bound functions
behind a callee ends before the fuel does on both sides.
-/

namespace ScriptMachine

namespace Pairing

open Machine Exec
open ScriptMachine.Tree (NodeId NodeKind)

variable {p q : Pairing}

/-! ## Host functions -/

/-- A host function answers alike when it is called alike by the thread being stepped. -/
def Carries {α : Type} [Carried α] (code : NativeCall → Exec α) : Prop :=
  ∀ ⦃p : Pairing⦄ ⦃c c' : NativeCall⦄, p.Pairs c c' → p.actor = some c.thread →
    p.Follows (code c) (code c')

/-- Every host function of a table answers alike when it is called alike from now on. -/
def Answers (p : Pairing) (natives : Natives) : Prop :=
  ∀ ⦃q : Pairing⦄, p ≤ q → ∀ ⦃c c' : NativeCall⦄, q.Pairs c c' → q.actor = some c.thread →
    ∀ id construct code, nativeCode natives id construct = .ok code → q.Follows (code c) (code c')

theorem answers_of_carries {natives : Natives} (h : natives.Each (Carries (α := NativeReply))) :
    p.Answers natives :=
  fun _ _ _ _ hc hactor _ _ _ hcode => h.of_nativeCode hcode hc hactor

namespace Pairs

section Infos

variable {c c' : CallInfo} (hc : p.Pairs c c')

include hc

theorem func : p.Pairs c.func c'.func := ⟨hc.within.func, congrArg CallInfo.func hc.eq⟩
theorem receiver : p.Pairs c.receiver c'.receiver :=
  ⟨hc.within.receiver, congrArg CallInfo.receiver hc.eq⟩
theorem args : p.Pairs c.args c'.args := ⟨hc.within.args, congrArg CallInfo.args hc.eq⟩
theorem scratch : p.Pairs c.scratch c'.scratch :=
  ⟨hc.within.scratch, congrArg CallInfo.scratch hc.eq⟩
theorem newObject : p.Pairs c.newObject c'.newObject :=
  ⟨hc.within.newObject, congrArg CallInfo.newObject hc.eq⟩
theorem construct_eq : c'.construct = c.construct := by rw [hc.eq]; rfl

theorem withPhase (phase : CallPhase) :
    p.Pairs ({ c with phase } : CallInfo) { c' with phase } :=
  ⟨{ hc.within with }, by rw [hc.eq]; rfl⟩

theorem withNewObject {newObject newObject' : Option ObjectId} (hnew : p.Pairs newObject newObject') :
    p.Pairs ({ c with newObject } : CallInfo) { c' with newObject := newObject' } :=
  ⟨{ hc.within with newObject := hnew.within }, by rw [hc.eq, hnew.eq]; rfl⟩

/-- The call that a bound function stands for. -/
theorem unboundOnce {target : ObjectId} {receiver : Value} {args : List Value}
    (htarget : Within p target) (hreceiver : Within p receiver) (hargs : Within p args) :
    p.Pairs
      ({ c with
         func := .object target
         receiver := if c.construct then c.receiver else receiver
         args := args ++ c.args } : CallInfo)
      { c' with
        func := .object (image p target)
        receiver := if c'.construct then c'.receiver else image p receiver
        args := image p args ++ c'.args } := by
  obtain ⟨hw, rfl⟩ := hc
  refine ⟨{ hw with
    func := (within_ofObject p target).2 htarget
    receiver := ?_
    args := (within_append p args c.args).2 ⟨hargs, hw.args⟩ }, ?_⟩
  · dsimp only
    split
    · exact hw.receiver
    · exact hreceiver
  · rw [image_construct, image_callReceiver, image_args, ← image_append, ← apply_ite (image p)]
    rfl

end Infos

theorem withNode {node node' : NodeRef} (hnode : p.Pairs node node') (n : NodeId) :
    p.Pairs ({ node with node := n } : NodeRef) { node' with node := n } :=
  ⟨hnode.within, by rw [hnode.eq]; rfl⟩

theorem withCall {f f' : Frame} (hf : p.Pairs f f') {c c' : CallInfo} (hc : p.Pairs c c') :
    p.Pairs ({ f with info := .call c } : Frame) { f' with info := .call c' } :=
  hf.withInfo ⟨hc.within, congrArg FrameInfo.call hc.eq⟩

end Pairs

theorem pairs_ofNode {node node' : NodeRef} (hnode : p.Pairs node node') {scope scope' : ScopeId}
    (hscope : p.Pairs scope scope') : p.Pairs (Frame.ofNode node scope) (.ofNode node' scope') :=
  ⟨Frame.within_ofNode hnode.within hscope.within, by rw [hnode.eq, hscope.eq]; rfl⟩

variable {f f' : Frame} {call call' : CallInfo} (hf : p.Pairs f f') (hcall : p.Pairs call call')

include hf hcall

/-! ## Closures -/

/-- The body of a closure is entered alike once the object under construction is there. -/
theorem follows_enterBody {newObject newObject' : Option ObjectId}
    (hnew : p.Pairs newObject newObject') {owner owner' : Option Owner}
    (howner : p.Pairs owner owner') {node node' : NodeRef} (hnode : p.Pairs node node')
    {closure closure' : ScopeId} (hclosure : p.Pairs closure closure') {receiver receiver' : Value}
    (hreceiver : p.Pairs receiver receiver') (literal : Tree.FunctionNode) :
    p.Follows
      (do
        let scope ← newScope .function (some closure) owner (some receiver)
        declareParams scope literal.params call.args
        if !(← bindsLocally scope "arguments") then
          let arguments ← createArguments call.args owner
          declare scope "arguments" (.object arguments) false
        hoist literal.hoisted node.program scope
        return Step.push { f with info := .call { call with phase := .running, newObject } }
          (.ofNode { node with node := literal.body } scope))
      (do
        let scope ← newScope .function (some closure') owner' (some receiver')
        declareParams scope literal.params call'.args
        if !(← bindsLocally scope "arguments") then
          let arguments ← createArguments call'.args owner'
          declare scope "arguments" (.object arguments) false
        hoist literal.hoisted node'.program scope
        return Step.push
          { f' with info := .call { call' with phase := .running, newObject := newObject' } }
          (.ofNode { node' with node := literal.body } scope)) := by
  refine (follows_newScope .function (pairs_some hclosure) howner
    (pairs_some hreceiver)).bind fun q hle scope scope' hscope => ?_
  have hf := hf.mono hle
  have hcall := hcall.mono hle
  have hnode := hnode.mono hle
  have hnew := hnew.mono hle
  have hrest : ∀ r, q ≤ r → r.Follows
      (do
        hoist literal.hoisted node.program scope
        return Step.push { f with info := .call { call with phase := .running, newObject } }
          (.ofNode { node with node := literal.body } scope))
      (do
        hoist literal.hoisted node'.program scope'
        return Step.push
          { f' with info := .call { call' with phase := .running, newObject := newObject' } }
          (.ofNode { node' with node := literal.body } scope')) := by
    intro r hle
    have hprogram : r.Pairs node.program node'.program :=
      ⟨(hnode.mono hle).within, by rw [(hnode.mono hle).eq]; rfl⟩
    refine (follows_hoist literal.hoisted hprogram (hscope.mono hle)).bind fun s hle' _ _ _ => ?_
    have hle := le_trans hle hle'
    refine follows_pure (pairs_push ((hf.mono hle).withCall
      (((hcall.mono hle).withPhase .running).withNewObject (hnew.mono hle))) ?_)
    exact pairs_ofNode ((hnode.mono hle).withNode literal.body) (hscope.mono hle)
  refine (mirrors_declareParams hscope literal.params hcall.args).bind_follows fun _ _ => ?_
  refine (mirrors_bindsLocally hscope "arguments").bind_follows fun bound _ => ?_
  rw [image_bool]
  split
  · refine (follows_createArguments hcall.args (howner.mono hle)).bind fun r hle id id' hid => ?_
    exact (mirrors_declare (hscope.mono hle) "arguments" (pairs_ofObject hid) false).bind_follows
      fun _ _ => hrest r hle
  · exact hrest q (le_refl q)

omit hf in
/-- What a body sees as its receiver. -/
theorem pairs_receiver : ∀ {newObject newObject' : Option ObjectId},
    p.Pairs newObject newObject' → p.Pairs
      (match call.construct, newObject with
        | true, some id => Value.object id
        | _, _ => call.receiver)
      (match call'.construct, newObject' with
        | true, some id => Value.object id
        | _, _ => call'.receiver) := by
  rintro newObject - ⟨hw, rfl⟩
  rw [hcall.construct_eq]
  cases call.construct with
  | false => exact hcall.receiver
  | true =>
    cases newObject with
    | none => exact hcall.receiver
    | some id => exact pairs_ofObject (pairs_image (hw id rfl))

theorem follows_enterFunction {func func' : ObjectId} (hfunc : p.Pairs func func')
    {node node' : NodeRef} (hnode : p.Pairs node node') {closure closure' : ScopeId}
    (hclosure : p.Pairs closure closure') :
    p.Follows (enterFunction f call func node closure)
      (enterFunction f' call' func' node' closure') := by
  refine (mirrors_heapQuery fun _ _ hk => hk.pairs_functionNode hnode).bind_follows
    fun literal _ => ?_
  refine (mirrors_scopeOwner hf.scope).bind_follows fun caller hcaller => ?_
  refine (mirrors_heapQuery fun _ _ hk => hk.pairs_object hfunc).bind_follows fun o ho => ?_
  extract_lets owner enter create owner' enter' create'
  have howner : p.Pairs owner owner' :=
    ⟨within_or p ho.owner hcaller, by dsimp only [owner, owner']; rw [image_owner, or_image]⟩
  have henter : ∀ q newObject newObject', p ≤ q → q.Pairs newObject newObject' →
      q.Follows (enter newObject) (enter' newObject') := by
    intro q newObject newObject' hle hnew
    have hcall := hcall.mono hle
    exact follows_enterBody (hf.mono hle) hcall hnew (howner.mono hle) (hnode.mono hle)
      (hclosure.mono hle) (pairs_receiver hcall hnew) literal
  have hcreate : ∀ proto proto', p.Pairs proto proto' → p.Follows
      (do enter (some (← createObject (some proto) owner)))
      (do enter' (some (← createObject (some proto') owner'))) := fun proto proto' hproto =>
    (follows_createObject (pairs_some hproto) howner).bind fun q hle _ _ hid =>
      henter q _ _ hle (pairs_some hid)
  rw [hcall.construct_eq]
  split
  · refine (mirrors_heapQuery fun _ _ hk => hk.pairs_lookup hfunc "prototype").bind_follows
      fun found hfound => ?_
    have hproto : p.Pairs (found.bind fun p => p.value.object?)
        ((image p found).bind fun p => p.value.object?) := by
      cases found with
      | none => exact pairs_none
      | some prop => exact (pairs_image (x := prop.value) (hfound prop rfl)).object?
    obtain ⟨hw, heq⟩ := hproto
    rw [heq]
    cases hget : found.bind fun p => p.value.object? with
    | none =>
      exact (mirrors_builtinObject "Object.prototype").bind_follows fun _ hproto =>
        hcreate _ _ (pairs_image hproto)
    | some proto => exact hcreate _ _ ⟨hw proto hget, rfl⟩
  · exact henter p _ _ (le_refl p) hcall.newObject

/-! ## Host functions -/

omit hf hcall

theorem pairs_toPhase (s : Settlement) (hs : Within p s) :
    p.Pairs s.toPhase.2 (image p s).toPhase.2 ∧ (image p s).toPhase.1 = s.toPhase.1 := by
  cases s with
  | resolved v => exact ⟨pairs_image (x := v) hs, rfl⟩
  | rejected v => exact ⟨pairs_image (x := v) hs, rfl⟩

include hf hcall

/-- The frame of a call that goes on with a phase and a value. -/
theorem Pairs.withCallValue (phase : CallPhase) {v v' : Value} (hv : p.Pairs v v') :
    p.Pairs ({ f with info := .call { call with phase }, value := v } : Frame)
      { f' with info := .call { call' with phase }, value := v' } :=
  (hf.withCall (hcall.withPhase phase)).withValue hv

theorem follows_applyReply {thread : ThreadId} (hactor : p.actor = some thread)
    {owner owner' : Option Owner} (howner : p.Pairs owner owner')
    {early early' : Option Settlement} (hearly : p.Pairs early early')
    {result result' : NativeResult} (hresult : p.Pairs result result') :
    p.Follows (applyReply thread f call owner early result)
      (applyReply thread f' call' owner' early' result') := by
  obtain ⟨hw, rfl⟩ := hresult
  cases result with
  | value v => exact follows_pure (pairs_done (pairs_image (x := v) hw))
  | call func receiver args =>
    exact follows_pure (pairs_push (hf.withCall (hcall.withPhase .reentered))
      (pairs_ofCall hf.scope (pairs_callInfo (pairs_image hw.1) (pairs_image hw.2.1)
        (pairs_image hw.2.2) false)))
  | eval program =>
    have hprogram := pairs_image (x := program) hw
    refine (mirrors_heapQuery fun _ _ hk => hk.pairs_program hprogram).bind_follows
      fun t _ => ?_
    refine follows_get_bind fun m m' hm => ?_
    refine (follows_newScope .eval (pairs_some hm.globalScope) howner
      (pairs_some pairs_undefined)).bind fun q hle scope scope' hscope => ?_
    refine follows_pure (pairs_push ((hf.mono hle).withCall
      ((hcall.mono hle).withPhase .reentered)) (pairs_ofNode ?_ hscope))
    exact Pairs.mono ⟨hw, rfl⟩ hle
  | block =>
    obtain ⟨hearly, rfl⟩ := hearly
    cases early with
    | some s =>
      obtain ⟨hvalue, hphase⟩ := pairs_toPhase s (hearly s rfl)
      have hstay := Pairs.withCallValue hf hcall s.toPhase.1 hvalue
      change p.Follows (pure (Step.stay { f with
          info := .call { call with phase := s.toPhase.1 }, value := s.toPhase.2 }))
        (pure (Step.stay { f' with
          info := .call { call' with phase := (image p s).toPhase.1 }
          value := (image p s).toPhase.2 }))
      rw [hphase]
      exact follows_pure (pairs_stay hstay)
    | none =>
      exact Mirrors.bind_follows (mirrors_modifyThread hactor (fun _ => rfl) (fun _ => rfl)
        (fun _ ht => ⟨ht.stack, ht.outcome⟩) fun _ => rfl) fun _ _ =>
          follows_pure (pairs_suspend (hf.withCall (hcall.withPhase .blocked)))
  | sleep time =>
    refine mirrors_takeQueuePosition.bind_follows fun queued _ => ?_
    exact Mirrors.bind_follows (mirrors_modifyThread hactor (fun _ => rfl) (fun _ => rfl)
      (fun _ ht => ⟨ht.stack, ht.outcome⟩) fun _ => rfl) fun _ _ =>
        follows_pure (pairs_suspend (Pairs.withCallValue hf hcall .returned pairs_undefined))

theorem pairs_nativeCall {func func' : ObjectId} (hfunc : p.Pairs func func')
    {owner owner' : Option Owner} (howner : p.Pairs owner owner') (thread : ThreadId)
    {resumed resumed' : Option Value} (hresumed : p.Pairs resumed resumed') :
    p.Pairs
      ({ func, receiver := call.receiver, args := call.args, owner, scope := f.scope, thread
         construct := call.construct, phase := call.nativePhase, scratch := call.scratch
         resumed } : NativeCall)
      { func := func', receiver := call'.receiver, args := call'.args, owner := owner'
        scope := f'.scope, thread, construct := call'.construct, phase := call'.nativePhase
        scratch := call'.scratch, resumed := resumed' } := by
  refine ⟨⟨hfunc.within, hcall.receiver.within, hcall.args.within, howner.within, hf.scope.within,
    hcall.scratch.within, hresumed.within⟩, ?_⟩
  rw [hfunc.eq, hcall.eq, howner.eq, hf.eq, hresumed.eq]
  rfl

omit hf hcall in
theorem query_ok_bind {α β : Type} (a : α) (g : α → Exec β) :
    (query fun _ => .ok a) >>= g = g a := rfl

omit hf hcall in
theorem pairs_noCode {natives : Natives} {id : String} {construct : Bool} {e : Failure}
    (h : nativeCode natives id construct = .error e) : p.Pairs e e := by
  unfold nativeCode at h
  split at h
  · exact Except.error.inj h ▸ ⟨trivial, rfl⟩
  · split at h
    · split at h
      · cases h
      · exact Except.error.inj h ▸ pairs_raised _ _
    · cases h

theorem follows_invokeNative {natives : Natives} (hnatives : p.Answers natives)
    {thread : ThreadId} (hactor : p.actor = some thread) {resumed resumed' : Option Value}
    (hresumed : p.Pairs resumed resumed') :
    p.Follows (invokeNative natives thread f call resumed)
      (invokeNative natives thread f' call' resumed') := by
  refine (mirrors_scopeOwner hf.scope).bind_follows fun owner howner => ?_
  obtain ⟨hw, heq⟩ := hcall.func.object?
  rw [heq]
  cases hid : call.func.object? with
  | none => exact follows_throw ⟨trivial, rfl⟩
  | some func =>
    have hfunc := hw func hid
    refine (mirrors_heapQuery fun _ _ hk => hk.pairs_object (pairs_image hfunc)).bind_follows
      fun o _ => ?_
    rw [image_function]
    cases o.function with
    | none => exact follows_throw ⟨trivial, rfl⟩
    | some function =>
      cases function with
      | closure node scope => exact follows_throw ⟨trivial, rfl⟩
      | bound target receiver args => exact follows_throw ⟨trivial, rfl⟩
      | native id =>
        have hcode : nativeCode natives id call'.construct =
            nativeCode natives id call.construct := by rw [hcall.construct_eq]
        dsimp only [image_some, image_native]
        rw [hcode]
        cases hget : nativeCode natives id call.construct with
        | error e => exact fun m m' hm => ⟨p, le_refl p, hm, pairs_noCode hget⟩
        | ok code =>
          rw [query_ok_bind, query_ok_bind]
          have hanswer := hnatives (le_refl p) (pairs_nativeCall hf hcall
            (pairs_image hfunc) (pairs_image howner) thread hresumed) hactor id _ code hget
          refine hanswer.attempt.bind fun q hle answer answer' hanswer => ?_
          have hactor := hle.actor.trans hactor
          refine (mirrors_takeEarly thread).bind_follows fun early hearly => ?_
          refine (mirrors_query fun _ _ _ => hanswer).bind_follows fun reply hreply => ?_
          have hresult := pairs_image (p := q) (x := reply.result) hreply.1
          have hresumable : q.Pairs
              ({ call with nativePhase := reply.phase, scratch := reply.scratch } : CallInfo)
              { call' with
                nativePhase := (image q reply).phase
                scratch := (image q reply).scratch } :=
            ⟨{ (hcall.mono hle).within with scratch := hreply.2 },
              by rw [(hcall.mono hle).eq]; rfl⟩
          have happly := follows_applyReply (hf.mono hle) hresumable hactor
            ((pairs_image howner).mono hle) (pairs_image hearly) hresult
          rw [isSome_image, image_result, isBlock_image]
          split
          · exact follows_throw_bind ⟨by trivial, rfl⟩ _ _
          · exact happly

/-! ## Starting and advancing -/

omit hf hcall in
/-- What a call of an object does depends on what the object is as a function. -/
theorem startCall_run (natives : Natives) (thread : ThreadId) (f : Frame) (fuel : Nat)
    {call : CallInfo} {m : Machine} {id : ObjectId} {o : Object} (hfunc : call.func = .object id)
    (ho : m.heap.object? id = some o) :
    startCall natives thread f (fuel + 1) call m =
      (match o.function with
        | none => throw (.typeError (m.describe call.func ++ " is not a function"))
        | some (.bound target receiver args) =>
          startCall natives thread f fuel
            { call with
              func := .object target
              receiver := if call.construct then call.receiver else receiver
              args := args ++ call.args }
        | some (.closure node scope) => enterFunction f call id node scope
        | some (.native _) => invokeNative natives thread f call none : Exec Step) m := by
  rw [startCall, bind_run, get_run]
  dsimp only
  have hid : call.func.object? = some id := by rw [hfunc]; rfl
  have hobject : heapQuery (·.object id) m = .ok o m :=
    query_run_ok (f := fun m => m.heap.object id) (Heap.object_eq_ok_iff.2 ho)
  rw [hid]
  exact bind_run_of_ok hobject

omit hf hcall in
theorem startCall_run_plain (natives : Natives) (thread : ThreadId) (f : Frame) (fuel : Nat)
    {call : CallInfo} (hfunc : call.func.object? = none) (m : Machine) :
    startCall natives thread f (fuel + 1) call m =
      .error (.typeError (m.describe call.func ++ " is not a function")) m := by
  rw [startCall, bind_run, get_run]
  dsimp only
  rw [hfunc]
  rfl

omit hcall in
/-- A call starts alike, whatever bound functions it goes through. -/
theorem leads_startCall {natives : Natives} (hnatives : p.Answers natives) {thread : ThreadId}
    (hactor : p.actor = some thread) {m m' : Machine} (hm : p.Machines m m') {n : Nat}
    {id : ObjectId} (hchain : Chain m.heap.targetLink n id) (hid : Within p id) :
    ∀ (fuel fuel' : Nat) (call : CallInfo), n ≤ fuel → n ≤ fuel' → Within p call →
      call.func = .object id →
      p.Leads (startCall natives thread f (fuel + 1) call m)
        (startCall natives thread f' (fuel' + 1) (image p call) m') := by
  refine hm.heap.walk_targets (C := fun n id => ∀ (fuel fuel' : Nat) (call : CallInfo), n ≤ fuel →
    n ≤ fuel' → Within p call → call.func = .object id →
      p.Leads (startCall natives thread f (fuel + 1) call m)
        (startCall natives thread f' (fuel' + 1) (image p call) m'))
    (fun {n id o} ho ho' hid hw ih fuel fuel' call hfuel hfuel' hcall hfunc => ?_) hchain hid
  have hpairs := pairs_image hcall
  rw [startCall_run natives thread f fuel hfunc ho,
    startCall_run natives thread f' fuel' (by rw [image_func, hfunc]; rfl) ho', image_function]
  have hfunction := hw.function
  cases hget : o.function with
  | none =>
    rw [hm.describe hpairs.func]
    exact ⟨p, le_refl p, hm, pairs_raised _ _⟩
  | some function =>
    have hwithin := hfunction function hget
    cases function with
    | closure node scope =>
      exact follows_enterFunction hf hpairs (pairs_image hid) (pairs_image hwithin.1)
        (pairs_image hwithin.2) m m' hm
    | native name => exact follows_invokeNative hf hpairs hnatives hactor pairs_none m m' hm
    | bound target receiver args =>
      obtain ⟨i, rfl, hi⟩ := ih target receiver args hget
      obtain ⟨fuel, rfl⟩ := Nat.exists_eq_add_of_lt hfuel
      obtain ⟨fuel', rfl⟩ := Nat.exists_eq_add_of_lt hfuel'
      have hnext := hi (i + fuel) (i + fuel') _ (by omega) (by omega)
        (hpairs.unboundOnce hwithin.1 hwithin.2.1 hwithin.2.2).within rfl
      rwa [← (hpairs.unboundOnce hwithin.1 hwithin.2.1 hwithin.2.2).eq] at hnext

omit hcall in
/-- A call starts alike, with as much fuel as there are objects. -/
theorem leads_startCalled {natives : Natives} (hnatives : p.Answers natives) {thread : ThreadId}
    (hactor : p.actor = some thread) {m m' : Machine} (hm : p.Machines m m')
    {call call' : CallInfo} (hcall : p.Pairs call call') :
    p.Leads (startCall natives thread f (m.heap.objects.size + 1) call m)
      (startCall natives thread f' (m'.heap.objects.size + 1) call' m') := by
  have hdescribe := hm.describe hcall.func
  have hobject := hcall.func.object?.eq
  cases hget : call.func.object? with
  | some id =>
    obtain ⟨hcall, rfl⟩ := hcall
    have hfunc : call.func = .object id := by
      cases hv : call.func with
      | object other =>
        rw [hv] at hget
        exact congrArg Value.object (Option.some.inj hget)
      | _ =>
        rw [hv] at hget
        cases hget
    have hid : Within p id := hcall.func id hfunc
    obtain ⟨n, hchain, hn, hn'⟩ := hm.heap.exists_targets hid
    exact leads_startCall hf hnatives hactor hm hchain hid _ _ call (by omega) (by omega) hcall
      hfunc
  | none =>
    rw [hget] at hobject
    rw [startCall_run_plain natives thread f _ hget m,
      startCall_run_plain natives thread f' _ hobject m', hdescribe]
    exact ⟨p, le_refl p, hm, pairs_raised _ _⟩

omit hf in
theorem pairs_callResult {v v' : Value} (hv : p.Pairs v v') :
    p.Pairs (callResult call v) (callResult call' v') := by
  obtain ⟨hcall, rfl⟩ := hcall
  have hnew := hcall.newObject
  unfold callResult
  rw [image_construct, image_newObject, hv.isObject_eq]
  cases call.construct with
  | false => exact hv
  | true =>
    cases hget : call.newObject with
    | none => exact hv
    | some id =>
      dsimp only [image_some]
      split
      · exact hv
      · exact pairs_ofObject (pairs_image (hnew id hget))

omit hcall in
theorem follows_stepCall {natives : Natives} (hnatives : p.Answers natives) {thread : ThreadId}
    (hactor : p.actor = some thread) :
    p.Follows (stepCall natives thread f) (stepCall natives thread f') := by
  have hvalue := hf.value
  obtain ⟨hw, heq⟩ := hf.info
  unfold stepCall
  rw [heq]
  cases hinfo : f.info with
  | call c =>
    rw [hinfo] at hw
    have hc : p.Pairs c (image p c) := ⟨hw, rfl⟩
    dsimp only [image_call]
    rw [image_phase]
    cases c.phase with
    | ready =>
      refine (mirrors_checkTimeLimit hactor).bind_follows fun _ _ m m' hm => ?_
      exact leads_startCalled hf hnatives hactor hm hc
    | running => exact follows_pure (pairs_done (pairs_callResult hc pairs_undefined))
    | returned => exact follows_pure (pairs_done (pairs_callResult hc hvalue))
    | reentered =>
      exact follows_invokeNative hf.clearValue hc hnatives hactor (pairs_some hvalue)
    | rejected => exact follows_pure (pairs_throwing hvalue)
    | blocked => exact follows_pure (pairs_suspend hf)
  | _ => exact follows_throw ⟨trivial, rfl⟩

end Pairing

end ScriptMachine
