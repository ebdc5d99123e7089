import ScriptMachine.Machine.Schedule
import ScriptMachine.Proofs.Effect.Step
import ScriptMachine.Proofs.Natives

/-!
# Effects of calls

No builtin changes anything but on behalf of the owner of its caller, and none but one changes the
owner of a scope. A closure runs as the owner of its function object, or as its caller when that has
none.
-/

namespace ScriptMachine

open Machine Exec

/-- The behaviour makes changes only of the owner that its caller acts as. -/
def ActsForCaller {α : Type} (code : NativeCall → Exec α) : Prop :=
  ∀ c : NativeCall, Effects c.scope c.owner (code c)

theorem actsForCaller_ofValue {f : NativeCall → Exec Value} (h : ActsForCaller f) :
    ActsForCaller (NativeCode.ofValue f) :=
  fun c => (h c).bind fun _ _ => does_pure trivial

namespace Builtin

/-! ## Threads -/

namespace Threads

/-- A timer acts as the owner that set it. -/
theorem actsForCaller_setTimeout : ActsForCaller setTimeout := by
  intro c
  unfold setTimeout
  split
  · exact does_throw _
  · rename_i owner howner
    rw [howner]
    exact (effects_spawnCallAs _ _ _ _ owner _).bind fun _ _ => does_pure trivial

theorem actsForCaller_clearTimeout : ActsForCaller clearTimeout := by
  intro c
  unfold clearTimeout
  dsimp only
  split
  · exact (effects_killThread _).bind fun _ _ => does_pure trivial
  · exact does_pure trivial

theorem actsForCaller_suspend : ActsForCaller suspend :=
  fun _ => effects.now.bind fun _ _ => does_pure trivial

theorem actsForCaller_kill : ActsForCaller kill := by
  intro c
  unfold kill
  split
  · exact (effects_killThread _).bind fun _ _ => does_pure trivial
  · exact does_pure trivial

theorem actsForCaller_limitThread : ActsForCaller limitThread := by
  intro c
  unfold limitThread
  dsimp only
  split
  · exact (effects_setTimeLimit _ _).bind fun _ _ => does_pure trivial
  · split
    · exact does_throw_bind _ _
    · exact (effects_setTimeLimit _ _).bind fun _ _ => does_pure trivial

end Threads

/-! ## All builtins -/

/-- A scope acts as another owner from now on, as the policy allowed. -/
structure Become (scope : ScopeId) (actor : Option Owner) (target : Owner) (m m' : Machine) :
    Prop where
  acts : m.ActsAs scope actor
  allowed : m.authorizeOwner actor (some target) .become = .ok ()
  after_eq : m' =
    { m with heap := m.heap.modifyScope scope fun s => { s with owner := some target } }

/-- A host function acts for its caller, or gives a value at once after it let the scope of the
caller act as another owner. -/
def Behaves (code : NativeCode) : Prop :=
  ∀ (c : NativeCall) (old : ObjectId → Prop) (m : Machine), m.heap.Holds old →
    m.ActsAs c.scope c.owner →
    DoesAt old c.owner m (fun _ _ => True) (code c) ∨
    ∃ target v m', code c m = .ok (c.reply (.value v)) m' ∧ Become c.scope c.owner target m m'

theorem behaves_of_actsForCaller {code : NativeCode} (h : ActsForCaller code) : Behaves code :=
  fun c old m hh hacts => .inl (h c old m hh hacts)

theorem Threads.behaves_setPerms : Behaves (.ofValue setPerms) := by
  intro c old m hh hacts
  cases htarget : (c.arg 0).object? with
  | none =>
    left
    have hthrow : objectArg c 0 "setPerms" = throw (calledOnOther "setPerms") := by
      rw [objectArg, htarget]
    have heffects : Effects c.scope c.owner (NativeCode.ofValue setPerms c) := by
      unfold NativeCode.ofValue setPerms
      rw [hthrow]
      exact (does_throw_bind (Q := fun _ => True) _ _).bind fun _ _ => does_pure trivial
    exact heffects old m hh hacts
  | some target =>
    have hpure : objectArg c 0 "setPerms" = pure target := by
      rw [objectArg, htarget]
    cases hallowed : m.authorizeOwner c.owner (some target) .become with
    | error e =>
      left
      have hrun : NativeCode.ofValue setPerms c m = .error e m := by
        simp only [NativeCode.ofValue, setPerms, hpure, bind_run, pure_run, query, hallowed]
      refine ⟨by rw [after_of_error hrun], fun a m' h => ?_⟩
      rw [hrun] at h
      cases h
    | ok u =>
      right
      obtain ⟨s, hs, howner⟩ := hacts
      refine ⟨target, .undefined, _, ?_, ⟨s, hs, howner⟩, hallowed, rfl⟩
      simp only [NativeCode.ofValue, setPerms, hpure, setScopeOwner, heapQuery, modifyHeap,
        bind_run, pure_run, modify_run, query, hallowed, Heap.scope_eq_ok_iff.2 hs]

/-- Every builtin acts for its caller, or lets the scope of its caller act as another owner. -/
theorem each_behaves : natives.Each Behaves := by
  have hserving (c : NativeCall) : Serving c (Effects c.scope c.owner) (Effects c.scope c.owner)
      (Effects c.scope c.owner) := effects.serving
  exact each_of_serving hserving (fun _ => behaves_of_actsForCaller)
    (behaves_of_actsForCaller (actsForCaller_ofValue Threads.actsForCaller_setTimeout))
    (behaves_of_actsForCaller (actsForCaller_ofValue Threads.actsForCaller_clearTimeout))
    (behaves_of_actsForCaller Threads.actsForCaller_suspend) Threads.behaves_setPerms
    (behaves_of_actsForCaller (actsForCaller_ofValue Threads.actsForCaller_kill))
    (behaves_of_actsForCaller (actsForCaller_ofValue Threads.actsForCaller_limitThread))

/-- What a call of a builtin runs behaves. -/
theorem behaves_of_nativeCode {id : String} {construct : Bool} {code : NativeCode}
    (h : nativeCode natives id construct = .ok code) : Behaves code :=
  each_behaves.of_nativeCode h

end Builtin

/-!
## Effects of calls

A closure runs as the owner of its function object, or as its caller when that has none. Nothing
else that a step leaves on the stack acts as another owner than the frame stepped, and no builtin
but one changes the owner of a scope.
-/

/-- The frame that a step keeps runs in a scope of one kind, and the child it pushes in a scope of
another. -/
def Step.Leaves (P Q : ScopeId → Prop) : Step → Prop
  | .push f child => P f.scope ∧ Q child.scope
  | .stay f => P f.scope
  | .suspend f => P f.scope
  | .done _ => True
  | .ref _ => True
  | .unwind _ => True

theorem Step.Leaves.mono {P Q P' Q' : ScopeId → Prop} {step : Step} (h : step.Leaves P Q)
    (hP : ∀ id, P id → P' id) (hQ : ∀ id, Q id → Q' id) : step.Leaves P' Q' := by
  cases step with
  | push f child => exact ⟨hP _ h.1, hQ _ h.2⟩
  | stay f => exact hP _ h
  | suspend f => exact hP _ h
  | _ => trivial

theorem Step.StaysIn.leaves {P : ScopeId → Prop} {step : Step} (h : step.StaysIn P) :
    step.Leaves P P := by
  cases step <;> exact h

namespace Machine

open Exec Builtin

variable {old : ObjectId → Prop} {actor : Option Owner} {f : Frame} {m : Machine}

/-- The function object whose body a call of a value enters, behind the bound functions that stand
in between: at most `fuel` objects are looked at. -/
def closureBehind (h : Heap) : Nat → Value → Option Object
  | 0, _ => none
  | fuel + 1, v =>
    match v.object?.bind h.object? with
    | none => none
    | some o =>
      match o.function with
      | some (.bound target _ _) => closureBehind h fuel (.object target)
      | some (.closure _ _) => some o
      | _ => none

/-- The function object whose body the next step of a frame enters. -/
def entered? (m : Machine) (f : Frame) : Option Object :=
  match f.node, f.info with
  | none, .call call =>
    if call.phase == .ready then closureBehind m.heap (m.heap.objects.size + 1) call.func else none
  | _, _ => none

/-- The owner that a body entered from a frame runs as. -/
def bodyOwner (closure : Option Object) (actor : Option Owner) : Option Owner :=
  match closure with
  | some o => o.owner.or actor
  | none => actor

/-- Changes of an actor, in which its scope may come to act as another owner. -/
def Moves (old : ObjectId → Prop) (scope : ScopeId) (actor : Option Owner) (m m' : Machine) :
    Prop :=
  Changes old actor m m' ∨
    ∃ target m₁ m₂, Changes old actor m m₁ ∧ Become scope actor target m₁ m₂ ∧
      Changes old actor m₂ m'

theorem Moves.nextThreadId_le {scope : ScopeId} {m m' : Machine} (h : Moves old scope actor m m') :
    m.nextThreadId ≤ m'.nextThreadId := by
  rcases h with hchanges | ⟨target, m₁, m₂, hbefore, hbecome, hafter⟩
  · exact (Changes.sameSettings hchanges).nextThreadId
  · have hnext : m₂.nextThreadId = m₁.nextThreadId := by
      rw [hbecome.after_eq]
    have hbefore := (Changes.sameSettings hbefore).nextThreadId
    have hafter := (Changes.sameSettings hafter).nextThreadId
    omega

/-- A step moves on behalf of the owner its frame acts as. The frame goes on acting as that owner,
and the child that is pushed acts as a given one. -/
structure Takes (old : ObjectId → Prop) (f : Frame) (actor child : Option Owner) (m : Machine)
    (x : Exec Step) : Prop where
  moves : Moves old f.scope actor m (after x m)
  leaves : ∀ step m', x m = .ok step m' → step.Leaves (m'.ActsAs · actor) (m'.ActsAs · child)

theorem takes_of_doesAt {child : Option Owner} {x : Exec Step}
    (h : DoesAt old actor m (fun step m' => step.Leaves (m'.ActsAs · actor) (m'.ActsAs · child)) x) :
    Takes old f actor child m x :=
  ⟨.inl h.1, h.2⟩

theorem takes_of_runs {x : Exec Step} (h : Runs f actor x) (hh : m.heap.Holds old)
    (hnew : f.BuildsNew old) (hacts : m.ActsAs f.scope actor) : Takes old f actor actor m x :=
  takes_of_doesAt ((h old m hh hnew hacts).mono fun _ _ hstays => hstays.leaves)

theorem takes_of_error {child : Option Owner} {x : Exec Step} {e : Failure} {m' : Machine}
    (hrun : x m = .error e m') (h : Moves old f.scope actor m m') : Takes old f actor child m x := by
  refine ⟨by rwa [after_of_error hrun], fun step m'' hstep => ?_⟩
  rw [hrun] at hstep
  cases hstep

theorem takes_of_done {child : Option Owner} {x : Exec Step} {v : Value} {m' : Machine}
    (hrun : x m = .ok (.done v) m') (h : Moves old f.scope actor m m') : Takes old f actor child m x := by
  refine ⟨by rwa [after_of_ok hrun], fun step m'' hstep => ?_⟩
  rw [hrun] at hstep
  cases hstep
  trivial

/-- What comes after changes of the actor. -/
theorem takes_bind {α : Type} {child : Option Owner} {P : α → Machine → Prop} {x : Exec α}
    {k : α → Exec Step} (hx : DoesAt old actor m P x)
    (hk : ∀ a m', Changes old actor m m' → P a m' → Takes old f actor child m' (k a)) :
    Takes old f actor child m (x >>= k) := by
  obtain ⟨hchanges, hresult⟩ := hx
  cases hxm : x m with
  | error e m' =>
    rw [after_of_error hxm] at hchanges
    have hrun : (x >>= k) m = .error e m' := by rw [bind_run, hxm]
    refine ⟨.inl ?_, fun step m'' h => ?_⟩
    · rwa [after_of_error hrun]
    · rw [hrun] at h
      cases h
  | ok a m' =>
    rw [after_of_ok hxm] at hchanges
    obtain ⟨hmoves, hleaves⟩ := hk a m' hchanges (hresult a m' hxm)
    have hrun : (x >>= k) m = k a m' := by rw [bind_run, hxm]
    refine ⟨?_, fun step m'' h => hleaves step m'' (hrun ▸ h)⟩
    rw [after, hrun, ← after]
    rcases hmoves with hrest | ⟨target, m₁, m₂, hbefore, hbecome, hafter⟩
    · exact .inl (hchanges.trans hrest)
    · exact .inr ⟨target, m₁, m₂, hchanges.trans hbefore, hbecome, hafter⟩

theorem takes_get_bind {child : Option Owner} {k : Machine → Exec Step}
    (h : Takes old f actor child m (k m)) : Takes old f actor child m (get >>= k) :=
  ⟨h.moves, h.leaves⟩

/-! ## Closures -/

/-- The scope of a body is filled, and the body is pushed. -/
theorem does_fillScope (g : Frame) (hg : g.scope = f.scope) (scope : ScopeId) (owner : Option Owner)
    (args : List Value) (program : ProgramId) (literal : Tree.FunctionNode) :
    Does f.scope actor (Step.Leaves (· = f.scope) (· = scope)) (do
      declareParams scope literal.params args
      if !(← bindsLocally scope "arguments") then
        let arguments ← createArguments args owner
        declare scope "arguments" (.object arguments) false
      hoist literal.hoisted program scope
      return Step.push g (.ofNode ⟨program, literal.body⟩ scope)) := by
  have hhoist : Does f.scope actor (Step.Leaves (· = f.scope) (· = scope)) (do
      hoist literal.hoisted program scope
      return Step.push g (.ofNode ⟨program, literal.body⟩ scope)) :=
    (effects.writing.hoist _ _ scope).bind fun _ _ => does_pure ⟨hg, rfl⟩
  refine (effects.declareParams scope _ _).bind fun _ _ => ?_
  refine (effects.bindsLocally scope _).bind fun bound _ => ?_
  dsimp only
  split
  · refine (effects.createArguments _ owner).bind fun arguments _ => ?_
    exact (effects.declare scope _ _ _).bind fun _ _ => hhoist
  · exact hhoist

/-- The body of a closure runs as the owner of the function object, or as the caller. -/
theorem doesAt_enterFunction (hh : m.heap.Holds old) (hacts : m.ActsAs f.scope actor)
    (call : CallInfo) {func : ObjectId} {o : Object} (ho : m.heap.object? func = some o)
    (node : NodeRef) (closure : ScopeId) :
    DoesAt old actor m
      (fun step m' => step.Leaves (m'.ActsAs · actor) (m'.ActsAs · (o.owner.or actor)))
      (enterFunction f call func node closure) := by
  unfold enterFunction
  refine (doesAt_query _).bind fun literal m₁ _ h₁ => ?_
  obtain ⟨rfl, -⟩ := h₁
  refine (doesAt_scopeOwner hacts).bind fun callerOwner m₂ _ h₂ => ?_
  obtain ⟨rfl, rfl⟩ := h₂
  refine (doesAt_query _).bind fun o' m₃ _ h₃ => ?_
  obtain ⟨rfl, ho'⟩ := h₃
  obtain rfl : o' = o := by
    rw [Heap.object_eq_ok_iff, ho] at ho'
    exact (Option.some.inj ho').symm
  extract_lets owner rest construct
  -- Whatever object is under construction, the rest of the entry makes the scope of the body.
  have hrest : ∀ newObject m, m.heap.Holds old → m.ActsAs f.scope callerOwner →
      DoesAt old callerOwner m
        (fun step m' => step.Leaves (m'.ActsAs · callerOwner) (m'.ActsAs · owner))
        (rest newObject) := by
    intro newObject m hh hacts
    refine (doesAt_newScope hh.toTidy _ _ owner _).bind fun scope m₁ h₁ hscope => ?_
    have hh₁ := h₁.holds hh
    have hacts₁ := h₁.actsAs hh.toTidy hacts
    obtain ⟨hchanges, hleaves⟩ := does_fillScope
      { f with info := .call { call with phase := .running, newObject } } rfl scope owner
      call.args node.program literal old m₁ hh₁ hacts₁
    refine ⟨hchanges, fun step m' hrun => ?_⟩
    rw [after_of_ok hrun] at hchanges
    refine (hleaves step m' hrun).mono (fun id hid => ?_) (fun id hid => ?_)
    · exact hid ▸ hchanges.actsAs hh₁.toTidy hacts₁
    · exact hid ▸ hchanges.actsAs hh₁.toTidy hscope
  split
  · refine (doesAt_query _).bind fun found m₄ _ h₄ => ?_
    obtain ⟨rfl, -⟩ := h₄
    have hconstruct : ∀ proto m, m.heap.Holds old → m.ActsAs f.scope callerOwner →
        DoesAt old callerOwner m
          (fun step m' => step.Leaves (m'.ActsAs · callerOwner) (m'.ActsAs · owner))
          (construct proto) := by
      intro proto m hh hacts
      refine (effects.createObject _ owner old m hh hacts).bind fun id m' h _ => ?_
      exact hrest (some id) m' (h.holds hh) (h.actsAs hh.toTidy hacts)
    split
    · exact hconstruct _ _ hh hacts
    · refine (effects.builtinObject _ old m₄ hh hacts).bind fun proto m' h _ => ?_
      exact hconstruct proto m' (h.holds hh) (h.actsAs hh.toTidy hacts)
  · exact hrest _ _ hh hacts

/-! ## Host functions -/

/-- What a host function asks for runs as its caller. -/
theorem runs_applyReply (thread : ThreadId) (call : CallInfo) (early : Option Settlement)
    (result : NativeResult) : Runs f actor (applyReply thread f call actor early result) := by
  unfold applyReply
  split
  · exact runs_pure trivial
  · exact runs_pure ⟨rfl, rfl⟩
  · intro old m hh _ hacts
    refine (doesAt_query _).bind fun program m₁ _ h₁ => ?_
    obtain ⟨rfl, -⟩ := h₁
    refine DoesAt.bind (effects_get old m₁ hh hacts) fun now m₂ h₂ _ => ?_
    have ht₂ := h₂.tidy hh.toTidy
    refine DoesAt.bind (doesAt_newScope ht₂ _ _ actor _) fun scope m₃ h₃ hscope => ?_
    exact doesAt_pure ⟨h₃.actsAs ht₂ (h₂.actsAs hh.toTidy hacts), hscope⟩
  · split
    · exact runs_pure rfl
    · refine runs_of_does ((effects_modifyThread thread fun t => ?_).bind fun _ _ => does_pure rfl)
      exact keepsScopes_of_stack_eq rfl rfl
  · refine runs_of_does (effects_takeQueuePosition.bind fun queued _ => ?_)
    refine (effects_modifyThread thread fun t => ?_).bind fun _ _ => does_pure rfl
    exact keepsScopes_of_stack_eq rfl rfl

/-- A host function that behaves is run, and its answer is acted on. -/
theorem takes_answer {code : NativeCode} (hcode : Behaves code) (hh : m.heap.Holds old)
    (hnew : f.BuildsNew old) (hacts : m.ActsAs f.scope actor) (thread : ThreadId) (call : CallInfo) (c : NativeCall)
    (hscope : c.scope = f.scope) (howner : c.owner = actor) (id : String) :
    Takes old f actor actor m (do
      let answer ← attempt (code c)
      let early ← takeEarly thread
      let reply ← query fun _ => answer
      if early.isSome && !reply.result.isBlock then
        throw (.fault (.settledWithoutBlocking id))
      applyReply thread f { call with nativePhase := reply.phase, scratch := reply.scratch } actor
        early reply.result) := by
  have hcaller : m.ActsAs c.scope c.owner := by
    rw [hscope, howner]
    exact hacts
  have hbehaves := hcode c old m hh hcaller
  rw [hscope, howner] at hbehaves
  rcases hbehaves with hdoes | ⟨target, v, m₁, hrun, hbecome⟩
  · refine takes_bind (doesAt_attempt hdoes) fun answer m₁ h₁ _ => ?_
    have hh₁ := h₁.holds hh
    have hacts₁ := h₁.actsAs hh.toTidy hacts
    refine takes_bind (effects_takeEarly thread old m₁ hh₁ hacts₁) fun early m₂ h₂ _ => ?_
    refine takes_bind (doesAt_query _) fun reply m₃ _ h₃ => ?_
    obtain ⟨rfl, -⟩ := h₃
    dsimp only
    split
    · exact takes_of_doesAt (doesAt_throw_bind _ _)
    · exact takes_of_runs (runs_applyReply thread _ _ _) (h₂.holds hh₁) hnew
        (h₂.actsAs hh₁.toTidy hacts₁)
  · -- The scope acts as another owner now, and the value is all that is left to hand on.
    obtain ⟨early, m₂, hearly, hchange⟩ : ∃ early m₂, takeEarly thread m₁ = .ok early m₂ ∧
        Change old actor m₁ m₂ :=
      ⟨_, _, rfl, .host _ rfl rfl ⟨rfl, rfl, rfl, rfl, rfl, rfl, Nat.le_refl _⟩⟩
    have hmoves : Moves old f.scope actor m m₂ :=
      .inr ⟨target, m, m₁, .refl, hbecome, .single hchange⟩
    have hattempt : attempt (code c) m = .ok (.ok (c.reply (.value v))) m₁ := by
      rw [attempt, hrun]
    cases hsome : early.isSome with
    | true =>
      refine takes_of_error (e := .fault (.settledWithoutBlocking id)) ?_ hmoves
      simp only [bind_run, hattempt, hearly, query, hsome, NativeCall.reply,
        NativeResult.isBlock, Bool.not_false, Bool.and_self, if_true, throw_run]
    | false =>
      refine takes_of_done (v := v) ?_ hmoves
      simp only [bind_run, hattempt, hearly, query, hsome, NativeCall.reply, applyReply,
        Bool.false_and, Bool.false_eq_true, if_false, pure_run]

theorem takes_invokeNative (hh : m.heap.Holds old) (hnew : f.BuildsNew old)
    (hacts : m.ActsAs f.scope actor) (thread : ThreadId) (call : CallInfo) (resumed : Option Value) :
    Takes old f actor actor m (invokeNative natives thread f call resumed) := by
  unfold invokeNative
  refine takes_bind (doesAt_scopeOwner hacts) fun owner m₁ _ h₁ => ?_
  obtain ⟨rfl, rfl⟩ := h₁
  split
  · exact takes_of_doesAt (doesAt_throw _)
  rename_i func _
  refine takes_bind (doesAt_query _) fun o m₂ _ h₂ => ?_
  obtain ⟨rfl, -⟩ := h₂
  split
  · rename_i id _
    refine takes_bind (doesAt_query _) fun code m₃ _ h₃ => ?_
    obtain ⟨rfl, hcode⟩ := h₃
    exact takes_answer (behaves_of_nativeCode hcode) hh hnew hacts thread call _ rfl rfl id
  · exact takes_of_doesAt (doesAt_throw _)

/-! ## Calls -/

/-- A call enters the closure behind the value called, or runs a host function. -/
theorem takes_startCall (hh : m.heap.Holds old) (hnew : f.BuildsNew old)
    (hacts : m.ActsAs f.scope actor) (thread : ThreadId) (fuel : Nat) (call : CallInfo) :
    Takes old f actor (bodyOwner (closureBehind m.heap fuel call.func) actor) m
      (startCall natives thread f fuel call) := by
  induction fuel generalizing call with
  | zero => exact takes_of_doesAt (doesAt_throw _)
  | succ fuel ih =>
    unfold startCall closureBehind
    refine takes_get_bind ?_
    cases hfunc : call.func.object? with
    | none => exact takes_of_doesAt (doesAt_throw _)
    | some func =>
      refine takes_bind (doesAt_query _) fun o m₂ _ h₂ => ?_
      obtain ⟨rfl, ho⟩ := h₂
      have ho := Heap.object_eq_ok_iff.1 ho
      simp only [Option.bind_some, ho]
      cases hfunction : o.function with
      | none => exact takes_of_doesAt (doesAt_throw _)
      | some function =>
        cases function with
        | bound target receiver args =>
          exact ih
            { call with
              func := .object target
              receiver := if call.construct then call.receiver else receiver
              args := args ++ call.args }
        | closure node scope =>
          exact takes_of_doesAt (doesAt_enterFunction hh hacts call ho node scope)
        | native id => exact takes_invokeNative hh hnew hacts thread call none

/-- A call that is within its time starts with the heap as it was. -/
theorem doesAt_checkTimeLimit (hh : m.heap.Holds old) (hacts : m.ActsAs f.scope actor)
    (thread : ThreadId) :
    DoesAt old actor m (fun _ m' => m'.heap = m.heap) (checkTimeLimit thread) := by
  refine ⟨(effects_checkTimeLimit thread old m hh hacts).1, fun u m' h => ?_⟩
  obtain ⟨time, m₁, hnow, h⟩ := bind_eq_ok_iff.1 h
  obtain ⟨m₂, m₃, hget, h⟩ := bind_eq_ok_iff.1 h
  have hheap : m₁.heap = m.heap := by
    cases hnow
    rfl
  cases hget
  cases hthread : m₁.thread? thread with
  | none =>
    rw [hthread] at h
    cases h
  | some t =>
    rw [hthread] at h
    cases hlimit : t.timeLimit with
    | none =>
      simp only [hlimit] at h
      cases h
      exact hheap
    | some limit =>
      simp only [hlimit] at h
      split at h
      · obtain ⟨_, m₄, _, hthrow⟩ := bind_eq_ok_iff.1 h
        cases hthrow
      · cases h
        exact hheap

theorem takes_stepCall (hh : m.heap.Holds old) (hnew : f.BuildsNew old)
    (hacts : m.ActsAs f.scope actor) (thread : ThreadId) (hnode : f.node = none) :
    Takes old f actor (bodyOwner (m.entered? f) actor) m (stepCall natives thread f) := by
  have hstays : ∀ step : Step, StaysAt f.scope step →
      Takes old f actor actor m (pure step : Exec Step) :=
    fun step hstep => takes_of_runs (runs_pure hstep) hh hnew hacts
  unfold stepCall entered?
  cases hinfo : f.info with
  | call call =>
    simp only [hnode]
    cases hphase : call.phase with
    | ready =>
      simp only [beq_self_eq_true, if_true]
      refine takes_bind (doesAt_checkTimeLimit hh hacts thread) fun _ m₁ h₁ hheap => ?_
      refine takes_get_bind ?_
      rw [← hheap]
      exact takes_startCall (h₁.holds hh) hnew (h₁.actsAs hh.toTidy hacts) thread _ call
    | running => exact hstays (.done _) trivial
    | returned => exact hstays (.done _) trivial
    | reentered =>
      have h : Takes old f.clearValue actor actor m
          (invokeNative natives thread f.clearValue call (some f.value)) :=
        takes_invokeNative (f := f.clearValue) hh hnew hacts thread call _
      exact ⟨h.moves, h.leaves⟩
    | rejected => exact hstays (.unwind _) trivial
    | blocked => exact hstays (.suspend f) rfl
  | _ => exact takes_of_doesAt (doesAt_throw _)

/-- One step of any frame. -/
theorem takes_dispatch (hh : m.heap.Holds old) (hnew : f.BuildsNew old)
    (hacts : m.ActsAs f.scope actor) (thread : ThreadId) :
    Takes old f actor (bodyOwner (m.entered? f) actor) m (dispatch natives thread f) := by
  unfold dispatch
  cases hnode : f.node with
  | none => exact takes_stepCall hh hnew hacts thread hnode
  | some here =>
    have hentered : m.entered? f = none := by
      unfold entered?
      rw [hnode]
    rw [hentered]
    refine takes_bind (doesAt_query _) fun program m₁ _ h₁ => ?_
    obtain ⟨rfl, -⟩ := h₁
    refine takes_bind (doesAt_query _) fun kind m₂ _ h₂ => ?_
    obtain ⟨rfl, -⟩ := h₂
    exact takes_of_runs (runs_stepNode thread here program kind) hh hnew hacts

end Machine

end ScriptMachine

/-!
## Effects of unwinding

A completion drops frames and changes the one that claims it, so a thread that unwinds runs in
scopes it ran in before.
-/

namespace ScriptMachine.Machine

open Exec

variable {scope : ScopeId} {actor : Option Owner}

theorem scope_of_meetPlain {f g : Frame} {c : Completion} (h : meetPlain f c = .catch g) :
    g.scope = f.scope := by
  unfold meetPlain at h
  split at h
  · split at h
    · split at h
      · cases h
        rfl
      · cases h
    · cases h
  · split at h <;> cases h
  · split at h
    · cases h
      rfl
    · cases h
  · cases h
  · cases h

theorem scope_of_meet {h : Heap} {f g : Frame} {c : Completion} (hmeet : meet h f c = .ok (.catch g)) :
    g.scope = f.scope := by
  unfold meet at hmeet
  split at hmeet
  · cases hclauses : tryClauses h f with
    | error e =>
      rw [hclauses] at hmeet
      cases hmeet
    | ok clauses =>
      rw [hclauses] at hmeet
      simp only [bind, Except.bind, pure, Except.pure] at hmeet
      split at hmeet
      · cases hmeet
        rfl
      · split at hmeet
        · cases hmeet
          rfl
        · cases hmeet
  · exact scope_of_meetPlain (Except.ok.inj hmeet)

/-- The scopes of the frames of one stack are among those of another. -/
def Stack.ScopesIn (s : Stack) (frames : List Frame) : Prop :=
  ∀ f ∈ s.frames, ∃ g ∈ frames, f.scope = g.scope

/-- What is left after unwinding runs in scopes of the stack that was unwound. -/
def Unwound.ScopesIn (frames : List Frame) : Unwound → Prop
  | .caught s => Stack.ScopesIn s frames
  | .escaped => True
  | .broken s _ => Stack.ScopesIn s frames

theorem Unwound.ScopesIn.cons {frames : List Frame} {u : Unwound} (h : u.ScopesIn frames)
    (f : Frame) : u.ScopesIn (f :: frames) := by
  have hstack : ∀ s : Stack, Stack.ScopesIn s frames → Stack.ScopesIn s (f :: frames) := by
    intro s hs g hg
    obtain ⟨g', hg', hscope⟩ := hs g hg
    exact ⟨g', List.mem_cons_of_mem f hg', hscope⟩
  cases u with
  | caught s => exact hstack s h
  | escaped => trivial
  | broken s e => exact hstack s h

theorem scopesIn_unwindFrames (h : Heap) (c : Completion) (frames : List Frame) (depth : Nat)
    (hdepth : depth = frames.length) : (unwindFrames h c frames depth hdepth).ScopesIn frames := by
  induction frames generalizing depth with
  | nil => trivial
  | cons f rest ih =>
    unfold unwindFrames
    have hbelow : ∀ g ∈ rest, ∃ g' ∈ f :: rest, g.scope = g'.scope :=
      fun g hg => ⟨g, List.mem_cons_of_mem f hg, rfl⟩
    dsimp only
    split
    · exact hbelow
    · exact hbelow
    · rename_i g hmeet
      intro g' hg'
      rcases List.mem_cons.1 hg' with rfl | hg'
      · exact ⟨f, List.mem_cons_self, scope_of_meet hmeet⟩
      · exact hbelow g' hg'
    · exact (ih _ _).cons f

theorem effects_finishThread (thread : ThreadId) (outcome : Outcome) :
    Effects scope actor (finishThread thread outcome) := by
  have hfinish : Effects scope actor (modifyThread thread fun t => t.finish outcome) :=
    effects_modifyThread thread fun t => keepsScopes_finish t outcome
  unfold finishThread
  dsimp only
  split
  · refine effects_get.bind fun m _ => ?_
    exact (effects.write _ _).bind fun _ _ => hfinish
  · exact hfinish

theorem effects_fault {α : Type} (thread : ThreadId) (e : Failure) :
    Effects scope actor (fault thread e : Exec α) :=
  (effects_killThread thread).bind fun _ _ => does_throw _

theorem effects_escape (thread : ThreadId) (c : Completion) :
    Effects scope actor (escape thread c) := by
  have hempty : Effects scope actor
      (modifyThread thread fun t => { t with stack := .empty }) :=
    effects_modifyThread thread fun t => ⟨rfl, fun f hf => by cases hf⟩
  refine hempty.bind fun _ _ => ?_
  split
  · exact effects_finishThread thread _
  · exact effects_fault thread _

theorem effects_unwind (thread : ThreadId) (c : Completion) :
    Effects scope actor (unwind thread c) := by
  intro old m hh hacts
  unfold unwind
  refine doesAt_get_bind ?_
  cases hthread : m.thread? thread with
  | none => exact doesAt_throw _
  | some t =>
    refine doesAt_get_bind ?_
    have hscopes : (unwindStack m.heap c t.stack).ScopesIn t.stack.frames :=
      scopesIn_unwindFrames _ c _ _ _
    have hkeeps : ∀ s : Stack, Stack.ScopesIn s t.stack.frames → ∀ u : Thread,
        m.thread? thread = some u → u.KeepsScopes { u with stack := s } := by
      intro s hs u hu
      rw [hthread] at hu
      cases hu
      exact ⟨rfl, hs⟩
    split
    · rename_i s hunwound
      rw [hunwound] at hscopes
      exact doesAt_modifyThread thread (hkeeps s hscopes)
    · rename_i s e hunwound
      rw [hunwound] at hscopes
      exact (doesAt_modifyThread thread (hkeeps s hscopes)).bind fun _ _ _ _ => doesAt_throw _
    · exact effects_escape thread c old _ hh hacts

theorem effects_raise (thread : ThreadId) (id : ScopeId) (e : Failure) :
    Effects scope actor (raise thread id e) := by
  unfold raise
  split
  · exact effects_fault thread e
  · refine (effects_attempt (effects.errorToValue e id thread)).bind fun result _ => ?_
    split
    · exact effects_unwind thread _
    · exact effects_fault thread _

end ScriptMachine.Machine
