import ScriptMachine.Proofs.Order.Operation
import ScriptMachine.Proofs.Order.Growth
import ScriptMachine.Proofs.Order.Alteration

/-!
# Steps of calls and of any frame

A call goes on in its place: it has the body of its function evaluated in a new scope, or it asks a
host function, which may change anything that the host may change. What a step leaves on the stack
is in order, and the thread is parked only when the step says so.
-/

namespace ScriptMachine

open Exec Stack
open Tree (NodeId NodeKind)

namespace Machine

variable {strict steady prompt : Prop} {m m' mid : Machine} {thread : ThreadId}

/-- One thing that happens while a frame is stepped: the frame alters the machine, or a host function
does, and what it settled early for its thread is taken. -/
inductive Work (thread : ThreadId) (m : Machine) : Machine → Prop where
  | frame {m' : Machine} (h : Alteration false m m') : Work thread m m'
  | host {m' : Machine} (h : Altered true m m') : Work thread m (m'.forgetEarly thread)

/-- All that happens while a frame is stepped. -/
abbrev Worked (thread : ThreadId) : Machine → Machine → Prop := Relation.ReflTransGen (Work thread)

theorem Altered.worked (h : Altered false m m') : Worked thread m m' := by
  induction h with
  | refl => exact .refl
  | tail _ hlast ih => exact ih.tail (.frame hlast)

namespace Worked

theorem builtins (h : Worked thread m m') : m'.builtins = m.builtins := by
  induction h with
  | refl => rfl
  | tail _ hlast ih =>
    cases hlast with
    | frame hlast => exact hlast.builtins.trans ih
    | host hlast => exact hlast.builtins.trans ih

theorem tidy (h : Worked thread m m') (ht : m.heap.Tidy) : m'.heap.Tidy := by
  induction h with
  | refl => exact ht
  | tail _ hlast ih =>
    cases hlast with
    | frame hlast => exact hlast.tidy ih
    | host hlast => exact hlast.tidy ih

theorem retains (h : Worked thread m m') (ht : m.heap.Tidy) : m.heap.Retains m'.heap := by
  induction h with
  | refl => exact .refl _
  | tail hfirst hlast ih =>
    have ht' := Worked.tidy hfirst ht
    cases hlast with
    | frame hlast => exact ih.trans (hlast.retains ht')
    | host hlast => exact ih.trans (hlast.retains ht')

end Worked

/-- The top frame of a thread that is parked waits for its resolver. -/
def Waits (f : Frame) : Prop := ∃ call, f.info = .call call ∧ call.phase = .blocked

/-- What a step does to its own thread at its end. -/
inductive Ends (steady prompt : Prop) (thread : ThreadId) (m : Machine) : Step → Machine → Prop where
  | plain (step : Step) : Ends steady prompt thread m step m
  /-- The value of an expression statement is stored in the program around it. -/
  | recorded (v : Value) : Ends steady prompt thread m (.done v) { m with
      threads := updateThread thread (fun t => { t with stack := t.stack.recordCompletion v })
        m.threads }
  | blocked {f : Frame} (halive : steady → m.isAlive thread = true) (hnode : f.node = none)
    (hwaits : Waits f) : Ends steady prompt thread m (.suspend f) { m with
      threads := updateThread thread (fun t => { t with status := .blocked }) m.threads }
  | asleep {f : Frame} (hfree : ¬ prompt) (time : Float) {next : Nat}
    (halive : steady → m.isAlive thread = true) (hnode : f.node = none)
    (hnext : m.nextQueued < next) :
    Ends steady prompt thread m (.suspend f) { m with
      threads := updateThread thread
        (fun t => { t with status := .sleeping, runAt := time, queued := m.nextQueued }) m.threads
      nextQueued := next }
  /-- The thread sleeps for some time from now on. -/
  | napping {f : Frame} (delay : Float) {next : Nat} (halive : steady → m.isAlive thread = true)
    (hnode : f.node = none) (hnext : m.nextQueued < next) :
    Ends steady prompt thread m (.suspend f) { m with
      clock := m.clock.read.2
      threads := updateThread thread
        (fun t => { t with
          status := .sleeping, runAt := m.reading + validDelay delay, queued := m.nextQueued })
        m.threads
      nextQueued := next }

/-- What comes of a step whose frame stood above others. A counter that ran out leaves anything
behind. -/
def Dispatches (strict steady prompt : Prop) (thread : ThreadId) (rest : List Frame) (m : Machine)
    (x : Exec Step) : Prop :=
  match x m with
  | .ok step m' => ∃ mid, Worked thread m mid ∧ Ends steady prompt thread mid step m' ∧
      Carries strict mid.heap rest step
  | .error e m' => e = .overflow ∨ Worked thread m m'

variable {rest : List Frame} {f : Frame}

theorem dispatches_of_altersTo {x : Exec Step}
    (hx : AltersTo false m (fun step m' => Carries strict m'.heap rest step) x) :
    Dispatches strict steady prompt thread rest m x := by
  unfold Dispatches
  cases hrun : x m with
  | ok step m' =>
    have haltered : Altered false m m' := after_of_ok hrun ▸ hx.altered
    exact ⟨m', haltered.worked, .plain step, hx.result step m' hrun⟩
  | error e m' =>
    have haltered : Altered false m m' := after_of_error hrun ▸ hx.altered
    exact .inr haltered.worked

theorem dispatches_throw (e : Failure) :
    Dispatches strict steady prompt thread rest m (throw e : Exec Step) :=
  .inr .refl

/-- What happened before a step ended happened while the frame was stepped. -/
theorem Dispatches.after {x y : Exec Step} (hworked : Worked thread m mid) (hrun : x m = y mid)
    (hy : Dispatches strict steady prompt thread rest mid y) :
    Dispatches strict steady prompt thread rest m x := by
  unfold Dispatches at hy ⊢
  rw [hrun]
  cases hend : y mid with
  | ok step m' =>
    rw [hend] at hy
    obtain ⟨mid', hworked', hends, hcarries⟩ := hy
    exact ⟨mid', hworked.trans hworked', hends, hcarries⟩
  | error e m' =>
    rw [hend] at hy
    exact hy.imp_right hworked.trans

theorem dispatches_get_bind {k : Machine → Exec Step}
    (h : Dispatches strict steady prompt thread rest m (k m)) :
    Dispatches strict steady prompt thread rest m (get >>= k) := h

/-- What only alters the machine goes before the end of a step. -/
theorem dispatches_bind {α : Type} {P : α → Machine → Prop} {x : Exec α} {k : α → Exec Step}
    (hx : AltersTo false m P x) (hk : ∀ a m', Altered false m m' → P a m' →
      Dispatches strict steady prompt thread rest m' (k a)) :
    Dispatches strict steady prompt thread rest m (x >>= k) := by
  cases hrun : x m with
  | error e m' =>
    have haltered : Altered false m m' := after_of_error hrun ▸ hx.altered
    refine .after haltered.worked (y := throw e) ?_ (dispatches_throw e)
    rw [bind_run, hrun]
    rfl
  | ok a m' =>
    have haltered : Altered false m m' := after_of_ok hrun ▸ hx.altered
    exact (hk a m' haltered (hx.result a m' hrun)).after haltered.worked (bind_run_of_ok hrun)

/-- A host function alters the machine, and what it settled early is taken before its answer is
acted on. -/
theorem dispatches_host {α : Type} {P : α → Machine → Prop} {x : Exec α}
    {k : Except Failure α → Option Settlement → Exec Step} (hx : AltersTo true m P x)
    (hk : ∀ answer m', Altered true m m' →
      (∀ a, answer = .ok a → x m = .ok a m' ∧ P a m') →
      Dispatches strict steady prompt thread rest (m'.forgetEarly thread)
        (k answer (m'.earlySettlements.lookup thread))) :
    Dispatches strict steady prompt thread rest m (do
      let answer ← attempt x
      let early ← takeEarly thread
      k answer early) := by
  have hrest (answer : Except Failure α) {m' : Machine} (hrun : attempt x m = .ok answer m')
      (hanswer : ∀ a, answer = .ok a → x m = .ok a m' ∧ P a m')
      (haltered : Altered true m m') :
      Dispatches strict steady prompt thread rest m (do
        let answer ← attempt x
        let early ← takeEarly thread
        k answer early) :=
    (hk answer m' haltered hanswer).after
      (.single (.host haltered)) (by rw [bind_run_of_ok hrun]; rfl)
  cases hrun : x m with
  | ok a m' =>
    refine hrest (.ok a) (by rw [attempt, hrun]) ?_ (after_of_ok hrun ▸ hx.altered)
    rintro _ ⟨⟩
    exact ⟨hrun, hx.result a m' hrun⟩
  | error e m' =>
    cases e with
    | overflow =>
      unfold Dispatches
      rw [bind_run, attempt, hrun]
      exact .inl rfl
    | _ =>
      exact hrest (.error _) (by rw [attempt, hrun]) (fun _ h => by cases h)
        (after_of_error hrun ▸ hx.altered)

/-! ## Closures -/

theorem functionNode_eq_ok {h : Heap} {node : NodeRef} {literal : Tree.FunctionNode}
    (hliteral : functionNode h node = .ok literal) : ∃ p kind,
      h.program? node.program = some p ∧ p.kind? node.node = some kind ∧
        kind.function? = some literal := by
  unfold functionNode at hliteral
  cases hp : h.program? node.program with
  | none =>
    rw [Heap.program, hp] at hliteral
    cases hliteral
  | some p =>
    rw [Heap.program_eq_ok_iff.2 hp] at hliteral
    dsimp only [bind, Except.bind] at hliteral
    cases hkind : p.kind? node.node with
    | none =>
      rw [Heap.nodeKind, hkind] at hliteral
      cases hliteral
    | some kind =>
      rw [Heap.nodeKind, hkind] at hliteral
      refine ⟨p, kind, rfl, hkind, ?_⟩
      cases kind <;> cases hliteral <;> rfl

/-- The scope of a body is filled before the body is pushed. -/
theorem gives_fillScope (scope : ScopeId) (owner : Option Owner) (args : List Value)
    (program : ProgramId) (literal : Tree.FunctionNode) (step : Step) : Gives false (· = step) (do
      declareParams scope literal.params args
      if !(← bindsLocally scope "arguments") then
        let arguments ← createArguments args owner
        declare scope "arguments" (.object arguments) false
      hoist literal.hoisted program scope
      return step) := by
  have hhoist : Gives false (· = step) (do
      hoist literal.hoisted program scope
      return step) :=
    ((alters.plain fun _ => True).writing.hoist _ _ scope).gives fun _ => gives_pure rfl
  refine (alters.declareParams scope _ _).gives fun _ => ?_
  refine (alters.bindsLocally scope _).gives fun bound => ?_
  dsimp only
  split
  · exact (alters.createArguments _ owner).gives fun _ => (alters.declare scope _ _ _).gives
      fun _ => hhoist
  · exact hhoist

/-- The body of a closure runs in a function scope under the scope of the closure. -/
theorem altersTo_enterFunction {call : CallInfo} {func : ObjectId} {o : Object} {node : NodeRef}
    {closure : ScopeId} (ht : m.heap.Tidy) (hg : m.heap.Grammatical)
    (hs : Stacked strict m.heap (f :: rest)) (hnode : f.node = none)
    (hfunc : call.func = .object func) (ho : m.heap.object? func = some o)
    (hclosure : o.function = some (.closure node closure)) :
    AltersTo false m (fun step m' => Carries strict m'.heap rest step)
      (enterFunction f call func node closure) := by
  unfold enterFunction
  refine (altersTo_query _).bind fun literal m₁ _ hm₁ => ?_
  obtain ⟨rfl, hliteral⟩ := hm₁
  obtain ⟨p, kind, hprogram, hkind, hfunction⟩ := functionNode_eq_ok hliteral
  have hbuilt := (hg _ p hprogram).bodied node.node kind literal hkind hfunction
  refine (altersTo_query _).bind fun callerOwner m₂ _ hm₂ => ?_
  obtain ⟨rfl, -⟩ := hm₂
  refine (altersTo_query _).bind fun o' m₃ _ hm₃ => ?_
  obtain ⟨rfl, -⟩ := hm₃
  extract_lets owner enter construct
  -- Whatever object is under construction, the rest of the entry makes the scope of the body.
  have henter (newObject : Option ObjectId) (m : Machine) (hm : Altered false m₃ m) :
      AltersTo false m (fun step m' => Carries strict m'.heap rest step) (enter newObject) := by
    refine (altersTo_newScope (hm.tidy ht) _ _ _ _).bind fun scope m₁ h₁ hscope => ?_
    have hm₁ : Altered false m₃ m₁ := hm.trans h₁
    obtain ⟨-, s, hlive, hscopeKind, houter⟩ := hscope
    have hfill := gives_fillScope scope owner call.args node.program literal
      (.push { f with info := .call { call with phase := .running, newObject } }
        (.ofNode { node with node := literal.body } scope)) m₁ (hm₁.tidy ht)
    refine hfill.mono fun step m' h' hstep => ?_
    subst hstep
    have hall : Altered false m₃ m' := hm₁.trans h'
    have hr := hall.retains ht
    obtain ⟨o'', ho', hsame⟩ := hr.object ho
    obtain ⟨s', hlive', hkind', houter'⟩ := (h'.retains (hm₁.tidy ht)).scope hlive
    exact (hs.retained hr).body hnode hfunc ho' (hsame.trans hclosure) (hr.program hprogram) hkind
      hfunction hbuilt hlive' (hkind'.trans hscopeKind) (houter'.trans houter) newObject
  split
  · refine (alters.heapQuery _).bindTo ht fun found m₄ h₄ ht₄ => ?_
    have hconstruct (proto : ObjectId) (m : Machine) (hm : Altered false m₃ m) :
        AltersTo false m (fun step m' => Carries strict m'.heap rest step) (construct proto) :=
      (alters.createObject _ _).bindTo (hm.tidy ht) fun id m' h' _ =>
        henter (some id) m' (hm.trans h')
    split
    · exact hconstruct _ _ h₄
    · exact (alters.builtinObject _).bindTo ht₄ fun proto m₅ h₅ _ =>
        hconstruct proto m₅ (h₄.trans h₅)
  · exact henter _ _ .refl

/-! ## Host functions -/

/-- A host function has another function called. -/
theorem stacked_again {h : Heap} (hs : Stacked strict h (f :: rest)) (hnode : f.node = none)
    (call info : CallInfo) : Stacked strict h (.ofCall f.scope info ::
      { f with info := .call { call with phase := .reentered } } :: rest) :=
  .above (.call hs.sits.scope rfl ⟨rfl, rfl, rfl, rfl⟩) (.again rfl rfl rfl)
    (hs.withCall hnode { call with phase := .reentered } f.value)

/-- A host function has a program evaluated. -/
theorem stacked_evaluated {h : Heap} {id : ProgramId} {p : Tree.Program} {scope : ScopeId}
    {s : Scope} (hs : Stacked strict h (f :: rest)) (hnode : f.node = none)
    (hprogram : h.program? id = some p) (hp : p.Proper) (hscope : h.scope? scope = some s)
    (heval : s.kind = .eval) (call : CallInfo) : Stacked strict h (.ofNode ⟨id, p.root⟩ scope ::
      { f with info := .call { call with phase := .reentered } } :: rest) := by
  have hbegins : (Frame.ofNode ⟨id, p.root⟩ scope).Begins ⟨id, p.root⟩ scope [] :=
    ⟨rfl, rfl, rfl, rfl, rfl, rfl, rfl⟩
  exact .above (sits_of_begins hbegins ⟨s, hscope⟩ hprogram hp.root (grants_empty _ _ _ _))
    (.evaluated rfl rfl hprogram rfl hscope heval)
    (hs.withCall hnode { call with phase := .reentered } f.value)

/-- A thread is put to sleep behind all that wait. -/
theorem dispatches_sleep (f : Frame) (hfree : ¬ prompt) (time : Float)
    (hcarries : Carries strict m.heap rest (.suspend f)) (hnode : f.node = none)
    (halive : steady → m.isAlive thread = true) :
    Dispatches strict steady prompt thread rest m (do
      let queued ← takeQueuePosition
      modifyThread thread fun t => { t with status := .sleeping, runAt := time, queued }
      return .suspend f) := by
  unfold Dispatches
  rw [bind_run, takeQueuePosition_run]
  cases hcount : nextCount m.nextQueued with
  | error e => exact .inr .refl
  | ok next =>
    have hlt := lt_of_nextCount hcount
    dsimp only
    rw [bind_run, modifyThread_run]
    cases m.threads.all (·.id != thread) with
    | true =>
      exact .inr (.single (.frame (.serve
        { Serves.refl m with nextQueued := Nat.le_of_lt hlt })))
    | false => exact ⟨m, .refl, .asleep hfree time halive hnode hlt, hcarries⟩

/-- A thread is put to sleep for some time from now on. -/
theorem dispatches_nap (f : Frame) (delay : Float)
    (hcarries : Carries strict m.heap rest (.suspend f)) (hnode : f.node = none)
    (halive : steady → m.isAlive thread = true) :
    Dispatches strict steady prompt thread rest m (do
      let time ← now
      let queued ← takeQueuePosition
      modifyThread thread fun t =>
        { t with status := .sleeping, runAt := time + validDelay delay, queued }
      return .suspend f) := by
  have hread : m.Serves { m with clock := m.clock.read.2 } := { Serves.refl m with }
  unfold Dispatches
  rw [bind_run_of_ok (show now m = .ok m.reading _ from rfl), bind_run, takeQueuePosition_run]
  dsimp only
  cases hcount : nextCount m.nextQueued with
  | error e => exact .inr (.single (.frame (.serve hread)))
  | ok next =>
    have hlt := lt_of_nextCount hcount
    dsimp only
    rw [bind_run, modifyThread_run]
    dsimp only
    cases m.threads.all (·.id != thread) with
    | true =>
      exact .inr (.single (.frame (.serve { hread with nextQueued := Nat.le_of_lt hlt })))
    | false => exact ⟨m, .refl, .napping delay halive hnode hlt, hcarries⟩

/-- Acting on the answer of a host function ends the step. -/
theorem dispatches_applyReply (ht : m.heap.Tidy) (hg : m.heap.Grammatical)
    (hs : Stacked strict m.heap (f :: rest)) (hnode : f.node = none) (call : CallInfo)
    (owner : Option Owner) (early : Option Settlement) {result : NativeResult}
    (hfree : prompt → ∀ time, result ≠ .sleep time)
    (halive : steady → result.parks = true → m.isAlive thread = true) :
    Dispatches strict steady prompt thread rest m (applyReply thread f call owner early result) := by
  unfold applyReply
  cases result with
  | value v => exact dispatches_of_altersTo (altersTo_pure trivial)
  | call func receiver args =>
    exact dispatches_of_altersTo (altersTo_pure (stacked_again hs hnode call _))
  | eval program =>
    refine dispatches_of_altersTo ?_
    dsimp only
    refine (altersTo_query _).bind fun p m₁ _ hm₁ => ?_
    obtain ⟨rfl, hprogram⟩ := hm₁
    have hprogram := Heap.program_eq_ok_iff.1 hprogram
    refine altersTo_get_bind ?_
    refine (altersTo_newScope ht _ _ _ _).bind fun scope m₂ h₂ hscope => altersTo_pure ?_
    obtain ⟨-, s, hs', heval, -⟩ := hscope
    have hr := h₂.retains ht
    exact stacked_evaluated (hs.retained hr) hnode (hr.program hprogram) (hg _ p hprogram) hs'
      heval call
  | block =>
    cases early with
    | some s =>
      exact dispatches_of_altersTo (altersTo_pure (hs.withCall hnode _ _))
    | none =>
      unfold Dispatches
      dsimp only
      rw [bind_run, modifyThread_run]
      cases m.threads.all (·.id != thread) with
      | true => exact .inr .refl
      | false =>
        exact ⟨m, .refl, .blocked (fun h => halive h rfl) hnode ⟨_, rfl, rfl⟩,
          hs.withCall hnode { call with phase := .blocked } f.value⟩
  | sleep time =>
    exact dispatches_sleep _ (fun h => hfree h time rfl) time (hs.withCall hnode _ _) hnode
      fun h => halive h rfl

/-- A host function that only reads the clock and asks for its thread to sleep does what suspending
does. -/
theorem nap_run {x : Exec NativeReply} {reply : NativeReply} {delay : Float} (f : Frame)
    (call : CallInfo) (owner : Option Owner) (id : String)
    (hrun : x m = .ok reply { m with clock := m.clock.read.2 })
    (hresult : reply.result = .sleep (m.reading + validDelay delay))
    (hearly : m.earlySettlements.lookup thread = none) :
    (do
      let answer ← attempt x
      let early ← takeEarly thread
      let reply ← query fun _ => answer
      if early.isSome && !reply.result.isBlock then
        throw (.fault (.settledWithoutBlocking id))
      applyReply thread f { call with nativePhase := reply.phase, scratch := reply.scratch } owner
        early reply.result : Exec Step) m =
    (do
      let time ← now
      let queued ← takeQueuePosition
      modifyThread thread fun t =>
        { t with status := .sleeping, runAt := time + validDelay delay, queued }
      return Step.suspend { f with
        info := .call { call with
          nativePhase := reply.phase, scratch := reply.scratch, phase := .returned }
        value := .undefined }) (m.forgetEarly thread) := by
  have hattempt : attempt x m = .ok (.ok reply) { m with clock := m.clock.read.2 } := by
    rw [attempt, hrun]
  have htake : takeEarly thread { m with clock := m.clock.read.2 } =
      .ok none (forgetEarly thread { m with clock := m.clock.read.2 }) := by
    rw [takeEarly, modifyGet_run]
    exact congrArg (EStateM.Result.ok · _) hearly
  rw [bind_run_of_ok hattempt, bind_run_of_ok htake]
  rw [bind_run_of_ok (show query (fun _ => Except.ok reply) _ = .ok reply _ from rfl)]
  simp only [Option.isSome_none, Bool.false_and, Bool.false_eq_true, if_false]
  unfold applyReply
  rw [hresult]
  rfl

/-- A host function alters the machine, its early settlements are taken, and its answer is acted
on. -/
theorem dispatches_invokeNative {natives : Natives} (hnatives : natives.Each (Polite steady prompt))
    (ht : m.heap.Tidy) (hg : m.heap.Grammatical) (hs : Stacked strict m.heap (f :: rest))
    (hnode : f.node = none) (halive : m.isAlive thread = true) (call : CallInfo)
    (resumed : Option Value) :
    Dispatches strict steady prompt thread rest m (invokeNative natives thread f call resumed) := by
  unfold invokeNative
  refine dispatches_bind (altersTo_query _) fun owner m₁ _ hm₁ => ?_
  obtain ⟨rfl, -⟩ := hm₁
  split
  · exact dispatches_throw _
  rename_i func _
  refine dispatches_bind (altersTo_query _) fun o m₂ _ hm₂ => ?_
  obtain ⟨rfl, -⟩ := hm₂
  split
  · rename_i id _
    refine dispatches_bind (altersTo_query _) fun code m₃ _ hm₃ => ?_
    obtain ⟨rfl, hcode⟩ := hm₃
    let c : NativeCall :=
      { func, receiver := call.receiver, args := call.args, owner, scope := f.scope, thread
        construct := call.construct, phase := call.nativePhase, scratch := call.scratch, resumed }
    have hpolite := hnatives.of_nativeCode hcode
    by_cases hnap : prompt ∧ m₃.earlySettlements.lookup thread = none ∧
        ∃ reply m' time, code c m₃ = .ok reply m' ∧ reply.result = .sleep time
    · obtain ⟨hprompt, hearly, reply, m', time, hrun, hresult⟩ := hnap
      have hsteady (h : steady) : m'.isAlive thread = true :=
        (hpolite.civil c m₃ ht halive).result reply m' hrun h (by rw [hresult]; rfl)
      obtain ⟨delay, rfl, rfl⟩ := hpolite.prompt hprompt c m₃ ht reply m' time hrun hresult
      exact (dispatches_nap (m := m₃.forgetEarly thread) _ delay (hs.withCall hnode _ _) hnode
        hsteady).after (.single (.host .refl)) (nap_run f call owner id hrun hresult hearly)
    have hhost := hpolite.civil c m₃ ht halive
    refine dispatches_host hhost fun answer m₄ h₄ hanswer => ?_
    have ht₄ : (m₄.forgetEarly thread).heap.Tidy := h₄.tidy ht
    have hg₄ : (m₄.forgetEarly thread).heap.Grammatical := h₄.grammatical hg
    have hs₄ : Stacked strict (m₄.forgetEarly thread).heap (f :: rest) :=
      hs.retained (h₄.retains ht)
    refine dispatches_bind (altersTo_query _) fun reply m₅ _ hm₅ => ?_
    obtain ⟨rfl, hreply⟩ := hm₅
    obtain ⟨hrun, hsteady⟩ := hanswer reply hreply
    dsimp only
    split
    · exact dispatches_throw _
    · rename_i hearly
      refine dispatches_applyReply ht₄ hg₄ hs₄ hnode _ owner _ (fun hprompt time hsleep => ?_)
        hsteady
      obtain ⟨_, -, rfl⟩ := hpolite.prompt hprompt c m₃ ht reply m₄ time hrun hsleep
      refine hnap ⟨hprompt, ?_, reply, _, time, hrun, hsleep⟩
      cases hlookup : m₃.earlySettlements.lookup thread with
      | none => rfl
      | some s =>
        refine absurd ?_ hearly
        rw [hsleep]
        simp [NativeResult.isBlock, hlookup]
  · exact dispatches_throw _

/-! ## Any frame -/

/-- A thread within its time goes on as it was. -/
theorem altersTo_checkTimeLimit (ht : m.heap.Tidy) (thread : ThreadId) :
    AltersTo false m (fun _ m' => m'.threads = m.threads) (checkTimeLimit thread) := by
  have hnow : AltersTo false m (fun _ m' => m'.threads = m.threads ∧ m'.heap.Tidy) now := by
    refine ⟨alters.now m ht, ?_⟩
    rintro _ _ ⟨⟩
    exact ⟨rfl, ht⟩
  refine hnow.bind fun time m₁ _ hm₁ => altersTo_get_bind ?_
  split
  · exact altersTo_throw _
  split
  · exact altersTo_pure hm₁.1
  split
  · exact (alters_tend thread fun t => Tended.restart t time).bindTo hm₁.2 fun _ _ _ _ =>
      altersTo_throw _
  · exact altersTo_pure hm₁.1

/-- A chain of bound functions ends in a closure or in a host function. -/
theorem dispatches_startCall {natives : Natives} (hnatives : natives.Each (Polite steady prompt))
    (ht : m.heap.Tidy) (hg : m.heap.Grammatical) (hs : Stacked strict m.heap (f :: rest))
    (hnode : f.node = none) (halive : m.isAlive thread = true) (fuel : Nat) (call : CallInfo) :
    Dispatches strict steady prompt thread rest m (startCall natives thread f fuel call) := by
  induction fuel generalizing call with
  | zero => exact dispatches_throw _
  | succ fuel ih =>
    unfold startCall
    refine dispatches_get_bind ?_
    split
    · exact dispatches_throw _
    rename_i func hfunc
    have hfunc : call.func = .object func := by
      cases hvalue : call.func <;> simp_all [Value.object?]
    refine dispatches_bind (altersTo_query _) fun o m₂ _ hm₂ => ?_
    obtain ⟨rfl, ho⟩ := hm₂
    split
    · exact dispatches_throw _
    · exact ih _
    · exact dispatches_of_altersTo (altersTo_enterFunction ht hg hs hnode hfunc
        (Heap.object_eq_ok_iff.1 ho) ‹_›)
    · exact dispatches_invokeNative hnatives ht hg hs hnode halive call none

theorem dispatches_stepCall {natives : Natives} (hnatives : natives.Each (Polite steady prompt))
    (ht : m.heap.Tidy) (hg : m.heap.Grammatical) (hs : Stacked strict m.heap (f :: rest))
    (hnode : f.node = none) (halive : m.isAlive thread = true) :
    Dispatches strict steady prompt thread rest m (stepCall natives thread f) := by
  unfold stepCall
  split
  · rename_i call hinfo
    split
    · refine dispatches_bind (altersTo_checkTimeLimit ht thread) fun _ m₁ h₁ hsame => ?_
      refine dispatches_get_bind ?_
      refine dispatches_startCall hnatives (h₁.tidy ht) (h₁.grammatical hg)
        (hs.retained (h₁.retains ht)) hnode ?_ _ call
      unfold isAlive thread?
      rw [hsame]
      exact halive
    · exact dispatches_of_altersTo (altersTo_pure True.intro)
    · exact dispatches_of_altersTo (altersTo_pure True.intro)
    · have hcleared : Stacked strict m.heap (f.clearValue :: rest) :=
        hs.handed .undefined f.reference
      exact dispatches_invokeNative hnatives ht hg hcleared hnode halive call _
    · exact dispatches_of_altersTo (altersTo_pure (bound_throw rfl))
    · exact dispatches_of_altersTo (altersTo_pure hs)
  · exact dispatches_throw _

/-- Any frame that is stepped leaves a stack in order. -/
theorem dispatches_dispatch {natives : Natives} (hnatives : natives.Each (Polite steady prompt))
    (ht : m.heap.Tidy) (hg : m.heap.Grammatical) (hs : Stacked strict m.heap (f :: rest))
    (halive : m.isAlive thread = true)
    (hstrict : strict → ∀ here p l, f.node = some here → m.heap.program? here.program = some p →
      p.kind? here.node = some (.breakStatement (some l)) →
        f.labels.getLast? ≠ some l ∧ ¬ Muted l rest) :
    Dispatches strict steady prompt thread rest m (dispatch natives thread f) := by
  unfold dispatch
  split
  · exact dispatches_stepCall hnatives ht hg hs ‹_› halive
  rename_i here hnode
  refine dispatches_bind (altersTo_query _) fun p m₁ _ hm₁ => ?_
  obtain ⟨rfl, hprogram⟩ := hm₁
  have hprogram := Heap.program_eq_ok_iff.1 hprogram
  refine dispatches_bind (altersTo_query _) fun kind m₂ _ hm₂ => ?_
  obtain ⟨rfl, hkind⟩ := hm₂
  have hkind : p.kind? here.node = some kind := by
    unfold Heap.nodeKind at hkind
    split at hkind
    · cases hkind
      assumption
    · cases hkind
  have hsuits := (hs.sits.ofNode hnode hprogram hkind).1
  by_cases hvalue : ∃ e, kind = .expressionStatement e ∧ f.step ≠ 0
  · obtain ⟨e, rfl, hstep⟩ := hvalue
    change Dispatches strict steady prompt thread rest m₂ (stepExpressionStatement thread f here e)
    unfold stepExpressionStatement
    split
    · exact absurd ‹f.step = 0› hstep
    · unfold Dispatches
      rw [bind_run, modifyThread_run]
      cases m₂.threads.all (·.id != thread) with
      | true => exact .inr .refl
      | false => exact ⟨m₂, .refl, .recorded f.value, trivial⟩
  · refine dispatches_of_altersTo ((altersTo_stepNode ht thread here p hsuits ?_).mono ?_)
    · intro e he
      exact Decidable.of_not_not fun hstep => hvalue ⟨e, he, hstep⟩
    · intro step m' haltered hfollows
      refine hs.carries (haltered.retains ht) hnode hprogram hkind hfollows fun h l hl => ?_
      exact hstrict h here p l hnode hprogram (hl ▸ hkind)

end Machine

end ScriptMachine
