import ScriptMachine.Machine.Closure
import ScriptMachine.Machine.Control
import ScriptMachine.Proofs.Pairing.Change

/-!
# Paired functions and errors

Closures, the bindings a body starts with and the error objects of failures are made alike.
-/

namespace ScriptMachine

namespace Pairing

open Machine Exec

variable {p q : Pairing}

/-! ## Closures -/

theorem pairs_nodeKind (t : Tree.Program) (node : Tree.NodeId) :
    p.Pairs (Heap.nodeKind t node) (Heap.nodeKind t node) := by
  unfold Heap.nodeKind
  cases t.kind? node <;> exact ⟨trivial, rfl⟩

theorem Heaps.pairs_functionNode {k k' : Heap} (hp : p.Heaps k k') {node node' : NodeRef}
    (hnode : p.Pairs node node') : p.Pairs (functionNode k node) (functionNode k' node') := by
  obtain ⟨hnode, rfl⟩ := hnode
  refine pairs_bind (hp.pairs_program (pairs_image (x := node.program) hnode)) fun t _ =>
    pairs_bind (pairs_nodeKind t node.node) fun kind _ => ?_
  cases kind <;> exact ⟨trivial, rfl⟩

theorem pairs_closureObject {node node' : NodeRef} (hnode : p.Pairs node node')
    {scope scope' : ScopeId} (hscope : p.Pairs scope scope') (f : Tree.FunctionNode)
    {proto proto' : ObjectId} (hproto : p.Pairs proto proto') {owner owner' : Option Owner}
    (howner : p.Pairs owner owner') :
    p.Pairs (closureObject node scope f proto owner) (closureObject node' scope' f proto' owner') := by
  have hfunction : p.Pairs (Callable.closure node scope) (.closure node' scope') :=
    ⟨⟨hnode.within, hscope.within⟩, by rw [hnode.eq, hscope.eq]; rfl⟩
  exact ((pairs_newObject howner (pairs_some hproto) .function (pairs_some hfunction)).put
    (pairs_frozen (pairs_ofNat _)) "length").put (pairs_frozen (pairs_string _)) "name"

theorem follows_createClosure {node node' : NodeRef} (hnode : p.Pairs node node')
    {scope scope' : ScopeId} (hscope : p.Pairs scope scope') {owner owner' : Option Owner}
    (howner : p.Pairs owner owner') :
    p.Follows (createClosure node scope owner) (createClosure node' scope' owner') := by
  refine (mirrors_heapQuery fun _ _ hk => hk.pairs_functionNode hnode).bind_follows fun f _ => ?_
  refine (mirrors_builtinObject "Function.prototype").bind_follows fun proto hproto => ?_
  refine (follows_alloc (pairs_closureObject hnode hscope f (pairs_image hproto) howner)).bind
    fun q hle func func' hfunc => ?_
  refine (follows_createPlainObject (howner.mono hle)).bind fun r hle object object' hobject => ?_
  have hfunc := hfunc.mono hle
  refine (mirrors_putProperty hobject "constructor" (pairs_hidden
    (pairs_ofObject hfunc))).bind_follows fun _ _ => ?_
  refine (mirrors_putProperty hfunc "prototype" (pairs_length
    (pairs_ofObject hobject))).bind_follows fun _ _ => ?_
  exact follows_pure hfunc

theorem mirrors_hoistVars {scope scope' : ScopeId} (hscope : p.Pairs scope scope')
    (names : List String) : p.Mirrors (hoistVars scope names) (hoistVars scope' names) := by
  induction names with
  | nil => exact mirrors_pure pairs_unit
  | cons name rest ih =>
    refine (mirrors_bindsLocally hscope name).bind fun bound _ => ?_
    rw [image_bool]
    split
    · exact (mirrors_declare hscope name pairs_undefined true).bind fun _ _ => ih
    · exact ih

theorem follows_hoistFunctions {program program' : ProgramId} (hprogram : p.Pairs program program')
    {scope scope' : ScopeId} (hscope : p.Pairs scope scope') {owner owner' : Option Owner}
    (howner : p.Pairs owner owner') (nodes : List Tree.NodeId) :
    p.Follows (hoistFunctions program scope owner nodes)
      (hoistFunctions program' scope' owner' nodes) := by
  induction nodes generalizing p with
  | nil => exact follows_pure pairs_unit
  | cons node rest ih =>
    have hnode : p.Pairs (NodeRef.mk program node) ⟨program', node⟩ :=
      ⟨hprogram.within, by rw [hprogram.eq]; rfl⟩
    refine (mirrors_heapQuery fun _ _ hk => hk.pairs_functionNode hnode).bind_follows
      fun f _ => ?_
    rw [image_functionNode]
    cases f.name with
    | none => exact follows_throw ⟨trivial, rfl⟩
    | some name =>
      refine (follows_createClosure hnode hscope howner).bind fun q hle func func' hfunc => ?_
      have hscope := hscope.mono hle
      have hrest := ih (hprogram.mono hle) hscope (howner.mono hle)
      refine (mirrors_bindsLocally hscope name).bind_follows fun bound _ => ?_
      rw [image_bool]
      split
      · refine (mirrors_resolveBinding hscope name).bind_follows fun found hfound => ?_
        cases found with
        | none => exact follows_throw_bind ⟨by trivial, rfl⟩ _ _
        | some target =>
          exact (mirrors_writeBinding (pairs_image (hfound target rfl)) name
            (pairs_ofObject hfunc)).bind_follows fun _ _ => hrest
      · exact (mirrors_declare hscope name (pairs_ofObject hfunc) true).bind_follows
          fun _ _ => hrest

theorem follows_hoist (hoisted : Tree.Hoisted) {program program' : ProgramId}
    (hprogram : p.Pairs program program') {scope scope' : ScopeId} (hscope : p.Pairs scope scope') :
    p.Follows (hoist hoisted program scope) (hoist hoisted program' scope') := by
  refine (mirrors_hoistVars hscope hoisted.vars).bind_follows fun _ _ => ?_
  refine (mirrors_scopeOwner hscope).bind_follows fun owner howner => ?_
  refine (mirrors_heapQuery fun _ _ hk => hk.pairs_program hprogram).bind_follows fun _ _ => ?_
  exact follows_hoistFunctions hprogram hscope (pairs_image howner) hoisted.functions

theorem follows_createArguments {args args' : List Value} (hargs : p.Pairs args args')
    {owner owner' : Option Owner} (howner : p.Pairs owner owner') :
    p.Follows (createArguments args owner) (createArguments args' owner') := by
  refine (mirrors_builtinObject "Object.prototype").bind_follows fun id hid => follows_alloc ?_
  have hlength : args'.length = args.length := by rw [hargs.eq, length_image]
  rw [hlength]
  exact ((pairs_newObject howner (pairs_some (pairs_image hid)) .arguments pairs_none).putItems
    hargs 0).put (pairs_hidden (pairs_ofNat _)) "length"

theorem mirrors_declareParams {scope scope' : ScopeId} (hscope : p.Pairs scope scope')
    (names : List String) {args args' : List Value} (hargs : p.Pairs args args') :
    p.Mirrors (declareParams scope names args) (declareParams scope' names args') := by
  obtain ⟨hargs, rfl⟩ := hargs
  induction names generalizing args with
  | nil => exact mirrors_pure pairs_unit
  | cons name rest ih =>
    refine (mirrors_declare hscope name ⟨within_headD p hargs, headD_image p args⟩ true).bind
      fun _ _ => ?_
    rw [tail_image]
    exact ih (within_tail p hargs)

/-! ## Errors -/

theorem follows_createError (kind : ErrorKind) (message : String) {owner owner' : Option Owner}
    (howner : p.Pairs owner owner') {thread : Option ThreadId}
    (hthread : ∀ id, thread = some id → p.whole ∨ p.actor = some id) :
    p.Follows (createError kind message owner thread) (createError kind message owner' thread) := by
  refine (mirrors_builtinObject kind.prototypeKey).bind_follows fun proto hproto => ?_
  refine follows_get_bind fun m m' hm => follows_alloc ?_
  have hbuilt : ∀ stack : String, p.Pairs
      ((({ owner, proto := some proto, cls := .error } : Object).put "message"
        (.hidden (.string message))).put "stack" (.hidden (.string stack)))
      ((({ owner := owner', proto := some (image p proto), cls := .error } : Object).put "message"
        (.hidden (.string message))).put "stack" (.hidden (.string stack))) := fun stack =>
    ((pairs_newObject howner (pairs_some (pairs_image hproto)) .error pairs_none).put
      (pairs_hidden (pairs_string _)) "message").put (pairs_hidden (pairs_string stack)) "stack"
  cases thread with
  | none => exact hbuilt _
  | some id =>
    have hstack : m'.renderStack id = m.renderStack id :=
      (hthread id rfl).elim (fun hwhole => by rw [hm.same hwhole]) fun hactor =>
        hm.renderStack hactor
    dsimp only
    rw [hstack]
    exact hbuilt _

theorem follows_errorToValue {e e' : Failure} (he : p.Pairs e e') {scope scope' : ScopeId}
    (hscope : p.Pairs scope scope') {thread : ThreadId} (hthread : p.actor = some thread) :
    p.Follows (errorToValue e scope thread) (errorToValue e' scope' thread) := by
  obtain ⟨he, rfl⟩ := he
  have hactor : ∀ id, some thread = some id → p.whole ∨ p.actor = some id :=
    fun id hid => .inr (hid ▸ hthread)
  refine (mirrors_scopeOwner hscope).bind_follows fun owner howner => ?_
  cases e with
  | thrown v message => exact follows_pure (pairs_image (x := v) he)
  | raised kind message =>
    exact (follows_createError kind message (pairs_image howner) hactor).bind
      fun _ _ _ _ hid => follows_pure (pairs_ofObject hid)
  | malformed message line column =>
    exact (follows_createError .parse _ (pairs_image howner) hactor).bind
      fun _ _ _ _ hid => follows_pure (pairs_ofObject hid)
  | fault cause => exact follows_throw ⟨he, rfl⟩
  | image message => exact follows_throw ⟨trivial, rfl⟩
  | json => exact follows_throw ⟨trivial, rfl⟩
  | overflow => exact follows_throw ⟨trivial, rfl⟩

/-!
## Paired threads

The clock, the queue and the table of threads are changed alike. The thread being stepped is shown
on both machines, so it is found on both; another thread may be forgotten on one of them once it
has ended and nobody waits for it.
-/

variable {p q : Pairing}

/-! ## Services -/

/-- The host reads the clock. -/
theorem hostOnly_read : HostOnly fun m => { m with clock := m.clock.read.2 } :=
  ⟨fun _ _ _ _ _ _ _ _ _ => rfl, fun _ => rfl, fun _ => rfl⟩

theorem hostOnly_setNextQueued (n : Nat) : HostOnly fun m => { m with nextQueued := n } :=
  ⟨fun _ _ _ _ _ _ _ _ _ => rfl, fun _ => rfl, fun _ => rfl⟩

theorem mirrors_now : p.Mirrors now now :=
  mirrors_modifyGet fun _ _ hm => ⟨hm.host hostOnly_read, trivial,
    congrArg₂ (· + ·) hm.previousElapsed (congrArg (·.read.1) hm.clock)⟩

theorem mirrors_modifyHost {g : Machine → Machine} (hg : HostOnly g) :
    p.Mirrors (modify g : Exec Unit) (modify g) :=
  mirrors_modify fun _ _ hm => hm.host hg

theorem mirrors_write (level : Host.Level) (text : String) :
    p.Mirrors (write level text) (write level text) :=
  mirrors_modifyHost ⟨fun _ _ _ _ _ _ _ _ _ => rfl, fun _ => rfl, fun _ => rfl⟩

theorem pairs_nextCount (n : Nat) : p.Pairs (nextCount n) (nextCount n) := by
  cases h : nextCount n with
  | ok next => exact pairs_ok ⟨trivial, rfl⟩
  | error e => exact eq_overflow_of_nextCount h ▸ pairs_error pairs_overflow

theorem mirrors_takeQueuePosition : p.Mirrors takeQueuePosition takeQueuePosition := by
  refine mirrors_get_bind fun m m' hm => ?_
  rw [hm.nextQueued]
  refine (mirrors_query fun _ _ _ => pairs_nextCount m.nextQueued).bind fun next _ => ?_
  exact (mirrors_modifyHost (hostOnly_setNextQueued next)).bind fun _ _ =>
    mirrors_pure ⟨trivial, rfl⟩

/-- The settlement kept for a thread. -/
theorem pairs_lookupEarly {early early' : List (ThreadId × Settlement)} (h : p.Pairs early early')
    (thread : ThreadId) : p.Pairs (early.lookup thread) (early'.lookup thread) := by
  obtain ⟨hw, rfl⟩ := h
  induction early with
  | nil => exact pairs_none
  | cons x rest ih =>
    obtain ⟨hx, hrest⟩ := (within_cons p x rest).1 hw
    obtain ⟨other, s⟩ := x
    rw [image_cons, image_pair, image_threadId, List.lookup_cons, List.lookup_cons]
    cases thread == other with
    | true => exact pairs_some (pairs_image hx.2)
    | false => exact ih hrest

theorem pairs_dropEarly {early early' : List (ThreadId × Settlement)} (h : p.Pairs early early')
    (thread : ThreadId) :
    p.Pairs (early.filter (·.1 != thread)) (early'.filter (·.1 != thread)) := by
  obtain ⟨hw, rfl⟩ := h
  exact ⟨fun x hx => hw x (List.mem_of_mem_filter hx), List.filter_map⟩

theorem mirrors_takeEarly (thread : ThreadId) :
    p.Mirrors (takeEarly thread) (takeEarly thread) :=
  mirrors_modifyGet fun _ _ hm =>
    ⟨hm.setEarly (pairs_dropEarly hm.early thread), pairs_lookupEarly hm.early thread⟩

/-! ## The thread being stepped -/

theorem all_ne_eq_isNone (m : Machine) (id : ThreadId) :
    m.threads.all (·.id != id) = (m.thread? id).isNone := by
  unfold Machine.thread?
  rw [Bool.eq_iff_iff, Option.isNone_iff_eq_none, List.find?_eq_none, List.all_eq_true]
  simp

section Actor

variable {thread : ThreadId} (hactor : p.actor = some thread)

include hactor

theorem shows_actor {m : Machine} {t : Thread} (ht : m.thread? thread = some t) :
    p.shows t = true := by
  have hid : t.id = thread := by simpa using List.find?_some ht
  simp [shows, hactor, hid]

theorem mirrors_modifyThread {g g' : Thread → Thread} (hid : ∀ t, (g t).id = t.id)
    (hid' : ∀ t, (g' t).id = t.id) (hwithin : ∀ t, Within p t → Within p (g t))
    (himage : ∀ t, g' (image p t) = image p (g t)) :
    p.Mirrors (modifyThread thread g) (modifyThread thread g') := by
  intro m m' hm
  rw [modifyThread_run, modifyThread_run, all_ne_eq_isNone, all_ne_eq_isNone,
    (hm.thread?_actor hactor).eq, isNone_image]
  split
  · exact ⟨hm, trivial, rfl⟩
  · exact ⟨hm.updateThread hid hid' hwithin himage (fun _ => shows_actor hactor)
      fun _ => shows_actor hactor, trivial, rfl⟩

theorem mirrors_setStack (g g' : Stack → Stack) (hwithin : ∀ s, Within p s → Within p (g s))
    (himage : ∀ s, g' (image p s) = image p (g s)) :
    p.Mirrors (modifyThread thread fun t => { t with stack := g t.stack })
      (modifyThread thread fun t => { t with stack := g' t.stack }) :=
  mirrors_modifyThread hactor (fun _ => rfl) (fun _ => rfl)
    (fun _ ht => ⟨hwithin _ ht.stack, ht.outcome⟩)
    fun t => congrArg (fun s => ({ image p t with stack := s } : Thread)) (himage t.stack)

theorem mirrors_checkTimeLimit : p.Mirrors (checkTimeLimit thread) (checkTimeLimit thread) := by
  refine mirrors_now.bind fun time _ => mirrors_get_bind fun m m' hm => ?_
  have hthread := hm.thread?_actor hactor
  rw [hthread.eq]
  cases m.thread? thread with
  | none => exact mirrors_throw ⟨trivial, rfl⟩
  | some t =>
    dsimp only [image_some]
    rw [image_timeLimit]
    cases t.timeLimit with
    | none => exact mirrors_pure pairs_unit
    | some limit =>
      dsimp only
      rw [image_runStarted, image_float]
      split
      · exact Mirrors.bind (mirrors_modifyThread hactor (fun _ => rfl) (fun _ => rfl)
          (fun _ ht => ⟨ht.stack, ht.outcome⟩) fun _ => rfl) fun _ _ =>
            mirrors_throw (pairs_raised _ _)
      · exact mirrors_pure pairs_unit

theorem mirrors_setTimeLimit (limit : Option Float) :
    p.Mirrors (setTimeLimit thread limit) (setTimeLimit thread limit) :=
  mirrors_modifyThread hactor (fun _ => rfl) (fun _ => rfl)
    (fun _ ht => ⟨ht.stack, ht.outcome⟩) fun _ => rfl

omit hactor in
theorem Machines.timeLimit {m m' : Machine} (hm : p.Machines m m')
    (hactor : p.actor = some thread) : m'.timeLimit thread = m.timeLimit thread := by
  unfold Machine.timeLimit
  rw [(hm.thread?_actor hactor).eq]
  cases m.thread? thread <;> rfl

end Actor

/-! ## Any thread -/

/-- A thread ends on both machines, or had ended on one and was forgotten on the other. -/
theorem mirrors_killThread (thread : ThreadId) :
    p.Mirrors (killThread thread) (killThread thread) := by
  intro m m' hm
  by_cases hshown : ∃ t, m.thread? thread = some t ∧ p.shows t = true
  · obtain ⟨t, ht, hshows⟩ := hshown
    obtain ⟨-, ht'⟩ := hm.thread?_of_shows ht hshows
    unfold killThread
    rw [bind_run, bind_run, get_run, get_run]
    dsimp only
    rw [ht, ht']
    dsimp only
    rw [isZombie_image]
    split
    · exact ⟨hm, trivial, rfl⟩
    · rw [bind_run, bind_run, modifyThread_run, modifyThread_run, all_ne_eq_isNone,
        all_ne_eq_isNone, ht, ht']
      refine ⟨hm.updateThread (fun _ => rfl) (fun _ => rfl) (fun t _ => within_finish t trivial)
        (fun _ => rfl) (fun u hu => ?_) fun u hu => ?_, trivial, rfl⟩
      · rw [ht] at hu
        exact Option.some.inj hu ▸ hshows
      · rw [ht'] at hu
        exact Option.some.inj hu ▸ hshows
  · have hhidden : ∀ t, m.thread? thread = some t → p.shows t = false := fun t ht =>
      Bool.eq_false_iff.2 fun hshows => hshown ⟨t, ht, hshows⟩
    have hended : ∀ n : Machine, (∀ t, n.thread? thread = some t → p.shows t = false) →
        killThread thread n = .ok false n := by
      intro n hn
      unfold killThread
      rw [bind_run, get_run]
      dsimp only
      cases ht : n.thread? thread with
      | none => rfl
      | some t =>
        have hzombie : t.isZombie = true := by
          have := hn t ht
          revert this
          unfold shows
          cases t.isZombie <;> simp
        dsimp only
        rw [if_pos hzombie]
        rfl
    rw [hended m hhidden, hended m' fun t ht => hm.thread?_of_not_shows hhidden ht]
    exact ⟨hm, trivial, rfl⟩

/-! ## New threads -/

theorem follows_load (source : String) : p.Follows (load source) (load source) := by
  unfold load
  cases Tree.parse source with
  | error e => exact follows_throw ⟨trivial, rfl⟩
  | ok program =>
    intro m m' hm
    obtain ⟨hle, hheap⟩ := hm.heap.addProgram program
    exact ⟨_, hle, hm.setHeap hle hheap, pairs_addProgram _ _⟩

/-- What a thread starts with. -/
theorem pairs_newThread {base base' : Frame} (hbase : p.Pairs base base') (id : ThreadId)
    (status : ThreadStatus) (runAt : Float) (queued : Nat) (timeLimit : Option Float)
    (keepOutcome : Bool) :
    p.Pairs
      ({ id, status, stack := .ofList [base], runAt, queued, timeLimit, runStarted := runAt,
         keepOutcome } : Thread)
      { id, status, stack := .ofList [base'], runAt, queued, timeLimit, runStarted := runAt,
        keepOutcome } := by
  refine ⟨⟨(within_cons p base []).2 ⟨hbase.within, within_nil p⟩, within_none p⟩, ?_⟩
  rw [hbase.eq]
  rfl

theorem mirrors_newThread {base base' : Frame} (hbase : p.Pairs base base') (delay : Float)
    (keepOutcome : Bool) :
    p.Mirrors (newThread base delay keepOutcome) (newThread base' delay keepOutcome) := by
  intro m m' hm
  have hid := congrArg nextCount hm.nextThreadId
  have hposition := congrArg nextCount hm.nextQueued
  rw [newThread_run, newThread_run]
  cases hnext : nextCount m.nextThreadId with
  | error e =>
    rw [hid.trans hnext]
    exact ⟨hm, eq_overflow_of_nextCount hnext ▸ pairs_overflow⟩
  | ok next =>
    have hlt := lt_of_nextCount hnext
    have hread := (hm.setNextThread (rfl : next = next) (Nat.le_of_lt hlt) true).host
      hostOnly_read
    rw [hid.trans hnext]
    dsimp only
    cases hqueued : nextCount m.nextQueued with
    | error e =>
      rw [hposition.trans hqueued]
      exact ⟨hread, eq_overflow_of_nextCount hqueued ▸ pairs_overflow⟩
    | ok nextQueued =>
      rw [hposition.trans hqueued]
      dsimp only
      refine ⟨(hread.host (hostOnly_setNextQueued nextQueued)).insertThread ?_
        hm.sorted.issued (fun u hu => hm.nextThreadId ▸ hm.sorted'.issued u hu) hlt,
        trivial, congrArg ThreadId.mk hm.nextThreadId⟩
      rw [hm.nextThreadId, hm.nextQueued, hm.clock, hm.previousElapsed, hm.defaultTimeLimit]
      exact pairs_newThread hbase _ _ _ _ _ keepOutcome

theorem pairs_ofCall {scope scope' : ScopeId} (hscope : p.Pairs scope scope') {c c' : CallInfo}
    (hc : p.Pairs c c') : p.Pairs (Frame.ofCall scope c) (.ofCall scope' c') :=
  ⟨Frame.within_ofCall hscope.within hc.within, by rw [hscope.eq, hc.eq]; rfl⟩

/-- A call that has not begun. -/
theorem pairs_callInfo {func func' receiver receiver' : Value} (hfunc : p.Pairs func func')
    (hreceiver : p.Pairs receiver receiver') {args args' : List Value} (hargs : p.Pairs args args')
    (construct : Bool) :
    p.Pairs ({ func, receiver, args, construct } : CallInfo)
      { func := func', receiver := receiver', args := args', construct } :=
  ⟨⟨hfunc.within, hreceiver.within, hargs.within, within_nil p, within_none p⟩,
    by rw [hfunc.eq, hreceiver.eq, hargs.eq]; rfl⟩

theorem follows_spawnCallAs {func func' receiver receiver' : Value} (hfunc : p.Pairs func func')
    (hreceiver : p.Pairs receiver receiver') {args args' : List Value} (hargs : p.Pairs args args')
    (delay : Float) {owner owner' : Owner} (howner : p.Pairs owner owner') (keepOutcome : Bool) :
    p.Follows (spawnCallAs func receiver args delay owner keepOutcome)
      (spawnCallAs func' receiver' args' delay owner' keepOutcome) := by
  refine follows_get_bind fun m m' hm => ?_
  rw [hm.isCallable hfunc]
  split
  · refine follows_get_bind fun n n' hn => ?_
    rw [hn.describe hfunc]
    exact follows_throw_bind (pairs_raised _ _) _ _
  · refine follows_get_bind fun n n' hn => ?_
    refine (follows_newScope .dummy (pairs_some hn.globalScope) (pairs_some howner)
      (pairs_some pairs_undefined)).bind fun q hle scope scope' hscope => ?_
    exact (mirrors_newThread (pairs_ofCall hscope (pairs_callInfo (hfunc.mono hle)
      (hreceiver.mono hle) (hargs.mono hle) false)) delay keepOutcome).follows

end Pairing

end ScriptMachine
