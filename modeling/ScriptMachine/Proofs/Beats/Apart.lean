import ScriptMachine.Proofs.Beats.Frames
import ScriptMachine.Proofs.Effect.Call
import ScriptMachine.Proofs.Natives
import ScriptMachine.Proofs.Reach
import ScriptMachine.Proofs.Roster.Turn
import ScriptMachine.Proofs.Threads

/-!
# What a turn may change

A turn of a thread changes that thread and the heap, and little of the machine around them.

How deep a stack may get is settled when a machine is made, and which thread was stepped last is
noted by the scheduler alone. No frame, no request of the host that runs nothing and no host function
that is moderate changes either.
-/

namespace ScriptMachine

open Machine Exec

/-- So many frames may be on a stack, and this thread was stepped last. -/
def Machine.Fixed (depth : Nat) (last : Option ThreadId) (m : Machine) : Prop :=
  m.config.maxStackDepth = depth ∧ m.lastStepped = last

/-- A host function leaves to the scheduler what is its own when it is called as calls are made. -/
def Moderate (code : NativeCode) : Prop :=
  ∀ (c : NativeCall) (m : Machine) (depth : Nat) (last : Option ThreadId), m.heap.Tidy →
    m.ActsAs c.scope c.owner → m.Fixed depth last → (after (code c) m).Fixed depth last

namespace Machine

variable {depth : Nat} {last : Option ThreadId} {thread : ThreadId} {m m' : Machine} {f : Frame}

theorem Fixed.changes {old : ObjectId → Prop} {actor : Option Owner} (hm : m.Fixed depth last)
    (h : Changes old actor m m') : m'.Fixed depth last := by
  have hsettings := Changes.sameSettings h
  exact ⟨hsettings.config ▸ hm.1, hsettings.lastStepped.trans hm.2⟩

/-! ## Threads -/

theorem fixed_load (source : String) : Keeps (Fixed depth last) (load source) := by
  unfold load
  split
  · exact keeps_throw _
  · exact fun _ hm => hm

/-- What concerns the heap, the host or one thread leaves to the scheduler what is its own. -/
theorem fixed : Free (Keeps (Fixed depth last)) where
  pure := keeps_pure
  throw := keeps_throw
  bind hx hf := hx.bind hf
  get := keeps_get
  query := keeps_query
  alloc _ _ hm := hm
  allocScope _ _ hm := hm
  modifyScope _ _ _ := keeps_modify fun _ h => h
  load := fixed_load
  now := keeps_modifyGet fun _ h => h
  write _ _ := keeps_modify fun _ h => h
  random _ := keeps_modifyGet fun _ h => h
  modifyHeapObject _ _ _ := keeps_modify fun _ h => h
  setScopeOwner _ _ := (keeps_query _).bind fun _ => keeps_modify fun _ h => h

theorem fixed_modifyThread (id : ThreadId) (g : Thread → Thread) :
    Keeps (Fixed depth last) (modifyThread id g) := by
  intro m hm
  unfold after
  rw [modifyThread_run]
  cases m.threads.all (·.id != id) <;> exact hm

theorem turning_fixed (thread : ThreadId) : Turning thread (Keeps (Fixed depth last)) where
  toRegular := fixed.toRegular
  attempt hx := hx.attempt
  tend g _ _ := fixed_modifyThread thread g

theorem fixed_takeQueuePosition : Keeps (Fixed depth last) takeQueuePosition := by
  intro m hm
  unfold after
  rw [takeQueuePosition_run]
  cases nextCount m.nextQueued <;> exact hm

/-! ## Frames -/

theorem fixed_applyReply (f : Frame) (call : CallInfo) (owner : Option Owner)
    (early : Option Settlement) (result : NativeResult) :
    Keeps (Fixed depth last) (applyReply thread f call owner early result) := by
  cases result with
  | value v => exact keeps_pure _
  | call func receiver args => exact keeps_pure _
  | eval program =>
    refine (keeps_query _).bind fun p => keeps_get.bind fun m => ?_
    exact (fixed.newScope _ _ _ _).bind fun _ => keeps_pure _
  | block =>
    cases early with
    | some s => exact keeps_pure _
    | none => exact (fixed_modifyThread _ _).bind fun _ => keeps_pure _
  | sleep time =>
    refine fixed_takeQueuePosition.bind fun queued => ?_
    exact (fixed_modifyThread _ _).bind fun _ => keeps_pure _

/-- What is read decides what is done. -/
theorem fixed_query_bind {α β : Type} {g : Machine → Except Failure α} {k : α → Exec β}
    (hm : m.Fixed depth last) (hk : ∀ a, g m = .ok a → (after (k a) m).Fixed depth last) :
    (after (query g >>= k) m).Fixed depth last := by
  apply after_bind_of (P := (· = m)) (after_query g m) (fun _ h => h ▸ hm)
  intro a m' hrun hsame
  subst hsame
  exact hk a (query_eq_ok_iff.1 hrun).1

/-- The scope of a frame acts as the owner that is read from it. -/
theorem actsAs_of_scopeOwner {scope : ScopeId} {owner : Option Owner}
    (h : (do return (← m.heap.scope scope).owner : Except Failure (Option Owner)) = .ok owner) :
    m.ActsAs scope owner := by
  cases hs : m.heap.scope scope with
  | error e =>
    rw [hs] at h
    cases h
  | ok s =>
    rw [hs] at h
    exact ⟨s, Heap.scope_eq_ok_iff.1 hs, Except.ok.inj h⟩

section Calls

variable {natives : Natives} (hnatives : natives.Each Moderate)

include hnatives

theorem fixed_invokeNative (ht : m.heap.Tidy) (hm : m.Fixed depth last) (f : Frame)
    (call : CallInfo) (resumed : Option Value) :
    (after (invokeNative natives thread f call resumed) m).Fixed depth last := by
  unfold invokeNative scopeOwner heapQuery
  apply fixed_query_bind hm
  intro owner howner
  have hacts : m.ActsAs f.scope owner := actsAs_of_scopeOwner howner
  split
  · exact hm
  apply fixed_query_bind hm
  intro o _
  split
  · rename_i id _
    apply fixed_query_bind hm
    intro code hcode
    have hcalled := hnatives.of_nativeCode hcode
    refine after_bind_of (P := Fixed depth last) ?_ (fun _ h => h) ?_
    · rw [after_attempt]
      exact hcalled _ m depth last ht hacts hm
    · intro answer m' _ hm'
      have hrest : ∀ early, Keeps (Fixed depth last) (do
          let reply ← query fun _ => answer
          if early.isSome && !reply.result.isBlock then
            throw (.fault (.settledWithoutBlocking id))
          applyReply thread f { call with nativePhase := reply.phase, scratch := reply.scratch }
            owner early reply.result) := by
        intro early
        refine (keeps_query _).bind fun reply => ?_
        dsimp only
        split
        · exact (keeps_throw _).bind fun _ => fixed_applyReply f _ owner early _
        · exact fixed_applyReply f _ owner early _
      exact (keeps_modifyGet fun _ h => h).bind hrest m' hm'
  · exact hm

theorem fixed_startCall (ht : m.heap.Tidy) (hm : m.Fixed depth last) {actor : Option Owner}
    (hacts : m.ActsAs f.scope actor) (fuel : Nat) (call : CallInfo) :
    (after (startCall natives thread f fuel call) m).Fixed depth last := by
  induction fuel generalizing call with
  | zero => exact hm
  | succ fuel ih =>
    unfold startCall heapQuery
    apply after_bind_of (P := (· = m)) rfl (fun _ h => h ▸ hm)
    rintro _ _ ⟨⟩ -
    split
    · exact hm
    · apply fixed_query_bind hm
      intro o ho
      split
      · exact hm
      · exact ih _
      · exact hm.changes (doesAt_enterFunction ht.holds hacts call
          (Heap.object_eq_ok_iff.1 ho) _ _).1
      · exact fixed_invokeNative hnatives ht hm f call none

theorem fixed_stepCall (ht : m.heap.Tidy) (hm : m.Fixed depth last) {actor : Option Owner}
    (hacts : m.ActsAs f.scope actor) :
    (after (stepCall natives thread f) m).Fixed depth last := by
  unfold stepCall
  split
  · split
    · obtain ⟨hchanges, hheap⟩ := doesAt_checkTimeLimit (f := f) ht.holds hacts thread
      apply after_bind_of (P := Fixed depth last) (hm.changes hchanges) (fun _ h => h)
      intro u m' hrun hm'
      rw [after_of_ok hrun] at hchanges
      apply after_bind_of (P := (· = m')) rfl (fun _ h => h ▸ hm')
      rintro _ _ ⟨⟩ -
      exact fixed_startCall hnatives (Changes.tidy hchanges ht) hm'
        (Changes.actsAs hchanges ht hacts) _ _
    · exact hm
    · exact hm
    · exact fixed_invokeNative hnatives ht hm f.clearValue _ _
    · exact hm
    · exact hm
  · exact hm

/-- The step of a frame leaves to the scheduler what is its own. -/
theorem fixed_dispatch (ht : m.heap.Tidy) (hm : m.Fixed depth last)
    (hscope : ∃ s, m.heap.scope? f.scope = some s) :
    (after (dispatch natives thread f) m).Fixed depth last := by
  obtain ⟨s, hs⟩ := hscope
  have hacts : m.ActsAs f.scope s.owner := ⟨s, hs, rfl⟩
  unfold dispatch
  split
  · exact fixed_stepCall hnatives ht hm hacts
  · rename_i here _
    apply fixed_query_bind hm
    intro program _
    apply fixed_query_bind hm
    intro kind _
    exact hm.changes (runs_stepNode thread here program kind _ m ht.holds (fun _ _ h => h) hacts).1

end Calls

/-! ## Requests of the host -/

variable {depth : Nat} {last : Option ThreadId}

theorem fixed_newThread (base : Frame) (delay : Float) (keepOutcome : Bool) :
    Keeps (Fixed depth last) (newThread base delay keepOutcome) := by
  intro m hm
  unfold after
  rw [newThread_run]
  cases nextCount m.nextThreadId with
  | error e => exact hm
  | ok next =>
    dsimp only
    cases nextCount m.nextQueued <;> exact hm

theorem fixed_spawnProgram (program : ProgramId) :
    Keeps (Fixed depth last) (spawnProgram program) :=
  (keeps_query _).bind fun _ => keeps_get.bind fun _ => fixed_newThread _ _ _

theorem fixed_spawn (source : String) : Keeps (Fixed depth last) (spawn source) :=
  (fixed_load source).bind fixed_spawnProgram

theorem fixed_spawnCall (func receiver : Value) (args : List Value) (delay : Float) :
    Keeps (Fixed depth last) (spawnCall func receiver args delay) := by
  refine keeps_get.bind fun m => keeps_get.bind fun m' => ?_
  have hstart : Keeps (Fixed depth last) (do
      let scope ← newScope .dummy (some (← get).globalScope) (some m.rootOwner) (some .undefined)
      newThread (.ofCall scope { func, receiver, args, construct := false }) delay true) := by
    refine keeps_get.bind fun m => (fixed.newScope _ _ _ _).bind fun scope => ?_
    exact fixed_newThread _ _ _
  dsimp only
  split
  · exact keeps_get.bind fun _ => (keeps_throw _).bind fun _ => hstart
  · exact hstart

theorem fixed_settle (id : Nat) (thread : ThreadId) (s : Settlement) :
    Keeps (Fixed depth last) (settle id thread s) := by
  intro m hm
  unfold after
  rw [settle_run]
  cases m.pendingResolvers.lookup id with
  | none => exact hm
  | some holder =>
    dsimp only
    by_cases hholder : (holder != thread) = true
    · rw [if_pos hholder]
      exact hm
    rw [if_neg hholder]
    cases nextCount m.nextQueued with
    | error e => exact hm
    | ok next =>
      dsimp only
      cases m.thread? holder with
      | none => exact hm
      | some t =>
        dsimp only
        cases t.status with
        | zombie => exact hm
        | sleeping => exact hm
        | blocked =>
          dsimp only
          cases settledFrame t s <;> exact hm
        | ready =>
          dsimp only
          cases m.currentThread == some holder <;> exact hm

theorem fixed_takeResult (thread : ThreadId) : Keeps (Fixed depth last) (takeResult thread) := by
  have hpin (v : Value) : Keeps (Fixed depth last) (pinHostValue v) := keeps_modify fun _ h => h
  have hforget : Keeps (Fixed depth last) (modify fun m : Machine =>
      { m with threads := m.threads.filter (·.id != thread) }) := keeps_modify fun _ h => h
  refine keeps_get.bind fun m => ?_
  split
  · exact keeps_pure _
  · dsimp only
    split
    · exact keeps_pure _
    · refine hforget.bind fun _ => ?_
      split
      · exact (hpin _).bind fun _ => keeps_pure _
      · exact (hpin _).bind fun _ => keeps_pure _
      · exact (keeps_pure ()).bind fun _ => keeps_pure _

theorem fixed_waitUntil (time : Float) : Keeps (Fixed depth last) (waitUntil time) :=
  fixed.waitUntil (fun _ _ => keeps_modify fun _ h => h) time

theorem fixed_replaceClock (clock : Host.Clock) : Keeps (Fixed depth last) (replaceClock clock) :=
  fixed.replaceClock (fun _ _ => keeps_modify fun _ h => h) clock

/-- A request that runs nothing leaves to the scheduler what is its own. -/
theorem fixed_request (natives : Natives) (r : Request) (hstep : r ≠ .step)
    (hrun : ∀ fuel, r ≠ .run fuel) : Keeps (Fixed depth last) (r.perform natives) := by
  have hdiscard {α : Type} {x : Exec α} (hx : Keeps (Fixed depth last) x) :
      Keeps (Fixed depth last) (do let _ ← x) := hx.bind fun _ => keeps_pure _
  have hserve {g : Machine → Machine}
      (hg : ∀ m, (g m).config.maxStackDepth = m.config.maxStackDepth ∧
        (g m).lastStepped = m.lastStepped) : Keeps (Fixed depth last) (modify g : Exec Unit) :=
    keeps_modify fun m hm => ⟨(hg m).1.trans hm.1, (hg m).2.trans hm.2⟩
  cases r with
  | load source => exact hdiscard (fixed_load source)
  | spawnProgram program => exact hdiscard (fixed_spawnProgram program)
  | spawn source => exact hdiscard (fixed_spawn source)
  | call func receiver args delay => exact hdiscard (fixed_spawnCall func receiver args delay)
  | settle resolver thread s => exact fixed_settle resolver thread s
  | kill thread => exact hdiscard (turning_fixed thread).killThread
  | take thread => exact hdiscard (fixed_takeResult thread)
  | release => exact hserve fun _ => ⟨rfl, rfl⟩
  | pin v => exact hserve fun _ => ⟨rfl, rfl⟩
  | limit thread most => exact fixed_modifyThread thread _
  | threshold count => exact hserve fun _ => ⟨rfl, rfl⟩
  | policy p => exact hserve fun _ => ⟨rfl, rfl⟩
  | pause => exact hserve fun m => by split <;> exact ⟨rfl, rfl⟩
  | resume => exact hserve fun m => by split <;> exact ⟨rfl, rfl⟩
  | stop => exact hserve fun _ => ⟨rfl, rfl⟩
  | setGlobal name v => exact fixed.setGlobal name v
  | declare name v mutable => exact keeps_get.bind fun _ => fixed.declare _ name v mutable
  | define name => exact fixed.defineGlobalNative natives name
  | newScope kind outer owner receiver => exact hdiscard (fixed.newScope kind outer owner receiver)
  | declareIn scope name v mutable => exact fixed.declare scope name v mutable
  | setBinding scope name v => exact fixed.setBinding scope name v
  | writeBinding scope name v => exact fixed.writeBinding scope name v
  | setScopeOwner scope owner => exact fixed.setScopeOwner scope owner
  | alloc o => exact hdiscard (fixed.alloc o)
  | createObject proto owner => exact hdiscard (fixed.createObject proto owner)
  | createPlainObject owner => exact hdiscard (fixed.createPlainObject owner)
  | createArray values owner => exact hdiscard (fixed.createArray values owner)
  | createFunction id name => exact hdiscard (fixed.createNativeFunction natives id name)
  | createClosure node scope owner => exact hdiscard (fixed.createClosure node scope owner)
  | createError kind message owner thread =>
    exact hdiscard (fixed.createError kind message owner thread)
  | setProperty base key v actor => exact fixed.setProperty base key v actor
  | defineProperty id key d actor => exact fixed.defineProperty id key d actor
  | defineHidden id key v actor => exact fixed.defineHidden id key v actor
  | deleteProperty id key actor => exact hdiscard (fixed.deleteProperty id key actor)
  | setPrototype id proto actor => exact fixed.setPrototype id proto actor
  | preventExtensions id actor => exact fixed.preventExtensions id actor
  | setOwnerOf id owner actor => exact fixed.setOwnerOf id owner actor
  | advance millis => exact hserve fun _ => ⟨rfl, rfl⟩
  | wait time => exact fixed_waitUntil time
  | setClock time => exact hserve fun _ => ⟨rfl, rfl⟩
  | replaceClock clock => exact fixed_replaceClock clock
  | collect => exact fun _ hm => hm
  | step => exact absurd rfl hstep
  | run fuel => exact absurd rfl (hrun fuel)

end Machine

namespace Builtin

/-- A host function that only makes changes for its caller is moderate. -/
theorem Behaves.moderate {code : NativeCode} (h : Behaves code) : Moderate code := by
  intro c m depth last ht hacts hm
  rcases h c _ m ht.holds hacts with hdoes | ⟨target, v, m', hrun, hbecome⟩
  · exact hm.changes hdoes.1
  · rw [after_of_ok hrun, hbecome.after_eq]
    exact hm

theorem each_moderate : natives.Each Moderate :=
  each_behaves.mono fun _ h => Behaves.moderate h

end Builtin

/-!
## What a turn leaves alone

In the turn of a thread its top frame is stepped and what the step asks for is carried out. Only
then are frames dropped, if the turn comes to a completion: one that the step asks for, or the throw
that a failure becomes. All the while the thread drops no program and does not touch the frames of
another thread unless it ends that thread.
-/

open Stack

namespace Machine

/-! ## A turn in two halves -/

/-- What the first half of a turn comes to. -/
inductive Progress where
  /-- The thread was ended while its frame was stepped. -/
  | struck
  /-- What the step asked for is done. -/
  | quiet
  /-- Frames are to be dropped for a completion. -/
  | unwinding (c : Completion)

/-- A failure in a thread becomes a throw; a fault ends the thread. -/
def thrown (thread : ThreadId) (scope : ScopeId) (e : Failure) : Exec Progress := do
  if e.isFault then fault thread e
  else
    match ← attempt (errorToValue e scope thread) with
    | .ok v => return .unwinding { kind := .throw, value := v }
    | .error e => fault thread e

/-- Puts a child on the stack. There is a throw instead when the stack is full. -/
def place (thread : ThreadId) (f child : Frame) : Exec Progress := do
  modifyThread thread fun t => { t with stack := t.stack.push f }
  let depth := (((← get).thread? thread).map (·.stack.depth)).getD 0
  if depth ≥ (← get).config.maxStackDepth then
    thrown thread f.scope (.rangeError "Maximum call stack size exceeded")
  else
    modifyThread thread fun t => { t with stack := t.stack.push child }
    return .quiet

/-- Carries out what a step asks for, up to the completion that it asks for. -/
def carry (thread : ThreadId) (step : Step) : Exec Progress := do
  match step with
  | .push f child => place thread f child
  | .unwind c => return .unwinding c
  | step =>
    applyStep thread step
    return .quiet

/-- The turn of a thread up to the completion that it comes to, if it comes to one. -/
def advance (natives : Natives) (thread : ThreadId) : Exec Progress := do
  match ← popFrame thread with
  | none =>
    finishThread thread (.completed .undefined)
    return .quiet
  | some f =>
    let result ← attempt (dispatch natives thread f)
    if (← get).isAlive thread then
      match result with
      | .ok step => carry thread step
      | .error e => thrown thread f.scope e
    else return .struck

/-- Drops frames of a thread for a completion, if there is one. -/
def release (thread : ThreadId) : Progress → Exec Unit
  | .unwinding c => unwind thread c
  | _ => pure ()

theorem fault_bind {α β : Type} (thread : ThreadId) (e : Failure) (f : α → Exec β) :
    (fault thread e : Exec α) >>= f = fault thread e := by
  funext m
  unfold fault
  rw [bind_assoc]
  rfl

theorem raise_eq (thread : ThreadId) (scope : ScopeId) (e : Failure) :
    raise thread scope e = thrown thread scope e >>= release thread := by
  unfold raise thrown
  split
  · rw [fault_bind]
  · rw [bind_assoc]
    congr 1
    funext answer
    cases answer with
    | ok v => rfl
    | error e => exact (fault_bind thread e _).symm

theorem pushChild_eq (thread : ThreadId) (f child : Frame) :
    pushChild thread f child = place thread f child >>= release thread := by
  unfold pushChild place
  simp only [bind_assoc]
  congr 1
  funext _
  congr 1
  funext m
  congr 1
  funext n
  split
  · exact raise_eq thread _ _
  · simp [release]

theorem applyStep_eq (thread : ThreadId) (step : Step) :
    applyStep thread step = carry thread step >>= release thread := by
  cases step with
  | push f child => exact pushChild_eq thread f child
  | unwind c => rfl
  | _ => simp [carry, release]

/-- A turn goes up to its completion, and then frames are dropped for it. -/
theorem stepThread_eq_advance (natives : Natives) (thread : ThreadId) :
    stepThread natives thread = advance natives thread >>= release thread := by
  unfold stepThread advance
  rw [bind_assoc]
  congr 1
  funext top
  cases top with
  | none => simp [release]
  | some f =>
    simp only [bind_assoc]
    congr 1
    funext result
    congr 1
    funext m
    split
    · cases result with
      | ok step => exact applyStep_eq thread step
      | error e => exact raise_eq thread _ e
    · rfl

/-! ## Apart from a thread -/

variable {m m' m'' : Machine} {thread : ThreadId}

/-- Apart from the frames of one thread a machine goes on as it was. -/
structure ActsApart (thread : ThreadId) (m m' : Machine) : Prop where
  numbered : m.Numbered → m'.Numbered
  tidy : m.heap.Tidy → m'.heap.Tidy
  retains : m.heap.Tidy → m.heap.Retains m'.heap
  builtins : m.heap.Tidy → m'.builtins = m.builtins
  fixed : ∀ {depth last}, m.Fixed depth last → m'.Fixed depth last
  others : ∀ {other}, other ≠ thread → m.Numbered → Undisturbed other m m'

namespace ActsApart

theorem refl (m : Machine) : ActsApart thread m m :=
  ⟨id, id, fun _ => .refl _, fun _ => rfl, id, fun _ _ => .refl m⟩

theorem trans (h : ActsApart thread m m') (h' : ActsApart thread m' m'') :
    ActsApart thread m m'' where
  numbered := h'.numbered ∘ h.numbered
  tidy := h'.tidy ∘ h.tidy
  retains := fun ht => (h.retains ht).trans (h'.retains (h.tidy ht))
  builtins := fun ht => (h'.builtins (h.tidy ht)).trans (h.builtins ht)
  fixed := h'.fixed ∘ h.fixed
  others := fun hne hn => (h.others hne hn).trans (h'.others hne (h.numbered hn))

/-- Only the thread itself is changed, and the services of the host. -/
theorem update {g : Thread → Thread} {next : Nat} {clock : Host.Clock} {console : Host.Console}
    (hid : ∀ t, (g t).id = t.id) (hle : m.nextQueued ≤ next)
    (hqueued : ∀ t, (g t).queued = t.queued ∨
      m.nextQueued ≤ (g t).queued ∧ (g t).queued < next) :
    ActsApart thread m { m with
      threads := updateThread thread g m.threads, nextQueued := next, clock, console } where
  numbered := fun hn => hn.update hid hle hqueued
  tidy := id
  retains := fun _ => .refl _
  builtins := fun _ => rfl
  fixed := id
  others := by
    intro other hne _
    have hupdated : Undisturbed other m { m with threads := updateThread thread g m.threads } :=
      .update_of_ne hne hid
    exact hupdated.trans (.of_threads rfl (Nat.le_refl _))

/-- Only the stack, the status and the outcome of the thread itself are changed. -/
theorem restack {g : Thread → Thread} (hid : ∀ t, (g t).id = t.id)
    (hqueued : ∀ t, (g t).queued = t.queued) :
    ActsApart thread m { m with threads := updateThread thread g m.threads } :=
  update hid (Nat.le_refl _) fun t => .inl (hqueued t)

/-- What a step does at its end. -/
theorem ends {steady prompt : Prop} {step : Step} (h : Ends steady prompt thread m step m') :
    ActsApart thread m m' := by
  cases h with
  | plain => exact refl m
  | recorded v => exact restack (fun _ => rfl) fun _ => rfl
  | blocked => exact restack (fun _ => rfl) fun _ => rfl
  | asleep _ _ _ _ hnext =>
    exact update (fun _ => rfl) (Nat.le_of_lt hnext) fun _ => .inr ⟨Nat.le_refl _, hnext⟩
  | napping _ _ _ hnext =>
    exact update (fun _ => rfl) (Nat.le_of_lt hnext) fun _ => .inr ⟨Nat.le_refl _, hnext⟩

/-- While a frame of the thread is stepped. -/
theorem worked (hfixed : ∀ {depth last}, m.Fixed depth last → m'.Fixed depth last)
    (ht : m.heap.Tidy) (hn : m.Numbered) (h : Worked thread m m') : ActsApart thread m m' where
  numbered := by
    have hworked : Undisturbed thread m m' ∧ m'.Numbered := Undisturbed.worked hn h
    exact fun _ => hworked.2
  tidy := fun _ => h.tidy ht
  retains := fun _ => h.retains ht
  builtins := fun _ => h.builtins
  fixed := hfixed
  others := fun _ _ => (Undisturbed.worked hn h).1

/-- The roster and the stack limit are as they were. -/
theorem of_roster (hroster : m'.roster = m.roster)
    (haltered : m.heap.Tidy → Altered false m m')
    (hfixed : ∀ {depth last}, m.Fixed depth last → m'.Fixed depth last) :
    ActsApart thread m m' where
  numbered := by
    intro hn
    unfold Numbered
    rw [show m'.threads = m.threads from congrArg (·.threads) hroster,
      show m'.nextThreadId = m.nextThreadId from congrArg (·.nextThreadId) hroster,
      show m'.nextQueued = m.nextQueued from congrArg (·.nextQueued) hroster]
    exact hn
  tidy := fun ht => (haltered ht).tidy ht
  retains := fun ht => (haltered ht).retains ht
  builtins := fun ht => (haltered ht).builtins
  fixed := hfixed
  others := fun _ _ => .of_threads (congrArg (·.threads) hroster)
    (Nat.le_of_eq (congrArg (·.nextThreadId) hroster).symm)

end ActsApart

end Machine

namespace Exec

variable {α β : Type} {thread : ThreadId}

/-- An operation leaves everything alone apart from the frames of one thread. -/
def StaysApart (thread : ThreadId) (x : Exec α) : Prop := ∀ m, ActsApart thread m (after x m)

theorem StaysApart.bind {x : Exec α} {f : α → Exec β} (hx : StaysApart thread x)
    (hf : ∀ a, StaysApart thread (f a)) : StaysApart thread (x >>= f) :=
  fun m => after_bind_of (hx m) (fun _ h => h) fun a m' _ h => h.trans (hf a m')

theorem StaysApart.attempt {x : Exec α} (h : StaysApart thread x) :
    StaysApart thread (attempt x) := by
  intro m
  rw [after_attempt]
  exact h m

/-- An operation that leaves the roster and the stack limit as they are stays apart. -/
theorem staysApart_of {x : Exec α} (hroster : Aloof x) (haltered : Alters false x)
    (hfixed : ∀ {depth last}, Keeps (Machine.Fixed depth last) x) : StaysApart thread x :=
  fun m => .of_roster (hroster m) (haltered m) (hfixed m)

end Exec

namespace Machine

variable {thread : ThreadId}

theorem staysApart : Free (StaysApart thread) where
  pure _ := fun m => .refl m
  throw _ := fun m => .refl m
  bind hx hf := hx.bind hf
  get := fun m => .refl m
  query f := staysApart_of (aloof.query f) (alters.query f) (fixed.query f)
  alloc o := staysApart_of (aloof.alloc o) (alters.alloc o) (fixed.alloc o)
  allocScope s := staysApart_of (aloof.allocScope s) (alters.allocScope s) (fixed.allocScope s)
  modifyScope id _ hf := staysApart_of (aloof.modifyScope id hf) (alters.modifyScope id hf)
    (fixed.modifyScope id hf)
  load source := staysApart_of (aloof.load source) (alters.load source) (fixed.load source)
  now := staysApart_of aloof.now alters.now fixed.now
  write level text := staysApart_of (aloof.write level text) (alters.write level text)
    (fixed.write level text)
  random c := staysApart_of (aloof.random c) (alters.random c) (fixed.random c)
  modifyHeapObject id _ hf := staysApart_of (aloof.modifyHeapObject id hf)
    (alters.modifyHeapObject id hf) (fixed.modifyHeapObject id hf)
  setScopeOwner id owner := staysApart_of (aloof.setScopeOwner id owner)
    (alters.setScopeOwner id owner) (fixed.setScopeOwner id owner)

theorem staysApart_modifyThread {g : Thread → Thread} (hid : ∀ t, (g t).id = t.id)
    (hqueued : ∀ t, (g t).queued = t.queued) : StaysApart thread (modifyThread thread g) := by
  intro m
  unfold after
  rw [modifyThread_run]
  cases m.threads.all (·.id != thread) with
  | true => exact .refl m
  | false => exact .restack hid hqueued

theorem turning_staysApart : Turning thread (StaysApart thread) where
  toRegular := staysApart.toRegular
  attempt hx := hx.attempt
  tend _ hid hqueued := staysApart_modifyThread hid hqueued

theorem staysApart_thrown (scope : ScopeId) (e : Failure) :
    StaysApart thread (thrown thread scope e) := by
  unfold thrown
  split
  · exact turning_staysApart.fault e
  · refine (staysApart.errorToValue e scope thread).attempt.bind fun answer => ?_
    cases answer with
    | ok v => exact staysApart.pure _
    | error e => exact turning_staysApart.fault e

/-- What a step asks for is carried out apart from other threads. -/
theorem staysApart_carry (step : Step) : StaysApart thread (carry thread step) := by
  have hpush (f : Frame) : StaysApart thread
      (modifyThread thread fun t => { t with stack := t.stack.push f }) :=
    turning_staysApart.restack (·.push f)
  have htop (g : Frame → Frame) : StaysApart thread (modifyTop thread g) :=
    turning_staysApart.restack (·.modifyTop g)
  cases step with
  | push f child =>
    refine (hpush f).bind fun _ => staysApart.get.bind fun m => staysApart.get.bind fun m' => ?_
    split
    · exact staysApart_thrown _ _
    · exact (hpush child).bind fun _ => staysApart.pure _
  | stay f => exact (hpush f).bind fun _ => staysApart.pure _
  | suspend f => exact (hpush f).bind fun _ => staysApart.pure _
  | unwind c => exact staysApart.pure _
  | done v =>
    refine StaysApart.bind (staysApart.get.bind fun m => ?_) fun _ => staysApart.pure _
    split
    · exact htop _
    · exact turning_staysApart.finishThread _
  | ref r =>
    refine StaysApart.bind (staysApart.get.bind fun m => ?_) fun _ => staysApart.pure _
    split
    · exact htop _
    · exact turning_staysApart.fault _

theorem staysApart_release (p : Progress) : StaysApart thread (release thread p) := by
  cases p with
  | unwinding c => exact turning_staysApart.unwind c
  | struck => exact staysApart.pure ()
  | quiet => exact staysApart.pure ()

end Machine

end ScriptMachine
