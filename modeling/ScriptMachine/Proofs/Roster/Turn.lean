import ScriptMachine.Machine.Control
import ScriptMachine.Machine.Schedule
import ScriptMachine.Proofs.Dispatch
import ScriptMachine.Proofs.Execution
import ScriptMachine.Proofs.Natives
import ScriptMachine.Proofs.Plain
import ScriptMachine.Proofs.Threads

/-!
# Turns and the roster

The roster of a machine is its table of threads with the counters that number and order them, and
what is known of resolvers. Most operations have nothing to do with it: they work on the heap or on
the services of the host. In a turn a step changes the thread that is stepped and takes places in the
run queue, and what it asks for is carried out.
-/

namespace ScriptMachine

open Machine

/-- The threads of a machine, the counters that number and order them, and their resolvers. -/
structure Roster where
  threads : List Thread
  nextThreadId : Nat
  nextQueued : Nat
  nextResolverId : Nat
  pendingResolvers : List (Nat × ThreadId)
  earlySettlements : List (ThreadId × Settlement)

namespace Machine

def roster (m : Machine) : Roster where
  threads := m.threads
  nextThreadId := m.nextThreadId
  nextQueued := m.nextQueued
  nextResolverId := m.nextResolverId
  pendingResolvers := m.pendingResolvers
  earlySettlements := m.earlySettlements

theorem eq_succ_of_nextCount {n next : Nat} (h : nextCount n = .ok next) : next = n + 1 := by
  unfold nextCount at h
  split at h
  · exact (Except.ok.inj h).symm
  · cases h

end Machine

namespace Exec

variable {α β : Type}

/-- An operation leaves the roster as it is. -/
def Aloof (x : Exec α) : Prop := ∀ m, (after x m).roster = m.roster

theorem Aloof.bind {x : Exec α} {f : α → Exec β} (hx : Aloof x) (hf : ∀ a, Aloof (f a)) :
    Aloof (x >>= f) := by
  intro m
  rw [after_bind]
  cases hrun : x m with
  | ok a m' => exact (hf a m').trans (after_of_ok hrun ▸ hx m)
  | error e m' => exact after_of_error hrun ▸ hx m

theorem aloof_modify {f : Machine → Machine} (h : ∀ m, (f m).roster = m.roster) :
    Aloof (modify f : Exec Unit) := h

theorem Aloof.attempt {x : Exec α} (hx : Aloof x) : Aloof (attempt x) := by
  intro m
  rw [after_attempt]
  exact hx m

/-- Whatever is done to the heap leaves the roster as it is. -/
theorem aloof : Free Aloof where
  pure _ _ := rfl
  throw _ _ := rfl
  bind hx hf := hx.bind hf
  get _ := rfl
  query f m := by rw [after_query]
  alloc _ _ := rfl
  allocScope _ _ := rfl
  modifyScope _ _ _ _ := rfl
  load source m := by
    unfold load
    cases Tree.parse source <;> rfl
  now _ := rfl
  write _ _ _ := rfl
  random _ _ := rfl
  modifyHeapObject _ _ _ _ := rfl
  setScopeOwner id owner := Aloof.bind (fun m => by rw [heapQuery, after_query]) fun _ _ => rfl

end Exec

namespace Machine

open Exec

/-! ## Services of the host -/

theorem aloof_setClock (time : Float) : Aloof (setClock time) := aloof_modify fun _ => rfl

theorem aloof_waitUntil (time : Float) : Aloof (waitUntil time) :=
  aloof.waitUntil (fun _ _ => aloof_modify fun _ => rfl) time

theorem aloof_replaceClock (clock : Host.Clock) : Aloof (replaceClock clock) :=
  aloof.replaceClock (fun _ _ => aloof_modify fun _ => rfl) clock

theorem aloof_pinHostValue (v : Value) : Aloof (pinHostValue v) := aloof_modify fun _ => rfl

theorem aloof_releaseHostValues : Aloof releaseHostValues := aloof_modify fun _ => rfl

theorem aloof_setGcThreshold (threshold : Nat) : Aloof (setGcThreshold threshold) :=
  aloof_modify fun _ => rfl

theorem aloof_pause : Aloof pause := aloof_modify fun m => by split <;> rfl

theorem aloof_resume : Aloof Machine.resume := aloof_modify fun m => by split <;> rfl

end Machine

/-!
## What a step does to the roster

A step changes the thread that is stepped and takes places in the run queue. Whatever else becomes
of the roster is done by the host function it calls; so a relation that holds along these changes,
and along every call of a host function, holds along the step.
-/

open Machine Exec

/-- A relation of rosters that holds along nothing and along one change after another. -/
structure Chains (R : Roster → Roster → Prop) : Prop where
  refl : ∀ r, R r r
  trans : ∀ {r s t}, R r s → R s t → R r t

/-- A relation of rosters that holds along changes of one thread that keep its place in the run
queue, and along taking places, which the thread may move to. -/
structure Stepping (thread : ThreadId) (R : Roster → Roster → Prop) : Prop extends Chains R where
  tend : ∀ (r : Roster) (f : Thread → Thread), (∀ t, (f t).id = t.id) →
    (∀ t, (f t).queued = t.queued) → R r { r with threads := updateThread thread f r.threads }
  queue : ∀ r : Roster, R r { r with nextQueued := r.nextQueued + 1 }
  requeue : ∀ (r : Roster) (f : Thread → Thread), (∀ t, (f t).id = t.id) →
    (∀ t, (f t).queued = r.nextQueued) →
    R r { r with
      nextQueued := r.nextQueued + 1, threads := updateThread thread f r.threads }

namespace Exec

variable {α β : Type} {R : Roster → Roster → Prop}
  {E : EStateM.Result Failure Machine Step → Prop} {thread : ThreadId}

/-- A relation holds between the rosters before and after an operation. -/
def Along (R : Roster → Roster → Prop) (x : Exec α) : Prop :=
  ∀ m, R m.roster (after x m).roster

/-- A relation holds between the rosters before and after a step, unless its result is excused. -/
def StepsAlong (R : Roster → Roster → Prop) (E : EStateM.Result Failure Machine Step → Prop)
    (x : Exec Step) : Prop :=
  ∀ m, R m.roster (after x m).roster ∨ E (x m)

/-- A host function is called, and what it settled early for its thread is taken. -/
def answer (code : NativeCode) (c : NativeCall) :
    Exec (Except Failure NativeReply × Option Settlement) := do
  let answer ← attempt (code c)
  let early ← takeEarly c.thread
  return (answer, early)

/-- A relation holds between the rosters before and after a thread calls a host function, unless it
gives a value, having settled nothing early, or a counter ran out, and that is excused. -/
def CallsAlong (thread : ThreadId) (R : Roster → Roster → Prop)
    (E : EStateM.Result Failure Machine Step → Prop) (code : NativeCode) : Prop :=
  ∀ (c : NativeCall) (m : Machine), c.thread = thread →
    R m.roster (after (answer code c) m).roster ∨
      (∃ reply v m', code c m = .ok reply m' ∧ reply.result = .value v ∧
        m'.earlySettlements.lookup thread = none ∧ ∀ m'', E (.ok (.done v) m'')) ∨
      ∃ m', code c m = .error .overflow m' ∧ E (.error .overflow m')

section Chains

variable (hR : Chains R)

include hR

theorem Aloof.along {x : Exec α} (hx : Aloof x) : Along R x := by
  intro m
  rw [hx m]
  exact hR.refl _

theorem Along.bind {x : Exec α} {f : α → Exec β} (hx : Along R x) (hf : ∀ a, Along R (f a)) :
    Along R (x >>= f) := by
  intro m
  rw [after_bind]
  cases hrun : x m with
  | ok a m' => exact hR.trans (after_of_ok hrun ▸ hx m) (hf a m')
  | error e m' => exact after_of_error hrun ▸ hx m

omit hR in
theorem Along.attempt {x : Exec α} (hx : Along R x) : Along R (attempt x) := by
  intro m
  rw [after_attempt]
  exact hx m

omit hR in
theorem Along.steps {x : Exec Step} (hx : Along R x) : StepsAlong R E x := fun m => .inl (hx m)

/-- A relation that holds along the first part of a step. -/
theorem Along.bindSteps {x : Exec α} {f : α → Exec Step} (hx : Along R x)
    (hf : ∀ a, StepsAlong R E (f a)) : StepsAlong R E (x >>= f) := by
  intro m
  cases hrun : x m with
  | error e m' =>
    refine .inl ?_
    rw [after_bind, hrun]
    exact after_of_error hrun ▸ hx m
  | ok a m' =>
    have hfirst : R m.roster m'.roster := after_of_ok hrun ▸ hx m
    refine (hf a m').imp (fun hrest => ?_) fun hexcused => ?_
    · rw [after_bind, hrun]
      exact hR.trans hfirst hrest
    · rwa [bind_run_of_ok hrun]

/-- A reading that goes first in a step gives what it reads. -/
theorem steps_query {f : Machine → Except Failure α} {k : α → Exec Step}
    (hk : ∀ m a, f m = .ok a → StepsAlong R E (k a)) : StepsAlong R E (query f >>= k) := by
  intro m
  cases hread : f m with
  | error e =>
    refine .inl ?_
    rw [after_bind, query_run_error hread]
    exact hR.refl _
  | ok a =>
    rw [after_bind, bind_run, query_run_ok hread]
    exact hk m a hread m

/-- The answer of a host function is acted on; a value that it gives, having settled nothing early,
is the value of its call. -/
theorem steps_answer {code : NativeCode} (hcode : CallsAlong thread R E code) {c : NativeCall}
    (hc : c.thread = thread) {k : Except Failure NativeReply → Option Settlement → Exec Step}
    (hk : ∀ answer early, StepsAlong R E (k answer early))
    (hvalue : ∀ reply v, reply.result = .value v → k (.ok reply) none = pure (.done v)) :
    StepsAlong R E (do
      let answer ← attempt (code c)
      let early ← takeEarly thread
      k answer early) := by
  intro m
  subst hc
  have hrest : (do
      let answer ← attempt (code c)
      let early ← takeEarly c.thread
      k answer early) = answer code c >>= fun r => k r.1 r.2 := by
    simp only [answer, bind_assoc, pure_bind]
  rcases hcode c m rfl with
    hcall | ⟨reply, v, m', hrun, hv, hearly, hexcused⟩ | ⟨m', hrun, hexcused⟩
  · rw [hrest, after_bind, bind_run]
    cases hanswer : answer code c m with
    | ok r m' =>
      exact (hk r.1 r.2 m').imp_left (hR.trans (after_of_ok hanswer ▸ hcall))
    | error e m' => exact .inl (after_of_error hanswer ▸ hcall)
  · refine .inr ?_
    have hanswer : answer code c m = .ok (.ok reply, none) (after (takeEarly c.thread) m') := by
      have hattempt : attempt (code c) m = .ok (.ok reply) m' := by
        unfold attempt
        rw [hrun]
      have htaken : takeEarly c.thread m' = .ok none (after (takeEarly c.thread) m') := by
        rw [← hearly]
        rfl
      unfold answer
      rw [bind_run_of_ok hattempt, bind_run_of_ok htaken]
      rfl
    rw [hrest, bind_run_of_ok hanswer, hvalue reply v hv]
    exact hexcused _
  · refine .inr ?_
    have hanswer : answer code c m = .error .overflow m' := by
      unfold answer
      rw [bind_run]
      unfold attempt
      rw [hrun]
    rw [hrest, bind_run, hanswer]
    exact hexcused

/-- What leaves the roster alone changes it along the relation. -/
theorem along : Free (Along R) where
  pure a := (aloof.pure a).along hR
  throw e := (aloof.throw e).along hR
  bind hx hf := hx.bind hR hf
  get := aloof.get.along hR
  query f := (aloof.query f).along hR
  alloc o := (aloof.alloc o).along hR
  allocScope s := (aloof.allocScope s).along hR
  modifyScope id _ hf := (aloof.modifyScope id hf).along hR
  load source := (aloof.load source).along hR
  now := aloof.now.along hR
  write level text := (aloof.write level text).along hR
  random c := (aloof.random c).along hR
  modifyHeapObject id _ hf := (aloof.modifyHeapObject id hf).along hR
  setScopeOwner id owner := (aloof.setScopeOwner id owner).along hR

end Chains

section Stepping

variable (hR : Stepping thread R)

include hR

theorem along_modifyThread (f : Thread → Thread) (hid : ∀ t, (f t).id = t.id)
    (hqueued : ∀ t, (f t).queued = t.queued) : Along R (modifyThread thread f) := by
  intro m
  unfold after
  rw [modifyThread_run]
  cases m.threads.all (·.id != thread) with
  | true => exact hR.refl _
  | false => exact hR.tend m.roster f hid hqueued

theorem turning_along : Turning thread (Along R) where
  toRegular := (along hR.toChains).toRegular
  attempt hx := hx.attempt
  tend := along_modifyThread hR

/-- A thread takes a new place in the run queue. -/
theorem along_requeue {f : Nat → Thread → Thread} (hid : ∀ n t, (f n t).id = t.id)
    (hqueued : ∀ n t, (f n t).queued = n) {k : Unit → Exec α} (hk : Along R (k ())) :
    Along R (do modifyThread thread (f (← takeQueuePosition)); k ()) := by
  intro m
  rw [after_bind, takeQueuePosition_run]
  cases hnext : nextCount m.nextQueued with
  | error e => exact hR.refl _
  | ok next =>
    obtain rfl := eq_succ_of_nextCount hnext
    dsimp only
    rw [after_bind, modifyThread_run]
    cases m.threads.all (·.id != thread) with
    | true => exact hR.queue m.roster
    | false =>
      let moved : Machine := { m with
        nextQueued := m.nextQueued + 1
        threads := updateThread thread (f m.nextQueued) m.threads }
      have hmoved : R m.roster moved.roster :=
        hR.requeue m.roster (f m.nextQueued) (hid _) (hqueued _)
      exact hR.trans hmoved (hk moved)

end Stepping

end Exec

namespace Machine

variable {R : Roster → Roster → Prop} {E : EStateM.Result Failure Machine Step → Prop}
  {thread : ThreadId}

/-! ## What a step does besides calling host functions -/

/-- A relation holds along what a step does besides calling host functions. -/
structure Works (thread : ThreadId) (R : Roster → Roster → Prop)
    (E : EStateM.Result Failure Machine Step → Prop) : Prop extends Chains R where
  limit : Along R (checkTimeLimit thread)
  node : ∀ f here program kind, StepsAlong R E (stepNode thread f here program kind)
  reply : ∀ f call owner early result, StepsAlong R E (applyReply thread f call owner early result)

theorem along_applyReply (hR : Stepping thread R) (f : Frame) (call : CallInfo) (owner : Option Owner)
    (early : Option Settlement) (result : NativeResult) :
    Along R (applyReply thread f call owner early result) := by
  cases result with
  | value v => exact (along hR.toChains).pure _
  | call func receiver args => exact (along hR.toChains).pure _
  | eval program =>
    refine Aloof.along hR.toChains ((aloof.heapQuery _).bind fun p => aloof.get.bind fun m => ?_)
    exact (aloof.newScope _ _ _ _).bind fun _ => aloof.pure _
  | block =>
    cases early with
    | some s => exact (along hR.toChains).pure _
    | none =>
      have hpark := along_modifyThread hR (fun t => { t with status := .blocked })
        (fun _ => rfl) fun _ => rfl
      exact hpark.bind hR.toChains fun _ => (along hR.toChains).pure _
  | sleep time =>
    exact along_requeue hR
      (f := fun queued t => { t with status := .sleeping, runAt := time, queued })
      (k := fun _ => pure (Step.suspend
        { f with info := .call { call with phase := .returned }, value := .undefined }))
      (fun _ _ => rfl) (fun _ _ => rfl) ((along hR.toChains).pure _)

/-- A relation that holds along changes of the stepped thread and of the run queue holds along what a
step does itself. -/
theorem works_of_stepping (hR : Stepping thread R) : Works thread R E where
  toChains := hR.toChains
  limit := (turning_along hR).checkTimeLimit
  node f here program kind :=
    Along.steps (free_stepNode (along hR.toChains) f here (turning_along hR).checkTimeLimit program
      kind fun _ _ _ v => along_modifyThread hR
        (fun t => { t with stack := t.stack.recordCompletion v }) (fun _ => rfl) fun _ => rfl)
  reply f call owner early result := (along_applyReply hR f call owner early result).steps

/-! ## Calls -/

theorem Works.stepwise (hR : Works thread R E) : Stepwise thread (Along R) (StepsAlong R E)
    (StepsAlong R E) (CallsAlong thread R E) where
  toRegular := (along hR.toChains).toRegular
  mild := Along.steps
  first hx hf := hx.bindSteps hR.toChains hf
  read := steps_query hR.toChains
  rest := Along.steps
  restFirst hx hf := hx.bindSteps hR.toChains hf
  limit := hR.limit
  enter f call func node closure :=
    ((along hR.toChains).plain fun _ => True).writing.enterFunction f call func node closure
  reply := hR.reply
  answer := steps_answer hR.toChains

section Steps

variable {natives : Natives} (hR : Works thread R E)
  (hnatives : natives.Each (CallsAlong thread R E))

include hR hnatives

/-- A relation that holds along changes of the stepped thread and of the run queue, and along the
calls of host functions, holds along the step of a frame. -/
theorem steps_dispatch (f : Frame) : StepsAlong R E (dispatch natives thread f) :=
  hR.stepwise.dispatch hnatives (hR.node f)

end Steps

end Machine

end ScriptMachine

/-!
## What a turn does to the roster

What a step asks for is carried out on the thread that was stepped, and a failure is thrown into it
or ends it.
-/

namespace ScriptMachine.Machine

open Exec

variable {R : Roster → Roster → Prop} {thread : ThreadId} (hR : Stepping thread R)

include hR

/-- A relation that holds along changes of the stepped thread and of the run queue, and along all
calls of host functions, holds along a step of the thread, unless a counter ran out. -/
theorem steps_stepThread {E : EStateM.Result Failure Machine Step → Prop}
    (hE : ∀ r, E r → ∃ n, r = .error .overflow n) {natives : Natives}
    (hnatives : natives.Each (CallsAlong thread R E)) (m : Machine) :
    R m.roster (after (stepThread natives thread) m).roster ∨
      ∃ n, E (.error .overflow n) ∧ stepThread natives thread m = .error .overflow n := by
  have hpop := (turning_along hR).popFrame m
  rw [stepThread_eq]
  cases htop : popFrame thread m with
  | error e m₁ =>
    refine .inl ?_
    rw [after_bind, htop]
    exact after_of_error htop ▸ hpop
  | ok top m₁ =>
    rw [after_of_ok htop] at hpop
    rw [after_bind, bind_run, htop]
    cases top with
    | none => exact .inl (hR.trans hpop ((turning_along hR).finishThread _ m₁))
    | some f =>
      refine (steps_dispatch (works_of_stepping hR) hnatives f m₁).imp (fun hstep => ?_) fun hexcused => ?_
      · refine hR.trans hpop ?_
        rw [← after_attempt] at hstep
        dsimp only
        rw [after_bind]
        cases hrun : attempt (dispatch natives thread f) m₁ with
        | error e m₂ => exact after_of_error hrun ▸ hstep
        | ok result m₂ =>
          exact hR.trans (after_of_ok hrun ▸ hstep) ((turning_along hR).settleStep f result m₂)
      · obtain ⟨n, hran⟩ := hE _ hexcused
        refine ⟨n, hran ▸ hexcused, ?_⟩
        dsimp only
        rw [bind_run, attempt, hran]

end ScriptMachine.Machine
