import Mathlib.Logic.Relation
import ScriptMachine.Proofs.Order.Settlement
import ScriptMachine.Proofs.Restore.Image
import ScriptMachine.Proofs.Roster.Turn

/-!
# How the roster changes

Whatever the host asks for and whatever is run, the roster only changes in a few ways: threads are
started behind all others, changed where they stand, moved to the end of the run queue and dropped,
and resolvers are issued and settled.
-/

namespace ScriptMachine

open Machine Exec

namespace Roster

/-- One change of a roster. -/
inductive Change (r : Roster) : Roster → Prop where
  | tend (id : ThreadId) (f : Thread → Thread) (hid : ∀ t, (f t).id = t.id)
    (hqueued : ∀ t, (f t).queued = t.queued) :
    Change r { r with threads := updateThread id f r.threads }
  | queue : Change r { r with nextQueued := r.nextQueued + 1 }
  /-- A thread moves to the next place of the run queue. -/
  | requeue (id : ThreadId) (f : Thread → Thread) (hid : ∀ t, (f t).id = t.id)
    (hqueued : ∀ t, (f t).queued = r.nextQueued) :
    Change r { r with
      nextQueued := r.nextQueued + 1, threads := updateThread id f r.threads }
  /-- A number is issued for a thread that is not started. -/
  | number : Change r { r with nextThreadId := r.nextThreadId + 1 }
  | start (t : Thread) (hid : t.id = ⟨r.nextThreadId⟩) (hqueued : t.queued = r.nextQueued) :
    Change r { r with
      nextThreadId := r.nextThreadId + 1, nextQueued := r.nextQueued + 1
      threads := insertThread t r.threads }
  | each (f : Thread → Thread) (hid : ∀ t, (f t).id = t.id)
    (hqueued : ∀ t, (f t).queued = t.queued) : Change r { r with threads := r.threads.map f }
  | drop (p : Thread → Bool) : Change r { r with threads := r.threads.filter p }
  | issue (thread : ThreadId) :
    Change r { r with
      nextResolverId := r.nextResolverId + 1
      pendingResolvers := r.pendingResolvers ++ [(r.nextResolverId, thread)] }
  | settle (p : Nat × ThreadId → Bool) (early : List (ThreadId × Settlement)) :
    Change r { r with
      pendingResolvers := r.pendingResolvers.filter p, earlySettlements := early }

/-- One change after the other. -/
abbrev Changes : Roster → Roster → Prop := Relation.ReflTransGen Change

/-- Settlements are noted or taken, and nothing else happens. -/
theorem changes_early (r : Roster) (early : List (ThreadId × Settlement)) :
    Changes r { r with earlySettlements := early } := by
  have h := Change.settle (r := r) (fun _ => true) early
  rw [List.filter_eq_self.2 fun _ _ => rfl] at h
  exact .single h

theorem stepping_changes (thread : ThreadId) : Stepping thread Changes where
  refl _ := .refl
  trans h h' := h.trans h'
  tend _ f hid hqueued := .single (.tend thread f hid hqueued)
  queue _ := .single .queue
  requeue _ f hid hqueued := .single (.requeue thread f hid hqueued)

end Roster

namespace Exec

variable {α β : Type}

/-- An operation only changes the roster as it may be changed. -/
abbrev Rosters (x : Exec α) : Prop := Along Roster.Changes x

theorem Aloof.rosters {x : Exec α} (hx : Aloof x) : Rosters x :=
  hx.along (Roster.stepping_changes default).toChains

theorem Along.bindRosters {x : Exec α} {f : α → Exec β} (hx : Rosters x)
    (hf : ∀ a, Rosters (f a)) : Rosters (x >>= f) :=
  hx.bind (Roster.stepping_changes default).toChains hf

theorem rosters_throw (e : Failure) : Rosters (throw e : Exec α) := (aloof.throw e).rosters

theorem rosters_pure (a : α) : Rosters (pure a : Exec α) := (aloof.pure a).rosters

theorem rosters_get : Rosters (get : Exec Machine) := aloof.get.rosters

end Exec

/-- A host function that only changes the roster as it may be changed. -/
def Routine (code : NativeCode) : Prop := ∀ c, Rosters (code c)

theorem Routine.calls {code : NativeCode} (h : Routine code) (thread : ThreadId) :
    CallsAlong thread Roster.Changes (fun _ => False) code := by
  intro c m _
  refine .inl ?_
  have htaken : Rosters (takeEarly c.thread) := fun m => Roster.changes_early m.roster _
  exact (h c).attempt.bindRosters (fun answer => htaken.bindRosters fun early => rosters_pure _) m

namespace Machine

variable {natives : Natives}

/-! ## Threads -/

theorem rosters_modifyThread (id : ThreadId) (f : Thread → Thread) (hid : ∀ t, (f t).id = t.id)
    (hqueued : ∀ t, (f t).queued = t.queued) : Rosters (modifyThread id f) :=
  along_modifyThread (Roster.stepping_changes id) f hid hqueued

theorem rosters_killThread (thread : ThreadId) : Rosters (killThread thread) :=
  (turning_along (Roster.stepping_changes thread)).killThread

theorem rosters_setTimeLimit (thread : ThreadId) (limit : Option Float) :
    Rosters (setTimeLimit thread limit) :=
  rosters_modifyThread thread _ (fun _ => rfl) fun _ => rfl

theorem rosters_newThread (base : Frame) (delay : Float) (keepOutcome : Bool) :
    Rosters (newThread base delay keepOutcome) := by
  intro m
  unfold after
  rw [newThread_run]
  cases hid : nextCount m.nextThreadId with
  | error e => exact .refl
  | ok next =>
    obtain rfl := eq_succ_of_nextCount hid
    dsimp only
    cases hqueued : nextCount m.nextQueued with
    | error e => exact .single .number
    | ok queued =>
      obtain rfl := eq_succ_of_nextCount hqueued
      exact .single (.start _ rfl rfl)

theorem rosters_spawnCallAs (func receiver : Value) (args : List Value) (delay : Float)
    (owner : Owner) (keepOutcome : Bool) :
    Rosters (spawnCallAs func receiver args delay owner keepOutcome) := by
  refine rosters_get.bindRosters fun m => ?_
  dsimp only
  split
  · exact rosters_get.bindRosters fun _ => (aloof.throw_bind _ _).rosters
  · refine rosters_get.bindRosters fun _ => (aloof.newScope _ _ _ _).rosters.bindRosters fun _ => ?_
    exact rosters_newThread _ _ _

theorem rosters_spawnCall (func receiver : Value) (args : List Value) (delay : Float) :
    Rosters (spawnCall func receiver args delay) :=
  rosters_get.bindRosters fun _ => rosters_spawnCallAs _ _ _ _ _ _

theorem rosters_spawnProgram (program : ProgramId) : Rosters (spawnProgram program) :=
  (aloof.heapQuery _).rosters.bindRosters fun _ =>
    rosters_get.bindRosters fun _ => rosters_newThread _ _ _

theorem rosters_spawn (source : String) : Rosters (spawn source) :=
  (aloof.load source).rosters.bindRosters rosters_spawnProgram

theorem rosters_takeResult (thread : ThreadId) : Rosters (takeResult thread) := by
  refine rosters_get.bindRosters fun m => ?_
  have hdrop : Rosters (modify fun m : Machine =>
      { m with threads := m.threads.filter (·.id != thread) }) :=
    fun m => .single (.drop (r := m.roster) _)
  split
  · exact rosters_pure _
  · dsimp only
    split
    · exact rosters_pure _
    · refine hdrop.bindRosters fun _ => ?_
      split
      · exact (aloof_pinHostValue _).rosters.bindRosters fun _ => rosters_pure _
      · exact (aloof_pinHostValue _).rosters.bindRosters fun _ => rosters_pure _
      · exact (rosters_pure ()).bindRosters fun _ => rosters_pure _

theorem rosters_stop : Rosters Machine.stop := fun m =>
  .single (.each (r := m.roster) _ (fun t => by split <;> rfl) fun t => by split <;> rfl)

theorem rosters_collectGarbage : Rosters collectGarbage := fun m =>
  .single (.drop (r := m.roster) fun t => !t.isZombie || t.keepOutcome)

theorem rosters_maybeCollectGarbage : Rosters maybeCollectGarbage := by
  refine rosters_get.bindRosters fun m => ?_
  split
  · exact rosters_collectGarbage.bindRosters fun _ => rosters_pure _
  · exact rosters_pure _

/-! ## Resolvers -/

theorem rosters_issueResolver (thread : ThreadId) : Rosters (issueResolver thread) := by
  intro m
  unfold after
  rw [issueResolver_run]
  cases hnext : nextCount m.nextResolverId with
  | error e => exact .refl
  | ok next =>
    obtain rfl := eq_succ_of_nextCount hnext
    exact .single (.issue thread)

theorem rosters_settle (id : Nat) (thread : ThreadId) (s : Settlement) :
    Rosters (settle id thread s) := by
  intro m
  have hdrop : Roster.Changes m.roster
      { m.roster with pendingResolvers := m.pendingResolvers.filter (·.1 != id) } :=
    .single (.settle (r := m.roster) (·.1 != id) m.earlySettlements)
  have huse : Roster.Changes m.roster { m.roster with
      pendingResolvers := m.pendingResolvers.filter (·.1 != id)
      nextQueued := m.nextQueued + 1 } := hdrop.tail .queue
  unfold after
  rw [settle_run]
  cases m.pendingResolvers.lookup id with
  | none => exact .refl
  | some holder =>
    dsimp only
    by_cases hholder : (holder != thread) = true
    · rw [if_pos hholder]
      exact hdrop
    rw [if_neg hholder]
    cases hnext : nextCount m.nextQueued with
    | error e => exact hdrop
    | ok next =>
      obtain rfl := eq_succ_of_nextCount hnext
      dsimp only
      cases m.thread? holder with
      | none => exact huse
      | some t =>
        dsimp only
        cases t.status with
        | zombie => exact huse
        | sleeping => exact huse
        | blocked =>
          dsimp only
          cases settledFrame t s with
          | error e => exact huse
          | ok f =>
            exact hdrop.tail (.requeue holder
              (awakened f m.reading m.nextQueued) (fun _ => rfl) fun _ => rfl)
        | ready =>
          dsimp only
          cases m.currentThread == some holder with
          | false => exact huse
          | true => exact huse.trans (Roster.changes_early _ _)

/-! ## Runs -/

theorem rosters_schedule : Rosters schedule := by
  refine aloof.now.rosters.bindRosters fun time => ?_
  have hwake : Rosters (modify fun m : Machine =>
      { m with threads := m.threads.map (·.wake time) }) := fun m =>
    .single (.each (r := m.roster) _ (fun t => by unfold Thread.wake; split <;> rfl)
      fun t => by unfold Thread.wake; split <;> rfl)
  exact hwake.bindRosters fun _ => rosters_get.bindRosters fun _ => rosters_pure _

theorem rosters_startRun (thread : ThreadId) : Rosters (startRun thread) := by
  refine aloof.now.rosters.bindRosters fun time => ?_
  have hrestart : Rosters (modifyThread thread fun t => { t with runStarted := time }) :=
    rosters_modifyThread thread _ (fun _ => rfl) fun _ => rfl
  exact hrestart.bindRosters fun _ => (aloof_modify fun _ => rfl).rosters

theorem rosters_attend (thread : Option ThreadId) :
    Rosters (modify fun m : Machine => { m with currentThread := thread }) :=
  (aloof_modify fun _ => rfl).rosters

section Steps

variable (hnatives : natives.Each Routine)

include hnatives

theorem rosters_stepThread (thread : ThreadId) : Rosters (stepThread natives thread) := by
  have hcalls : natives.Each (CallsAlong thread Roster.Changes fun _ => False) :=
    hnatives.mono fun _ hcode => hcode.calls thread
  have hsteps := steps_stepThread (Roster.stepping_changes thread) (fun _ h => h.elim) hcalls
  exact fun m => (hsteps m).resolve_right fun ⟨_, hfalse, _⟩ => hfalse

theorem rosters_stepOnce : Rosters (stepOnce natives) := by
  refine rosters_get.bindRosters fun m => ?_
  dsimp only
  split
  · exact rosters_pure _
  refine rosters_schedule.bindRosters fun found => ?_
  cases found with
  | run thread =>
    have hstep : Rosters (do
        modify fun m : Machine => { m with currentThread := some thread }
        let result ← attempt (stepThread natives thread)
        modify fun m => { m with currentThread := none }
        maybeCollectGarbage
        query fun _ => result.map fun _ => true) := by
      refine (rosters_attend _).bindRosters fun _ => ?_
      refine (rosters_stepThread hnatives thread).attempt.bindRosters fun result => ?_
      refine (rosters_attend _).bindRosters fun _ => ?_
      exact rosters_maybeCollectGarbage.bindRosters fun _ => (aloof.query _).rosters
    refine rosters_get.bindRosters fun m => ?_
    split
    · exact (rosters_startRun thread).bindRosters fun _ => hstep
    · exact hstep
  | waitUntil time => exact rosters_pure _
  | blocked => exact rosters_pure _
  | idle => exact rosters_pure _

theorem rosters_runSteps (thread : ThreadId) (fuel : Nat) :
    Rosters (runSteps natives thread fuel) := by
  induction fuel with
  | zero => exact rosters_pure _
  | succ fuel ih =>
    refine rosters_get.bindRosters fun m => ?_
    split
    · exact rosters_pure _
    · refine (rosters_stepThread hnatives thread).bindRosters fun _ => ?_
      exact rosters_maybeCollectGarbage.bindRosters fun _ => ih

theorem rosters_runThread (thread : ThreadId) (fuel : Nat) :
    Rosters (runThread natives thread fuel) := by
  refine (rosters_startRun thread).bindRosters fun _ => (rosters_attend _).bindRosters fun _ => ?_
  refine (rosters_runSteps hnatives thread fuel).attempt.bindRosters fun result => ?_
  exact (rosters_attend _).bindRosters fun _ => (aloof.query _).rosters

theorem rosters_runRounds (rounds fuel : Nat) : Rosters (runRounds natives rounds fuel) := by
  induction rounds generalizing fuel with
  | zero => exact rosters_pure _
  | succ rounds ih =>
    refine rosters_get.bindRosters fun m => ?_
    split
    · exact rosters_pure _
    · exact rosters_pure _
    · refine rosters_schedule.bindRosters fun found => ?_
      cases found with
      | run thread =>
        refine (rosters_runThread hnatives thread fuel).bindRosters fun left => ?_
        split
        · exact rosters_pure _
        · exact ih left
      | waitUntil time => exact rosters_pure _
      | blocked => exact rosters_pure _
      | idle => exact rosters_pure _

/-! ## Requests -/

theorem rosters_request (r : Request) : Rosters (r.perform natives) := by
  have hignored {α : Type} {x : Exec α} (hx : Rosters x) : Rosters (do let _ ← x) :=
    hx.bindRosters fun _ => rosters_pure ()
  cases r with
  | load source => exact hignored (aloof.load source).rosters
  | spawnProgram program => exact hignored (rosters_spawnProgram program)
  | spawn source => exact hignored (rosters_spawn source)
  | call func receiver args delay => exact hignored (rosters_spawnCall func receiver args delay)
  | settle resolver thread s => exact rosters_settle resolver thread s
  | kill thread => exact hignored (rosters_killThread thread)
  | take thread => exact hignored (rosters_takeResult thread)
  | release => exact aloof_releaseHostValues.rosters
  | pin v => exact (aloof_pinHostValue v).rosters
  | limit thread most => exact rosters_setTimeLimit thread most
  | threshold count => exact (aloof_setGcThreshold count).rosters
  | policy p => exact (aloof_modify fun _ => rfl).rosters
  | pause => exact aloof_pause.rosters
  | resume => exact aloof_resume.rosters
  | stop => exact rosters_stop
  | setGlobal name v => exact (aloof.setGlobal name v).rosters
  | declare name v mutable =>
    exact rosters_get.bindRosters fun _ => (aloof.declare _ name v mutable).rosters
  | define name => exact (aloof.defineGlobalNative natives name).rosters
  | newScope kind outer owner receiver => exact hignored (aloof.newScope kind outer owner receiver).rosters
  | declareIn scope name v mutable => exact (aloof.declare scope name v mutable).rosters
  | setBinding scope name v => exact (aloof.setBinding scope name v).rosters
  | writeBinding scope name v => exact (aloof.writeBinding scope name v).rosters
  | setScopeOwner scope owner => exact (aloof.setScopeOwner scope owner).rosters
  | alloc o => exact hignored (aloof.alloc o).rosters
  | createObject proto owner => exact hignored (aloof.createObject proto owner).rosters
  | createPlainObject owner => exact hignored (aloof.createPlainObject owner).rosters
  | createArray values owner => exact hignored (aloof.createArray values owner).rosters
  | createFunction id name => exact hignored (aloof.createNativeFunction natives id name).rosters
  | createClosure node scope owner => exact hignored (aloof.createClosure node scope owner).rosters
  | createError kind message owner thread =>
    exact hignored (aloof.createError kind message owner thread).rosters
  | setProperty base key v actor => exact (aloof.setProperty base key v actor).rosters
  | defineProperty id key d actor => exact (aloof.defineProperty id key d actor).rosters
  | defineHidden id key v actor => exact (aloof.defineHidden id key v actor).rosters
  | deleteProperty id key actor => exact hignored (aloof.deleteProperty id key actor).rosters
  | setPrototype id proto actor => exact (aloof.setPrototype id proto actor).rosters
  | preventExtensions id actor => exact (aloof.preventExtensions id actor).rosters
  | setOwnerOf id owner actor => exact (aloof.setOwnerOf id owner actor).rosters
  | advance millis => exact (aloof_modify fun _ => rfl).rosters
  | wait time => exact (aloof_waitUntil time).rosters
  | setClock time => exact (aloof_setClock time).rosters
  | replaceClock clock => exact (aloof_replaceClock clock).rosters
  | collect => exact hignored rosters_collectGarbage
  | step => exact hignored (rosters_stepOnce hnatives)
  | run fuel => exact hignored (rosters_runRounds hnatives (fuel + 1) fuel)

/-- Whatever the host asks for changes the roster as it may be changed. -/
theorem Asked.changes {m m' : Machine} (h : Asked natives m m') :
    Roster.Changes m.roster m'.roster := by
  induction h with
  | refl => exact .refl
  | tail _ a _ ih =>
    refine ih.trans ?_
    cases a with
    | request r => exact rosters_request hnatives r _
    | issue thread =>
      exact (rosters_issueResolver thread).bindRosters (fun _ => rosters_pure ()) _

end Steps

end Machine

namespace Builtin

open Threads

theorem rosters_setTimeout (c : NativeCall) : Rosters (setTimeout c) := by
  unfold setTimeout
  split
  · exact rosters_throw _
  · exact (rosters_spawnCallAs _ _ _ _ _ _).bindRosters fun _ => rosters_pure _

theorem rosters_clearTimeout (c : NativeCall) : Rosters (clearTimeout c) := by
  unfold clearTimeout
  dsimp only
  split
  · exact (rosters_killThread _).bindRosters fun _ => rosters_pure _
  · exact rosters_pure _

theorem rosters_kill (c : NativeCall) : Rosters (kill c) := by
  unfold kill
  split
  · exact (rosters_killThread _).bindRosters fun _ => rosters_pure _
  · exact rosters_pure _

theorem rosters_limitThread (c : NativeCall) : Rosters (limitThread c) := by
  unfold limitThread
  dsimp only
  split
  · exact (rosters_setTimeLimit _ _).bindRosters fun _ => rosters_pure _
  · split
    · exact (aloof.throw_bind _ _).rosters
    · exact (rosters_setTimeLimit _ _).bindRosters fun _ => rosters_pure _

/-- All builtins only change the roster as it may be changed. -/
theorem each_routine : natives.Each Routine := by
  have hvalue {f : NativeCall → Exec Value} (hf : ∀ c, Rosters (f c)) : Routine (.ofValue f) :=
    fun c => (hf c).bindRosters fun _ => rosters_pure _
  exact each_of_free aloof (fun _ h c => (h c).rosters) (hvalue rosters_setTimeout)
    (hvalue rosters_clearTimeout) (hvalue rosters_kill) (hvalue rosters_limitThread)

end Builtin

/-!
## What a restored machine issues

A snapshot says for itself which numbers are issued next. If every number that it lists is below its
counter, then this stays so, and what the restored machine issues is held by nobody. A counter that
has reached the last number of 64 bits issues nothing.
-/

/-! ## Counted rosters -/

/-- Whatever is held was issued: it is below its counter. -/
structure Roster.Counted (r : Roster) : Prop where
  threads : ∀ t ∈ r.threads, t.id.index < r.nextThreadId ∧ t.queued < r.nextQueued
  resolvers : ∀ x ∈ r.pendingResolvers, x.1 < r.nextResolverId

namespace Roster

variable {r s : Roster}

/-- A thread that was changed is counted if the change keeps its number and its place. -/
theorem Counted.of_threads (h : r.Counted) {threads : List Thread} {queued : Nat}
    (hthreads : ∀ u ∈ threads, u.queued < queued ∧ ∃ t ∈ r.threads, u.id = t.id) :
    Counted { r with nextQueued := queued, threads } where
  threads u hu := by
    obtain ⟨hplace, t, ht, hid⟩ := hthreads u hu
    exact ⟨hid ▸ (h.threads t ht).1, hplace⟩
  resolvers := h.resolvers

theorem Change.counted (h : Change r s) (hr : r.Counted) : s.Counted := by
  cases h with
  | tend id f hid hqueued =>
    refine hr.of_threads fun u hu => ?_
    rcases mem_updateThread hu with hu | ⟨t, hfound, rfl⟩
    · exact ⟨(hr.threads u hu).2, u, hu, rfl⟩
    · have ht := List.mem_of_find?_eq_some hfound
      exact ⟨hqueued t ▸ (hr.threads t ht).2, t, ht, hid t⟩
  | queue =>
    exact hr.of_threads fun u hu =>
      ⟨Nat.lt_succ_of_lt (hr.threads u hu).2, u, hu, rfl⟩
  | requeue id f hid hqueued =>
    refine hr.of_threads fun u hu => ?_
    rcases mem_updateThread hu with hu | ⟨t, hfound, rfl⟩
    · exact ⟨Nat.lt_succ_of_lt (hr.threads u hu).2, u, hu, rfl⟩
    · have hplace : (f t).queued < r.nextQueued + 1 := hqueued t ▸ Nat.lt_succ_self _
      exact ⟨hplace, t, List.mem_of_find?_eq_some hfound, hid t⟩
  | number =>
    exact ⟨fun t ht => ⟨Nat.lt_succ_of_lt (hr.threads t ht).1, (hr.threads t ht).2⟩, hr.resolvers⟩
  | start t hid hqueued =>
    refine ⟨fun u hu => ?_, hr.resolvers⟩
    rcases mem_insertThread hu with rfl | hu
    · rw [hid, hqueued]
      exact ⟨Nat.lt_succ_self _, Nat.lt_succ_self _⟩
    · exact ⟨Nat.lt_succ_of_lt (hr.threads u hu).1, Nat.lt_succ_of_lt (hr.threads u hu).2⟩
  | each f hid hqueued =>
    refine hr.of_threads fun u hu => ?_
    obtain ⟨t, ht, rfl⟩ := List.mem_map.1 hu
    exact ⟨hqueued t ▸ (hr.threads t ht).2, t, ht, hid t⟩
  | drop p =>
    refine hr.of_threads fun u hu => ?_
    have hu := List.mem_of_mem_filter hu
    exact ⟨(hr.threads u hu).2, u, hu, rfl⟩
  | issue thread =>
    refine ⟨hr.threads, fun x hx => ?_⟩
    rcases List.mem_append.1 hx with hx | hx
    · exact Nat.lt_succ_of_lt (hr.resolvers x hx)
    · obtain rfl := List.mem_singleton.1 hx
      exact Nat.lt_succ_self _
  | settle p early =>
    exact ⟨hr.threads, fun x hx => hr.resolvers x (List.mem_of_mem_filter hx)⟩

theorem Changes.counted (h : Changes r s) (hr : r.Counted) : s.Counted := by
  induction h with
  | refl => exact hr
  | tail _ hlast ih => exact hlast.counted ih

end Roster

namespace Machine

variable {natives : Natives} {origin m n : Machine}

/-! ## What is issued -/

/-- What a machine issues is held by nobody, and what it issues first since `origin`, it can
issue. -/
structure IssuesFresh (origin m : Machine) : Prop where
  /-- A new thread stands behind all others, with a number and a place of its own. -/
  thread : ∀ base delay keepOutcome id n, newThread base delay keepOutcome m = .ok id n →
    ∃ t, t.id = id ∧ n.threads = m.threads ++ [t] ∧
      ∀ u ∈ m.threads, u.id ≠ t.id ∧ u.queued ≠ t.queued
  place : ∀ place n, takeQueuePosition m = .ok place n → ∀ t ∈ m.threads, t.queued ≠ place
  resolver : ∀ thread id n, issueResolver thread m = .ok id n →
    ∀ x ∈ m.pendingResolvers, x.1 ≠ id
  firstThread : m.nextThreadId = origin.nextThreadId → m.nextQueued = origin.nextQueued →
    ∀ base delay keepOutcome, ∃ n,
      newThread base delay keepOutcome m = .ok ⟨origin.nextThreadId⟩ n
  firstPlace : m.nextQueued = origin.nextQueued →
    ∃ n, takeQueuePosition m = .ok origin.nextQueued n
  firstResolver : m.nextResolverId = origin.nextResolverId →
    ∀ thread, ∃ n, issueResolver thread m = .ok origin.nextResolverId n

/-- The counters of a machine have not reached the last number of 64 bits. -/
structure HasRoom (m : Machine) : Prop where
  thread : m.nextThreadId ≠ Nat.pow 2 64 - 1
  place : m.nextQueued ≠ Nat.pow 2 64 - 1
  resolver : m.nextResolverId ≠ Nat.pow 2 64 - 1

theorem nextCount_eq_ok {k : Nat} (hword : k < Nat.pow 2 64) (hlast : k ≠ Nat.pow 2 64 - 1) :
    nextCount k = .ok (k + 1) := by
  have hnext : k + 1 < Nat.pow 2 64 := by
    generalize Nat.pow 2 64 = bound at hword hlast ⊢
    omega
  unfold nextCount
  rw [if_pos hnext]

theorem issuesFresh_of_counted (hcounted : m.roster.Counted) (hroom : origin.HasRoom)
    (hwords : origin.nextThreadId < Nat.pow 2 64 ∧ origin.nextQueued < Nat.pow 2 64 ∧
      origin.nextResolverId < Nat.pow 2 64) : IssuesFresh origin m := by
  obtain ⟨hthread, hplace, hresolver⟩ := hwords
  refine
    { thread := fun base delay keepOutcome id n hrun => ?_
      place := fun place n hrun t ht => ?_
      resolver := fun thread id n hrun x hx => ?_
      firstThread := fun hsame hsame' base delay keepOutcome => ?_
      firstPlace := fun hsame => ?_
      firstResolver := fun hsame thread => ?_ }
  · rw [newThread_run] at hrun
    cases hid : nextCount m.nextThreadId with
    | error e =>
      rw [hid] at hrun
      cases hrun
    | ok next =>
      rw [hid] at hrun
      dsimp only at hrun
      cases hqueued : nextCount m.nextQueued with
      | error e =>
        rw [hqueued] at hrun
        cases hrun
      | ok queued =>
        rw [hqueued] at hrun
        cases hrun
        refine ⟨_, rfl, insertThread_eq_append fun u hu => (hcounted.threads u hu).1,
          fun u hu => ⟨fun heq => ?_, Nat.ne_of_lt (hcounted.threads u hu).2⟩⟩
        exact Nat.ne_of_lt (hcounted.threads u hu).1 (congrArg ThreadId.index heq)
  · rw [takeQueuePosition_run] at hrun
    cases hnext : nextCount m.nextQueued with
    | error e =>
      rw [hnext] at hrun
      cases hrun
    | ok next =>
      rw [hnext] at hrun
      cases hrun
      exact Nat.ne_of_lt (hcounted.threads t ht).2
  · rw [issueResolver_run] at hrun
    cases hnext : nextCount m.nextResolverId with
    | error e =>
      rw [hnext] at hrun
      cases hrun
    | ok next =>
      rw [hnext] at hrun
      cases hrun
      exact Nat.ne_of_lt (hcounted.resolvers x hx)
  · rw [newThread_run, hsame, nextCount_eq_ok hthread hroom.thread]
    dsimp only
    rw [hsame', nextCount_eq_ok hplace hroom.place]
    exact ⟨_, rfl⟩
  · rw [takeQueuePosition_run, hsame, nextCount_eq_ok hplace hroom.place]
    exact ⟨_, rfl⟩
  · rw [issueResolver_run, hsame, nextCount_eq_ok hresolver hroom.resolver]
    exact ⟨_, rfl⟩

/-- If a restored machine lists only numbers below its counters, and none of these has reached the
last number of 64 bits, then it only ever issues what nobody holds, and issues at least once. -/
theorem restored_issues_fresh (hnatives : natives.Each Routine) {j : Json} {before origin : Machine}
    (hrestore : restore natives j before = .ok () origin)
    (hlisted : ∀ t ∈ origin.threads,
      t.id.index < origin.nextThreadId ∧ t.queued < origin.nextQueued)
    (hroom : origin.HasRoom) :
    (∀ m, Asked natives origin m → Roster.Changes origin.roster m.roster) ∧
      ∀ m, Roster.Changes origin.roster m.roster → IssuesFresh origin m := by
  obtain ⟨threshold, serial, records, l, c, i, -, hdecoded, hshows⟩ := shows_of_restore hrestore
  have hresolvers : ∀ x ∈ origin.pendingResolvers, x.1 < origin.nextResolverId := by
    rw [hshows.pendingResolvers, hshows.nextResolverId]
    exact fun x hx => (hdecoded.read.counted x hx).1
  have hwords : origin.nextThreadId < Nat.pow 2 64 ∧ origin.nextQueued < Nat.pow 2 64 ∧
      origin.nextResolverId < Nat.pow 2 64 := by
    rw [hshows.nextThreadId, hshows.nextQueued, hshows.nextResolverId]
    exact hdecoded.read.counters
  have hcounted : origin.roster.Counted := ⟨hlisted, hresolvers⟩
  exact ⟨fun m hasked => hasked.changes hnatives, fun m hchanges =>
    issuesFresh_of_counted (hchanges.counted hcounted) hroom hwords⟩

/-- A snapshot with two threads whose numbers and places are below the counters. -/
def countedSnapshot : Json :=
  .arr [busyRecord [Snapshot.reference 3, Snapshot.reference 4] 3 3, scopeRecord .null,
    objectRecord .null [], threadRecord 1 2 [frameRecord (callRecord "returned") (.str "first")],
    threadRecord 2 1 [frameRecord (callRecord "returned") (.str "second")]]

theorem restored_issues_fresh_counted : ∃ before origin, create {} {} = .ok before ∧
    restore Builtin.natives countedSnapshot before = .ok () origin ∧
    (origin.threads.map fun t => t.id.index) = [1, 2] ∧
    (∀ m, Asked Builtin.natives origin m → Roster.Changes origin.roster m.roster) ∧
      ∀ m, Roster.Changes origin.roster m.roster → IssuesFresh origin m := by
  have hchecks : ((create {} {}).toOption.bind (ran? (restore Builtin.natives countedSnapshot))).any
      (fun origin => decide ((origin.threads.map fun t => t.id.index) = [1, 2] ∧
        (∀ t ∈ origin.threads, t.id.index < origin.nextThreadId ∧ t.queued < origin.nextQueued) ∧
        origin.nextThreadId = 3 ∧ origin.nextQueued = 3 ∧ origin.nextResolverId = 1)) = true := by
    rw [toOption_create]
    decide +kernel
  obtain ⟨origin, horigin, hchecks⟩ := (Option.any_eq_true _ _).1 hchecks
  obtain ⟨before, hbefore, hrestored⟩ := Option.bind_eq_some_iff.1 horigin
  obtain ⟨hids, hlisted, hthread, hplace, hresolver⟩ := of_decide_eq_true hchecks
  have hrestore := ok_of_ran? hrestored
  have hroom : origin.HasRoom :=
    ⟨by rw [hthread]; decide, by rw [hplace]; decide, by rw [hresolver]; decide⟩
  exact ⟨before, origin, create_of_toOption hbefore, hrestore, hids,
    restored_issues_fresh Builtin.each_routine hrestore hlisted hroom⟩

/-- A snapshot with a thread that has the number and the place that are issued next. -/
def heldSnapshot : Json :=
  .arr [busyRecord [Snapshot.reference 3] 1 1, scopeRecord .null, objectRecord .null [],
    threadRecord 1 1 [frameRecord (callRecord "returned") (.str "first")]]

/-- A snapshot whose counter of threads has reached the last number of 64 bits. -/
def spentSnapshot : Json :=
  .arr [busyRecord [] 18446744073709551615 1, scopeRecord .null, objectRecord .null []]

/-- A new thread replaces one that was restored, and gets its place in the run queue; and a restored
counter runs out at once. -/
theorem restored_thread_replaced : ∃ before origin m spent, create {} {} = .ok before ∧
    restore Builtin.natives heldSnapshot before = .ok () origin ∧
    spawn "" origin = .ok ⟨1⟩ m ∧
    (origin.threads.map fun t => (t.id.index, t.queued)) = [(1, 1)] ∧
    (m.threads.map fun t => (t.id.index, t.queued)) = [(1, 1)] ∧
    (origin.thread? ⟨1⟩).map (·.stack.frames) ≠ (m.thread? ⟨1⟩).map (·.stack.frames) ∧
    restore Builtin.natives spentSnapshot before = .ok () spent ∧
    ∃ n, spawn "" spent = .error .overflow n := by
  have hchecks : (create {} {}).toOption.any (fun before =>
      (ran? (restore Builtin.natives heldSnapshot) before).any (fun origin =>
        (answer? (spawn "") origin).any fun spawned =>
          decide (spawned.1 = ⟨1⟩ ∧
            (origin.threads.map fun t => (t.id.index, t.queued)) = [(1, 1)] ∧
            (spawned.2.threads.map fun t => (t.id.index, t.queued)) = [(1, 1)] ∧
            (origin.thread? ⟨1⟩).map (·.stack.frames) ≠
              (spawned.2.thread? ⟨1⟩).map (·.stack.frames))) &&
      (ran? (restore Builtin.natives spentSnapshot) before).any (fun spent =>
        (failure? (spawn "") spent).any fun failed => decide (failed.1 = .overflow))) = true := by
    rw [toOption_create]
    decide +kernel
  obtain ⟨before, hbefore, hchecks⟩ := (Option.any_eq_true _ _).1 hchecks
  obtain ⟨hheld, hspent⟩ := Bool.and_eq_true_iff.1 hchecks
  obtain ⟨origin, horigin, hheld⟩ := (Option.any_eq_true _ _).1 hheld
  obtain ⟨spawned, hspawn, hheld⟩ := (Option.any_eq_true _ _).1 hheld
  obtain ⟨hid, hfirst, hafter, hne⟩ := of_decide_eq_true hheld
  obtain ⟨spent, hrestored, hspent⟩ := (Option.any_eq_true _ _).1 hspent
  obtain ⟨failed, hfailed, hspent⟩ := (Option.any_eq_true _ _).1 hspent
  exact ⟨before, origin, spawned.2, spent, create_of_toOption hbefore, ok_of_ran? horigin,
    hid ▸ ok_of_answer? hspawn, hfirst, hafter, hne, ok_of_ran? hrestored, failed.2,
    of_decide_eq_true hspent ▸ error_of_failure? hfailed⟩

end Machine

end ScriptMachine
