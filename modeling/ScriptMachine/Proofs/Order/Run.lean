import ScriptMachine.Proofs.Beginning
import ScriptMachine.Proofs.Order.Turn
import ScriptMachine.Proofs.Reach

/-!
# Every reachable machine is in order

Between two turns threads are woken and picked, garbage is collected and the host makes its
requests. None of that takes a machine out of order, so all machines that a host can reach are in
order, whatever their host functions do.
-/

namespace ScriptMachine

open Exec Stack

/-! ## Collection -/

namespace Heap

variable {h : Heap} {roots : Roots}

/-- A program that is loaded after a collection was loaded before. -/
theorem program?_of_collect {id : ProgramId} {p : Tree.Program}
    (hp : (h.collect roots).2.program? id = some p) : h.program? id = some p := by
  simp only [collect, program?, Array.getElem?_mapIdx] at hp ⊢
  cases hslot : h.programs[id.index]? with
  | none =>
    rw [hslot] at hp
    cases hp
  | some slot =>
    rw [hslot] at hp
    dsimp only [Option.map_some, Option.join_some] at hp ⊢
    split at hp
    · exact hp
    · cases hp

/-- What the roots hold is what it was. -/
theorem Tidy.same_collect (ht : h.Tidy) {x : Handle} (hx : roots.Holds x) :
    h.Same (h.collect roots).2 x := by
  have hmarked (hrange : h.InRange x) : (h.reached roots).Marks x :=
    (reached_spec h roots).1 x hx hrange
  cases x with
  | object id =>
    intro o ho
    have hrange : h.InRange (.object id) :=
      (Array.getElem?_eq_some_iff.1 (object?_eq_some_iff.1 ho)).1
    exact ⟨o, (ht.object?_collect (hmarked hrange)).trans ho, rfl⟩
  | scope id =>
    intro s hs
    have hrange : h.InRange (.scope id) :=
      (Array.getElem?_eq_some_iff.1 (scope?_eq_some_iff.1 hs)).1
    exact ⟨s, (ht.scope?_collect (hmarked hrange)).trans hs, rfl, rfl⟩
  | program id =>
    intro p hp
    obtain ⟨slot, hslot, -⟩ := Option.bind_eq_some_iff.1 hp
    have hrange : h.InRange (.program id) := (Array.getElem?_eq_some_iff.1 hslot).1
    exact (program?_collect (hmarked hrange)).trans hp

end Heap

namespace Machine

variable {strict steady prompt : Prop} {turn : Option (ThreadId × List Frame)}
  {origin m m' : Machine} {thread : ThreadId} {current : Option ThreadId}

/-- A collection between two steps leaves the machine in order. -/
theorem Orderly.collected (ho : Orderly strict steady none m) :
    Orderly strict steady none (after collectGarbage m) := by
  let kept : Machine :=
    { m with threads := m.threads.filter fun t => !t.isZombie || t.keepOutcome }
  have hkept : Orderly strict steady none kept :=
    ho.rethread (ho.queued.sublist List.filter_sublist) fun t ht =>
      ho.stands t (List.mem_of_mem_filter ht)
  change Orderly strict steady none { kept with heap := (kept.heap.collect kept.roots).2 }
  refine ⟨hkept.tidy.collect _, fun id p hp => ?_, ?_, hkept.queued, fun t ht => ?_,
    hkept.resolvers, fun _ _ h => by cases h⟩
  · exact hkept.grammatical id p (Heap.program?_of_collect hp)
  · obtain ⟨s, hs⟩ := hkept.global
    obtain ⟨s', hs', -⟩ := hkept.tidy.same_collect (holds_globalScope kept) s hs
    exact ⟨s', hs'⟩
  · refine (hkept.stands t ht).transfer fun f hf x hx => ?_
    exact hkept.tidy.same_collect (holds_of_thread ht (Thread.holds_of_frame hf hx))

theorem Settled.collected (hm : Settled strict steady prompt origin none current m) :
    Settled strict steady prompt origin none current (after collectGarbage m) where
  orderly := hm.orderly.collected
  quiet := ⟨hm.quiet.current, hm.quiet.early⟩
  led := hm.led.moment .collect

theorem leaves_maybeCollectGarbage (hm : Settled strict steady prompt origin none current m) :
    Leaves (Settled strict steady prompt origin none current) maybeCollectGarbage m := by
  refine leaves_get_bind ?_
  split
  · exact leaves_of_after hm.collected
  · exact leaves_pure () hm

/-! ## Scheduling -/

/-- A thread can take its next step before any other. -/
structure Poised (strict : Prop) (m : Machine) (id : ThreadId) : Prop where
  foremost : m.Foremost id
  heeds : strict → m.Heeds id

/-- Threads that are due are woken, and one that is picked goes before all others. -/
theorem schedule_run (hm : Settled strict steady prompt origin none none m) :
    ∃ found m', schedule m = .ok found m' ∧ Settled strict steady prompt origin none none m' ∧
      (∀ id, found = .run id → m'.Foremost id) ∧ ∀ id, m.Heeds id → m'.Heeds id := by
  let time := m.previousElapsed + m.clock.read.1
  let woken : Machine :=
    { m with clock := m.clock.read.2, threads := m.threads.map (·.wake time) }
  have hwake (t : Thread) : (t.wake time).id = t.id ∧ (t.wake time).queued = t.queued ∧
      (t.wake time).stack = t.stack := by
    unfold Thread.wake
    split
    · exact ⟨rfl, rfl, rfl⟩
    · exact ⟨rfl, rfl, rfl⟩
  have hqueued := hm.orderly.queued.map (fun t => (hwake t).1) fun t => (hwake t).2.1
  have ho : Orderly strict steady none woken := by
    refine (hm.orderly.rethread hqueued fun t ht => ?_).serves { Serves.refl _ with }
    obtain ⟨u, hu, rfl⟩ := List.mem_map.1 ht
    exact (hm.orderly.stands u hu).wake time
  have hled : Led steady prompt origin none woken :=
    hm.led.moment (.schedule hm.quiet.current (show schedule m = .ok _ woken from rfl))
  refine ⟨pick woken.threads, woken, rfl, ⟨ho, ⟨hm.quiet.current, hm.quiet.early⟩, hled⟩,
    fun id hid => ?_, fun id hheeds t f rest here p l ht => ?_⟩
  · obtain ⟨t, ht, htid, hready, hfirst⟩ := first_of_pick hid
    exact ⟨t, hqueued.sorted.find?_eq ht htid, hready, hfirst⟩
  · obtain ⟨hmem, htid⟩ := mem_threads_of_thread? ht
    obtain ⟨u, hu, rfl⟩ := List.mem_map.1 hmem
    rw [(hwake u).2.2]
    exact hheeds u f rest here p l
      (hm.orderly.queued.sorted.find?_eq hu ((hwake u).1.symm.trans htid))

theorem Orderly.attend (ho : Orderly strict steady turn m) (thread : Option ThreadId) :
    Orderly strict steady turn { m with currentThread := thread } :=
  ⟨ho.tidy, ho.grammatical, ho.global, ho.queued, ho.stands, ho.resolvers, ho.issued⟩

/-- The thread that goes before all others is attended to. -/
theorem Settled.attend (hm : Settled strict steady prompt origin none none m)
    (hforemost : m.Foremost thread) : Settled strict steady prompt origin none (some thread)
      { m with currentThread := some thread } where
  orderly := hm.orderly.attend (some thread)
  quiet := ⟨rfl, hm.quiet.early⟩
  led := hm.led.moment (.attend hm.quiet.current hforemost)

theorem Settled.rest (hm : Settled strict steady prompt origin none current m) :
    Settled strict steady prompt origin none none { m with currentThread := none } where
  orderly := hm.orderly.attend none
  quiet := ⟨rfl, hm.quiet.early⟩
  led := hm.led.moment .rest

/-- The time of a run counts from its start. -/
theorem startRun_run {t : Thread} (ht : m.thread? thread = some t) :
    startRun thread m = .ok () { m with
      clock := m.clock.read.2
      threads := updateThread thread (fun t => { t with runStarted := m.reading }) m.threads
      lastStepped := some thread } := by
  refine (bind_run_of_ok (n := { m with clock := m.clock.read.2 }) rfl).trans ?_
  exact bind_run_of_ok (modifyThread_run_of_some (m := { m with clock := m.clock.read.2 }) ht _)

/-- A run starts with the time it may take. -/
theorem leaves_startRun (hm : Settled strict steady prompt origin none none m)
    (hpoised : m.Poised strict thread) :
    Leaves (fun m' => Settled strict steady prompt origin none none m' ∧ m'.Poised strict thread)
      (startRun thread) m := by
  obtain ⟨t, ht, hready, hfirst⟩ := hpoised.foremost
  let time := m.reading
  let started : Machine := { m with
    clock := m.clock.read.2
    threads := updateThread thread (fun t => { t with runStarted := time }) m.threads
    lastStepped := some thread }
  have hrun : startRun thread m = .ok () started := startRun_run ht
  have hfound : started.thread? thread = some { t with runStarted := time } := by
    refine (thread?_updateThread (f := fun t => { t with runStarted := time }) (fun _ => rfl) m).trans ?_
    rw [ht]
    rfl
  have haltered : Altered true m started :=
    .tail (.single (.tend thread fun t => .restart t time)) (.serve { Serves.refl _ with })
  have hforemost : started.Foremost thread := by
    refine ⟨_, hfound, hready, fun u hu hu' => ?_⟩
    rcases mem_updateThread hu with hu | ⟨v, hv, rfl⟩
    · exact hfirst u hu hu'
    · obtain rfl := Option.some.inj (ht.symm.trans hv)
      exact hfirst t (List.mem_of_find?_eq_some ht) hready
  refine leaves_of_run hrun ⟨hm.altered_of_none haltered, hforemost,
    fun hstrict u f rest here p l hu => ?_⟩
  obtain rfl := Option.some.inj (hfound.symm.trans hu)
  exact hpoised.heeds hstrict t f rest here p l ht

/-! ## Steps and runs -/

variable {natives : Natives}

/-- One step of the machine leaves it in order. -/
theorem leaves_stepOnce (hnatives : natives.Each (Polite steady prompt))
    (hm : Settled strict steady prompt origin none none m) (hheeds : strict → ∀ id, m.Heeds id) :
    Leaves (Settled strict steady prompt origin none none) (stepOnce natives) m := by
  unfold stepOnce
  refine leaves_get_bind ?_
  dsimp only
  split
  · exact leaves_pure false hm
  obtain ⟨found, m₁, hrun, hm₁, hforemost, hheeded⟩ := schedule_run hm
  refine leaves_of_bind_run hrun ?_
  cases found with
  | run thread =>
    have hstep (m₂ : Machine) (hm₂ : Settled strict steady prompt origin none none m₂)
        (hpoised : m₂.Poised strict thread) : Leaves (Settled strict steady prompt origin none none) (do
          modify fun m => { m with currentThread := some thread }
          let result ← attempt (stepThread natives thread)
          modify fun m => { m with currentThread := none }
          maybeCollectGarbage
          query fun _ => result.map fun _ => true) m₂ := by
      have hend {m₃ : Machine} (hm₃ : Settled strict steady prompt origin none (some thread) m₃)
          (result : Except Failure Unit) : Leaves (Settled strict steady prompt origin none none) (do
            modify fun m => { m with currentThread := none }
            maybeCollectGarbage
            query fun _ => result.map fun _ => true) m₃ := by
        refine leaves_of_bind_run (n := { m₃ with currentThread := none }) rfl ?_
        exact (leaves_maybeCollectGarbage hm₃.rest).bind (fun _ _ _ h => leaves_query _ h)
          fun _ h => h
      refine leaves_of_bind_run (n := { m₂ with currentThread := some thread }) rfl ?_
      obtain ⟨t, ht, htready, -⟩ := hpoised.foremost
      refine (leaves_stepThread hnatives (hm₂.attend hpoised.foremost) ht htready
        hpoised.heeds).attempt_bind (fun _ _ _ h => hend h _) fun _ _ _ _ h => hend h _
    have hpoised : m₁.Poised strict thread :=
      ⟨hforemost thread rfl, fun hstrict => hheeded thread (hheeds hstrict thread)⟩
    refine leaves_get_bind ?_
    split
    · exact (leaves_startRun hm₁ hpoised).bind (fun _ m' _ h => hstep m' h.1 h.2)
        fun _ h => h.1
    · exact hstep m₁ hm₁ hpoised
  | waitUntil time => exact leaves_pure false hm₁
  | blocked => exact leaves_pure false hm₁
  | idle => exact leaves_pure false hm₁

theorem leaves_runSteps (hnatives : natives.Each (Polite steady prompt))
    (hm : Settled False steady prompt origin none (some thread) m) (fuel : Nat) :
    Leaves (Settled False steady prompt origin none (some thread)) (runSteps natives thread fuel) m := by
  induction fuel generalizing m with
  | zero => exact leaves_pure 0 hm
  | succ fuel ih =>
    unfold runSteps
    refine leaves_get_bind ?_
    split
    · exact leaves_pure _ hm
    · rename_i hgoes
      obtain ⟨t, ht, hready⟩ := Option.map_eq_some_iff.1 (threadStatus_of_goes hgoes)
      refine (leaves_stepThread hnatives hm ht hready fun h => h.elim).bind
        (fun _ m₁ _ hm₁ => ?_) fun _ h => h
      exact (leaves_maybeCollectGarbage hm₁).bind (fun _ m₂ _ hm₂ => ih hm₂) fun _ h => h

theorem leaves_runThread (hnatives : natives.Each (Polite steady prompt))
    (hm : Settled False steady prompt origin none none m) (hforemost : m.Foremost thread)
    (fuel : Nat) :
    Leaves (Settled False steady prompt origin none none) (runThread natives thread fuel) m := by
  refine (leaves_startRun hm ⟨hforemost, fun h => h.elim⟩).bind (fun _ m₁ _ hm₁ => ?_)
    fun _ h => h.1
  refine leaves_of_bind_run (n := { m₁ with currentThread := some thread }) rfl ?_
  have hend {m₂ : Machine} (hm₂ : Settled False steady prompt origin none (some thread) m₂)
      (result : Except Failure Nat) : Leaves (Settled False steady prompt origin none none) (do
        modify fun m => { m with currentThread := none }
        query fun _ => result) m₂ :=
    leaves_of_bind_run (n := { m₂ with currentThread := none }) rfl
      (leaves_query _ hm₂.rest)
  refine (leaves_runSteps hnatives (hm₁.1.attend hm₁.2.foremost) fuel).attempt_bind (fun _ _ _ h => hend h _) fun _ _ _ _ h => hend h _

theorem leaves_runRounds (hnatives : natives.Each (Polite steady prompt))
    (hm : Settled False steady prompt origin none none m) (rounds fuel : Nat) :
    Leaves (Settled False steady prompt origin none none) (runRounds natives rounds fuel) m := by
  induction rounds generalizing m fuel with
  | zero => exact leaves_pure _ hm
  | succ rounds ih =>
    unfold runRounds
    refine leaves_get_bind ?_
    split
    · exact leaves_pure _ hm
    · exact leaves_pure _ hm
    · obtain ⟨found, m₁, hrun, hm₁, hforemost, -⟩ := schedule_run hm
      refine leaves_of_bind_run hrun ?_
      cases found with
      | run thread =>
        refine (leaves_runThread hnatives hm₁ (hforemost thread rfl) fuel).bind
          (fun left m₂ _ hm₂ => ?_) fun _ h => h
        split
        · exact leaves_pure _ hm₂
        · exact ih hm₂ left
      | waitUntil time => exact leaves_pure _ hm₁
      | blocked => exact leaves_pure _ hm₁
      | idle => exact leaves_pure _ hm₁

/-! ## Requests of the host -/

theorem alters.defineGlobalNative (settles : Bool) (natives : Natives) (name : String) :
    Alters settles (defineGlobalNative natives name) := by
  have hcreate : Alters settles (createNativeFunction natives name name) := by
    unfold createNativeFunction
    split
    · exact alters.throw _
    · exact (alters.builtinObject _).bind fun _ => alters.get.bind fun _ => alters.alloc _
  exact hcreate.bind fun _ => alters.setGlobal _ _

/-- A request that runs nothing and collects no garbage makes a few changes. -/
theorem altered_request (ht : m.heap.Tidy) (hg : ∃ s, m.heap.scope? m.globalScope = some s)
    (natives : Natives) (r : Request) (hcollect : r ≠ .collect) (hstep : r ≠ .step)
    (hrun : ∀ fuel, r ≠ .run fuel) : Altered true m (after (r.perform natives) m) := by
  have hmade {x : Exec Unit} (hx : Alters true x) : Altered true m (after x m) := hx m ht
  have hdiscard {α : Type} {x : Exec α} (hx : Alters true x) :
      Altered true m (after (do let _ ← x) m) := hmade (hx.bind fun _ => alters.pure _)
  have hserve {f : Machine → Machine} (hf : ∀ m : Machine, m.Serves (f m)) :
      Altered true m (after (modify f : Exec Unit) m) := hmade (alters_serve hf)
  cases r with
  | load source => exact hdiscard (alters.load _)
  | spawnProgram program =>
    have haltered : Altered true m (after (Machine.spawnProgram program) m) :=
      (altersTo_spawnProgram hg program).altered
    exact after_bind_of (P := Altered true m) haltered (fun _ h => h) fun _ _ _ h => h
  | spawn source =>
    have haltered : Altered true m (after (Machine.spawn source) m) :=
      (altersTo_spawn ht hg source).altered
    exact after_bind_of (P := Altered true m) haltered (fun _ h => h) fun _ _ _ h => h
  | call func receiver args delay => exact hdiscard (alters_spawnCall _ _ _ _)
  | settle resolver thread s => exact hmade (alters_settle _ _ _)
  | kill thread => exact hdiscard (alters_killThread _)
  | take thread => exact hdiscard (alters_takeResult _)
  | release => exact hmade alters_releaseHostValues
  | pin v => exact hmade (alters_pinHostValue _)
  | limit thread most => exact hmade (alters_setTimeLimit _ _)
  | threshold count => exact hmade (alters_setGcThreshold _)
  | policy p => exact hserve fun m => { Serves.refl m with }
  | pause => exact hmade alters_pause
  | resume => exact hmade alters_resume
  | stop => exact hmade alters_stop
  | setGlobal name v => exact hmade (alters.setGlobal _ _)
  | declare name v mutable =>
    exact hmade (alters.get.bind fun _ => alters.declare _ _ _ _)
  | define name => exact hmade (alters.defineGlobalNative _ _ _)
  | newScope kind outer owner receiver => exact hdiscard (alters.newScope _ _ _ _)
  | declareIn scope name v mutable => exact hmade (alters.declare _ _ _ _)
  | setBinding scope name v => exact hmade (alters.setBinding _ _ _)
  | writeBinding scope name v => exact hmade (alters.writeBinding _ _ _)
  | setScopeOwner scope owner => exact hmade (alters.setScopeOwner _ _)
  | alloc o => exact hdiscard (alters.alloc _)
  | createObject proto owner => exact hdiscard (alters.createObject _ _)
  | createPlainObject owner => exact hdiscard (alters.createPlainObject _)
  | createArray values owner => exact hdiscard (alters.createArray _ _)
  | createFunction id name => exact hdiscard (alters.createNativeFunction _ _ _)
  | createClosure node scope owner => exact hdiscard (alters.createClosure _ _ _)
  | createError kind message owner thread => exact hdiscard (alters.createError _ _ _ _)
  | setProperty base key v actor => exact hmade (alters.setProperty _ _ _ _)
  | defineProperty id key d actor => exact hmade (alters.defineProperty _ _ _ _)
  | defineHidden id key v actor => exact hmade (alters.defineHidden _ _ _ _)
  | deleteProperty id key actor => exact hdiscard (alters.deleteProperty _ _ _)
  | setPrototype id proto actor => exact hmade (alters.setPrototype _ _ _)
  | preventExtensions id actor => exact hmade (alters.preventExtensions _ _)
  | setOwnerOf id owner actor => exact hmade (alters.setOwnerOf _ _ _)
  | advance millis => exact hserve fun m => { Serves.refl m with }
  | wait time => exact hmade (alters_waitUntil _)
  | setClock time => exact hmade (alters_setClock _)
  | replaceClock clock => exact hmade (alters_replaceClock _)
  | collect => exact absurd rfl hcollect
  | step => exact absurd rfl hstep
  | run fuel => exact absurd rfl (hrun fuel)

/-- A request that the host makes of a machine in order leaves it in order. -/
theorem leaves_request (hnatives : natives.Each (Polite steady prompt))
    (hm : Settled False steady prompt origin none none m) (r : Request) :
    Leaves (Settled False steady prompt origin none none) (r.perform natives) m := by
  by_cases hcollect : r = .collect
  · subst hcollect
    exact leaves_of_after hm.collected
  by_cases hstep : r = .step
  · subst hstep
    exact (leaves_stepOnce hnatives hm fun h => h.elim).bind (fun _ _ _ h => leaves_pure _ h)
      fun _ h => h
  by_cases hrun : ∃ fuel, r = .run fuel
  · obtain ⟨fuel, rfl⟩ := hrun
    exact (leaves_runRounds hnatives hm _ _).bind (fun _ _ _ h => leaves_pure _ h) fun _ h => h
  · have haltered := altered_request hm.orderly.tidy hm.orderly.global natives r hcollect hstep
      fun fuel h => hrun ⟨fuel, h⟩
    exact leaves_of_after (hm.altered_of_none haltered)

/-- A new machine is in order, and its history begins. -/
theorem settled_of_create {config : Config} {clock : Host.Clock} (h : create config clock = .ok m) :
    Settled strict steady prompt m none none m := by
  have hvacant := vacant_of_create h
  refine ⟨⟨hvacant.tidy, fun id p hp => ?_, hvacant.global, ?_, ?_, ?_, fun _ _ h => by cases h⟩,
    ⟨hvacant.idle.currentThread, hvacant.idle.earlySettlements⟩, [], .nil⟩
  · rw [Heap.program?, hvacant.idle.programs] at hp
    cases hp
  · rw [hvacant.threads]
    exact ⟨⟨.nil, fun _ h => by cases h⟩, fun _ h => (by cases h), .nil⟩
  · rw [hvacant.threads]
    exact fun _ h => by cases h
  · rw [hvacant.idle.pendingResolvers]
    exact fun _ h => by cases h

/-- What is left by an operation that does not run out of numbers. -/
theorem after_of_leaves {α : Type} {P : Machine → Prop} {x : Exec α} (h : Leaves P x m)
    (hcount : ∀ m', x m ≠ .error .overflow m') : P (after x m) := by
  unfold Leaves at h
  unfold after
  cases hrun : x m with
  | ok a m' =>
    rw [hrun] at h
    exact h
  | error e m' =>
    rw [hrun] at h
    refine h.resolve_left fun he => hcount m' ?_
    rw [hrun, he]

/-- Requests of the host leave a machine settled. -/
theorem Settled.serve (hnatives : natives.Each (Polite steady prompt))
    (hm : Settled False steady prompt origin none none m) {requests : List Request}
    (hserve : m.serve natives requests = some m') :
    Settled False steady prompt origin none none m' := by
  induction requests generalizing m with
  | nil =>
    cases hserve
    exact hm
  | cons r rest ih =>
    unfold Machine.serve at hserve
    have hleaves := leaves_request hnatives hm r
    unfold Leaves at hleaves
    cases hrun : r.perform natives m with
    | ok a m₁ =>
      rw [hrun] at hserve hleaves
      exact ih hleaves hserve
    | error e m₁ =>
      rw [hrun] at hserve hleaves
      cases e with
      | overflow => cases hserve
      | _ => exact ih (hleaves.resolve_left fun h => by cases h) hserve

/-- Every reachable machine is in order, with a history that goes back to a new one. -/
theorem Reachable.settled (hnatives : natives.Each (Polite steady prompt))
    (h : Reachable natives m) : ∃ config clock origin, Machine.create config clock = .ok origin ∧
      Settled False steady prompt origin none none m := by
  induction h with
  | create h => exact ⟨_, _, _, h, settled_of_create h⟩
  | request h r hcount ih =>
    obtain ⟨config, clock, origin, hcreate, hm⟩ := ih
    exact ⟨config, clock, origin, hcreate, after_of_leaves (leaves_request hnatives hm r) hcount⟩

theorem Reachable.orderly (hnatives : natives.Each (Civil steady)) (h : Reachable natives m) :
    Orderly False steady none m ∧ Quiet none m := by
  have hpolite : natives.Each (Polite steady False) :=
    hnatives.mono fun _ h => ⟨h, False.elim⟩
  obtain ⟨_, _, _, -, hm⟩ := h.settled hpolite
  exact ⟨hm.orderly, hm.quiet⟩

/-!
## The thread table of a reachable machine

Between two steps the table of threads, the run queue and the resolvers agree with each other, as
long as no host function ends its own thread and asks for it to be parked.
-/

/-- The table of threads between two steps. -/
structure Tabled (m : Machine) : Prop where
  /-- A thread is found by its own number. -/
  own : ∀ t ∈ m.threads, m.thread? t.id = some t
  issued : ∀ t ∈ m.threads, t.id.index < m.nextThreadId
  queued : ∀ t ∈ m.threads, t.queued < m.nextQueued
  apart : m.threads.Pairwise fun t u => t.queued ≠ u.queued
  finished : ∀ t ∈ m.threads, t.isZombie = true →
    t.stack.frames = [] ∧ t.outcome.isSome = true
  live : ∀ t ∈ m.threads, t.isZombie = false → t.stack.frames ≠ [] ∧ t.outcome = none
  blocked : ∀ t ∈ m.threads, t.status = .blocked →
    ∃ f ∈ t.stack.top?, ∃ call, f.info = .call call ∧ call.phase = .blocked
  resolvers : ∀ r ∈ m.pendingResolvers, r.1 < m.nextResolverId ∧ r.2.index < m.nextThreadId
  early : m.earlySettlements = []
  current : m.currentThread = none

/-- Every machine that a host can reach has its threads in order, as long as host functions issue
resolvers for threads in the table only and park no thread that they ended. -/
theorem Reachable.tabled {natives : Natives} {m : Machine} (hnatives : natives.Each (Civil True))
    (h : Reachable natives m) : m.Tabled := by
  obtain ⟨ho, hquiet⟩ := h.orderly hnatives
  have hstacked (t : Thread) (ht : t ∈ m.threads) (hlive : t.isZombie = false) :=
    (ho.stands t ht).stacked (fun _ h => by cases h) hlive
  refine
    { own := fun t ht => ho.queued.sorted.find?_eq ht rfl
      issued := ho.queued.sorted.issued
      queued := ho.queued.behind
      apart := ho.queued.apart
      finished := fun t ht => (ho.stands t ht).finished
      live := fun t ht hlive => ⟨fun hnil => ?_, (ho.stands t ht).unfinished trivial hlive⟩
      blocked := fun t ht hblocked => ?_
      resolvers := fun r hr => (ho.resolvers r hr).imp_right fun h => h trivial
      early := hquiet.early
      current := hquiet.current }
  · have hs := (hstacked t ht hlive).1
    rw [hnil] at hs
    cases hs
  · have hlive : t.isZombie = false := by
      unfold Thread.isZombie
      rw [hblocked]
      rfl
    obtain ⟨f, rest, hframes, hwaits⟩ := (hstacked t ht hlive).2 hblocked
    refine ⟨f, ?_, hwaits⟩
    rw [Stack.top?, hframes]
    rfl

/-! ## A host function that waits -/

/-- Issues a resolver for its own thread and waits for it. -/
def waitFor : NativeCode := fun c => do
  let _ ← issueResolver c.thread
  return c.reply .block

theorem civil_waitFor : Civil True waitFor := by
  intro c m _ halive
  obtain ⟨t, ht, -⟩ := isAlive_iff.1 halive
  have hkeeps : Keeps (fun m' => m'.threads = m.threads) (issueResolver c.thread) := by
    refine keeps_get.bind fun _ => (keeps_query _).bind fun _ => ?_
    refine Keeps.bind (keeps_modify fun _ h => ?_) fun _ => keeps_pure _
    exact h
  have hissue : AltersTo true m (fun _ m' => m'.threads = m.threads) (issueResolver c.thread) :=
    ⟨alters_issueResolver ht, fun _ m' hrun => after_of_ok hrun ▸ hkeeps m rfl⟩
  refine hissue.bind fun _ m' _ hthreads => altersTo_pure fun _ _ => ?_
  unfold isAlive thread?
  rw [hthreads]
  exact halive

/-- The builtins and a function that waits. -/
def waitingNatives : Natives :=
  Builtin.natives ++ [("waitFor", { arity := 0, call := waitFor })]

theorem each_civil_waitingNatives : waitingNatives.Each (Civil True) :=
  .append Builtin.each_civil (.cons civil_waitFor (fun _ h => by cases h) .nil)

/-- Three threads: one waits for its resolver, one sleeps and one has finished. -/
def waitingRequests : List Request :=
  [.define "waitFor", .spawn "try { waitFor(); } finally { 1; }",
    .spawn "setTimeout(function () {}, 5); 2;", .run 60]

set_option maxRecDepth 100000 in
theorem hosted_waiting : ∃ m, hosted waitingNatives {} waitingRequests = some m ∧
    (m.threads.map fun t => t.status) = [.blocked, .zombie, .sleeping] ∧
    m.pendingResolvers = [(1, ⟨1⟩)] := by
  have hchecks : (hosted waitingNatives {} waitingRequests).any (fun m => decide
      ((m.threads.map fun t => t.status) = [.blocked, .zombie, .sleeping] ∧
        m.pendingResolvers = [(1, ⟨1⟩)])) = true := by
    rw [hosted_eq]
    decide +kernel
  obtain ⟨m, hm, hchecks⟩ := (Option.any_eq_true _ _).1 hchecks
  exact ⟨m, hm, of_decide_eq_true hchecks⟩

/-- A machine with a thread that waits for its resolver, one that sleeps and one that has
finished. -/
theorem tabled_waiting : ∃ m,
    hosted waitingNatives {} [.define "waitFor", .spawn "try { waitFor(); } finally { 1; }",
      .spawn "setTimeout(function () {}, 5); 2;", .run 60] = some m ∧
    (m.threads.map fun t => t.status) = [.blocked, .zombie, .sleeping] ∧
    m.pendingResolvers = [(1, ⟨1⟩)] ∧ m.Tabled := by
  obtain ⟨m, hm, hstatus, hresolvers⟩ := hosted_waiting
  exact ⟨m, hm, hstatus, hresolvers,
    (reachable_of_hosted hm).tabled each_civil_waitingNatives⟩

/-- Issues a resolver for a thread that was never started. -/
def waitForNobody : NativeCode := fun c => do
  let _ ← issueResolver ⟨999⟩
  return c.reply (.value .undefined)

/-- The builtins and a function that issues a resolver for no thread. -/
def astrayNatives : Natives :=
  Builtin.natives ++ [("waitForNobody", { arity := 0, call := waitForNobody })]

set_option maxRecDepth 100000 in
/-- A resolver that a host function issues for a thread that was never started is pending. -/
theorem resolver_of_nobody : ∃ m, Reachable astrayNatives m ∧ m.pendingResolvers = [(1, ⟨999⟩)] ∧
    m.nextThreadId = 2 ∧ ¬ m.Tabled := by
  have hchecks : (hosted astrayNatives {} [.define "waitForNobody", .spawn "waitForNobody();",
      .run 20]).any (fun m => decide (m.pendingResolvers = [(1, ⟨999⟩)] ∧ m.nextThreadId = 2)) =
        true := by
    rw [hosted_eq]
    decide +kernel
  obtain ⟨m, hm, hchecks⟩ := (Option.any_eq_true _ _).1 hchecks
  obtain ⟨hpending, hnext⟩ := of_decide_eq_true hchecks
  refine ⟨m, reachable_of_hosted hm, hpending, hnext, fun htabled => ?_⟩
  have hissued := (htabled.resolvers (1, ⟨999⟩) (by rw [hpending]; exact List.mem_cons_self)).2
  rw [hnext] at hissued
  exact absurd hissued (by decide)

end Machine

end ScriptMachine
