import ScriptMachine.Proofs.Beats.Coming

/-!
# Beats of a machine

A machine is run beat by beat: a thread is picked, it has its turns, garbage is collected, and the
host makes requests in between. Every request of the host is made of beats. A beat that is not a
turn of a thread leaves the frames of that thread as far as they were, unless it ends the thread.
-/

namespace ScriptMachine

open Machine Exec Stack

namespace Machine

variable {natives : Natives} {origin m m' k : Machine} {thread : ThreadId}
  {who current : Option ThreadId} {α : Type}

/-- The machine when a thread that was picked is attended to. Its run starts, unless the thread goes
on with the run that it is in. -/
def attended (m : Machine) (thread : ThreadId) (starts : Bool) : Machine :=
  { (if starts then after (startRun thread) m else m) with currentThread := some thread }

/-- One beat of a machine, and the thread it belongs to. A machine whose counters ran out is
gone. -/
inductive Beat (natives : Natives) (m : Machine) : Option ThreadId → Machine → Prop where
  /-- Only the thread that was stepped last goes on with its run. -/
  | pick {thread : ThreadId} {n : Machine} (starts : Bool) (hidle : m.currentThread = none)
    (hpick : schedule m = .ok (.run thread) n)
    (hstarts : starts = false → n.lastStepped = some thread) :
    Beat natives m (some thread) (n.attended thread starts)
  | turn {thread : ThreadId} (hcurrent : m.currentThread = some thread)
    (hready : m.threadStatus thread = some .ready)
    (hcount : ∀ n, stepThread natives thread m ≠ .error .overflow n) :
    Beat natives m (some thread) (after (stepThread natives thread) m)
  /-- No thread can run. -/
  | look (hidle : m.currentThread = none)
    (hvain : ∀ thread n, schedule m ≠ .ok (.run thread) n) :
    Beat natives m none (after schedule m)
  | rest : Beat natives m none { m with currentThread := none }
  | collect : Beat natives m none (after collectGarbage m)
  | request (hidle : m.currentThread = none) (r : Request) (hstep : r ≠ .step)
    (hrun : ∀ fuel, r ≠ .run fuel) (hcount : ∀ n, r.perform natives m ≠ .error .overflow n) :
    Beat natives m none (after (r.perform natives) m)

/-- Any number of beats. -/
abbrev Beats (natives : Natives) : Machine → Machine → Prop :=
  Relation.ReflTransGen fun m m' => ∃ who, Beat natives m who m'

/-- A machine that comes from a new one beat by beat. -/
def Played (natives : Natives) (m : Machine) : Prop :=
  ∃ config clock m₀, create config clock = .ok m₀ ∧ Beats natives m₀ m

/-! ## Every beat leaves a machine settled -/

/-- A machine is settled between its beats. -/
abbrev Beating (origin m : Machine) : Prop :=
  Settled False True False origin none m.currentThread m

theorem Settled.beating (hm : Settled False True False origin none current m) :
    Beating origin m := by
  unfold Beating
  rw [hm.quiet.current]
  exact hm

theorem Beating.idle (hm : Beating origin m) (hidle : m.currentThread = none) :
    Settled False True False origin none none m := by
  rw [Beating, hidle] at hm
  exact hm

theorem Settled.attended (hm : Settled False True False origin none none m)
    (hforemost : m.Foremost thread) (starts : Bool) :
    Settled False True False origin none (some thread) (m.attended thread starts) := by
  unfold Machine.attended
  cases starts with
  | false => exact hm.attend hforemost
  | true =>
    have ⟨t, ht, _⟩ := hforemost
    have hstarted := leaves_startRun hm ⟨hforemost, fun h => h.elim⟩
    obtain ⟨hn, hpoised⟩ := after_of_leaves hstarted fun n hrun => by
      rw [startRun_run ht] at hrun
      cases hrun
    exact hn.attend hpoised.foremost

theorem thread?_attended {t : Thread} (ht : m.thread? thread = some t) (starts : Bool) :
    (m.attended thread starts).thread? thread =
      some (if starts then { t with runStarted := m.reading } else t) := by
  unfold Machine.attended
  cases starts with
  | false => exact ht
  | true =>
    rw [if_pos rfl, after_of_ok (startRun_run ht)]
    refine (thread?_updateThread (f := fun t => { t with runStarted := m.reading })
      (fun _ => rfl) m).trans ?_
    rw [ht]
    rfl

theorem threadStatus_attended (hforemost : m.Foremost thread) (starts : Bool) :
    (m.attended thread starts).threadStatus thread = some .ready := by
  obtain ⟨t, ht, hready, -⟩ := hforemost
  unfold threadStatus
  rw [thread?_attended ht, ← hready]
  cases starts <;> rfl

/-- Attending to a thread whose run starts is what is done before its first step. -/
theorem startRun_bind (hforemost : m.Foremost thread) (x : Unit → Exec α) :
    (startRun thread >>= fun u => do
      modify fun m => { m with currentThread := some thread }
      x u) m = x () (m.attended thread true) := by
  have ⟨t, ht, _⟩ := hforemost
  rw [bind_run_of_ok (startRun_run ht)]
  unfold attended
  rw [if_pos rfl, after_of_ok (startRun_run ht)]
  rfl

/-- A thread that is picked goes before all others. -/
theorem settled_of_pick {found : Pick} {n : Machine}
    (hm : Settled False True False origin none none m) (hpick : schedule m = .ok found n) :
    Settled False True False origin none none n ∧ ∀ id, found = .run id → n.Foremost id := by
  obtain ⟨found', n', hrun, hn, hforemost, -⟩ := schedule_run hm
  cases hpick.symm.trans hrun
  exact ⟨hn, hforemost⟩

section Beats

variable (hcivil : natives.Each (Civil True))

include hcivil

theorem Beating.beat (hm : Beating origin m) (h : Beat natives m who m') : Beating origin m' := by
  have hpolite : natives.Each (Polite True False) := hcivil.mono fun _ h => ⟨h, False.elim⟩
  cases h with
  | pick starts hidle hpick _ =>
    obtain ⟨hn, hforemost⟩ := settled_of_pick (hm.idle hidle) hpick
    exact (hn.attended (hforemost _ rfl) starts).beating
  | turn hcurrent hready hcount =>
    obtain ⟨t, ht, hstatus⟩ := Option.map_eq_some_iff.1 hready
    rw [Beating, hcurrent] at hm
    have hleaves := leaves_stepThread hpolite hm ht hstatus fun h => h.elim
    exact (after_of_leaves hleaves hcount).beating
  | look hidle _ =>
    obtain ⟨found, n, hrun, hn, -⟩ := schedule_run (hm.idle hidle)
    rw [after_of_ok hrun]
    exact hn.beating
  | rest => exact hm.rest.beating
  | collect => exact hm.collected.beating
  | request hidle r _ _ hcount =>
    exact (after_of_leaves (leaves_request hpolite (hm.idle hidle) r) hcount).beating

theorem Beating.beats (hm : Beating origin m) (h : Beats natives m m') : Beating origin m' := by
  induction h with
  | refl => exact hm
  | tail _ hlast ih =>
    obtain ⟨who, hlast⟩ := hlast
    exact ih.beat hcivil hlast

theorem Played.beating (h : Played natives m) : ∃ origin, Beating origin m := by
  obtain ⟨config, clock, m₀, hcreate, hbeats⟩ := h
  exact ⟨m₀, (settled_of_create hcreate).beating.beats hcivil hbeats⟩

end Beats

/-! ## Requests are made of beats -/

/-- A settled machine that comes from another beat by beat. -/
structure Underway (natives : Natives) (origin k : Machine) (current : Option ThreadId)
    (m : Machine) : Prop where
  settled : Settled False True False origin none current m
  beats : Beats natives k m

section Runs

variable (hcivil : natives.Each (Civil True))

include hcivil

theorem Underway.beat (h : Underway natives origin k current m) (hbeat : Beat natives m who m')
    {next : Option ThreadId} (hnext : m'.currentThread = next) :
    Underway natives origin k next m' := by
  have hm' := h.settled.beating.beat hcivil hbeat
  rw [Beating, hnext] at hm'
  exact ⟨hm', h.beats.tail ⟨who, hbeat⟩⟩

theorem Underway.rest (h : Underway natives origin k current m) :
    Underway natives origin k none { m with currentThread := none } :=
  h.beat hcivil .rest rfl

theorem Underway.leaves_turn (h : Underway natives origin k (some thread) m)
    (hready : m.threadStatus thread = some .ready) :
    Leaves (Underway natives origin k (some thread)) (stepThread natives thread) m := by
  have hpolite : natives.Each (Polite True False) := hcivil.mono fun _ h => ⟨h, False.elim⟩
  obtain ⟨t, ht, hstatus⟩ := Option.map_eq_some_iff.1 hready
  have hleaves := leaves_stepThread hpolite h.settled ht hstatus fun h => h.elim
  by_cases hcount : ∀ n, stepThread natives thread m ≠ .error .overflow n
  · have hbeat : Beat natives m (some thread) (after (stepThread natives thread) m) :=
      .turn h.settled.quiet.current hready hcount
    exact leaves_of_after (h.beat hcivil hbeat (after_of_leaves hleaves hcount).quiet.current)
  · simp only [ne_eq, not_forall, not_not] at hcount
    obtain ⟨n, hrun⟩ := hcount
    unfold Leaves
    rw [hrun]
    exact .inl rfl

theorem Underway.leaves_maybeCollectGarbage (h : Underway natives origin k current m) :
    Leaves (Underway natives origin k current) maybeCollectGarbage m := by
  refine leaves_get_bind ?_
  split
  · exact leaves_of_after (h.beat hcivil .collect h.settled.quiet.current)
  · exact leaves_pure () h

/-- A thread that is picked is attended to. -/
theorem Underway.pick (h : Underway natives origin k none m) {n : Machine}
    (hpick : schedule m = .ok (.run thread) n) (starts : Bool)
    (hstarts : starts = false → n.lastStepped = some thread) :
    Underway natives origin k (some thread) (n.attended thread starts) ∧
      (n.attended thread starts).threadStatus thread = some .ready := by
  obtain ⟨-, hforemost⟩ := settled_of_pick h.settled hpick
  exact ⟨h.beat hcivil (.pick starts h.settled.quiet.current hpick hstarts) rfl,
    threadStatus_attended (hforemost thread rfl) starts⟩

theorem Underway.look (h : Underway natives origin k none m) {found : Pick} {n : Machine}
    (hpick : schedule m = .ok found n) (hvain : ∀ thread, found ≠ .run thread) :
    Underway natives origin k none n := by
  have hbeat : Beat natives m none (after schedule m) := by
    refine .look h.settled.quiet.current fun thread n' hrun => ?_
    cases hpick.symm.trans hrun
    exact hvain thread rfl
  rw [after_of_ok hpick] at hbeat
  obtain ⟨hn, -⟩ := settled_of_pick h.settled hpick
  exact h.beat hcivil hbeat hn.quiet.current

theorem Underway.leaves_stepOnce (h : Underway natives origin k none m) :
    Leaves (Underway natives origin k none) (stepOnce natives) m := by
  unfold stepOnce
  refine leaves_get_bind ?_
  dsimp only
  split
  · exact leaves_pure false h
  obtain ⟨found, n, hrun, hn, hforemost, -⟩ := schedule_run h.settled
  refine leaves_of_bind_run hrun ?_
  have hlook (hvain : ∀ thread, found ≠ .run thread) :
      Leaves (Underway natives origin k none) (pure false) n :=
    leaves_pure false (h.look hcivil hrun hvain)
  cases found with
  | run thread =>
    have hend {n' : Machine} (h' : Underway natives origin k (some thread) n')
        (result : Except Failure Unit) : Leaves (Underway natives origin k none) (do
          modify fun m => { m with currentThread := none }
          maybeCollectGarbage
          query fun _ => result.map fun _ => true) n' := by
      refine leaves_of_bind_run (n := { n' with currentThread := none }) rfl ?_
      exact ((h'.rest hcivil).leaves_maybeCollectGarbage hcivil).bind
        (fun _ _ _ h => leaves_query _ h) fun _ h => h
    have hstep (starts : Bool) (hstarts : starts = false → n.lastStepped = some thread) :
        Leaves (Underway natives origin k none) (do
          let result ← attempt (stepThread natives thread)
          modify fun m => { m with currentThread := none }
          maybeCollectGarbage
          query fun _ => result.map fun _ => true) (n.attended thread starts) := by
      obtain ⟨h', hready⟩ := h.pick hcivil hrun starts hstarts
      exact (h'.leaves_turn hcivil hready).attempt_bind (fun _ _ _ h => hend h _)
        fun _ _ _ _ h => hend h _
    refine leaves_get_bind ?_
    split
    · unfold Leaves
      rw [startRun_bind (hforemost thread rfl) fun _ => do
        let result ← attempt (stepThread natives thread)
        modify fun m => { m with currentThread := none }
        maybeCollectGarbage
        query fun _ => result.map fun _ => true]
      exact hstep true nofun
    · rename_i hlast
      exact leaves_of_bind_run (modify_run _ n)
        (hstep false fun _ => by simpa using hlast)
  | waitUntil time => exact hlook nofun
  | blocked => exact hlook nofun
  | idle => exact hlook nofun

theorem Underway.leaves_runSteps (h : Underway natives origin k (some thread) m) (fuel : Nat) :
    Leaves (Underway natives origin k (some thread)) (runSteps natives thread fuel) m := by
  induction fuel generalizing m with
  | zero => exact leaves_pure 0 h
  | succ fuel ih =>
    unfold runSteps
    refine leaves_get_bind ?_
    split
    · exact leaves_pure _ h
    · rename_i hgoes
      refine (h.leaves_turn hcivil (threadStatus_of_goes hgoes)).bind (fun _ m₁ _ h₁ => ?_) fun _ h => h
      exact (h₁.leaves_maybeCollectGarbage hcivil).bind (fun _ m₂ _ h₂ => ih h₂) fun _ h => h

theorem Underway.leaves_runThread (h : Underway natives origin k none m) {n : Machine}
    (hpick : schedule m = .ok (.run thread) n) (fuel : Nat) :
    Leaves (Underway natives origin k none) (runThread natives thread fuel) n := by
  obtain ⟨-, hforemost⟩ := settled_of_pick h.settled hpick
  obtain ⟨h', -⟩ := h.pick hcivil hpick true nofun
  have hend {n' : Machine} (h' : Underway natives origin k (some thread) n')
      (result : Except Failure Nat) : Leaves (Underway natives origin k none) (do
        modify fun m => { m with currentThread := none }
        query fun _ => result) n' :=
    leaves_of_bind_run (n := { n' with currentThread := none }) rfl
      (leaves_query _ (h'.rest hcivil))
  unfold runThread Leaves
  rw [startRun_bind (hforemost thread rfl) fun _ => do
    let result ← attempt (runSteps natives thread fuel)
    modify fun m => { m with currentThread := none }
    query fun _ => result]
  exact (h'.leaves_runSteps hcivil fuel).attempt_bind (fun _ _ _ h => hend h _)
    fun _ _ _ _ h => hend h _

theorem Underway.leaves_runRounds (h : Underway natives origin k none m) (rounds fuel : Nat) :
    Leaves (Underway natives origin k none) (runRounds natives rounds fuel) m := by
  induction rounds generalizing m fuel with
  | zero => exact leaves_pure _ h
  | succ rounds ih =>
    unfold runRounds
    refine leaves_get_bind ?_
    split
    · exact leaves_pure _ h
    · exact leaves_pure _ h
    · obtain ⟨found, n, hrun, -⟩ := schedule_run h.settled
      refine leaves_of_bind_run hrun ?_
      cases found with
      | run thread =>
        refine (h.leaves_runThread hcivil hrun fuel).bind (fun left m₂ _ h₂ => ?_) fun _ h => h
        split
        · exact leaves_pure _ h₂
        · exact ih h₂ left
      | waitUntil time => exact leaves_pure _ (h.look hcivil hrun nofun)
      | blocked => exact leaves_pure _ (h.look hcivil hrun nofun)
      | idle => exact leaves_pure _ (h.look hcivil hrun nofun)

/-- Whatever the host asks for is done beat by beat. -/
theorem Underway.leaves_request (h : Underway natives origin k none m) (r : Request) :
    Leaves (Underway natives origin k none) (r.perform natives) m := by
  have hpolite : natives.Each (Polite True False) := hcivil.mono fun _ h => ⟨h, False.elim⟩
  by_cases hstep : r = .step
  · subst hstep
    exact (h.leaves_stepOnce hcivil).bind (fun _ _ _ h => leaves_pure _ h) fun _ h => h
  by_cases hrun : ∃ fuel, r = .run fuel
  · obtain ⟨fuel, rfl⟩ := hrun
    exact (h.leaves_runRounds hcivil _ _).bind (fun _ _ _ h => leaves_pure _ h) fun _ h => h
  by_cases hcount : ∀ n, r.perform natives m ≠ .error .overflow n
  · have hm' := after_of_leaves (Machine.leaves_request hpolite h.settled r) hcount
    have hbeat : Beat natives m none (after (r.perform natives) m) :=
      .request h.settled.quiet.current r hstep (fun fuel heq => hrun ⟨fuel, heq⟩) hcount
    exact leaves_of_after (h.beat hcivil hbeat hm'.quiet.current)
  · simp only [ne_eq, not_forall, not_not] at hcount
    obtain ⟨n, hran⟩ := hcount
    unfold Leaves
    rw [hran]
    exact .inl rfl

/-- Every machine that a host can reach was played beat by beat. -/
theorem Reachable.played (h : Reachable natives m) : Played natives m ∧ m.currentThread = none := by
  have hfollows : ∃ config clock origin, Machine.create config clock = .ok origin ∧
      Underway natives origin origin none m := by
    induction h with
    | @create config clock m hcreate =>
      exact ⟨config, clock, m, hcreate, settled_of_create hcreate, .refl⟩
    | request _ r hcount ih =>
      obtain ⟨config, clock, origin, hcreate, h⟩ := ih
      exact ⟨config, clock, origin, hcreate, after_of_leaves (h.leaves_request hcivil r) hcount⟩
  obtain ⟨config, clock, origin, hcreate, h⟩ := hfollows
  exact ⟨⟨config, clock, origin, hcreate, h.beats⟩, h.settled.quiet.current⟩

end Runs

/-! ## What a beat leaves alone -/

/-- Programs stay what they were, and so does the stack limit. The frames of threads whose turn it
is not are left alone. -/
structure Spares (who : Option ThreadId) (m m' : Machine) : Prop where
  limit : m'.config.maxStackDepth = m.config.maxStackDepth
  programs : ∀ {id p p'}, m.heap.program? id = some p → m'.heap.program? id = some p' → p' = p
  others : ∀ {other}, who ≠ some other → Undisturbed other m m'

namespace Spares

theorem apart (h : ActsApart thread m m') (ht : m.heap.Tidy) (hn : m.Numbered) :
    Spares (some thread) m m' where
  limit := (h.fixed ⟨rfl, rfl⟩).1
  programs := fun hp hp' => Option.some.inj (hp'.symm.trans ((h.retains ht).program hp))
  others := fun hne => h.others (fun heq => hne (congrArg some heq.symm)) hn

/-- The heap is what it was. -/
theorem of_heap (hheap : m'.heap = m.heap) (hconfig : m'.config = m.config)
    (h : ∀ other, Undisturbed other m m') : Spares who m m' where
  limit := by rw [hconfig]
  programs := by
    intro id p p' hp hp'
    rw [hheap] at hp'
    exact Option.some.inj (hp'.symm.trans hp)
  others := fun _ => h _

theorem collected (hn : m.Numbered) : Spares who m (after collectGarbage m) where
  limit := rfl
  programs := fun hp hp' => Option.some.inj ((Heap.program?_of_collect hp').symm.trans hp)
  others := by
    intro other _
    have hkept : Undisturbed other m { m with
        threads := m.threads.filter fun t => !t.isZombie || t.keepOutcome } := .filter hn _
    exact hkept.trans (.of_threads rfl (Nat.le_refl _))

theorem altered (hlimit : m'.config.maxStackDepth = m.config.maxStackDepth) (ht : m.heap.Tidy)
    (hn : m.Numbered) (h : Altered true m m') : Spares who m m' where
  limit := hlimit
  programs := fun hp hp' => Option.some.inj (hp'.symm.trans ((h.retains ht).program hp))
  others := fun _ => (Undisturbed.altered hn h).1

end Spares

/-- Waking threads leaves all frames as they are. -/
theorem Undisturbed.schedule (m : Machine) : Undisturbed thread m (after schedule m) := by
  have hwake : Undisturbed thread m { m with threads := m.threads.map (·.wake m.reading) } := by
    apply Undisturbed.map
    · intro t
      unfold Thread.wake
      split <;> rfl
    · intro t
      unfold Thread.wake
      split <;> exact .inr rfl
  exact hwake.trans (.of_threads rfl (Nat.le_refl _))

/-- The frames of a thread that is attended to are as far as they were. -/
theorem Undisturbed.attended {other : ThreadId} (hforemost : m.Foremost thread) (starts : Bool) :
    Undisturbed other m (m.attended thread starts) := by
  unfold Machine.attended
  cases starts with
  | false => exact .of_threads rfl (Nat.le_refl _)
  | true =>
    have ⟨t, hfound, _⟩ := hforemost
    rw [if_pos rfl, after_of_ok (startRun_run hfound)]
    let restarted (t : Thread) : Thread := { t with runStarted := m.reading }
    have hstarted : Undisturbed other m { m with
        threads := updateThread thread restarted m.threads } :=
      .update thread (fun _ => rfl) fun t _ => .inr (Stay.refl _)
    exact hstarted.trans (.of_threads rfl (Nat.le_refl _))

theorem heap_attended (hforemost : m.Foremost thread) (starts : Bool) :
    (m.attended thread starts).heap = m.heap ∧ (m.attended thread starts).config = m.config := by
  have ⟨t, hfound, _⟩ := hforemost
  unfold attended
  cases starts with
  | false => exact ⟨rfl, rfl⟩
  | true =>
    rw [if_pos rfl, after_of_ok (startRun_run hfound)]
    exact ⟨rfl, rfl⟩

/-- A pick leaves all frames as far as they were. -/
theorem spares_pick {n : Machine} (hm : Settled False True False origin none none m)
    (hpick : schedule m = .ok (.run thread) n) (starts : Bool) :
    Spares who m (n.attended thread starts) := by
  have hforemost := (settled_of_pick hm hpick).2 thread rfl
  obtain ⟨hheap, hconfig⟩ := heap_attended hforemost starts
  obtain rfl : after schedule m = n := after_of_ok hpick
  exact .of_heap hheap hconfig fun _ => (Undisturbed.schedule m).trans (.attended hforemost starts)

/-- No beat of a settled machine changes a program, the stack limit or the frames of a thread whose
turn it is not. -/
theorem Beat.spares (hcivil : natives.Each (Civil True)) (hmoderate : natives.Each Moderate)
    (hm : Beating origin m) (h : Beat natives m who m') : Spares who m m' := by
  have ht := hm.orderly.tidy
  have hn : m.Numbered := hm.orderly.queued
  cases h with
  | pick starts hidle hpick _ => exact spares_pick (hm.idle hidle) hpick starts
  | turn hcurrent hready hcount =>
    rw [Beating, hcurrent] at hm
    have hleaves := leaves_apart_stepThread hcivil hmoderate hm hready
    exact .apart (after_of_leaves hleaves hcount) ht hn
  | look => exact .of_heap rfl rfl fun _ => .schedule m
  | rest => exact .of_heap rfl rfl fun _ => .of_threads rfl (Nat.le_refl _)
  | collect => exact .collected hn
  | request _ r hstep hrun _ =>
    by_cases hcollect : r = .collect
    · subst hcollect
      exact .collected hn
    · exact .altered (fixed_request natives r hstep hrun m ⟨rfl, rfl⟩).1 ht hn
        (altered_request ht hm.orderly.global natives r hcollect hstep hrun)

end Machine

end ScriptMachine
