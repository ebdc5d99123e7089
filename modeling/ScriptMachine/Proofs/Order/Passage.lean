import ScriptMachine.Proofs.Order.Alteration
import ScriptMachine.Proofs.Order.Table

/-!
# What becomes of a thread in a moment

A moment changes each thread in one of a few ways. Which one says all that scheduling depends on: the
status of the thread, when it is due and its place in the run queue.
-/

namespace ScriptMachine

open Exec

namespace Machine

/-! ## Numbers and places -/

variable {settles : Bool} {steady prompt : Prop} {e : Event} {turn turn' : Option ThreadId}
  {m m' : Machine}

/-- Threads keep their numbers, and have places of their own. -/
def Numbered (m : Machine) : Prop := Queued m.threads m.nextThreadId m.nextQueued

namespace Numbered

theorem serves (hn : m.Numbered) (h : m.Serves m') : m'.Numbered := by
  unfold Numbered
  rw [h.threads]
  exact hn.mono h.nextThreadId h.nextQueued

theorem update (hn : m.Numbered) {id : ThreadId} {f : Thread → Thread} {next : Nat}
    (hid : ∀ t, (f t).id = t.id) (hle : m.nextQueued ≤ next)
    (hqueued : ∀ t, (f t).queued = t.queued ∨
      m.nextQueued ≤ (f t).queued ∧ (f t).queued < next) :
    Queued (updateThread id f m.threads) m.nextThreadId next :=
  Queued.update hn hid hqueued hle

theorem newThread (hn : m.Numbered) (base : Frame) (delay : Float) (keepOutcome : Bool) :
    (after (newThread base delay keepOutcome) m).Numbered := by
  rcases after_newThread_cases base delay keepOutcome m with hserves | ⟨_, _, hnext, hqueue, heq⟩
  · exact hn.serves hserves
  · rw [heq]
    exact (Queued.insert hn (t := m.started base delay keepOutcome) rfl rfl hnext hqueue).2

theorem settle (hn : m.Numbered) (id : Nat) (thread : ThreadId) (s : Settlement) :
    (after (Machine.settle id thread s) m).Numbered := by
  have hdropped : (m.dropResolver id).Numbered := hn
  have hsettling := settling id thread s m
  unfold after
  cases hrun : Machine.settle id thread s m with
  | error e m' =>
    rw [hrun] at hsettling
    cases hsettling with
    | unknown => exact hn
    | refused hserves => exact hdropped.serves hserves
  | ok a m' =>
    rw [hrun] at hsettling
    cases hsettling with
    | late _ hserves => exact hdropped.serves hserves
    | resumed _ _ _ _ hnext =>
      exact hn.update (fun _ => rfl) (Nat.le_of_lt hnext) fun _ => .inr ⟨Nat.le_refl _, hnext⟩
    | early _ _ hnext => exact hn.mono (Nat.le_refl _) (Nat.le_of_lt hnext)

theorem issueResolver (hn : m.Numbered) (thread : ThreadId) :
    (after (issueResolver thread) m).Numbered := by
  unfold after
  rw [issueResolver_run]
  cases nextCount m.nextResolverId <;> exact hn

theorem alteration (hn : m.Numbered) (h : Alteration settles m m') : m'.Numbered := by
  cases h with
  | serve h => exact hn.serves h
  | tend id hf =>
    exact hn.update (fun t => (hf t).id) (Nat.le_refl _) fun t => .inl (hf t).queued
  | start _ delay keepOutcome => exact hn.newThread _ delay keepOutcome
  | finish _ _ _ => exact hn.update (fun _ => rfl) (Nat.le_refl _) fun _ => .inl rfl
  | forget _ _ => exact Queued.sublist hn List.filter_sublist
  | stop _ =>
    refine Queued.map hn (fun t => ?_) fun t => ?_
    · split <;> rfl
    · split <;> rfl
  | issue _ _ => exact hn.issueResolver _
  | settle _ id thread s => exact hn.settle id thread s
  | _ => exact hn

theorem moment (hn : m.Numbered) (h : Moment steady prompt e turn m turn' m') : m'.Numbered := by
  cases h with
  | alter h _ => exact hn.alteration h
  | issue hrun _ => exact after_of_ok hrun ▸ hn.issueResolver _
  | accept hrun _ => exact after_of_ok hrun ▸ hn.settle _ _ _
  | refuse hrun _ => exact after_of_error hrun ▸ hn.settle _ _ _
  | schedule _ hrun =>
    cases hrun
    refine Queued.map hn (fun t => ?_) fun t => ?_
    · unfold Thread.wake
      split <;> rfl
    · unfold Thread.wake
      split <;> rfl
  | begin _ _ _ => exact hn.update (fun _ => rfl) (Nat.le_refl _) fun _ => .inl rfl
  | restack _ => exact hn.update (fun _ => rfl) (Nat.le_refl _) fun _ => .inl rfl
  | block _ => exact hn.update (fun _ => rfl) (Nat.le_refl _) fun _ => .inl rfl
  | sleep _ _ _ hnext =>
    exact hn.update (fun _ => rfl) (Nat.le_of_lt hnext) fun _ => .inr ⟨Nat.le_refl _, hnext⟩
  | nap _ _ hnext =>
    exact hn.update (fun _ => rfl) (Nat.le_of_lt hnext) fun _ => .inr ⟨Nat.le_refl _, hnext⟩
  | collect => exact Queued.sublist hn List.filter_sublist
  | answer _ => exact hn
  | attend _ _ => exact hn
  | finish => exact hn
  | rest => exact hn

end Numbered

theorem Course.numbered {past : History} {turn₀ : Option ThreadId} {m₀ : Machine}
    (h : Course steady prompt turn₀ m₀ past turn m) (hn : m₀.Numbered) : m.Numbered := by
  induction h with
  | nil => exact hn
  | cons _ hlast ih => exact ih.moment hlast

/-! ## One thread -/

/-- What becomes of one thread in a moment. -/
inductive Passage (steady prompt : Prop) (e : Event) (turn : Option ThreadId) (m : Machine)
    (id : ThreadId) : Option Thread → Option Thread → Prop where
  | kept (o : Option Thread) : Passage steady prompt e turn m id o o
  /-- The thread may have other limits, and in its turn other frames. One that was ended has no frames
  still. -/
  | tended {t t' : Thread} (hstatus : t'.status = t.status) (hrunAt : t'.runAt = t.runAt)
    (hqueued : t'.queued = t.queued) (houtcome : t'.outcome = t.outcome)
    (hstack : t.isZombie = true → t.stack.frames = [] → t'.stack.frames = [])
    (hsame : turn ≠ some id → e ≠ .begun id → t'.stack = t.stack) :
    Passage steady prompt e turn m id (some t) (some t')
  | born {t : Thread} (hfree : Attended turn m) (hid : id.index = m.nextThreadId) (delay : Float)
    (hstatus : t.status = .sleeping ∨ t.status = .ready ∧ ¬ validDelay delay > 0)
    (hrunAt : t.runAt = m.reading + validDelay delay) (hqueued : t.queued = m.nextQueued) :
    Passage steady prompt e turn m id none (some t)
  | ended {t : Thread} (hlive : t.isZombie = false) (outcome : Outcome) :
    Passage steady prompt e turn m id (some t) (some (t.finish outcome))
  | forgotten {t : Thread} (hzombie : t.isZombie = true) :
    Passage steady prompt e turn m id (some t) none
  /-- A sleeping thread is due. -/
  | woken {t : Thread} (hidle : m.currentThread = none) (hsleeping : t.status = .sleeping)
    (hdue : t.runAt ≤ m.reading) :
    Passage steady prompt e turn m id (some t)
      (some { t with status := .ready, runStarted := m.reading })
  /-- A resolver that was issued for the thread is settled. -/
  | resumed {t : Thread} {r : Nat} {f : Frame} (he : e = .accepted r id)
    (hpending : m.pendingResolvers.lookup r = some id) (hfree : Attended turn m)
    (hblocked : t.status = .blocked) :
    Passage steady prompt e turn m id (some t) (some (awakened f m.reading m.nextQueued t))
  | blocked {t : Thread} (hturn : turn = some id) (hlive : steady → t.isZombie = false) :
    Passage steady prompt e turn m id (some t) (some { t with status := .blocked })
  | asleep {t : Thread} (hturn : turn = some id) (hfree : ¬ prompt)
    (hlive : steady → t.isZombie = false) (time : Float) :
    Passage steady prompt e turn m id (some t)
      (some { t with status := .sleeping, runAt := time, queued := m.nextQueued })
  | napping {t : Thread} (hturn : turn = some id) (hlive : steady → t.isZombie = false)
    (delay : Float) :
    Passage steady prompt e turn m id (some t)
      (some { t with
        status := .sleeping, runAt := m.reading + validDelay delay, queued := m.nextQueued })

namespace Passage

variable {id other : ThreadId}

/-- A change of one thread is all that becomes of any. -/
theorem update {f : Thread → Thread} (hid : ∀ t, (f t).id = t.id)
    (h : ∀ t, id = other → m.thread? other = some t →
      Passage steady prompt e turn m id (some t) (some (f t))) :
    Passage steady prompt e turn m id (m.thread? id)
      ((updateThread other f m.threads).find? (·.id == id)) := by
  by_cases heq : id = other
  · subst heq
    rw [find?_updateThread hid]
    change Passage steady prompt e turn m id (m.thread? id) ((m.thread? id).map f)
    cases ht : m.thread? id with
    | none => exact .kept none
    | some t => exact h t rfl ht
  · rw [find?_updateThread_of_ne hid heq]
    exact .kept _

/-- Every thread is changed by itself. -/
theorem map {g : Thread → Thread} (hid : ∀ t, (g t).id = t.id)
    (h : ∀ t, Passage steady prompt e turn m id (some t) (some (g t))) :
    Passage steady prompt e turn m id (m.thread? id)
      ((m.threads.map g).find? (·.id == id)) := by
  rw [find?_map hid]
  change Passage steady prompt e turn m id (m.thread? id) ((m.thread? id).map g)
  cases m.thread? id with
  | none => exact .kept none
  | some t => exact h t

/-- Threads that are forgotten were ended. -/
theorem filter (hn : m.Numbered) {q : Thread → Bool}
    (h : ∀ t, m.thread? id = some t → q t = false → t.isZombie = true) :
    Passage steady prompt e turn m id (m.thread? id)
      ((m.threads.filter q).find? (·.id == id)) := by
  rw [← filter_find? id q hn.sorted.ascending]
  change Passage steady prompt e turn m id (m.thread? id) ((m.thread? id).filter q)
  cases ht : m.thread? id with
  | none => exact .kept none
  | some t =>
    cases hq : q t with
    | true =>
      rw [Option.filter_some_pos (by exact hq)]
      exact .kept _
    | false =>
      rw [Option.filter_some_neg (by simp [hq])]
      exact .forgotten (h t ht hq)

theorem newThread (hn : m.Numbered) (hfree : Attended turn m) (base : Frame) (delay : Float)
    (keepOutcome : Bool) :
    Passage steady prompt e turn m id (m.thread? id)
      ((after (Machine.newThread base delay keepOutcome) m).thread? id) := by
  rcases after_newThread_cases base delay keepOutcome m with hserves | ⟨_, _, hnext, hqueue, heq⟩
  · unfold thread?
    rw [hserves.threads]
    exact .kept _
  · let t := m.started base delay keepOutcome
    have happend : insertThread t m.threads = m.threads ++ [t] :=
      (Queued.insert hn (t := t) rfl rfl hnext hqueue).1
    rw [heq]
    change Passage _ _ _ _ _ _ _ ((insertThread t m.threads).find? (·.id == id))
    rw [happend, List.find?_append]
    change Passage _ _ _ _ _ _ _ ((m.thread? id).or _)
    cases ht : m.thread? id with
    | some u => exact .kept _
    | none =>
      by_cases hid : t.id = id
      · rw [Option.none_or, List.find?_cons_of_pos (by simpa using hid)]
        exact .born hfree (congrArg (·.index) hid).symm delay
          (started_status m base delay keepOutcome) rfl rfl
      · rw [Option.none_or, List.find?_cons_of_neg (by simpa using hid)]
        exact .kept none

theorem settle (r : Nat) (thread : ThreadId) (s : Settlement) {m' : Machine}
    (hrun : Machine.settle r thread s m = .ok () m') (hfree : Attended turn m) :
    Passage steady prompt (.accepted r thread) turn m id (m.thread? id) (m'.thread? id) := by
  have hsettling := settling r thread s m
  rw [hrun] at hsettling
  cases hsettling with
  | late _ hserves =>
    unfold thread?
    rw [hserves.threads]
    exact .kept _
  | @resumed t f next hpending ht hblocked hframe hnext =>
    refine update (fun _ => rfl) fun u heq hu => ?_
    subst heq
    obtain rfl := Option.some.inj (hu.symm.trans ht)
    exact .resumed rfl hpending hfree hblocked
  | early _ _ _ => exact .kept _

theorem refused (r : Nat) (thread : ThreadId) (s : Settlement) {m' : Machine} {failure : Failure}
    (hrun : Machine.settle r thread s m = .error failure m') :
    m'.thread? id = m.thread? id := by
  have hsettling := settling r thread s m
  rw [hrun] at hsettling
  cases hsettling with
  | unknown => rfl
  | refused hserves =>
    unfold thread?
    rw [hserves.threads]
    rfl

theorem alteration (hn : m.Numbered) (hfree : Attended turn m) (h : Alteration false m m') :
    Passage steady prompt e turn m id (m.thread? id) (m'.thread? id) := by
  cases h with
  | serve h =>
    unfold thread?
    rw [h.threads]
    exact .kept _
  | tend other hf =>
    refine update (fun t => (hf t).id) fun t _ _ => ?_
    refine .tended (hf t).status (hf t).runAt (hf t).queued (hf t).outcome (fun _ hempty => ?_)
      fun _ _ => (hf t).stack
    rwa [(hf t).stack]
  | start _ delay keepOutcome => exact newThread hn hfree _ delay keepOutcome
  | @finish other t ht hlive outcome =>
    refine update (fun _ => rfl) fun u _ hu => ?_
    obtain rfl := Option.some.inj (hu.symm.trans ht)
    exact .ended hlive outcome
  | @forget other t ht hzombie =>
    refine filter hn fun u hu hq => ?_
    have hid : u.id = other := by simpa using hq
    have hfound : m.thread? u.id = some t := by rwa [hid]
    rw [(mem_threads_of_thread? hu).2, hu] at hfound
    exact Option.some.inj hfound ▸ hzombie
  | stop _ =>
    refine map (fun t => by split <;> rfl) fun t => ?_
    cases hzombie : t.isZombie with
    | true => exact .kept _
    | false => exact .ended hzombie .killed
  | issue h _ => cases h
  | settle h _ _ _ => cases h
  | _ => exact .kept _

/-- A thread is taken up by the scheduler when it is due. -/
theorem wake (hidle : m.currentThread = none) (t : Thread) :
    Passage steady prompt e turn m id (some t) (some (t.wake m.reading)) := by
  unfold Thread.wake
  split
  · rename_i hdue
    rw [Bool.and_eq_true, beq_iff_eq, decide_eq_true_iff] at hdue
    exact .woken hidle hdue.1 hdue.2
  · exact .kept _

end Passage

/-- In a moment every thread passes in one of these ways. -/
theorem Moment.passage (hn : m.Numbered) (h : Moment steady prompt e turn m turn' m')
    (id : ThreadId) : Passage steady prompt e turn m id (m.thread? id) (m'.thread? id) := by
  have hlive {other : ThreadId} (halive : steady → m.isAlive other = true) (t : Thread)
      (ht : m.thread? other = some t) (hsteady : steady) : t.isZombie = false := by
    obtain ⟨u, hu, hlive⟩ := isAlive_iff.1 (halive hsteady)
    exact Option.some.inj (hu.symm.trans ht) ▸ hlive
  cases h with
  | alter h hfree => exact .alteration hn hfree h
  | issue hrun _ =>
    have hthreads : m'.threads = m.threads := by
      rw [issueResolver_run] at hrun
      cases hcount : nextCount m.nextResolverId <;> rw [hcount] at hrun <;> cases hrun
      rfl
    unfold thread?
    rw [hthreads]
    exact .kept _
  | accept hrun hfree => exact .settle _ _ _ hrun hfree
  | refuse hrun _ =>
    rw [Passage.refused _ _ _ hrun]
    exact .kept _
  | schedule hidle hrun =>
    cases hrun
    refine Passage.map (fun t => ?_) fun t => .wake hidle t
    unfold Thread.wake
    split <;> rfl
  | begin hcurrent ht hready =>
    refine Passage.update (fun _ => rfl) fun u heq hu => ?_
    obtain rfl := Option.some.inj (hu.symm.trans ht)
    refine .tended rfl rfl rfl rfl (fun hzombie _ => ?_) fun _ hne =>
      absurd (congrArg Event.begun heq.symm) hne
    unfold Thread.isZombie at hzombie
    rw [hready] at hzombie
    cases hzombie
  | @restack _ other g halive =>
    refine Passage.update (fun _ => rfl) fun u heq hu => ?_
    refine .tended rfl rfl rfl rfl (fun hzombie hempty => ?_) fun hne _ =>
      absurd (congrArg some heq.symm) hne
    rcases halive with halive | hg
    · obtain ⟨v, hv, hlive⟩ := isAlive_iff.1 halive
      obtain rfl := Option.some.inj (hu.symm.trans hv)
      rw [hzombie] at hlive
      cases hlive
    · exact hg _ hempty
  | block halive =>
    refine Passage.update (fun _ => rfl) fun t heq ht => ?_
    exact .blocked (congrArg some heq.symm) (hlive halive t ht)
  | sleep hfree halive time _ =>
    refine Passage.update (fun _ => rfl) fun t heq ht => ?_
    exact .asleep (congrArg some heq.symm) hfree (hlive halive t ht) time
  | nap halive delay _ =>
    refine Passage.update (fun _ => rfl) fun t heq ht => ?_
    exact .napping (congrArg some heq.symm) (hlive halive t ht) delay
  | collect =>
    refine Passage.filter hn fun t _ hq => ?_
    simp only [Bool.or_eq_false_iff, Bool.not_eq_false'] at hq
    exact hq.1
  | answer _ => exact .kept _
  | attend _ _ => exact .kept _
  | finish => exact .kept _
  | rest => exact .kept _

/-- A thread that can run and does not have its turn keeps its place, and its frames unless its turn
begins; or it is ended. -/
theorem Moment.waits (hn : m.Numbered) (h : Moment steady prompt e turn m turn' m') {id : ThreadId}
    {t : Thread} (ht : m.thread? id = some t) (hready : t.status = .ready) (hturn : turn ≠ some id) :
    (∃ t', m'.thread? id = some t' ∧ t'.status = .ready ∧ t'.runAt = t.runAt ∧
      t'.queued = t.queued ∧ (e ≠ .begun id → t'.stack = t.stack)) ∨ m'.isAlive id = false := by
  have hpassage := h.passage hn id
  rw [ht] at hpassage
  generalize hfound : m'.thread? id = found at hpassage
  cases hpassage with
  | kept => exact .inl ⟨t, rfl, hready, rfl, rfl, fun _ => rfl⟩
  | tended hstatus hrunAt hqueued _ _ hsame =>
    exact .inl ⟨_, rfl, hstatus.trans hready, hrunAt, hqueued, hsame hturn⟩
  | ended => exact .inr (by rw [isAlive, hfound]; rfl)
  | forgotten hzombie => simp [Thread.isZombie, hready] at hzombie
  | woken _ hsleeping => rw [hready] at hsleeping; cases hsleeping
  | resumed _ _ _ hblocked => rw [hready] at hblocked; cases hblocked
  | blocked hmine => exact absurd hmine hturn
  | asleep hmine => exact absurd hmine hturn
  | napping hmine => exact absurd hmine hturn

end Machine

end ScriptMachine
