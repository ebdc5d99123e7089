import ScriptMachine.Proofs.Order.Passage
import ScriptMachine.Proofs.Order.Run
import ScriptMachine.Proofs.Sums

/-!
# No thread is overtaken

A thread that can run waits for its turn with the time at which it was due and with its place in the
run queue. Whatever starts, yields or goes on later is due later or stands behind it, so it has its
turn first.
-/

namespace ScriptMachine

open Exec Number

namespace Machine

variable {steady : Prop} {e : Event} {turn turn' : Option ThreadId} {m m' : Machine}
  {past later : History} {a b : ThreadId}

/-! ## Times -/

/-- The times that a machine reads are times, and never go back. -/
structure Timely (past : History) (m : Machine) : Prop where
  times : ∀ n ∈ m :: past.map Prod.snd, IsTime n.reading
  ascending : (m :: past.map Prod.snd).Pairwise fun n n' => n'.reading ≤ n.reading

namespace Timely

theorem before (h : Timely ((e, m) :: past) m') : Timely past m where
  times n hn := h.times n (List.mem_cons_of_mem _ hn)
  ascending := (List.pairwise_cons.1 h.ascending).2

theorem reading (h : Timely past m) : IsTime m.reading :=
  h.times m List.mem_cons_self

theorem orderKey_le (h : Timely ((e, m) :: past) m') :
    orderKey m.reading ≤ orderKey m'.reading :=
  orderKey_le_of_le h.reading ((List.pairwise_cons.1 h.ascending).1 m List.mem_cons_self)

end Timely

theorem isTime_validDelay (delay : Float) : IsTime (validDelay delay) := by
  unfold validDelay
  split
  · rename_i hvalid
    rw [Bool.and_eq_true] at hvalid
    exact isTime_of_pos hvalid.1 (of_decide_eq_true hvalid.2)
  · exact isTime_zero

theorem validDelay_eq_zero {delay : Float} (h : ¬ validDelay delay > 0) :
    validDelay delay = 0 := by
  unfold validDelay at h ⊢
  split
  · rename_i hvalid
    rw [if_pos hvalid] at h
    rw [Bool.and_eq_true] at hvalid
    exact absurd (of_decide_eq_true hvalid.2) h
  · rfl

/-- What is due after a delay is not due before now. -/
theorem orderKey_le_delayed (h : IsTime m.reading) (delay : Float) :
    orderKey m.reading ≤ orderKey (m.reading + validDelay delay) :=
  orderKey_le_add h (isTime_validDelay delay)

/-! ## Threads that can run -/

/-- Threads that can run were due by now. -/
def Punctual (m : Machine) : Prop :=
  ∀ id t, m.thread? id = some t → t.status = .ready → orderKey t.runAt ≤ orderKey m.reading

theorem Punctual.moment (hp : Punctual m) (hn : m.Numbered) (htimely : Timely ((e, m) :: past) m')
    (h : Moment steady True e turn m turn' m') : Punctual m' := by
  intro id t' ht' hready
  have hle := htimely.orderKey_le
  have hpassage := h.passage hn id
  rw [ht'] at hpassage
  generalize hfound : m.thread? id = found at hpassage
  cases hpassage with
  | kept => exact Int.le_trans (hp id t' hfound hready) hle
  | @tended t _ hstatus hrunAt =>
    rw [hrunAt]
    exact Int.le_trans (hp id t hfound (hstatus ▸ hready)) hle
  | born _ _ delay hstatus hrunAt =>
    rcases hstatus with hsleeping | ⟨-, hnone⟩
    · rw [hsleeping] at hready
      cases hready
    · rw [hrunAt, validDelay_eq_zero hnone, orderKey_add_zero htimely.before.reading]
      exact hle
  | ended => cases hready
  | woken _ _ hdue => exact Int.le_trans (orderKey_le_of_le htimely.before.reading hdue) hle
  | resumed => exact hle
  | blocked => cases hready
  | asleep => cases hready
  | napping => cases hready

/-- A thread can run, and waits for its turn with a time and a place. -/
structure Waiting (id : ThreadId) (runAt : Float) (queued : Nat) (t : Thread) (m : Machine) :
    Prop where
  found : m.thread? id = some t
  ready : t.status = .ready
  runAt : t.runAt = runAt
  queued : t.queued = queued

/-- A thread waits until it has its turn or is ended. -/
theorem Waiting.moment {runAt : Float} {queued : Nat} {t : Thread} (hn : m.Numbered)
    (hw : m.Waiting b runAt queued t) (h : Moment steady True e turn m turn' m')
    (hturn : turn ≠ some b) : m'.isAlive b = false ∨ ∃ t', m'.Waiting b runAt queued t' := by
  rcases h.waits hn hw.found hw.ready hturn with ⟨t', ht', hready, hrunAt, hqueued, -⟩ | hdead
  · exact .inr ⟨t', ht', hready, hrunAt.trans hw.runAt, hqueued.trans hw.queued⟩
  · exact .inl hdead

/-! ## Turns -/

/-- A turn goes on until it ends. -/
theorem Moment.turn_of_some (h : Moment steady True e turn m turn' m') (hturn : turn = some b) :
    turn' = some b ∨ e = .ended b := by
  subst hturn
  cases h with
  | finish => exact .inr rfl
  | _ => exact .inl rfl

/-- The thread that is attended to was the first to run when it was picked. -/
theorem Moment.current (h : Moment steady True e turn m turn' m') :
    m'.currentThread = m.currentThread ∨ m'.currentThread = none ∨
      ∃ id, m.Foremost id ∧ m'.currentThread = some id := by
  cases h with
  | alter h _ => exact .inl h.early_cases.1
  | issue hrun _ =>
    rw [issueResolver_run] at hrun
    cases hcount : nextCount m.nextResolverId <;> rw [hcount] at hrun <;> cases hrun
    exact .inl rfl
  | @accept _ _ _ id thread s hrun _ =>
    have halter : Alteration true m (after (settle id thread s) m) := .settle rfl id thread s
    exact .inl (after_of_ok hrun ▸ halter.early_cases.1)
  | @refuse _ _ _ id thread s _ hrun _ =>
    have halter : Alteration true m (after (settle id thread s) m) := .settle rfl id thread s
    exact .inl (after_of_error hrun ▸ halter.early_cases.1)
  | schedule _ hrun =>
    cases hrun
    exact .inl rfl
  | attend _ hpicked => exact .inr (.inr ⟨_, hpicked, rfl⟩)
  | rest => exact .inr (.inl rfl)
  | _ => exact .inl rfl

/-! ## Places in the run queue -/

/-- A thread keeps its place, and neither yields nor goes on from a wait. -/
structure Stays (t t' : Thread) : Prop where
  runAt : t'.runAt = t.runAt
  queued : t'.queued = t.queued
  asleep : t'.status = .sleeping → t.status = .sleeping
  ready : t'.status = .ready → t.status = .ready ∨ t.status = .sleeping

/-- A thread comes last in the run queue, and is not due before now. -/
structure Joins (m : Machine) (t : Thread) : Prop where
  runAt : orderKey m.reading ≤ orderKey t.runAt
  queued : t.queued = m.nextQueued

/-- In a moment a thread keeps its place or comes last. -/
theorem Moment.stays_or_joins (h : Moment steady True e turn m turn' m') (hn : m.Numbered)
    (htime : IsTime m.reading) {id : ThreadId} {t' : Thread} (ht' : m'.thread? id = some t') :
    (∃ t, m.thread? id = some t ∧ Stays t t') ∨ Joins m t' := by
  have hpassage := h.passage hn id
  rw [ht'] at hpassage
  generalize m.thread? id = found at hpassage
  cases hpassage with
  | kept => exact .inl ⟨t', rfl, rfl, rfl, fun h => h, .inl⟩
  | @tended t _ hstatus hrunAt hqueued =>
    exact .inl ⟨t, rfl, hrunAt, hqueued, fun hasleep => hstatus ▸ hasleep,
      fun hready => .inl (hstatus ▸ hready)⟩
  | born _ _ delay _ hrunAt hqueued =>
    exact .inr ⟨hrunAt ▸ orderKey_le_delayed htime delay, hqueued⟩
  | @ended t => exact .inl ⟨t, rfl, rfl, rfl, fun h => (by cases h), fun h => by cases h⟩
  | @woken t _ hsleeping =>
    exact .inl ⟨t, rfl, rfl, rfl, fun h => (by cases h), fun _ => .inr hsleeping⟩
  | resumed => exact .inr ⟨Int.le_refl _, rfl⟩
  | @blocked t => exact .inl ⟨t, rfl, rfl, rfl, fun h => (by cases h), fun h => by cases h⟩
  | asleep _ hfree => exact absurd trivial hfree
  | napping _ _ delay => exact .inr ⟨orderKey_le_delayed htime delay, rfl⟩

/-- A thread that is attended to was ready before if it is ready. -/
theorem Moment.ready_of_current (h : Moment steady True e turn m turn' m') (hn : m.Numbered)
    {id : ThreadId} (hcurrent : m.currentThread = some id) {t' : Thread}
    (ht' : m'.thread? id = some t') (hready : t'.status = .ready) :
    ∃ t, m.thread? id = some t ∧ t.status = .ready := by
  have hpassage := h.passage hn id
  rw [ht'] at hpassage
  generalize hfound : m.thread? id = found at hpassage
  cases hpassage with
  | kept => exact ⟨t', rfl, hready⟩
  | @tended t _ hstatus => exact ⟨t, rfl, hstatus ▸ hready⟩
  | born hfree hid =>
    have hlt := hfree.issued id (hfree.current.symm.trans hcurrent)
    omega
  | ended => cases hready
  | woken hidle =>
    rw [hidle] at hcurrent
    cases hcurrent
  | @resumed t _ _ _ _ hfree hblocked =>
    rcases hfree.going id t (hfree.current.symm.trans hcurrent) hfound with h | h <;>
      rw [hblocked] at h <;> cases h
  | blocked => cases hready
  | asleep => cases hready
  | napping => cases hready

/-- A thread starts, yields, or goes on when a resolver was settled. -/
inductive Enters (id : ThreadId) (m m' : Machine) : Prop where
  | started {t' : Thread} (ht : m.thread? id = none) (ht' : m'.thread? id = some t')
  | yielded {t t' : Thread} (ht : m.thread? id = some t) (hawake : t.status ≠ .sleeping)
    (ht' : m'.thread? id = some t') (hasleep : t'.status = .sleeping)
  | resumed {t t' : Thread} (ht : m.thread? id = some t) (hblocked : t.status = .blocked)
    (ht' : m'.thread? id = some t') (hready : t'.status = .ready)

/-- A thread that enters the run queue comes last. -/
theorem Enters.joins (henters : Enters a m m') (h : Moment steady True e turn m turn' m')
    (hn : m.Numbered) (htime : IsTime m.reading) : ∃ t', m'.thread? a = some t' ∧ Joins m t' := by
  cases henters with
  | @started t' ht ht' =>
    refine ⟨t', ht', (h.stays_or_joins hn htime ht').resolve_left ?_⟩
    rintro ⟨u, hu, -⟩
    cases ht.symm.trans hu
  | @yielded t t' ht hawake ht' hasleep =>
    refine ⟨t', ht', (h.stays_or_joins hn htime ht').resolve_left ?_⟩
    rintro ⟨u, hu, hstays⟩
    obtain rfl := Option.some.inj (ht.symm.trans hu)
    exact hawake (hstays.asleep hasleep)
  | @resumed t t' ht hblocked ht' hready =>
    refine ⟨t', ht', (h.stays_or_joins hn htime ht').resolve_left ?_⟩
    rintro ⟨u, hu, hstays⟩
    obtain rfl := Option.some.inj (ht.symm.trans hu)
    rcases hstays.ready hready with h | h <;> rw [hblocked] at h <;> cases h

/-- A thread that enters the run queue and is ready was not ready before. -/
theorem Enters.not_ready (henters : Enters a m m') {t t' : Thread} (ht : m.thread? a = some t)
    (hready : t.status = .ready) (ht' : m'.thread? a = some t') : t'.status ≠ .ready := by
  cases henters with
  | started hnone _ => cases hnone.symm.trans ht
  | yielded _ _ hfound hasleep =>
    obtain rfl := Option.some.inj (ht'.symm.trans hfound)
    rw [hasleep]
    decide
  | resumed hfound hblocked _ _ =>
    obtain rfl := Option.some.inj (ht.symm.trans hfound)
    rw [hblocked] at hready
    cases hready

/-! ## Who goes first -/

/-- A thread stands behind a time and a place, and is not about to run. -/
structure Behind (id : ThreadId) (runAt : Float) (queued : Nat) (m : Machine) : Prop where
  later : ∀ t, m.thread? id = some t → orderKey runAt ≤ orderKey t.runAt ∧ queued < t.queued
  aside : m.currentThread = some id → ∀ t, m.thread? id = some t → t.status ≠ .ready

namespace Waiting

variable {runAt : Float} {queued : Nat} {t : Thread}

theorem before_of_joins (hw : m.Waiting b runAt queued t) (hn : m.Numbered) (hp : Punctual m)
    {u : Thread} (hu : Joins m u) : orderKey runAt ≤ orderKey u.runAt ∧ queued < u.queued := by
  have hkey : orderKey runAt ≤ orderKey m.reading := hw.runAt ▸ hp b t hw.found hw.ready
  have hplace : queued < m.nextQueued :=
    hw.queued ▸ hn.behind t (mem_threads_of_thread? hw.found).1
  exact ⟨Int.le_trans hkey hu.runAt, hu.queued ▸ hplace⟩

/-- What stands behind a thread that can run is not the first to run. -/
theorem not_foremost (hw : m.Waiting b runAt queued t) (hbehind : m.Behind a runAt queued) :
    ¬ m.Foremost a := by
  rintro ⟨u, hu, -, hfirst⟩
  have hbefore : t.before u = true := by
    obtain ⟨hkey, hplace⟩ := hbehind.later u hu
    rw [← hw.runAt] at hkey
    rw [← hw.queued] at hplace
    rw [Thread.before_iff]
    omega
  rw [hfirst t (mem_threads_of_thread? hw.found).1 hw.ready] at hbefore
  cases hbefore

/-- What enters the run queue stands behind every thread that can run. -/
theorem behind_of_enters (hw : m.Waiting b runAt queued t) (hn : m.Numbered) (hp : Punctual m)
    (htime : IsTime m.reading) (h : Moment steady True e turn m turn' m')
    (henters : Enters a m m') : m'.Behind a runAt queued where
  later := by
    intro u hu
    obtain ⟨u', hu', hjoins⟩ := henters.joins h hn htime
    obtain rfl := Option.some.inj (hu.symm.trans hu')
    exact hw.before_of_joins hn hp hjoins
  aside := by
    intro hcurrent u hu hready
    rcases h.current with hsame | hnone | ⟨id, ⟨v, hv, hvready, -⟩, hpicked⟩
    · obtain ⟨v, hv, hvready⟩ := h.ready_of_current hn (hsame.symm.trans hcurrent) hu hready
      exact henters.not_ready hv hvready hu hready
    · cases hnone.symm.trans hcurrent
    · obtain rfl := Option.some.inj (hpicked.symm.trans hcurrent)
      exact henters.not_ready hv hvready hu hready

/-- What stands behind a thread that can run stays behind it. -/
theorem behind_moment (hw : m.Waiting b runAt queued t) (hn : m.Numbered) (hp : Punctual m)
    (htime : IsTime m.reading) (h : Moment steady True e turn m turn' m')
    (hbehind : m.Behind a runAt queued) : m'.Behind a runAt queued where
  later := by
    intro u hu
    rcases h.stays_or_joins hn htime hu with ⟨v, hv, hstays⟩ | hjoins
    · rw [hstays.runAt, hstays.queued]
      exact hbehind.later v hv
    · exact hw.before_of_joins hn hp hjoins
  aside := by
    intro hcurrent u hu hready
    rcases h.current with hsame | hnone | ⟨id, hforemost, hpicked⟩
    · obtain ⟨v, hv, hvready⟩ := h.ready_of_current hn (hsame.symm.trans hcurrent) hu hready
      exact hbehind.aside (hsame.symm.trans hcurrent) v hv hvready
    · cases hnone.symm.trans hcurrent
    · obtain rfl := Option.some.inj (hpicked.symm.trans hcurrent)
      exact hw.not_foremost hbehind hforemost

end Waiting

/-! ## Runs -/

/-- A thread has taken a step, or has been ended. -/
def Served (id : ThreadId) (past : History) (m : Machine) : Prop :=
  Event.ended id ∈ past.map Prod.fst ∨ ∃ n ∈ m :: past.map Prod.snd, n.isAlive id = false

/-- A thread was served, has its turn, or waits still, and then a machine is as described. -/
def Queues (id : ThreadId) (runAt : Float) (queued : Nat) (P : Machine → Prop) (past : History)
    (turn : Option ThreadId) (m : Machine) : Prop :=
  Served id past m ∨ turn = some id ∨ (∃ t, m.Waiting id runAt queued t) ∧ P m

section

variable {runAt : Float} {queued : Nat} {P Q : Machine → Prop}

theorem Queues.moment (hw : Queues b runAt queued P past turn m) (hn : m.Numbered)
    (h : Moment steady True e turn m turn' m')
    (hkeep : ∀ t, m.Waiting b runAt queued t → P m → Q m') :
    Queues b runAt queued Q ((e, m) :: past) turn' m' := by
  have hmine (hturn : turn = some b) : Queues b runAt queued Q ((e, m) :: past) turn' m' := by
    rcases h.turn_of_some hturn with hgoes | rfl
    · exact .inr (.inl hgoes)
    · exact .inl (.inl List.mem_cons_self)
  rcases hw with hserved | hturn | ⟨⟨t, hwaiting⟩, hP⟩
  · refine .inl (hserved.imp (List.mem_cons_of_mem e) ?_)
    rintro ⟨n, hn, hdead⟩
    exact ⟨n, List.mem_cons_of_mem m' hn, hdead⟩
  · exact hmine hturn
  · by_cases hturn : turn = some b
    · exact hmine hturn
    rcases hwaiting.moment hn h hturn with hdead | hwaiting'
    · exact .inl (.inr ⟨m', List.mem_cons_self, hdead⟩)
    · exact .inr (.inr ⟨hwaiting', hkeep t hwaiting hP⟩)

namespace Course

variable {turn₀ : Option ThreadId} {m₀ : Machine} {base : History}

theorem punctual (h : Course steady True turn₀ m₀ past turn m) (hn : m₀.Numbered)
    (hp : Punctual m₀) (htimely : Timely past m) : Punctual m := by
  induction h with
  | nil => exact hp
  | cons hfirst hlast ih =>
    exact (ih htimely.before).moment (hfirst.numbered hn) htimely hlast

/-- A thread waits along a course until it is served, if each moment keeps what is described. -/
theorem queues (h : Course steady True turn₀ m₀ past turn m) (hn : m₀.Numbered)
    (hp : Punctual m₀) (htimely : Timely past m)
    (hkeep : ∀ {e turn n turn' n' t}, n.Numbered → Punctual n → IsTime n.reading →
      Moment steady True e turn n turn' n' → n.Waiting b runAt queued t → P n → P n')
    (hw : Queues b runAt queued P base turn₀ m₀) :
    Queues b runAt queued P (past ++ base) turn m := by
  induction h with
  | nil => exact hw
  | cons hfirst hlast ih =>
    have hn' := hfirst.numbered hn
    have hp' := hfirst.punctual hn hp htimely.before
    refine (ih htimely.before).moment hn' hlast fun t hwaiting hP => ?_
    exact hkeep hn' hp' htimely.before.reading hlast hwaiting hP

/-- What was read later was read in the later part of a history. -/
theorem timely (h : Course steady True turn₀ m₀ past turn m)
    (htimely : Timely (past ++ base) m) : Timely past m ∧ Timely base m₀ := by
  refine ⟨⟨fun n hn => htimely.times n ?_, htimely.ascending.sublist ?_⟩, ?_⟩
  · rw [List.map_append]
    exact List.mem_append_left _ hn
  · rw [List.map_append]
    exact List.sublist_append_left _ _
  · induction h with
    | nil => exact htimely
    | cons _ _ ih => exact ih htimely.before

end Course

/-- A thread has its turn: it is picked, or it begins a step. -/
inductive Due (steady : Prop) (id : ThreadId) (m : Machine) : Option ThreadId → Prop where
  | picked {m' : Machine} (hidle : m.currentThread = none)
    (hrun : schedule m = .ok (.run id) m') : Due steady id m none
  | begun {turn turn' : Option ThreadId} {m' : Machine}
    (h : Moment steady True (.begun id) turn m turn' m') : Due steady id m turn

/-- Picking a thread leaves the others that can run as they are. -/
theorem Waiting.schedule {t : Thread} {found : Pick} (hw : m.Waiting b runAt queued t)
    (hrun : schedule m = .ok found m') : m'.Waiting b runAt queued t := by
  cases hrun
  refine ⟨?_, hw.ready, hw.runAt, hw.queued⟩
  have hwake (u : Thread) : (u.wake m.reading).id = u.id := by
    unfold Thread.wake
    split <;> rfl
  have hsame : t.wake m.reading = t := by
    unfold Thread.wake
    rw [hw.ready]
    rfl
  calc (m.threads.map (·.wake m.reading)).find? (·.id == b)
      = (m.thread? b).map (·.wake m.reading) := find?_map hwake b m.threads
    _ = some t := by rw [hw.found, Option.map_some, hsame]

/-- A thread that stands behind one that can run is not due. -/
theorem Due.not_behind {t : Thread} (h : Due steady a m turn) (hn : m.Numbered) (hp : Punctual m)
    (htime : IsTime m.reading) (hw : m.Waiting b runAt queued t) :
    ¬ m.Behind a runAt queued := by
  intro hbehind
  cases h with
  | @picked n hidle hrun =>
    have hmoment : Moment steady True .silent none m none n := .schedule hidle hrun
    have hn' : n.Numbered := hn.moment hmoment
    obtain ⟨u, hu, hid, hready, hfirst⟩ := first_of_pick (pick_of_schedule hrun).symm
    exact (hw.schedule hrun).not_foremost (hw.behind_moment hn hp htime hmoment hbehind)
      ⟨u, hn'.sorted.find?_eq hu hid, hready, hfirst⟩
  | begun h =>
    cases h with
    | begin hcurrent hfound hready => exact hbehind.aside hcurrent _ hfound hready

end

/-- A thread that can run takes a step, or is ended, before any thread that enters the run queue
later does. -/
theorem Course.served {origin m₀ m₁ m₂ m₃ : Machine} {first later last : History}
    {turn₀ turn₁ turn₂ turn₃ : Option ThreadId} {t : Thread} (hn : origin.Numbered)
    (hp : Punctual origin) (hfirst : Course steady True none origin first turn₀ m₀)
    (ht : m₀.thread? b = some t) (hready : t.status = .ready)
    (hlater : Course steady True turn₀ m₀ later turn₁ m₁)
    (hmoment : Moment steady True e turn₁ m₁ turn₂ m₂) (henters : Enters a m₁ m₂)
    (hlast : Course steady True turn₂ m₂ last turn₃ m₃)
    (htimely : Timely (last ++ (e, m₁) :: (later ++ first)) m₃) (hdue : Due steady a m₃ turn₃) :
    Served b (last ++ (e, m₁) :: later) m₃ := by
  obtain ⟨htimely₃, htimely₂⟩ := hlast.timely htimely
  obtain ⟨htimely₁, htimely₀⟩ := hlater.timely htimely₂.before
  have hn₀ := hfirst.numbered hn
  have hp₀ := hfirst.punctual hn hp htimely₀
  have hn₁ := hlater.numbered hn₀
  have hp₁ := hlater.punctual hn₀ hp₀ htimely₁
  have hn₂ := hn₁.moment hmoment
  have hp₂ := hp₁.moment hn₁ htimely₂ hmoment
  -- The thread waits with its time and its place until the other enters, and is ahead of it then.
  have hqueues₀ : Queues b t.runAt t.queued (fun _ => True) [] turn₀ m₀ :=
    .inr (.inr ⟨⟨t, ht, hready, rfl, rfl⟩, trivial⟩)
  have hqueues₁ := hlater.queues hn₀ hp₀ htimely₁ (fun _ _ _ _ _ _ => trivial) hqueues₀
  have hqueues₂ : Queues b t.runAt t.queued (Behind a t.runAt t.queued) _ turn₂ m₂ :=
    hqueues₁.moment hn₁ hmoment fun u hw _ =>
      hw.behind_of_enters hn₁ hp₁ htimely₂.before.reading hmoment henters
  have hqueues₃ := hlast.queues hn₂ hp₂ htimely₃
    (fun hn hp htime h hw hbehind => hw.behind_moment hn hp htime h hbehind) hqueues₂
  rw [List.append_nil] at hqueues₃
  have hn₃ := hlast.numbered hn₂
  have hp₃ := hlast.punctual hn₂ hp₂ htimely₃
  rcases hqueues₃ with hserved | hturn | ⟨⟨u, hw⟩, hbehind⟩
  · exact hserved
  · subst hturn
    cases hdue with
    | begun h => cases h
  · exact absurd hbehind (hdue.not_behind hn₃ hp₃ htimely₃.reading hw)

/-- On the way from a new machine no thread is overtaken. -/
theorem Course.served_of_create {config : Config} {clock : Host.Clock}
    {origin m₀ m₁ m₂ m₃ : Machine} {first later last : History}
    {turn₀ turn₁ turn₂ turn₃ : Option ThreadId} {t : Thread}
    (hcreate : Machine.create config clock = .ok origin)
    (hfirst : Course False True none origin first turn₀ m₀)
    (ht : m₀.thread? b = some t) (hready : t.status = .ready)
    (hlater : Course False True turn₀ m₀ later turn₁ m₁)
    (hmoment : Moment False True e turn₁ m₁ turn₂ m₂) (henters : Enters a m₁ m₂)
    (hlast : Course False True turn₂ m₂ last turn₃ m₃)
    (htimely : Timely (last ++ (e, m₁) :: (later ++ first)) m₃) (hdue : Due False a m₃ turn₃) :
    Served b (last ++ (e, m₁) :: later) m₃ := by
  have hvacant := vacant_of_create hcreate
  have horigin : Settled False False True origin none none origin := settled_of_create hcreate
  have hpunctual : Punctual origin := by
    intro id t ht
    have hmem := (mem_threads_of_thread? ht).1
    rw [hvacant.threads] at hmem
    cases hmem
  exact hfirst.served horigin.orderly.queued hpunctual ht hready hlater hmoment henters hlast
    htimely hdue

/-- Whatever the host does, and whatever its functions do as long as they sleep only by suspending,
no thread is overtaken on the way from a new machine while the times that are read ascend. -/
theorem Reachable.not_overtaken {natives : Natives} (hnatives : natives.Each (Polite False True))
    (h : Reachable natives m) : ∃ config clock origin past,
      Machine.create config clock = .ok origin ∧
        Course False True none origin past none m ∧
      ∀ {first turn₀ m₀ t}, Course False True none origin first turn₀ m₀ →
        m₀.thread? b = some t → t.status = .ready →
      ∀ {later turn₁ m₁}, Course False True turn₀ m₀ later turn₁ m₁ →
      ∀ {e turn₂ m₂}, Moment False True e turn₁ m₁ turn₂ m₂ → Enters a m₁ m₂ →
      ∀ {last turn₃ m₃}, Course False True turn₂ m₂ last turn₃ m₃ →
        Timely (last ++ (e, m₁) :: (later ++ first)) m₃ → Due False a m₃ turn₃ →
          Served b (last ++ (e, m₁) :: later) m₃ := by
  obtain ⟨config, clock, origin, hcreate, hm⟩ := h.settled hnatives
  obtain ⟨past, hpast⟩ := hm.led
  refine ⟨config, clock, origin, past, hcreate, hpast, ?_⟩
  intro first turn₀ m₀ t hfirst ht hready later turn₁ m₁ hlater e turn₂ m₂ hmoment henters
    last turn₃ m₃ hlast htimely hdue
  exact hfirst.served_of_create hcreate ht hready hlater hmoment henters hlast htimely hdue

/-- The machine when a thread has started on a call. -/
def calling (m : Machine) : Machine :=
  after (newThread (.ofCall m.globalScope
    { func := .undefined, receiver := .undefined, args := [], construct := false }) 0 false) m

theorem attended_none {m : Machine} (hidle : m.currentThread = none) : Attended none m where
  current := hidle
  going _ _ h := by cases h
  issued _ h := by cases h

theorem moment_calling {steady prompt : Prop} {m : Machine} (hidle : m.currentThread = none)
    (hscope : (m.heap.scope? m.globalScope).isSome = true) :
    Moment steady prompt .silent none m none m.calling := by
  obtain ⟨s, hs⟩ := Option.isSome_iff_exists.1 hscope
  exact .alter (.start (.call hs rfl) 0 false) (attended_none hidle)

set_option maxRecDepth 100000 in
/-- Two threads start on calls, the first is killed, and then the second is due. -/
theorem second_in_turn : ∃ (first last : History) (t : Thread) (m₀ m₂ m₃ : Machine),
    create {} {} = .ok start ∧ Course False True none start first none m₀ ∧
      m₀.thread? ⟨1⟩ = some t ∧ t.status = .ready ∧ Moment False True .silent none m₀ none m₂ ∧
      Enters ⟨2⟩ m₀ m₂ ∧ Course False True none m₂ last none m₃ ∧
      Timely (last ++ (.silent, m₀) :: first) m₃ ∧ Due False ⟨2⟩ m₃ none := by
  let m₀ := start.calling
  let m₂ := m₀.calling
  let m₃ := { m₂ with threads := updateThread ⟨1⟩ (·.finish .killed) m₂.threads }
  have hreadings : ∀ m ∈ [m₃, m₂, m₀, start], m.reading = 0 := by decide +kernel
  have hidle : ∀ m ∈ [m₃, m₂, m₀, start], m.currentThread = none := by decide +kernel
  have hscopes : ∀ m ∈ [m₀, start], (m.heap.scope? m.globalScope).isSome = true := by decide +kernel
  have hthreads : (m₀.thread? ⟨1⟩).map (·.status) = some .ready ∧ m₀.thread? ⟨2⟩ = none ∧
      (m₂.thread? ⟨1⟩).map (·.isZombie) = some false ∧ (m₂.thread? ⟨2⟩).isSome = true := by
    decide +kernel
  have hpick : ∃ m', schedule m₃ = .ok (.run ⟨2⟩) m' := by
    have hfirst : (firstOf ((m₃.threads.map (·.wake m₃.reading)).filter
        (·.status == .ready))).map (·.id) = some ⟨2⟩ := by
      decide +kernel
    obtain ⟨u, hu, hid⟩ := Option.map_eq_some_iff.1 hfirst
    have hrun : pick (m₃.threads.map (·.wake m₃.reading)) = .run u.id := by
      rw [pick, hu]
    exact ⟨_, congrArg (EStateM.Result.ok · _) (hrun.trans (congrArg _ hid))⟩
  obtain ⟨t, ht, hready⟩ := Option.map_eq_some_iff.1 hthreads.1
  obtain ⟨u, hu, hlive⟩ := Option.map_eq_some_iff.1 hthreads.2.2.1
  obtain ⟨v, hv⟩ := Option.isSome_iff_exists.1 hthreads.2.2.2
  obtain ⟨m', hm'⟩ := hpick
  have hfirst : Moment False True .silent none start none m₀ :=
    moment_calling (hidle start (by simp)) (hscopes start (by simp))
  have hsecond : Moment False True .silent none m₀ none m₂ :=
    moment_calling (hidle m₀ (by simp)) (hscopes m₀ (by simp))
  have hkill : Moment False True .silent none m₂ none m₃ :=
    .alter (.finish hu hlive .killed) (attended_none (hidle m₂ (by simp)))
  refine ⟨_, _, t, m₀, m₂, m₃, create_of_toOption toOption_create, .cons .nil hfirst, ht, hready,
    hsecond, .started hthreads.2.1 hv, .cons .nil hkill, ⟨fun m hm => ?_, ?_⟩,
    .picked (hidle m₃ (by simp)) hm'⟩
  · rw [hreadings m hm]
    exact isTime_zero
  · refine List.pairwise_of_forall_mem_list fun m hm n hn => ?_
    rw [hreadings m hm, hreadings n hn]
    decide +kernel
set_option maxRecDepth 100000 in
/-- A thread that yielded to another is ready again and stands behind it. Of two threads that are
ready from the start, the second one has its turn when the first was served. -/
theorem not_overtaken_suspending : (∃ m,
    hosted Builtin.natives {} [.spawn "suspend(0); 1;", .spawn "suspend(0); 2;", .run 10] = some m ∧
    (m.threads.map fun t => (t.status, t.queued)) = [(.ready, 3), (.ready, 2)] ∧
    ∃ config clock origin past,
      Machine.create config clock = .ok origin ∧
        Course False True none origin past none m ∧
      ∀ {first turn₀ m₀ t}, Course False True none origin first turn₀ m₀ →
        m₀.thread? ⟨2⟩ = some t → t.status = .ready →
      ∀ {later turn₁ m₁}, Course False True turn₀ m₀ later turn₁ m₁ →
      ∀ {e turn₂ m₂}, Moment False True e turn₁ m₁ turn₂ m₂ → Enters ⟨1⟩ m₁ m₂ →
      ∀ {last turn₃ m₃}, Course False True turn₂ m₂ last turn₃ m₃ →
        Timely (last ++ (e, m₁) :: (later ++ first)) m₃ → Due False ⟨1⟩ m₃ turn₃ →
          Served ⟨2⟩ (last ++ (e, m₁) :: later) m₃) ∧
    ∃ (first last : History) (t : Thread) (m₀ m₂ m₃ : Machine),
      create {} {} = .ok start ∧ Course False True none start first none m₀ ∧
        m₀.thread? ⟨1⟩ = some t ∧ t.status = .ready ∧ Moment False True .silent none m₀ none m₂ ∧
        Enters ⟨2⟩ m₀ m₂ ∧ Course False True none m₂ last none m₃ ∧
        Timely (last ++ (.silent, m₀) :: first) m₃ ∧ Due False ⟨2⟩ m₃ none ∧
        Served ⟨1⟩ (last ++ [(.silent, m₀)]) m₃ := by
  have hchecks : (hosted Builtin.natives {} [.spawn "suspend(0); 1;", .spawn "suspend(0); 2;",
      .run 10]).any (fun m => decide
        ((m.threads.map fun t => (t.status, t.queued)) = [(.ready, 3), (.ready, 2)])) = true := by
    rw [hosted_eq]
    decide +kernel
  obtain ⟨m, hm, hchecks⟩ := (Option.any_eq_true _ _).1 hchecks
  obtain ⟨first, last, t, m₀, m₂, m₃, hcreate, hfirst, ht, hready, hmoment, henters, hlast, htimely,
    hdue⟩ := second_in_turn
  exact ⟨⟨m, hm, of_decide_eq_true hchecks,
      (reachable_of_hosted hm).not_overtaken Builtin.each_polite⟩,
    first, last, t, m₀, m₂, m₃, hcreate, hfirst, ht, hready, hmoment, henters, hlast, htimely, hdue,
    hfirst.served_of_create hcreate ht hready .nil hmoment henters hlast htimely hdue⟩

end Machine

end ScriptMachine
