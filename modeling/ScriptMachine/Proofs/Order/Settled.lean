import ScriptMachine.Proofs.Order.Table

/-!
# Machines with a history

Whatever frames, host functions and the host do makes up moments. A machine is settled when it is in
order, no settlement waits, and moments lead to it from where it began.
-/

namespace ScriptMachine

open Exec Stack

namespace Machine

variable {strict steady prompt : Prop} {turn turn' : Option (ThreadId × List Frame)}
  {origin m m' : Machine} {thread : ThreadId} {current : Option ThreadId}
  {frames frames' rest : List Frame}

/-! ## Moments that make up what is done -/

/-- Issuing a resolver is a moment, unless numbers ran out and nothing happens. -/
theorem moment_issueResolver {turn : Option ThreadId} (thread : ThreadId)
    (hfree : Attended turn m) : after (issueResolver thread) m = m ∨
      ∃ e, Moment steady prompt e turn m turn (after (issueResolver thread) m) := by
  unfold after
  cases hrun : issueResolver thread m with
  | ok id m' => exact .inr ⟨_, .issue hrun hfree⟩
  | error e m' =>
    rw [issueResolver_run] at hrun
    cases hcount : nextCount m.nextResolverId with
    | ok next =>
      rw [hcount] at hrun
      cases hrun
    | error e' =>
      rw [hcount] at hrun
      cases hrun
      exact .inl rfl

/-- Settling a resolver is a moment, whatever comes of it. -/
theorem moment_settle {turn : Option ThreadId} (id : Nat) (thread : ThreadId) (s : Settlement)
    (hfree : Attended turn m) :
    ∃ e, Moment steady prompt e turn m turn (after (settle id thread s) m) := by
  unfold after
  cases hrun : settle id thread s m with
  | ok _ m' => exact ⟨_, .accept hrun hfree⟩
  | error e m' => exact ⟨_, .refuse hrun hfree⟩

/-- Whatever a frame, a host function or the host does is a moment, unless nothing happens. -/
theorem Alteration.moment {settles : Bool} {turn : Option ThreadId}
    (h : Alteration settles m m') (hfree : Attended turn m) :
    m' = m ∨ ∃ e, Moment steady prompt e turn m turn m' := by
  have hown {n : Machine} (h : Alteration false m n) :
      n = m ∨ ∃ e, Moment steady prompt e turn m turn n := .inr ⟨_, .alter h hfree⟩
  cases h with
  | allocObject o => exact hown (.allocObject o)
  | allocScope s => exact hown (.allocScope s)
  | load hp => exact hown (.load hp)
  | object id hf => exact hown (.object id hf)
  | scope id hf => exact hown (.scope id hf)
  | serve h => exact hown (.serve h)
  | tend id hf => exact hown (.tend id hf)
  | start hbase delay keepOutcome => exact hown (.start hbase delay keepOutcome)
  | finish ht hlive outcome => exact hown (.finish ht hlive outcome)
  | forget ht hzombie => exact hown (.forget ht hzombie)
  | stop status => exact hown (.stop status)
  | @issue id t _ _ => exact moment_issueResolver id hfree
  | settle _ resolver thread s => exact .inr (moment_settle resolver thread s hfree)

/-- Moments lead from where a machine began to where it is. -/
def Led (steady prompt : Prop) (origin : Machine) (turn : Option ThreadId) (m : Machine) : Prop :=
  ∃ past, Course steady prompt none origin past turn m

theorem Led.moment {turn turn' : Option ThreadId} {e : Event}
    (h : Led steady prompt origin turn m) (hlast : Moment steady prompt e turn m turn' m') :
    Led steady prompt origin turn' m' :=
  h.imp' _ fun _ h => h.cons hlast

/-- The thread whose turn it is goes on in a machine in order. -/
theorem Orderly.attended (ho : Orderly strict steady turn m)
    (hcurrent : m.currentThread = turn.map Prod.fst) : Attended (turn.map Prod.fst) m where
  current := hcurrent
  going := by
    intro id t hid ht
    obtain ⟨⟨id', rest⟩, hturn, rfl⟩ := Option.map_eq_some_iff.1 hid
    obtain ⟨hmem, hsame⟩ := mem_threads_of_thread? ht
    cases hzombie : t.isZombie with
    | true => exact .inr (by simpa [Thread.isZombie] using hzombie)
    | false => exact .inl ((ho.stands t hmem).inTurn rest (by rw [hsame]; exact hturn) hzombie).1
  issued := by
    intro id hid
    obtain ⟨⟨id', rest⟩, hturn, rfl⟩ := Option.map_eq_some_iff.1 hid
    exact ho.issued id' rest hturn

theorem Led.alteration {settles : Bool} (h : Led steady prompt origin (turn.map Prod.fst) m)
    (ho : Orderly strict steady turn m) (hcurrent : m.currentThread = turn.map Prod.fst)
    (hlast : Alteration settles m m') : Led steady prompt origin (turn.map Prod.fst) m' := by
  rcases hlast.moment (ho.attended hcurrent) with rfl | ⟨e, hmoment⟩
  · exact h
  · exact h.moment hmoment

theorem Led.altered {settles : Bool} (h : Led steady prompt origin (turn.map Prod.fst) m)
    (ho : Orderly strict steady turn m) (hcurrent : m.currentThread = turn.map Prod.fst)
    (haltered : Altered settles m m') : Led steady prompt origin (turn.map Prod.fst) m' ∧
      m'.currentThread = turn.map Prod.fst := by
  induction haltered with
  | refl => exact ⟨h, hcurrent⟩
  | tail hfirst hlast ih =>
    exact ⟨ih.1.alteration (ho.altered hfirst) ih.2 hlast, hlast.early_cases.1.trans ih.2⟩

/-! ## Settled machines -/

/-- A machine in order in which no settlement waits, with its history. -/
structure Settled (strict steady prompt : Prop) (origin : Machine)
    (turn : Option (ThreadId × List Frame)) (current : Option ThreadId) (m : Machine) : Prop where
  orderly : Orderly strict steady turn m
  quiet : Quiet current m
  led : Led steady prompt origin (turn.map Prod.fst) m

/-! ## Whose turn it is -/

namespace Orderly

/-- A turn ends when the stack of the thread is in order again, or the thread has ended. -/
theorem leave (ho : Orderly strict steady (some (thread, frames)) m)
    (hs : m.isAlive thread = true → Stacked strict m.heap frames) :
    Orderly strict steady none m := by
  refine ⟨ho.tidy, ho.grammatical, ho.global, ho.queued, fun t ht => ?_, ho.resolvers,
    fun _ _ h => by cases h⟩
  have hstands := ho.stands t ht
  by_cases hid : t.id = thread
  · cases hzombie : t.isZombie with
    | true => exact .of_ended hzombie (hstands.finished hzombie).1 (hstands.finished hzombie).2
    | false =>
      obtain ⟨hready, hframes⟩ := hstands.inTurn frames (by rw [hid]) hzombie
      have halive := isAlive_iff.2 ⟨t, ho.queued.sorted.find?_eq ht hid, hzombie⟩
      refine ⟨fun h => ?_, hstands.unfinished, fun _ h => (by cases h), fun _ _ => ⟨?_, fun h => ?_⟩⟩
      · rw [hzombie] at h
        cases h
      · rw [hframes]
        exact hs halive
      · rw [hready] at h
        cases h
  · refine hstands.other (fun rest hrest => hid ?_) fun _ h => by cases h
    cases hrest
    rfl

/-- A thread whose turn it is not stands the same in any turn of another. -/
theorem others (ho : Orderly strict steady turn m)
    (hturn : ∀ id rest, turn = some (id, rest) → id = thread) (frames : List Frame) {t : Thread}
    (ht : t ∈ m.threads) (hid : t.id ≠ thread) :
    t.Stands strict steady (some (thread, frames)) m.heap := by
  refine (ho.stands t ht).other (fun rest hrest => hid (hturn _ _ hrest)) fun rest hrest => hid ?_
  cases hrest
  rfl

/-- The top frame is taken off the stack of a thread. -/
theorem take (ho : Orderly strict steady none m) {t : Thread} {f : Frame}
    (ht : m.thread? thread = some t) (hready : t.status = .ready)
    (hframes : t.stack.frames = f :: frames) :
    Orderly strict steady (some (thread, frames)) { m with
      threads := updateThread thread (fun t => { t with stack := t.stack.dropTop })
        m.threads } := by
  obtain ⟨hmem, hid⟩ := mem_threads_of_thread? ht
  refine ho.update (Nat.le_refl _) (fun _ => rfl) (fun _ => .inl rfl)
    (fun u hu hne => ho.others (fun _ _ h => by cases h) frames hu hne) (fun u hu huid => ?_) ?_
  · obtain rfl := Option.some.inj ((ho.queued.sorted.find?_eq hu huid).symm.trans ht)
    have hlive : u.isZombie = false := by
      unfold Thread.isZombie
      rw [hready]
      rfl
    exact .of_turn huid hready (congrArg List.tail hframes) fun hsteady =>
      (ho.stands u hu).unfinished hsteady hlive
  · rintro _ _ ⟨⟩
    exact hid ▸ ho.queued.sorted.issued t hmem

/-- The stack of the thread whose turn it is is changed, unless the thread was ended and it has
none. -/
theorem restack (ho : Orderly strict steady (some (thread, frames)) m) {g : Stack → Stack}
    (halive : m.isAlive thread = true ∨ ∀ s : Stack, s.frames = [] → (g s).frames = [])
    (hg : ∀ s, s.frames = frames → (g s).frames = frames') :
    Orderly strict steady (some (thread, frames')) { m with
      threads := updateThread thread (fun t => { t with stack := g t.stack }) m.threads } := by
  refine ho.update (Nat.le_refl _) (fun _ => rfl) (fun _ => .inl rfl) (fun u hu hne =>
    ho.others (fun _ _ h => by cases h; rfl) frames' hu hne) (fun u hu huid => ?_) ?_
  · have hstands := ho.stands u hu
    cases hzombie : u.isZombie with
    | true =>
      refine .of_ended hzombie ?_ (hstands.finished hzombie).2
      rcases halive with halive | hempty
      · obtain ⟨t, ht, hlive⟩ := isAlive_iff.1 halive
        obtain rfl := Option.some.inj ((ho.queued.sorted.find?_eq hu huid).symm.trans ht)
        rw [hzombie] at hlive
        cases hlive
      · exact hempty _ (hstands.finished hzombie).1
    | false =>
      obtain ⟨hready, hframes⟩ := hstands.inTurn frames (by rw [huid]) hzombie
      exact .of_turn huid hready (hg _ hframes) fun hsteady => hstands.unfinished hsteady hzombie
  · rintro _ _ ⟨⟩
    exact ho.issued thread frames rfl

/-- A call may be the base of a stack. -/
theorem stacked_of_call {h : Heap} {f : Frame} (hs : Stacked strict h (f :: rest))
    (hnode : f.node = none) : Stacked strict h [f] := by
  cases hs.sits with
  | node _ hsome _ _ _ _ _ _ =>
    rw [hnode] at hsome
    cases hsome
  | call hscope _ hcalls => exact .base (.call hscope hnode hcalls) ⟨hcalls.labels, .inl hnode⟩

/-- A thread that is parked stands as a blocked or a sleeping one. Where threads are not steady it may
have been ended before, and then what it waits in is all that is on its stack. -/
theorem park (ho : Orderly strict steady (some (thread, rest)) m) {f : Frame}
    (hs : Stacked strict m.heap (f :: rest)) (hnode : f.node = none)
    (halive : steady → m.isAlive thread = true) {status : ThreadStatus}
    (hstatus : status = .sleeping ∨ status = .blocked ∧ Waits f) {g : Thread → Thread} {next : Nat}
    (hle : m.nextQueued ≤ next) (hqueued : ∀ t, (g t).queued = t.queued ∨
      m.nextQueued ≤ (g t).queued ∧ (g t).queued < next)
    (hg : ∀ t, (g t).id = t.id ∧ (g t).status = status ∧ (g t).stack = t.stack.push f ∧
      (g t).outcome = t.outcome) :
    Orderly strict steady none { m with
      threads := updateThread thread g m.threads, nextQueued := next } := by
  refine ho.update hle (fun t => (hg t).1) hqueued (fun u hu hne => ?_) (fun u hu huid => ?_)
    fun _ _ h => by cases h
  · refine (ho.stands u hu).other (fun rest hrest => hne ?_) fun _ h => by cases h
    cases hrest
    rfl
  · have hstands := ho.stands u hu
    obtain ⟨-, hgstatus, hgstack, hgoutcome⟩ := hg u
    refine ⟨fun hzombie => ?_, fun hsteady _ => ?_, fun _ h => (by cases h), fun _ _ => ⟨?_, ?_⟩⟩
    · unfold Thread.isZombie at hzombie
      rw [hgstatus] at hzombie
      rcases hstatus with rfl | ⟨rfl, -⟩ <;> cases hzombie
    · obtain ⟨t, ht, hlive⟩ := isAlive_iff.1 (halive hsteady)
      obtain rfl := Option.some.inj ((ho.queued.sorted.find?_eq hu huid).symm.trans ht)
      rw [hgoutcome]
      exact hstands.unfinished hsteady hlive
    · rw [hgstack, Stack.frames_push]
      cases hzombie : u.isZombie with
      | true =>
        rw [(hstands.finished hzombie).1]
        exact stacked_of_call hs hnode
      | false =>
        rw [(hstands.inTurn rest (by rw [huid]) hzombie).2]
        exact hs
    · intro hblocked
      rw [hgstatus] at hblocked
      refine ⟨f, u.stack.frames, by rw [hgstack, Stack.frames_push], ?_⟩
      rcases hstatus with hsleeping | ⟨-, hwaits⟩
      · rw [hsleeping] at hblocked
        cases hblocked
      · exact hwaits

end Orderly

theorem isAlive_restack (g : Stack → Stack) :
    isAlive { m with
      threads := updateThread thread (fun t => { t with stack := g t.stack }) m.threads }
        thread = m.isAlive thread := by
  unfold isAlive
  rw [thread?_updateThread (f := fun t => { t with stack := g t.stack }) fun _ => rfl]
  cases m.thread? thread <;> rfl

namespace Settled

/-- Whatever a frame does leaves a machine settled. -/
theorem altered (hm : Settled strict steady prompt origin turn current m)
    (hcurrent : current = turn.map Prod.fst) (h : Altered false m m') :
    Settled strict steady prompt origin turn current m' where
  orderly := hm.orderly.altered h
  quiet := hm.quiet.altered h
  led := (hm.led.altered hm.orderly (hm.quiet.current.trans hcurrent) h).1

theorem serves (hm : Settled strict steady prompt origin turn current m)
    (hcurrent : current = turn.map Prod.fst) (h : m.Serves m') :
    Settled strict steady prompt origin turn current m' :=
  hm.altered hcurrent (.single (.serve h))

/-- Whatever the host does between two turns leaves a machine settled. -/
theorem altered_of_none {settles : Bool}
    (hm : Settled strict steady prompt origin none none m) (h : Altered settles m m') :
    Settled strict steady prompt origin none none m' where
  orderly := hm.orderly.altered h
  quiet := hm.quiet.altered_of_none h
  led := by
    have hled : Led steady prompt origin ((none : Option (ThreadId × List Frame)).map Prod.fst) m :=
      hm.led
    exact (hled.altered hm.orderly hm.quiet.current h).1

theorem worked (hm : Settled strict steady prompt origin (some (thread, rest)) (some thread) m)
    (h : Worked thread m m') :
    Settled strict steady prompt origin (some (thread, rest)) (some thread) m' where
  orderly := hm.orderly.worked h
  quiet := hm.quiet.worked h
  led := by
    induction h with
    | refl => exact hm.led
    | tail hfirst hlast ih =>
      have ho := hm.orderly.worked hfirst
      have hcurrent := (hm.quiet.worked hfirst).current
      cases hlast with
      | frame hlast => exact ih.alteration ho hcurrent hlast
      | host hlast => exact (ih.altered ho hcurrent hlast).1.moment (.answer thread)

/-- The turn of a thread begins when its top frame is taken off. -/
theorem take (hm : Settled strict steady prompt origin none (some thread) m) {t : Thread}
    {f : Frame} (ht : m.thread? thread = some t) (hready : t.status = .ready)
    (hframes : t.stack.frames = f :: frames) :
    Settled strict steady prompt origin (some (thread, frames)) (some thread) { m with
      threads := updateThread thread (fun t => { t with stack := t.stack.dropTop })
        m.threads } where
  orderly := hm.orderly.take ht hready hframes
  quiet := ⟨hm.quiet.current, hm.quiet.early⟩
  led := hm.led.moment (.begin hm.quiet.current ht hready)

theorem restack (hm : Settled strict steady prompt origin (some (thread, frames)) current m)
    {g : Stack → Stack}
    (halive : m.isAlive thread = true ∨ ∀ s : Stack, s.frames = [] → (g s).frames = [])
    (hg : ∀ s, s.frames = frames → (g s).frames = frames') :
    Settled strict steady prompt origin (some (thread, frames')) current { m with
      threads := updateThread thread (fun t => { t with stack := g t.stack }) m.threads } where
  orderly := hm.orderly.restack halive hg
  quiet := ⟨hm.quiet.current, hm.quiet.early⟩
  led := hm.led.moment (.restack halive)

/-- A turn ends when the stack of the thread is in order again, or the thread has ended. -/
theorem leave (hm : Settled strict steady prompt origin (some (thread, frames)) current m)
    (hs : m.isAlive thread = true → Stacked strict m.heap frames) :
    Settled strict steady prompt origin none current m :=
  ⟨hm.orderly.leave hs, hm.quiet, hm.led.moment .finish⟩

/-- A thread that is not alive has had its turn. -/
theorem leave_of_dead
    (hm : Settled strict steady prompt origin (some (thread, frames)) current m)
    (hdead : ¬ m.isAlive thread = true) : Settled strict steady prompt origin none current m :=
  hm.leave fun halive => absurd halive hdead

/-- A thread that is ended has had its turn. -/
theorem finished (hm : Settled strict steady prompt origin (some (thread, frames)) (some thread) m)
    {t : Thread} (ht : m.thread? thread = some t) (hlive : t.isZombie = false)
    (outcome : Outcome) : Settled strict steady prompt origin none (some thread) { m with
      threads := updateThread thread (·.finish outcome) m.threads } := by
  refine (hm.altered rfl (.single (.finish ht hlive outcome))).leave_of_dead fun halive => ?_
  obtain ⟨u, hu, hlive'⟩ := isAlive_iff.1 halive
  rw [thread?_updateThread (f := (·.finish outcome)) fun _ => rfl] at hu
  obtain ⟨v, -, rfl⟩ := Option.map_eq_some_iff.1 hu
  cases hlive'

end Settled

end Machine

end ScriptMachine
