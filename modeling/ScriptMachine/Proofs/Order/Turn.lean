import ScriptMachine.Proofs.Order.Stack
import ScriptMachine.Proofs.Order.Settled
import ScriptMachine.Proofs.Start

/-!
# The turn of a thread

A step takes the top frame off the stack of its thread, has it stepped, and puts back what that asks
for. When the turn ends the machine is in order again, whether the step gave a result, threw into
its thread or ended it.
-/

namespace ScriptMachine

namespace Exec

variable {α β : Type} {m : Machine}

/-- Unless a counter ran out, an operation leaves a machine as described. -/
def Leaves (Q : Machine → Prop) (x : Exec α) (m : Machine) : Prop :=
  match x m with
  | .ok _ m' => Q m'
  | .error e m' => e = .overflow ∨ Q m'

theorem leaves_of_after {Q : Machine → Prop} {x : Exec α} (h : Q (after x m)) : Leaves Q x m := by
  unfold Leaves
  unfold after at h
  cases hrun : x m with
  | ok a m' =>
    rw [hrun] at h
    exact h
  | error e m' =>
    rw [hrun] at h
    exact .inr h

theorem leaves_of_run {Q : Machine → Prop} {x : Exec α} {a : α} {m' : Machine}
    (hrun : x m = .ok a m') (h : Q m') : Leaves Q x m := by
  unfold Leaves
  rw [hrun]
  exact h

theorem leaves_pure {Q : Machine → Prop} (a : α) (h : Q m) : Leaves Q (pure a : Exec α) m := h

theorem leaves_throw {Q : Machine → Prop} (e : Failure) (h : Q m) :
    Leaves Q (throw e : Exec α) m := .inr h

theorem leaves_query {Q : Machine → Prop} (f : Machine → Except Failure α) (h : Q m) :
    Leaves Q (query f) m :=
  leaves_of_after (by rwa [after_query])

theorem leaves_get_bind {Q : Machine → Prop} {f : Machine → Exec α} (h : Leaves Q (f m) m) :
    Leaves Q (get >>= f) m := h

theorem Leaves.mono {P Q : Machine → Prop} {x : Exec α} (hx : Leaves P x m)
    (h : ∀ m', P m' → Q m') : Leaves Q x m := by
  unfold Leaves at hx ⊢
  cases hrun : x m with
  | ok a m' =>
    rw [hrun] at hx
    exact h m' hx
  | error e m' =>
    rw [hrun] at hx
    exact hx.imp_right (h m')

theorem Leaves.bind {P Q : Machine → Prop} {x : Exec α} {f : α → Exec β} (hx : Leaves P x m)
    (hf : ∀ a m', x m = .ok a m' → P m' → Leaves Q (f a) m') (h : ∀ m', P m' → Q m') :
    Leaves Q (x >>= f) m := by
  unfold Leaves at hx ⊢
  rw [bind_run]
  cases hrun : x m with
  | ok a m' =>
    rw [hrun] at hx
    exact hf a m' hrun hx
  | error e m' =>
    rw [hrun] at hx
    exact hx.imp_right (h m')

theorem leaves_of_bind_run {Q : Machine → Prop} {x : Exec α} {f : α → Exec β} {a : α}
    {n : Machine} (hrun : x m = .ok a n) (h : Leaves Q (f a) n) : Leaves Q (x >>= f) m := by
  unfold Leaves
  rwa [bind_run_of_ok hrun]

/-- A failure is looked at, unless a counter ran out. -/
theorem Leaves.attempt_bind {P Q : Machine → Prop} {x : Exec α} {k : Except Failure α → Exec β}
    (hx : Leaves P x m)
    (hok : ∀ a m', x m = .ok a m' → P m' → Leaves Q (k (.ok a)) m')
    (herror : ∀ e m', x m = .error e m' → e ≠ .overflow → P m' →
      Leaves Q (k (.error e)) m') :
    Leaves Q (attempt x >>= k) m := by
  unfold Leaves at hx
  cases hrun : x m with
  | ok a m' =>
    rw [hrun] at hx
    exact leaves_of_bind_run (by rw [attempt, hrun]) (hok a m' hrun hx)
  | error e m' =>
    rw [hrun] at hx
    by_cases he : e = .overflow
    · subst he
      unfold Leaves
      rw [bind_run, attempt, hrun]
      exact .inl rfl
    · have hattempt : attempt x m = .ok (.error e) m' := by
        rw [attempt, hrun]
        cases e with
        | overflow => exact absurd rfl he
        | _ => rfl
      exact leaves_of_bind_run hattempt (herror e m' hrun he (hx.resolve_left he))

end Exec

open Exec Stack

namespace Machine

variable {strict steady prompt : Prop} {origin m m' : Machine} {thread : ThreadId}
  {frames frames' rest : List Frame}

/-! ## The end of a thread -/

theorem leaves_fault {α : Type}
    (hm : Settled strict steady prompt origin (some (thread, frames)) (some thread) m)
    (e : Failure) :
    Leaves (Settled strict steady prompt origin none (some thread)) (fault thread e : Exec α) m := by
  have hkill : Leaves (Settled strict steady prompt origin none (some thread))
      (killThread thread) m := by
    unfold Leaves
    rw [killThread_run]
    cases ht : m.thread? thread with
    | none =>
      refine hm.leave_of_dead fun halive => ?_
      obtain ⟨t, ht', -⟩ := isAlive_iff.1 halive
      rw [ht] at ht'
      cases ht'
    | some t =>
      dsimp only
      cases hzombie : t.isZombie with
      | true =>
        refine hm.leave_of_dead fun halive => ?_
        obtain ⟨t', ht', hlive⟩ := isAlive_iff.1 halive
        rw [ht] at ht'
        cases ht'
        rw [hzombie] at hlive
        cases hlive
      | false => exact hm.finished ht hzombie .killed
  exact hkill.bind (fun _ _ _ h => leaves_throw e h) fun _ h => h

theorem leaves_finishThread
    (hm : Settled strict steady prompt origin (some (thread, frames)) (some thread) m)
    (halive : m.isAlive thread = true) (outcome : Outcome) :
    Leaves (Settled strict steady prompt origin none (some thread))
      (finishThread thread outcome) m := by
  obtain ⟨t, ht, hlive⟩ := isAlive_iff.1 halive
  have hfinish (console : Host.Console) :
      Leaves (Settled strict steady prompt origin none (some thread))
        (modifyThread thread fun t => t.finish outcome) { m with console } := by
    have hm' : Settled strict steady prompt origin (some (thread, frames)) (some thread)
        { m with console } := hm.serves rfl { Serves.refl m with }
    exact leaves_of_run (modifyThread_run_of_some (m := { m with console }) ht _)
      (hm'.finished ht hlive outcome)
  unfold finishThread
  split
  · exact leaves_of_bind_run (n := { m with console := _ }) rfl (hfinish _)
  · exact hfinish m.console

theorem leaves_escape (hm : Settled strict steady prompt origin (some (thread, frames)) (some thread) m)
    (halive : m.isAlive thread = true) (c : Completion) :
    Leaves (Settled strict steady prompt origin none (some thread)) (escape thread c) m := by
  obtain ⟨t, ht, -⟩ := isAlive_iff.1 halive
  refine leaves_of_bind_run (modifyThread_run_of_some ht _) ?_
  have hm' : Settled strict steady prompt origin (some (thread, [])) (some thread) { m with
      threads := updateThread thread (fun t => { t with stack := .empty }) m.threads } :=
    hm.restack (g := fun _ => .empty) (.inl halive) fun _ _ => rfl
  split
  · exact leaves_finishThread hm' ((isAlive_restack fun _ => .empty).trans halive) _
  · exact leaves_fault hm' _

/-- What is left of a stack after unwinding is in order, and every frame can be judged. -/
theorem unwindStack_cases {h : Heap} {s : Stack} {c : Completion}
    (hs : s.frames = [] ∨ Stacked strict h s.frames) (hc : Bound strict s.frames c) :
    match unwindStack h c s with
    | .caught stack => Stacked strict h stack.frames
    | .escaped => True
    | .broken _ _ => False := by
  obtain ⟨frames, depth, hdepth⟩ := s
  unfold unwindStack
  cases frames with
  | nil => trivial
  | cons f rest =>
    have hunwound := (hs.resolve_left (List.cons_ne_nil f rest)).unwound hc depth hdepth
    dsimp only at hunwound ⊢
    cases hleft : unwindFrames h c (f :: rest) depth hdepth with
    | caught stack => rwa [hleft] at hunwound
    | escaped => trivial
    | broken stack e => rwa [hleft] at hunwound

theorem leaves_unwind (hm : Settled strict steady prompt origin (some (thread, frames)) (some thread) m)
    (halive : m.isAlive thread = true) (hs : frames = [] ∨ Stacked strict m.heap frames)
    {c : Completion} (hc : Bound strict frames c) :
    Leaves (Settled strict steady prompt origin none (some thread)) (unwind thread c) m := by
  obtain ⟨t, ht, hlive⟩ := isAlive_iff.1 halive
  obtain ⟨hmem, hid⟩ := mem_threads_of_thread? ht
  have hframes := ((hm.orderly.stands t hmem).inTurn frames (by rw [hid]) hlive).2
  have hcases := unwindStack_cases (s := t.stack) (hframes.symm ▸ hs) (hframes.symm ▸ hc)
  unfold unwind
  refine leaves_get_bind ?_
  rw [ht]
  refine leaves_get_bind ?_
  cases hunwound : unwindStack m.heap c t.stack with
  | caught stack =>
    rw [hunwound] at hcases
    refine leaves_of_run (modifyThread_run_of_some ht _) ?_
    exact (hm.restack (g := fun _ => stack) (.inl halive) fun _ _ => rfl).leave fun _ => hcases
  | escaped => exact leaves_escape hm halive c
  | broken stack e =>
    rw [hunwound] at hcases
    exact hcases.elim

/-- Making an error leaves the threads alone. -/
theorem keeps_threads_errorToValue (threads : List Thread) (e : Failure) (scope : ScopeId)
    (id : ThreadId) : Keeps (fun m => m.threads = threads) (errorToValue e scope id) := by
  have hcreate (kind : ErrorKind) (message : String) (owner : Option Owner) :
      Keeps (fun m => m.threads = threads) (createError kind message owner (some id)) :=
    (keeps_query _).bind fun _ => keeps_get.bind fun _ => keeps_modifyGet fun _ h => h
  refine (keeps_query _).bind fun owner => ?_
  split
  · exact keeps_pure _
  · exact (hcreate _ _ _).bind fun _ => keeps_pure _
  · exact (hcreate _ _ _).bind fun _ => keeps_pure _
  · exact keeps_throw _

/-- A failure that is thrown into a thread unwinds it, ends it or is a fault of the host. -/
theorem leaves_raise (hm : Settled strict steady prompt origin (some (thread, frames)) (some thread) m)
    (halive : m.isAlive thread = true) (hs : frames = [] ∨ Stacked strict m.heap frames)
    (scope : ScopeId) (e : Failure) :
    Leaves (Settled strict steady prompt origin none (some thread)) (raise thread scope e) m := by
  unfold raise
  split
  · exact leaves_fault hm e
  have haltered : Altered false m (after (errorToValue e scope thread) m) :=
    alters.errorToValue e scope thread m hm.orderly.tidy
  have hthreads := keeps_threads_errorToValue m.threads e scope thread m rfl
  have hmade : Leaves (fun m' => Settled strict steady prompt origin (some (thread, frames)) (some thread) m' ∧
      m'.isAlive thread = true ∧ (frames = [] ∨ Stacked strict m'.heap frames))
      (errorToValue e scope thread) m := by
    refine leaves_of_after ⟨hm.altered rfl haltered, ?_, ?_⟩
    · unfold isAlive thread?
      rw [hthreads]
      exact halive
    · exact hs.imp_right (·.retained (haltered.retains hm.orderly.tidy))
  refine hmade.attempt_bind (fun v m' _ hm' => ?_) fun e' m' _ _ hm' => ?_
  · exact leaves_unwind hm'.1 hm'.2.1 hm'.2.2 (bound_throw rfl)
  · exact leaves_fault hm'.1 e'

/-! ## What a step asks for -/

/-- A frame is put on the stack of a thread, which ends its turn. -/
theorem leaves_push (hm : Settled strict steady prompt origin (some (thread, rest)) (some thread) m)
    (halive : m.isAlive thread = true) {f : Frame} (hs : Stacked strict m.heap (f :: rest)) :
    Leaves (Settled strict steady prompt origin none (some thread))
      (modifyThread thread fun t => { t with stack := t.stack.push f }) m := by
  obtain ⟨t, ht, -⟩ := isAlive_iff.1 halive
  refine leaves_of_run (modifyThread_run_of_some ht _) ?_
  refine (hm.restack (g := (·.push f)) (.inl halive) fun s hframes => ?_).leave fun _ => hs
  rw [Stack.frames_push, hframes]

theorem leaves_pushChild (hm : Settled strict steady prompt origin (some (thread, rest)) (some thread) m)
    (halive : m.isAlive thread = true) {f child : Frame}
    (hs : Stacked strict m.heap (child :: f :: rest)) :
    Leaves (Settled strict steady prompt origin none (some thread)) (pushChild thread f child) m := by
  obtain ⟨t, ht, -⟩ := isAlive_iff.1 halive
  have hm' : Settled strict steady prompt origin (some (thread, f :: rest)) (some thread) { m with
      threads := updateThread thread (fun t => { t with stack := t.stack.push f }) m.threads } :=
    hm.restack (g := (·.push f)) (.inl halive) fun s hframes => by
      rw [Stack.frames_push, hframes]
  have halive' := (isAlive_restack (m := m) (·.push f)).trans halive
  refine leaves_of_bind_run (modifyThread_run_of_some ht _) (leaves_get_bind (leaves_get_bind ?_))
  split
  · exact leaves_raise hm' halive' (.inr hs.tail) _ _
  · exact leaves_push hm' halive' hs

/-- A child hands what it evaluated to the frame below, if there is one. -/
theorem leaves_modifyTop (hm : Settled strict steady prompt origin (some (thread, rest)) (some thread) m)
    (halive : m.isAlive thread = true) (hframe : m.hasFrame thread = true)
    (hrest : rest = [] ∨ Stacked strict m.heap rest) {g : Frame → Frame}
    (hg : ∀ f below, Stacked strict m.heap (f :: below) → Stacked strict m.heap (g f :: below)) :
    Leaves (Settled strict steady prompt origin none (some thread)) (modifyTop thread g) m := by
  obtain ⟨t, ht, hlive⟩ := isAlive_iff.1 halive
  obtain ⟨hmem, hid⟩ := mem_threads_of_thread? ht
  have hframes := ((hm.orderly.stands t hmem).inTurn rest (by rw [hid]) hlive).2
  refine leaves_of_run (modifyThread_run_of_some ht _) ?_
  have hchanged : Settled strict steady prompt origin (some (thread, rest.modifyHead g)) _ _ :=
    hm.restack (g := (·.modifyTop g)) (.inl halive) fun s hs => by
      rw [Stack.frames_modifyTop, hs]
  refine hchanged.leave fun _ => ?_
  cases rest with
  | nil =>
    unfold hasFrame at hframe
    rw [ht] at hframe
    simp [Stack.isEmpty, hframes] at hframe
  | cons f below => exact hg f below (hrest.resolve_left (List.cons_ne_nil f below))

/-- Whatever a step asks for, the turn of its thread ends with the machine in order. -/
theorem leaves_applyStep (hm : Settled strict steady prompt origin (some (thread, rest)) (some thread) m)
    (halive : m.isAlive thread = true) (hrest : rest = [] ∨ Stacked strict m.heap rest)
    {step : Step} (hcarries : Carries strict m.heap rest step) :
    Leaves (Settled strict steady prompt origin none (some thread)) (applyStep thread step) m := by
  unfold applyStep
  cases step with
  | push f child => exact leaves_pushChild hm halive hcarries
  | stay f => exact leaves_push hm halive hcarries
  | suspend f => exact leaves_push hm halive hcarries
  | done v =>
    refine leaves_get_bind ?_
    split
    · exact leaves_modifyTop hm halive ‹_› hrest fun f below hs => hs.handed v f.reference
    · exact leaves_finishThread hm halive _
  | ref r =>
    refine leaves_get_bind ?_
    split
    · exact leaves_modifyTop hm halive ‹_› hrest fun f below hs => hs.handed f.value (some r)
    · exact leaves_fault hm _
  | unwind c => exact leaves_unwind hm halive hrest hcarries

/-! ## The end of a turn -/

/-- A step that parks its thread leaves the machine in order, if the thread is still there. -/
theorem leaves_parked
    (hm : Settled strict steady prompt origin (some (thread, rest)) (some thread) m) {f : Frame}
    (hs : Stacked strict m.heap (f :: rest)) (hnode : f.node = none)
    (halive : steady → m.isAlive thread = true) {status : ThreadStatus}
    (hstatus : status = .sleeping ∨ status = .blocked ∧ Waits f) {g : Thread → Thread} {next : Nat}
    {clock : Host.Clock} {e : Event}
    (hmoment : Moment steady prompt e (some thread) m (some thread) { m with
      threads := updateThread thread g m.threads, nextQueued := next, clock })
    (hle : m.nextQueued ≤ next) (hqueued : ∀ t, (g t).queued = t.queued ∨
      m.nextQueued ≤ (g t).queued ∧ (g t).queued < next)
    (hg : ∀ t, (g t).id = t.id ∧ (g t).status = status ∧ (g t).stack = t.stack ∧
      (g t).outcome = t.outcome) :
    let parked := { m with
      threads := updateThread thread g m.threads, nextQueued := next, clock }
    if parked.isAlive thread then
      Leaves (Settled strict steady prompt origin none (some thread))
        (applyStep thread (.suspend f)) parked
    else Settled strict steady prompt origin none (some thread) parked := by
  intro parked
  have hled : Led steady prompt origin (some thread) parked := hm.led.moment hmoment
  have hread {threads : List Thread} : Serves { m with threads, nextQueued := next }
      { m with threads, nextQueued := next, clock } := { Serves.refl _ with }
  split
  · rename_i hlive
    obtain ⟨t, ht, -⟩ := isAlive_iff.1 hlive
    have hparked : Orderly strict steady none { m with
        threads := updateThread thread (fun t => { g t with stack := (g t).stack.push f }) m.threads
        nextQueued := next } :=
      hm.orderly.park hs hnode halive hstatus hle hqueued fun t =>
        ⟨(hg t).1, (hg t).2.1, by rw [(hg t).2.2.1], (hg t).2.2.2⟩
    have htwice : updateThread thread _ (updateThread thread g m.threads) = _ :=
      updateThread_updateThread (g := fun t => { t with stack := t.stack.push f })
        (fun t => (hg t).1) m.threads
    refine leaves_of_run (modifyThread_run_of_some ht _) ⟨?_, ⟨hm.quiet.current, hm.quiet.early⟩, ?_⟩
    · exact hparked.serves { Serves.refl _ with threads := htwice }
    · exact (hled.moment (.restack (g := (·.push f)) (.inl hlive))).moment .finish
  · rename_i hdead
    have habsent (t : Thread) (ht : t ∈ m.threads) : t.id ≠ thread := fun hid => by
      refine hdead (isAlive_iff.2 ⟨g t, ?_, ?_⟩)
      · have hfound : (updateThread thread g m.threads).find? _ = _ :=
          find?_updateThread (fun t => (hg t).1) m.threads
        rw [hm.orderly.queued.sorted.find?_eq ht hid] at hfound
        exact hfound
      · unfold Thread.isZombie
        rw [(hg t).2.1]
        rcases hstatus with rfl | ⟨rfl, -⟩ <;> rfl
    have ho : Orderly strict steady none m := hm.orderly.leave fun hlive => by
      obtain ⟨t, ht, -⟩ := isAlive_iff.1 hlive
      obtain ⟨hmem, hid⟩ := mem_threads_of_thread? ht
      exact absurd hid (habsent t hmem)
    refine ⟨?_, ⟨hm.quiet.current, hm.quiet.early⟩, hled.moment .finish⟩
    exact (ho.update hle (fun t => (hg t).1) hqueued (fun t ht _ => ho.stands t ht)
      (fun t ht hid => absurd hid (habsent t ht)) ho.issued).serves hread

/-! ## One step -/

/-- The label of a `break` that comes next does not stand directly before it or before a running try
statement. -/
def Heeds (m : Machine) (thread : ThreadId) : Prop :=
  ∀ t f rest here p l, m.thread? thread = some t → t.stack.frames = f :: rest →
    f.node = some here → m.heap.program? here.program = some p →
    p.kind? here.node = some (.breakStatement (some l)) →
      f.labels.getLast? ≠ some l ∧ ¬ Muted l rest

/-- After a step its thread has had its turn. -/
theorem leaves_ends {mid : Machine} {step : Step}
    (hmid : Settled strict steady prompt origin (some (thread, rest)) (some thread) mid)
    (hrest : rest = [] ∨ Stacked strict mid.heap rest)
    (hcarries : Carries strict mid.heap rest step)
    (hends : Ends steady prompt thread mid step m) :
    if m.isAlive thread then
      Leaves (Settled strict steady prompt origin none (some thread)) (applyStep thread step) m
    else Settled strict steady prompt origin none (some thread) m := by
  cases hends with
  | plain =>
    split
    · exact leaves_applyStep hmid ‹_› hrest hcarries
    · exact hmid.leave_of_dead ‹_›
  | recorded v =>
    have hm : Settled strict steady prompt origin (some (thread, Stack.recordIn v rest))
        (some thread) { mid with
          threads := updateThread thread
            (fun t => { t with stack := t.stack.recordCompletion v }) mid.threads } :=
      hmid.restack (g := (·.recordCompletion v))
        (.inr fun s hs => congrArg (Stack.recordIn v) hs)
        fun s hs => congrArg (Stack.recordIn v) hs
    split
    · refine leaves_applyStep hm ‹_› ?_ trivial
      exact hrest.imp (congrArg (Stack.recordIn v)) (·.recordIn v)
    · exact hm.leave_of_dead ‹_›
  | @blocked f halive hnode hwaits =>
    exact leaves_parked hmid hcarries hnode halive (.inr ⟨rfl, hwaits⟩)
      (.block halive) (Nat.le_refl _) (fun _ => .inl rfl) fun _ => ⟨rfl, rfl, rfl, rfl⟩
  | @asleep f hfree time next halive hnode hnext =>
    exact leaves_parked hmid hcarries hnode halive (.inl rfl)
      (.sleep hfree halive time hnext) (Nat.le_of_lt hnext)
      (fun _ => .inr ⟨Nat.le_refl _, hnext⟩) fun _ => ⟨rfl, rfl, rfl, rfl⟩
  | @napping f delay next halive hnode hnext =>
    exact leaves_parked hmid hcarries hnode halive (.inl rfl)
      (.nap halive delay hnext) (Nat.le_of_lt hnext)
      (fun _ => .inr ⟨Nat.le_refl _, hnext⟩) fun _ => ⟨rfl, rfl, rfl, rfl⟩

/-- A step leaves the machine in order, unless a counter ran out. -/
theorem leaves_stepThread {natives : Natives} (hnatives : natives.Each (Polite steady prompt))
    (hm : Settled strict steady prompt origin none (some thread) m) {t : Thread}
    (ht : m.thread? thread = some t) (hready : t.status = .ready)
    (hheeds : strict → m.Heeds thread) :
    Leaves (Settled strict steady prompt origin none (some thread)) (stepThread natives thread) m := by
  obtain ⟨hmem, hid⟩ := mem_threads_of_thread? ht
  have hlive : t.isZombie = false := by
    unfold Thread.isZombie
    rw [hready]
    rfl
  have hs := ((hm.orderly.stands t hmem).stacked (fun _ h => by cases h) hlive).1
  cases hframes : t.stack.frames with
  | nil =>
    rw [hframes] at hs
    cases hs
  | cons f rest =>
    rw [hframes] at hs
    have htop : t.stack.top? = some f := by
      unfold Stack.top?
      rw [hframes]
      rfl
    unfold stepThread
    refine leaves_of_bind_run (by rw [popFrame_run ht, htop]) ?_
    have hm₁ : Settled strict steady prompt origin (some (thread, rest)) (some thread) { m with
        threads := updateThread thread (fun t => { t with stack := t.stack.dropTop })
          m.threads } := hm.take ht hready hframes
    have halive := (isAlive_restack (m := m) (·.dropTop)).trans
      (isAlive_iff.2 ⟨t, ht, hlive⟩)
    have hdispatches := dispatches_dispatch hnatives hm₁.orderly.tidy hm₁.orderly.grammatical
      hs halive fun h here p l hnode hprogram hkind =>
        hheeds h t f rest here p l ht hframes hnode hprogram hkind
    have hbelow {mid : Machine} (hr : m.heap.Retains mid.heap) :
        rest = [] ∨ Stacked strict mid.heap rest := by
      cases rest with
      | nil => exact .inl rfl
      | cons g below => exact .inr (hs.tail.retained hr)
    unfold Dispatches at hdispatches
    refine Leaves.attempt_bind (P := fun _ => True) (leaves_of_after trivial)
      (fun step m' hrun _ => ?_) fun e m' hrun he _ => ?_
    · rw [hrun] at hdispatches
      obtain ⟨mid, hworked, hends, hcarries⟩ := hdispatches
      have hended := leaves_ends (hm₁.worked hworked)
        (hbelow (hworked.retains hm₁.orderly.tidy)) hcarries hends
      refine leaves_get_bind ?_
      split
      · rwa [if_pos ‹_›] at hended
      · rw [if_neg ‹_›] at hended
        exact leaves_pure () hended
    · rw [hrun] at hdispatches
      have hworked := hdispatches.resolve_left he
      have hm' : Settled strict steady prompt origin (some (thread, rest)) (some thread) m' :=
        hm₁.worked hworked
      refine leaves_get_bind ?_
      split
      · exact leaves_raise hm' ‹_› (hbelow (hworked.retains hm₁.orderly.tidy)) _ _
      · exact leaves_pure () (hm'.leave_of_dead ‹_›)

end Machine

end ScriptMachine
