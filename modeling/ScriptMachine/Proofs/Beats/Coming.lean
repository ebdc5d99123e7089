import ScriptMachine.Proofs.Beats.Apart

/-!
# What a turn comes to

The turn of a thread takes its top frame off, steps it and puts frames on the stack in its place.
Those below evaluate what they evaluated before. That is so up to the completion that the turn comes
to: then frames are dropped.
-/

namespace ScriptMachine

open Machine Exec Stack

namespace Machine

variable {m m' : Machine} {thread : ThreadId} {F F' rest : List Frame}

/-! ## The stack of a live thread -/

/-- A live thread has some frames. -/
structure Holds (thread : ThreadId) (F : List Frame) (m : Machine) : Prop where
  alive : m.isAlive thread = true
  frames : m.frames thread = F

/-- The machine after the stack of a thread is changed. -/
def restacked (m : Machine) (thread : ThreadId) (g : Stack → Stack) : Machine :=
  { m with threads := updateThread thread (fun t => { t with stack := g t.stack }) m.threads }

namespace Holds

theorem exists_thread (h : Holds thread F m) : ∃ t, m.thread? thread = some t ∧
    t.isZombie = false ∧ t.stack.frames = F := by
  obtain ⟨t, ht, hlive⟩ := isAlive_iff.1 h.alive
  exact ⟨t, ht, hlive, (frames_of_thread? ht).symm.trans h.frames⟩

theorem run_restack (h : Holds thread F m) (g : Stack → Stack) :
    modifyThread thread (fun t => { t with stack := g t.stack }) m =
      .ok () (m.restacked thread g) := by
  obtain ⟨t, ht, -⟩ := h.exists_thread
  exact modifyThread_run_of_some ht _

theorem restacked (h : Holds thread F m) {g : Stack → Stack}
    (hg : ∀ s : Stack, s.frames = F → (g s).frames = F') :
    Holds thread F' (m.restacked thread g) where
  alive := (isAlive_restack g).trans h.alive
  frames := by
    obtain ⟨t, ht, -, hframes⟩ := h.exists_thread
    have ht' : (m.restacked thread g).thread? thread = some { t with stack := g t.stack } := by
      unfold Machine.restacked
      rw [thread?_updateThread (f := fun t => { t with stack := g t.stack }) fun _ => rfl, ht]
      rfl
    rw [frames_of_thread? ht']
    exact hg _ hframes

theorem pushed (h : Holds thread F m) (f : Frame) :
    Holds thread (f :: F) (m.restacked thread (·.push f)) :=
  h.restacked fun _ hs => congrArg (f :: ·) hs

theorem depth (h : Holds thread F m) :
    ((m.thread? thread).map (·.stack.depth)).getD 0 = F.length := by
  obtain ⟨t, ht, -, rfl⟩ := h.exists_thread
  rw [ht]
  exact t.stack.depth_eq

theorem hasFrame (h : Holds thread F m) : m.hasFrame thread = !F.isEmpty := by
  obtain ⟨t, ht, -, rfl⟩ := h.exists_thread
  unfold Machine.hasFrame
  rw [ht]
  rfl

/-- A thread that is ended is not alive. -/
theorem ended (h : Holds thread F m) (outcome : Outcome) :
    let n := { m with threads := updateThread thread (·.finish outcome) m.threads }
    n.isAlive thread = false ∧ n.frames thread = [] := by
  obtain ⟨t, ht, -⟩ := h.exists_thread
  have ht' : ({ m with threads := updateThread thread (·.finish outcome) m.threads } :
      Machine).thread? thread = some (t.finish outcome) := by
    rw [thread?_updateThread (f := (·.finish outcome)) fun _ => rfl, ht]
    rfl
  constructor
  · unfold isAlive
    rw [ht']
    rfl
  · rw [frames_of_thread? ht']
    rfl

theorem of_threads (h : Holds thread F m) (hthreads : m'.threads = m.threads) :
    Holds thread F m' := by
  have hsame : m'.thread? thread = m.thread? thread := by
    unfold thread?
    rw [hthreads]
  constructor
  · unfold isAlive
    rw [hsame]
    exact h.alive
  · unfold Machine.frames
    rw [hsame]
    exact h.frames

/-- A fault ends a live thread. -/
theorem run_fault {α : Type} (h : Holds thread F m) (e : Failure) :
    ∃ n, (fault thread e : Exec α) m = .error e n ∧ n.isAlive thread = false ∧
      n.frames thread = [] := by
  obtain ⟨t, ht, hlive, -⟩ := h.exists_thread
  have hkill : killThread thread m = .ok true { m with
      threads := updateThread thread (·.finish .killed) m.threads } := by
    rw [killThread_run, ht]
    dsimp only
    rw [hlive, if_neg Bool.false_ne_true]
  exact ⟨_, (bind_run_of_ok hkill).trans rfl, h.ended .killed⟩

theorem run_finishThread (h : Holds thread F m) (outcome : Outcome) :
    ∃ n, finishThread thread outcome m = .ok () n ∧ n.isAlive thread = false ∧
      n.frames thread = [] := by
  obtain ⟨t, ht, -⟩ := h.exists_thread
  have hfinish (console : Host.Console) : ∃ n,
      (modifyThread thread fun t => t.finish outcome) { m with console } = .ok () n ∧
        n.isAlive thread = false ∧ n.frames thread = [] :=
    ⟨_, modifyThread_run_of_some (m := { m with console }) ht _,
      ((h.of_threads rfl : Holds thread F { m with console }).ended outcome)⟩
  unfold finishThread
  split
  · obtain ⟨n, hrun, hn⟩ := hfinish (m.console.write .error ("Uncaught " ++ m.uncaughtText _))
    exact ⟨n, (bind_run_of_ok (get_run m)).trans ((bind_run_of_ok rfl).trans hrun), hn⟩
  · exact hfinish m.console

end Holds

/-! ## Up to the completion -/

/-- Some frames are new, and those below evaluate what they did. -/
def Covers (rest F : List Frame) : Prop := ∃ new rest', F = new ++ rest' ∧ Agree rest rest'

/-- What the first half of a turn comes to, where the top frame was above others. -/
def Comes (thread : ThreadId) (rest : List Frame) : EStateM.Result Failure Machine Progress → Prop
  | .error e m => e = .overflow ∨ m.isAlive thread = false
  | .ok .struck m => m.isAlive thread = false
  | .ok .quiet m => Covers rest (m.frames thread)
  | .ok (.unwinding _) m => m.isAlive thread = true ∧ Covers rest (m.frames thread)

/-- A failure becomes a throw that unwinds the frames there are, or a fault of the host. -/
theorem Holds.thrown_cases (h : Holds thread F m) (scope : ScopeId) (e : Failure) :
    (∃ e' n, thrown thread scope e m = .error e' n ∧ (e' = .overflow ∨ n.isAlive thread = false)) ∨
      e.isFault = false ∧ ∃ v n,
        thrown thread scope e m = .ok (.unwinding { kind := .throw, value := v }) n ∧
          Holds thread F n := by
  unfold thrown
  split
  · obtain ⟨n, hrun, hdead, -⟩ := h.run_fault (α := Progress) e
    exact .inl ⟨e, n, hrun, .inr hdead⟩
  · rename_i hfault
    have hthreads := keeps_threads_errorToValue m.threads e scope thread m rfl
    unfold after at hthreads
    cases hvalue : errorToValue e scope thread m with
    | ok v n =>
      rw [hvalue] at hthreads
      have hattempt : attempt (errorToValue e scope thread) m = .ok (.ok v) n := by
        rw [attempt, hvalue]
      refine .inr ⟨Bool.eq_false_iff.2 hfault, v, n, ?_, h.of_threads hthreads⟩
      exact bind_run_of_ok hattempt
    | error e' n =>
      rw [hvalue] at hthreads
      by_cases he : e' = .overflow
      · subst he
        have hattempt : attempt (errorToValue e scope thread) m = .error .overflow n := by
          rw [attempt, hvalue]
        exact .inl ⟨.overflow, n, by rw [bind_run, hattempt], .inl rfl⟩
      · have hattempt : attempt (errorToValue e scope thread) m = .ok (.error e') n := by
          rw [attempt, hvalue]
          cases e' with
          | overflow => exact absurd rfl he
          | _ => rfl
        obtain ⟨n', hrun, hdead, -⟩ := (h.of_threads hthreads).run_fault (α := Progress) e'
        exact .inl ⟨e', n', (bind_run_of_ok hattempt).trans hrun, .inr hdead⟩

theorem Holds.comes_thrown (h : Holds thread F m) (hF : Covers rest F) (scope : ScopeId)
    (e : Failure) : Comes thread rest (thrown thread scope e m) := by
  rcases h.thrown_cases scope e with ⟨e', n, hrun, hend⟩ | ⟨-, v, n, hrun, hn⟩
  · rw [hrun]
    exact hend
  · rw [hrun]
    exact ⟨hn.alive, hn.frames.symm ▸ hF⟩

/-- A child is put on the stack, unless the stack is full. -/
theorem Holds.run_place (h : Holds thread F m) (f child : Frame) :
    place thread f child m =
      if F.length + 1 ≥ m.config.maxStackDepth then
        thrown thread f.scope (.rangeError "Maximum call stack size exceeded")
          (m.restacked thread (·.push f))
      else .ok .quiet ((m.restacked thread (·.push f)).restacked thread (·.push child)) := by
  have hpushed := h.pushed f
  unfold place
  rw [bind_run_of_ok (h.run_restack (·.push f)), bind_run_of_ok (get_run _),
    bind_run_of_ok (get_run _), hpushed.depth]
  change (if F.length + 1 ≥ m.config.maxStackDepth then _ else _ : Exec Progress) _ = _
  split
  · rfl
  · exact (bind_run_of_ok (hpushed.run_restack (·.push child))).trans rfl

theorem covers_cons (f : Frame) (h : Covers rest F) : Covers rest (f :: F) := by
  obtain ⟨new, rest', rfl, hagree⟩ := h
  exact ⟨f :: new, rest', rfl, hagree⟩

theorem Holds.covers (h : Holds thread F m) (hF : Covers rest F) : Covers rest (m.frames thread) :=
  h.frames.symm ▸ hF

/-- A child hands what it evaluated to the frame below. -/
theorem Holds.run_modifyTop (h : Holds thread F m) {g : Frame → Frame}
    (hg : ∀ f : Frame, f.Agrees (g f)) : ∃ n F', modifyTop thread g m = .ok () n ∧
      Holds thread F' n ∧ Agree F F' :=
  ⟨_, F.modifyHead g, h.run_restack (·.modifyTop g),
    h.restacked fun s hs => by rw [frames_modifyTop, hs], agree_modifyHead hg F⟩

/-- What is done depends on whether there is a frame below. -/
theorem Holds.run_hand (h : Holds thread F m) (x y : Exec Unit) :
    (do if (← get).hasFrame thread then x else y : Exec Unit) m = if F = [] then y m else x m := by
  refine (bind_run_of_ok (get_run m)).trans ?_
  rw [h.hasFrame]
  cases F <;> rfl

/-- A frame is put back on the stack. -/
theorem Holds.run_carry_push (h : Holds thread F m) {step : Step} {f : Frame}
    (hstep : step = .stay f ∨ step = .suspend f) :
    carry thread step m = .ok .quiet (m.restacked thread (·.push f)) := by
  rcases hstep with rfl | rfl
  · exact bind_run_of_ok (h.run_restack (·.push f))
  · exact bind_run_of_ok (h.run_restack (·.push f))

/-- A value is handed to the frame below. -/
theorem Holds.run_carry_done (h : Holds thread F m) (v : Value) (hF : F ≠ []) :
    ∃ n F', carry thread (.done v) m = .ok .quiet n ∧ Holds thread F' n ∧ Agree F F' := by
  obtain ⟨n, F', hrun, hn, hagree⟩ :=
    h.run_modifyTop (g := fun p => { p with value := v }) fun f => .handed f v f.reference
  refine ⟨n, F', ?_, hn, hagree⟩
  have happly : applyStep thread (.done v) m = .ok () n :=
    (h.run_hand _ _).trans ((if_neg hF).trans hrun)
  exact bind_run_of_ok happly

/-- Whatever a step asks for, the frames below it evaluate what they did. -/
theorem Holds.comes_carry (h : Holds thread F m) (hF : Agree rest F) (step : Step) :
    Comes thread rest (carry thread step m) := by
  have hcovers : Covers rest F := ⟨[], F, rfl, hF⟩
  cases step with
  | push f child =>
    change Comes thread rest (place thread f child m)
    rw [h.run_place]
    split
    · exact (h.pushed f).comes_thrown (covers_cons f hcovers) _ _
    · exact ((h.pushed f).pushed child).covers (covers_cons child (covers_cons f hcovers))
  | stay f =>
    rw [h.run_carry_push (.inl rfl)]
    exact (h.pushed f).covers (covers_cons f hcovers)
  | suspend f =>
    rw [h.run_carry_push (.inr rfl)]
    exact (h.pushed f).covers (covers_cons f hcovers)
  | unwind c => exact ⟨h.alive, h.covers hcovers⟩
  | done v =>
    by_cases hempty : F = []
    · subst hempty
      obtain ⟨n, hrun, -, hframes⟩ := h.run_finishThread (.completed v)
      have happly : applyStep thread (.done v) m = .ok () n := (h.run_hand _ _).trans hrun
      have hcarry : carry thread (.done v) m = .ok .quiet n := bind_run_of_ok happly
      rw [hcarry]
      exact ⟨[], [], hframes, hF⟩
    · obtain ⟨n, F', hrun, hn, hagree⟩ := h.run_carry_done v hempty
      rw [hrun]
      exact hn.covers ⟨[], F', rfl, hF.trans hagree⟩
  | ref r =>
    by_cases hempty : F = []
    · subst hempty
      obtain ⟨n, hrun, hdead, -⟩ := h.run_fault (α := Unit) (.fault .referenceAtBase)
      have happly : applyStep thread (.ref r) m = .error (.fault .referenceAtBase) n :=
        (h.run_hand _ _).trans hrun
      have hcarry : carry thread (.ref r) m = .error (.fault .referenceAtBase) n :=
        (bind_run _ _ m).trans (by rw [happly])
      rw [hcarry]
      exact .inr hdead
    · obtain ⟨n, F', hrun, hn, hagree⟩ := h.run_modifyTop
        (g := fun p => { p with reference := some r }) fun f => .handed f f.value (some r)
      have happly : applyStep thread (.ref r) m = .ok () n :=
        (h.run_hand _ _).trans ((if_neg hempty).trans hrun)
      have hcarry : carry thread (.ref r) m = .ok .quiet n := bind_run_of_ok happly
      rw [hcarry]
      exact hn.covers ⟨[], F', rfl, hF.trans hagree⟩

/-! ## The turn of a thread in a settled machine -/

variable {natives : Natives} {origin : Machine}

/-- The thread whose turn it is has the frames below the one that is stepped. -/
theorem Settled.holds {strict steady prompt : Prop}
    (hm : Settled strict steady prompt origin (some (thread, rest)) (some thread) m)
    (halive : m.isAlive thread = true) : Holds thread rest m := by
  obtain ⟨t, ht, hlive⟩ := isAlive_iff.1 halive
  obtain ⟨hmem, hid⟩ := mem_threads_of_thread? ht
  refine ⟨halive, (frames_of_thread? ht).trans ?_⟩
  exact ((hm.orderly.stands t hmem).inTurn rest (by rw [hid]) hlive).2

/-- The top frame of a thread is taken off its stack. -/
structure Popped (origin : Machine) (thread : ThreadId) (f : Frame) (rest : List Frame)
    (m m' : Machine) : Prop where
  run : popFrame thread m = .ok (some f) m'
  frames : m.frames thread = f :: rest
  heap : m'.heap = m.heap
  settled : Settled False True False origin (some (thread, rest)) (some thread) m'
  stacked : Stacked False m'.heap (f :: rest)
  holds : Holds thread rest m'
  apart : ActsApart thread m m'

theorem exists_popped (hm : Settled False True False origin none (some thread) m)
    (hready : m.threadStatus thread = some .ready) :
    ∃ f rest m', Popped origin thread f rest m m' := by
  obtain ⟨t, ht, hstatus⟩ := Option.map_eq_some_iff.1 hready
  obtain ⟨hmem, hid⟩ := mem_threads_of_thread? ht
  have hlive : t.isZombie = false := by
    unfold Thread.isZombie
    rw [hstatus]
    rfl
  have hs := ((hm.orderly.stands t hmem).stacked (fun _ h => by cases h) hlive).1
  cases hframes : t.stack.frames with
  | nil =>
    rw [hframes] at hs
    cases hs
  | cons f rest =>
    rw [hframes] at hs
    have htop : t.stack.top? = some f := by
      unfold Stack.top?
      rw [hframes]
      rfl
    have hrun := popFrame_run ht
    rw [htop] at hrun
    have hsettled := hm.take ht hstatus hframes
    have halive := (isAlive_restack (m := m) (·.dropTop)).trans (isAlive_iff.2 ⟨t, ht, hlive⟩)
    refine ⟨f, rest, _, hrun, (frames_of_thread? ht).trans hframes, rfl, hsettled, hs,
      hsettled.holds halive, ?_⟩
    exact .restack (fun _ => rfl) fun _ => rfl

/-- A live thread whose status was changed has the frames that it had. -/
theorem Holds.retimed (h : Holds thread F m) {g : Thread → Thread}
    (hthreads : m'.threads = updateThread thread g m.threads) (hid : ∀ t, (g t).id = t.id)
    (hstack : ∀ t, (g t).stack = t.stack) (halive : m'.isAlive thread = true) :
    Holds thread F m' := by
  obtain ⟨t, ht, -, hframes⟩ := h.exists_thread
  have ht' : m'.thread? thread = some (g t) := by
    unfold thread?
    rw [hthreads, find?_updateThread hid]
    change (m.thread? thread).map g = _
    rw [ht]
    rfl
  refine ⟨halive, (frames_of_thread? ht').trans ?_⟩
  rw [hstack, hframes]

/-- The frames that a step leaves on the stack of its thread. -/
theorem holds_of_ends {mid : Machine} {step : Step}
    (hmid : Settled False True False origin (some (thread, rest)) (some thread) mid)
    (hends : Ends True False thread mid step m) (halive : m.isAlive thread = true) :
    ∃ rest', Holds thread rest' m ∧ Stay rest rest' := by
  cases hends with
  | plain => exact ⟨rest, hmid.holds halive, Stay.refl rest⟩
  | recorded v =>
    have hlive : mid.isAlive thread = true :=
      (isAlive_restack (·.recordCompletion v)).symm.trans halive
    have hholds : Holds thread (recordIn v rest) _ :=
      (hmid.holds hlive).restacked (g := (·.recordCompletion v))
        fun s hs => congrArg (recordIn v) hs
    exact ⟨_, hholds, stay_recordIn v rest⟩
  | blocked hlive _ _ =>
    exact ⟨rest, (hmid.holds (hlive trivial)).retimed rfl (fun _ => rfl) (fun _ => rfl) halive,
      Stay.refl rest⟩
  | asleep _ _ hlive _ _ =>
    exact ⟨rest, (hmid.holds (hlive trivial)).retimed rfl (fun _ => rfl) (fun _ => rfl) halive,
      Stay.refl rest⟩
  | napping _ hlive _ _ =>
    exact ⟨rest, (hmid.holds (hlive trivial)).retimed rfl (fun _ => rfl) (fun _ => rfl) halive,
      Stay.refl rest⟩

/-- The end of a step leaves to the scheduler what is its own. -/
theorem fixed_of_ends {steady prompt : Prop} {mid : Machine} {step : Step} {depth : Nat}
    {last : Option ThreadId} (hends : Ends steady prompt thread mid step m)
    (hm : m.Fixed depth last) : mid.Fixed depth last := by
  cases hends <;> exact hm

/-- A step that gives a result is carried out if its thread is still there. -/
theorem Popped.advance_of_ok {f : Frame} {m₁ m₂ : Machine} {step : Step}
    (hp : Popped origin thread f rest m m₁) (hrun : dispatch natives thread f m₁ = .ok step m₂) :
    advance natives thread m =
      if m₂.isAlive thread = true then carry thread step m₂ else .ok .struck m₂ := by
  have hattempt : attempt (dispatch natives thread f) m₁ = .ok (.ok step) m₂ := by
    rw [attempt, hrun]
  unfold advance
  rw [bind_run_of_ok hp.run]
  refine (bind_run_of_ok hattempt).trans ((bind_run_of_ok (get_run m₂)).trans ?_)
  split <;> rfl

/-- A step that fails throws into its thread if that is still there. -/
theorem Popped.advance_of_error {f : Frame} {m₁ m₂ : Machine} {e : Failure}
    (hp : Popped origin thread f rest m m₁) (hrun : dispatch natives thread f m₁ = .error e m₂)
    (he : e ≠ .overflow) :
    advance natives thread m =
      if m₂.isAlive thread = true then thrown thread f.scope e m₂ else .ok .struck m₂ := by
  have hattempt : attempt (dispatch natives thread f) m₁ = .ok (.error e) m₂ := by
    rw [attempt, hrun]
    cases e with
    | overflow => exact absurd rfl he
    | _ => rfl
  unfold advance
  rw [bind_run_of_ok hp.run]
  refine (bind_run_of_ok hattempt).trans ((bind_run_of_ok (get_run m₂)).trans ?_)
  split <;> rfl

theorem Popped.advance_of_overflow {f : Frame} {m₁ m₂ : Machine}
    (hp : Popped origin thread f rest m m₁)
    (hrun : dispatch natives thread f m₁ = .error .overflow m₂) :
    advance natives thread m = .error .overflow m₂ := by
  have hattempt : attempt (dispatch natives thread f) m₁ = .error .overflow m₂ := by
    rw [attempt, hrun]
  unfold advance
  rw [bind_run_of_ok hp.run]
  exact (bind_run _ _ m₁).trans (by rw [hattempt])

section Turns

variable (hcivil : natives.Each (Civil True)) (hmoderate : natives.Each Moderate)

include hcivil hmoderate

/-- A step leaves the frames below it as they were, or ends its thread. -/
theorem leaves_dispatch {f : Frame} {m₁ : Machine} (hp : Popped origin thread f rest m m₁) :
    Leaves (fun m₂ => ActsApart thread m₁ m₂ ∧
      (m₂.isAlive thread = true → ∃ rest', Holds thread rest' m₂ ∧ Stay rest rest'))
      (dispatch natives thread f) m₁ := by
  have hpolite : natives.Each (Polite True False) := hcivil.mono fun _ h => ⟨h, False.elim⟩
  have ht := hp.settled.orderly.tidy
  have hn : m₁.Numbered := hp.settled.orderly.queued
  have hscope : ∃ s, m₁.heap.scope? f.scope = some s := hp.stacked.sits.scope
  have hfixed {depth : Nat} {last : Option ThreadId} (hm : m₁.Fixed depth last) :
      (after (dispatch natives thread f) m₁).Fixed depth last :=
    fixed_dispatch hmoderate ht hm hscope
  have hdispatches := dispatches_dispatch hpolite ht hp.settled.orderly.grammatical hp.stacked
    hp.holds.alive fun h => h.elim
  unfold Dispatches at hdispatches
  unfold Leaves
  cases hrun : dispatch natives thread f m₁ with
  | ok step m₂ =>
    rw [hrun] at hdispatches
    obtain ⟨mid, hworked, hends, -⟩ := hdispatches
    have hmid : ActsApart thread m₁ mid := .worked
      (fun hm => fixed_of_ends hends (after_of_ok hrun ▸ hfixed hm)) ht hn hworked
    exact ⟨hmid.trans (.ends hends), holds_of_ends (hp.settled.worked hworked) hends⟩
  | error e m₂ =>
    rw [hrun] at hdispatches
    refine hdispatches.imp_right fun hworked => ⟨?_, fun halive => ?_⟩
    · exact .worked (fun hm => after_of_error hrun ▸ hfixed hm) ht hn hworked
    · exact ⟨rest, (hp.settled.worked hworked).holds halive, Stay.refl rest⟩

/-- Up to its completion a turn leaves the frames below the top one as far as they were. -/
theorem comes_advance {f : Frame} {m₁ : Machine} (hp : Popped origin thread f rest m m₁) :
    Comes thread rest (advance natives thread m) := by
  have hleaves := leaves_dispatch hcivil hmoderate hp
  unfold Leaves at hleaves
  have hdead {m₂ : Machine} (h : ¬ m₂.isAlive thread = true) :
      Comes thread rest (.ok .struck m₂) := Bool.eq_false_iff.2 h
  cases hrun : dispatch natives thread f m₁ with
  | ok step m₂ =>
    rw [hrun] at hleaves
    rw [hp.advance_of_ok hrun]
    split
    · obtain ⟨rest', hholds, hstay⟩ := hleaves.2 ‹_›
      exact hholds.comes_carry hstay.agree step
    · exact hdead ‹_›
  | error e m₂ =>
    rw [hrun] at hleaves
    by_cases he : e = .overflow
    · subst he
      rw [hp.advance_of_overflow hrun]
      exact .inl rfl
    · rw [hp.advance_of_error hrun he]
      split
      · obtain ⟨rest', hholds, hstay⟩ := (hleaves.resolve_left he).2 ‹_›
        exact hholds.comes_thrown ⟨[], rest', rfl, hstay.agree⟩ _ _
      · exact hdead ‹_›

/-- Up to its completion a turn leaves everything alone apart from the frames of its thread. -/
theorem leaves_apart_advance {f : Frame} {m₁ : Machine}
    (hp : Popped origin thread f rest m m₁) :
    Leaves (ActsApart thread m) (advance natives thread) m := by
  have hleaves := leaves_dispatch hcivil hmoderate hp
  have hrest {x : Exec Progress} {m₂ : Machine} (hx : StaysApart thread x)
      (h : ActsApart thread m₁ m₂) : Leaves (ActsApart thread m) x m₂ :=
    leaves_of_after ((hp.apart.trans h).trans (hx m₂))
  unfold advance
  refine leaves_of_bind_run hp.run ?_
  refine hleaves.attempt_bind (fun step m₂ _ h => ?_) fun e m₂ _ _ h => ?_
  · refine leaves_get_bind ?_
    split
    · exact hrest (staysApart_carry step) h.1
    · exact hrest (staysApart.pure _) h.1
  · refine leaves_get_bind ?_
    split
    · exact hrest (staysApart_thrown _ e) h.1
    · exact hrest (staysApart.pure _) h.1

/-- A turn leaves everything alone apart from the frames of its thread. -/
theorem leaves_apart_stepThread (hm : Settled False True False origin none (some thread) m)
    (hready : m.threadStatus thread = some .ready) :
    Leaves (ActsApart thread m) (stepThread natives thread) m := by
  obtain ⟨f, rest, m₁, hp⟩ := exists_popped hm hready
  rw [stepThread_eq_advance]
  refine (leaves_apart_advance hcivil hmoderate hp).bind (fun p n _ h => ?_) fun _ h => h
  exact leaves_of_after (h.trans (staysApart_release p n))

end Turns

end Machine

end ScriptMachine
