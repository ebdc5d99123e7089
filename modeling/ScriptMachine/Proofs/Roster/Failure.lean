import Mathlib.Logic.Relation
import ScriptMachine.Proofs.Order.Operation
import ScriptMachine.Proofs.Order.Settled
import ScriptMachine.Proofs.Restore.Image
import ScriptMachine.Proofs.Roster.Turn

/-!
# What a failed step leaves behind

A step that fails has changed no thread but its own, and has ended that one, with one exception:
when unwinding comes to a try statement that cannot be judged, the thread goes on, without the
frames that were dropped.

A host function is discreet if a step that calls it and fails has changed no thread but its own, and
of that one nothing but the time it may take, unless it ended it. All builtins are: those that start or
end another thread do that last.
-/

namespace ScriptMachine

open Machine Exec

/-! ## Other threads -/

/-- Where nothing was settled early, every other thread stays as it is and nothing is settled
early. -/
def Roster.Spares (thread : ThreadId) (r s : Roster) : Prop :=
  r.earlySettlements = [] →
    s.threads.filter (·.id != thread) = r.threads.filter (·.id != thread) ∧
      s.earlySettlements = []

/-- A thread goes on as it was, but for the time it may take, or has ended. -/
def Thread.GoesOn (t t' : Thread) : Prop :=
  t'.isZombie = true ∨
    ∃ limit started, t' = { t with timeLimit := limit, runStarted := started }

/-- Where nothing was settled early, a thread of the table goes on or has ended, and nothing is
settled early. -/
def Roster.Tends (thread : ThreadId) (r s : Roster) : Prop :=
  r.earlySettlements = [] → s.earlySettlements = [] ∧
    ∀ t, r.threads.find? (·.id == thread) = some t →
      ∃ t', s.threads.find? (·.id == thread) = some t' ∧ t.GoesOn t'

/-- Where nothing was settled early, nothing is. -/
def Roster.Hushes (r s : Roster) : Prop := r.earlySettlements = [] → s.earlySettlements = []

namespace Machine

/-- A thread that is changed is none of the others. -/
theorem filter_updateThread {thread : ThreadId} {f : Thread → Thread}
    (hid : ∀ t, (f t).id = t.id) (threads : List Thread) :
    (updateThread thread f threads).filter (·.id != thread) =
      threads.filter (·.id != thread) := by
  induction threads with
  | nil => rfl
  | cons t rest ih =>
    unfold updateThread
    by_cases ht : t.id = thread
    · simp [ht, hid]
    · simp [ht, ih]

end Machine

theorem Roster.stepping_spares (thread : ThreadId) : Stepping thread (Roster.Spares thread) where
  refl _ hearly := ⟨rfl, hearly⟩
  trans h h' hearly := by
    obtain ⟨hothers, hearly⟩ := h hearly
    obtain ⟨hothers', hearly⟩ := h' hearly
    exact ⟨hothers'.trans hothers, hearly⟩
  tend r _ hid _ hearly := ⟨filter_updateThread hid r.threads, hearly⟩
  queue _ hearly := ⟨rfl, hearly⟩
  requeue r _ hid _ hearly := ⟨filter_updateThread hid r.threads, hearly⟩

theorem Roster.stepping_hushes (thread : ThreadId) : Stepping thread Roster.Hushes where
  refl _ hearly := hearly
  trans h h' hearly := h' (h hearly)
  tend _ _ _ _ hearly := hearly
  queue _ hearly := hearly
  requeue _ _ _ _ hearly := hearly

theorem Thread.GoesOn.refl (t : Thread) : t.GoesOn t := .inr ⟨t.timeLimit, t.runStarted, rfl⟩

theorem Thread.GoesOn.trans {t t' t'' : Thread} (h : t.GoesOn t') (h' : t'.GoesOn t'') :
    t.GoesOn t'' := by
  rcases h' with hended | ⟨limit, started, rfl⟩
  · exact .inl hended
  · rcases h with hended | ⟨_, _, rfl⟩
    · exact .inl hended
    · exact .inr ⟨limit, started, rfl⟩

theorem Roster.chains_tends (thread : ThreadId) : Chains (Roster.Tends thread) where
  refl _ hearly := ⟨hearly, fun t ht => ⟨t, ht, .refl t⟩⟩
  trans h h' hearly := by
    obtain ⟨hearly', htends⟩ := h hearly
    obtain ⟨hearly'', htends'⟩ := h' hearly'
    refine ⟨hearly'', fun t ht => ?_⟩
    obtain ⟨t', ht', hgoes⟩ := htends t ht
    obtain ⟨t'', ht'', hgoes'⟩ := htends' t' ht'
    exact ⟨t'', ht'', hgoes.trans hgoes'⟩

/-! ## Host functions -/

/-- A host function changes no thread but its caller unless it gives a value, and only settles
something early for its caller, and nothing when it changed another thread. The caller goes on as it
was, but for the time it may take, or has ended. -/
structure Discreet (code : NativeCode) : Prop where
  early : ∀ c m, m.earlySettlements = [] →
    ∀ s ∈ (after (code c) m).earlySettlements, s.1 = c.thread
  others : ∀ c m, m.earlySettlements = [] →
    ((after (code c) m).threads.filter (·.id != c.thread) =
        m.threads.filter (·.id != c.thread) ∧
      ∀ t, m.thread? c.thread = some t →
        ∃ t', (after (code c) m).thread? c.thread = some t' ∧ t.GoesOn t') ∨
      (∃ reply v m', code c m = .ok reply m' ∧ reply.result = .value v ∧
        m'.earlySettlements = []) ∨
      ∃ m', code c m = .error .overflow m'

/-- The results of a step that cannot fail any more, and of one whose counter ran out. -/
def Excused : EStateM.Result Failure Machine Step → Prop
  | .ok (.done _) _ => True
  | .ok (.suspend _) _ => True
  | .error .overflow _ => True
  | _ => False

/-- A counter ran out. -/
def RanOut (r : EStateM.Result Failure Machine Step) : Prop := ∃ m, r = .error .overflow m

namespace Discreet

variable {code : NativeCode} {thread : ThreadId}

theorem of_aloof (h : ∀ c, Aloof (code c)) : Discreet code where
  early c m hearly s hs := by
    have hsame : (after (code c) m).earlySettlements = m.earlySettlements :=
      congrArg Roster.earlySettlements (h c m)
    rw [hsame, hearly] at hs
    cases hs
  others c m _ := by
    have hsame : (after (code c) m).threads = m.threads := congrArg Roster.threads (h c m)
    refine .inl ⟨congrArg _ hsame, fun t ht => ⟨t, ?_, .refl t⟩⟩
    unfold thread?
    rw [hsame]
    exact ht

/-- Nothing that was settled early is left when the caller has taken it. -/
theorem earlySettlements_answer (h : Discreet code) (c : NativeCall) {m : Machine}
    (hearly : m.earlySettlements = []) :
    (after (answer code c) m).earlySettlements = [] ∨ ∃ m', code c m = .error .overflow m' := by
  have htaken : (after (takeEarly c.thread) (after (code c) m)).earlySettlements = [] := by
    refine List.filter_eq_nil_iff.2 fun s hs => ?_
    simp [h.early c m hearly s hs]
  cases hrun : code c m with
  | ok reply m' =>
    refine .inl ?_
    have hattempt : attempt (code c) m = .ok (.ok reply) m' := by rw [attempt, hrun]
    unfold answer
    rw [after_bind, hattempt]
    exact after_of_ok hrun ▸ htaken
  | error e m' =>
    by_cases he : e = .overflow
    · exact .inr ⟨m', by rw [he]⟩
    · refine .inl ?_
      have hattempt : attempt (code c) m = .ok (.error e) m' := by
        unfold attempt
        rw [hrun]
        cases e <;> first | rfl | exact absurd rfl he
      unfold answer
      rw [after_bind, hattempt]
      exact after_of_error hrun ▸ htaken

theorem threads_answer (code : NativeCode) (c : NativeCall) (m : Machine) :
    (after (answer code c) m).threads = (after (code c) m).threads := by
  unfold answer
  rw [after_bind, ← after_attempt (code c) m]
  cases hrun : attempt (code c) m with
  | ok r m' =>
    rw [after_of_ok hrun]
    rfl
  | error e m' => rw [after_of_error hrun]

theorem hushes (h : Discreet code) : CallsAlong thread Roster.Hushes RanOut code := by
  intro c m hc
  by_cases hearly : m.earlySettlements = []
  · rcases h.earlySettlements_answer c hearly with hanswer | ⟨m', hrun⟩
    · exact .inl fun _ => hanswer
    · exact .inr (.inr ⟨m', hrun, m', rfl⟩)
  · exact .inl fun hnone => absurd hnone hearly

/-- A relation that holds where nothing was settled early, and that a discreet host function keeps. -/
theorem callsAlong (h : Discreet code) {R : Roster → Roster → Prop}
    (hR : ∀ {r s : Roster}, (r.earlySettlements = [] → R r s) → R r s)
    (hcalled : ∀ c m, c.thread = thread → (after (answer code c) m).earlySettlements = [] →
      (after (code c) m).threads.filter (·.id != c.thread) =
        m.threads.filter (·.id != c.thread) →
      (∀ t, m.thread? c.thread = some t →
        ∃ t', (after (code c) m).thread? c.thread = some t' ∧ t.GoesOn t') →
      R m.roster (after (answer code c) m).roster) : CallsAlong thread R Excused code := by
  intro c m hc
  by_cases hearly : m.earlySettlements = []
  · rcases h.earlySettlements_answer c hearly with hanswer | ⟨m', hrun⟩
    · rcases h.others c m hearly with ⟨hothers, hown⟩ | ⟨reply, v, m', hrun, hv, hleft⟩ | ⟨m', hrun⟩
      · exact .inl (hcalled c m hc hanswer hothers hown)
      · exact .inr (.inl ⟨reply, v, m', hrun, hv, by rw [hleft]; rfl, fun _ => trivial⟩)
      · exact .inr (.inr ⟨m', hrun, trivial⟩)
    · exact .inr (.inr ⟨m', hrun, trivial⟩)
  · exact .inl (hR fun hnone => absurd hnone hearly)

theorem spares (h : Discreet code) : CallsAlong thread (Roster.Spares thread) Excused code := by
  refine h.callsAlong (fun himp hearly => himp hearly hearly) fun c m hc hanswer hothers _ _ => ?_
  subst hc
  exact ⟨(congrArg _ (threads_answer code c m)).trans hothers, hanswer⟩

theorem tends (h : Discreet code) : CallsAlong thread (Roster.Tends thread) Excused code := by
  refine h.callsAlong (fun himp hearly => himp hearly hearly) fun c m hc hanswer _ hown _ => ?_
  subst hc
  refine ⟨hanswer, ?_⟩
  have hsame : (after (answer code c) m).roster.threads = (after (code c) m).threads :=
    threads_answer code c m
  rw [hsame]
  exact hown

end Discreet

/-- An operation settles nothing early, and when it fails, all threads are as they were. -/
def Cautious {α : Type} (x : Exec α) : Prop :=
  ∀ m, (after x m).earlySettlements = m.earlySettlements ∧
    ((∃ a m', x m = .ok a m') ∨ (after x m).threads = m.threads)

section Cautious

variable {α β : Type}

theorem Exec.Aloof.cautious {x : Exec α} (h : Aloof x) : Cautious x := fun m =>
  ⟨congrArg Roster.earlySettlements (h m), .inr (congrArg Roster.threads (h m))⟩

/-- What leaves the roster alone may fail before a cautious operation. -/
theorem Exec.Aloof.bindCautious {x : Exec α} {f : α → Exec β} (hx : Aloof x)
    (hf : ∀ a, Cautious (f a)) : Cautious (x >>= f) := by
  intro m
  cases hrun : x m with
  | error e m' =>
    have hsame : m'.roster = m.roster := after_of_error hrun ▸ hx m
    rw [after_bind, hrun]
    exact ⟨congrArg Roster.earlySettlements hsame, .inr (congrArg Roster.threads hsame)⟩
  | ok a m' =>
    have hsame : m'.roster = m.roster := after_of_ok hrun ▸ hx m
    obtain ⟨hearly, hend⟩ := hf a m'
    rw [after_bind, bind_run, hrun]
    exact ⟨hearly.trans (congrArg Roster.earlySettlements hsame),
      hend.imp_right (·.trans (congrArg Roster.threads hsame))⟩

/-- What cannot fail may come after a cautious operation. -/
theorem Cautious.bind_pure {x : Exec α} (hx : Cautious x) (g : α → β) :
    Cautious (do return g (← x)) := by
  intro m
  obtain ⟨hearly, hend⟩ := hx m
  unfold after at hearly hend ⊢
  rw [bind_run]
  cases hrun : x m with
  | ok a m' =>
    rw [hrun] at hearly
    exact ⟨hearly, .inl ⟨g a, m', rfl⟩⟩
  | error e m' =>
    rw [hrun] at hearly hend
    exact ⟨hearly, .inr (hend.resolve_left fun ⟨_, _, h⟩ => by cases h)⟩

theorem Discreet.of_cautious {f : NativeCall → Exec Value} (h : ∀ c, Cautious (f c)) :
    Discreet (.ofValue f) := by
  constructor
  · intro c m hearly s hs
    have hnone := ((h c).bind_pure (fun v => c.reply (.value v)) m).1.trans hearly
    rw [NativeCode.ofValue, hnone] at hs
    cases hs
  · intro c m hearly
    obtain ⟨hnone, hend⟩ := h c m
    cases hrun : f c m with
    | ok v m' =>
      refine .inr (.inl ⟨c.reply (.value v), v, m', bind_run_of_ok hrun, rfl, ?_⟩)
      exact after_of_ok hrun ▸ hnone.trans hearly
    | error e m' =>
      have hsame : (after (NativeCode.ofValue f c) m).threads = m.threads := by
        rw [NativeCode.ofValue, after_bind, hrun, ← after_of_error hrun]
        exact hend.resolve_left fun ⟨_, _, hok⟩ => by cases hrun.symm.trans hok
      refine .inl ⟨congrArg _ hsame, fun t ht => ⟨t, ?_, .refl t⟩⟩
      unfold thread?
      rw [hsame]
      exact ht

theorem cautious_modifyThread (thread : ThreadId) (f : Thread → Thread) :
    Cautious (modifyThread thread f) := by
  intro m
  unfold after
  rw [modifyThread_run]
  cases m.threads.all (·.id != thread) with
  | true => exact ⟨rfl, .inr rfl⟩
  | false => exact ⟨rfl, .inl ⟨(), _, rfl⟩⟩

theorem cautious_killThread (thread : ThreadId) : Cautious (killThread thread) := by
  intro m
  unfold after
  rw [killThread_run]
  cases m.thread? thread with
  | none => exact ⟨rfl, .inl ⟨_, _, rfl⟩⟩
  | some t =>
    dsimp only
    cases t.isZombie with
    | true => exact ⟨rfl, .inl ⟨_, _, rfl⟩⟩
    | false => exact ⟨rfl, .inl ⟨_, _, rfl⟩⟩

/-- A thread is put into the table after all its numbers were issued. -/
theorem cautious_newThread (base : Frame) (delay : Float) (keepOutcome : Bool) :
    Cautious (newThread base delay keepOutcome) := by
  intro m
  unfold after
  rw [newThread_run]
  cases nextCount m.nextThreadId with
  | error e => exact ⟨rfl, .inr rfl⟩
  | ok next =>
    dsimp only
    cases nextCount m.nextQueued with
    | error e => exact ⟨rfl, .inr rfl⟩
    | ok queued => exact ⟨rfl, .inl ⟨_, _, rfl⟩⟩

end Cautious

namespace Builtin

open Threads

theorem cautious_setTimeout (c : NativeCall) : Cautious (setTimeout c) := by
  unfold setTimeout
  split
  · exact (aloof.throw _).cautious
  · rename_i owner _
    have hcall : Cautious (spawnCallAs (c.arg 0) .undefined (c.args.drop 2) (millisArg c 1) owner
        false) := by
      refine aloof.get.bindCautious fun m => ?_
      have hrest : Cautious (do
          let scope ← newScope .dummy (some (← get).globalScope) (some owner) (some .undefined)
          newThread (.ofCall scope
            { func := c.arg 0, receiver := .undefined, args := c.args.drop 2, construct := false })
            (millisArg c 1) false) :=
        aloof.get.bindCautious fun n => (aloof.newScope _ _ _ _).bindCautious fun _ =>
          cautious_newThread _ _ _
      split
      · exact aloof.get.bindCautious fun _ => (aloof.throw_bind _ _).cautious
      · exact hrest
    exact hcall.bind_pure _

theorem cautious_clearTimeout (c : NativeCall) : Cautious (clearTimeout c) := by
  unfold clearTimeout
  dsimp only
  split
  · exact (cautious_killThread _).bind_pure fun _ => Value.undefined
  · exact (aloof.pure _).cautious

theorem cautious_kill (c : NativeCall) : Cautious (kill c) := by
  unfold kill
  split
  · exact (cautious_killThread _).bind_pure Value.bool
  · exact (aloof.pure _).cautious

theorem cautious_limitThread (c : NativeCall) : Cautious (limitThread c) := by
  have hset (limit : Option Float) :
      Cautious (do setTimeLimit c.thread limit; return Value.undefined) :=
    (cautious_modifyThread _ _).bind_pure fun _ => Value.undefined
  unfold limitThread
  dsimp only
  split
  · exact hset _
  · split
    · exact (aloof.throw_bind _ _).cautious
    · exact hset _

/-- All builtins are discreet. -/
theorem each_discreet : natives.Each Discreet :=
  each_of_free aloof (fun _ => .of_aloof) (.of_cautious cautious_setTimeout)
    (.of_cautious cautious_clearTimeout) (.of_cautious cautious_kill)
    (.of_cautious cautious_limitThread)

end Builtin

namespace Machine

variable {natives : Natives} {m m' : Machine} {thread : ThreadId} {e : Failure}

/-! ## The end of the stepped thread -/

/-- A thread was ended from outside and has no frames. -/
def Felled (thread : ThreadId) (m : Machine) : Prop :=
  ∃ t, m.thread? thread = some t ∧ t.status = .zombie ∧ t.outcome = some .killed ∧
    t.stack.frames = []

/-- A thread lost the frames down to a try statement that cannot be judged, and nothing else. -/
inductive Torn (thread : ThreadId) (t : Thread) (e : Failure) (m : Machine) : Prop where
  | drop {dropped : List Frame} {met : Frame} {below : Stack} {phase : TryPhase}
    {pending : Option Completion} (hframes : t.stack.frames = dropped ++ met :: below.frames)
    (htry : met.info = .try phase pending) (hjudged : tryClauses m.heap met = .error e)
    (hleft : m.thread? thread = some { t with stack := below })

/-- The frames that unwinding starts with: a frame whose child did not fit on the stack is back. -/
def unwoundFrom (rest : Stack) : Except Failure Step → Stack
  | .ok (.push f _) => rest.push f
  | _ => rest

/-- Between two machines a thread made a step that failed and that was no fault itself, and goes on
as it was, but for the time it may take, with the frames below a try statement that cannot be judged:
one below the stepped frame, or the stepped frame itself when its child did not fit on the stack. -/
inductive HalfUnwound (natives : Natives) (thread : ThreadId) (e : Failure) (m m' : Machine) :
    Prop where
  | tear {t : Thread} {f : Frame} {result : Except Failure Step} {n : Machine}
    {limit : Option Float} {started : Float} (hfound : m.thread? thread = some t)
    (hlive : t.isZombie = false) (htop : t.stack.top? = some f)
    (hstep : attempt (dispatch natives thread f) (after (popFrame thread) m) = .ok result n)
    (hfault : ∀ e', result = .error e' → e'.isFault = false)
    (htorn : Torn thread { t with
        stack := unwoundFrom t.stack.dropTop result, timeLimit := limit, runStarted := started }
      e m') : HalfUnwound natives thread e m m'

/-- When an operation fails, a thread was ended or lost its upper frames. -/
def FailsEnding {α : Type} (thread : ThreadId) (t : Thread) (x : Exec α) (m : Machine) : Prop :=
  ∀ e m', x m = .error e m' → e ≠ .overflow → Felled thread m' ∨ Torn thread t e m'

section Ending

variable {α β : Type} {t : Thread}

theorem failsEnding_of_ok {x : Exec α} {a : α} (h : x m = .ok a m') : FailsEnding thread t x m :=
  fun _ _ herror => by cases h.symm.trans herror

theorem failsEnding_bind_of_ok {x : Exec α} {f : α → Exec β} {a : α} (h : x m = .ok a m')
    (hf : FailsEnding thread t (f a) m') : FailsEnding thread t (x >>= f) m := by
  intro e n hrun
  rw [bind_run_of_ok h] at hrun
  exact hf e n hrun

theorem failsEnding_get_bind {f : Machine → Exec α} (hf : FailsEnding thread t (f m) m) :
    FailsEnding thread t (get >>= f) m :=
  failsEnding_bind_of_ok (get_run m) hf

/-- A fault ends its thread, and is the failure that is met. -/
theorem felled_of_fault {e e' : Failure} (ht : m.thread? thread = some t)
    (hlive : t.isZombie = false) (hrun : (fault thread e : Exec α) m = .error e' m') :
    Felled thread m' := by
  have hkill : killThread thread m = .ok true { m with
      threads := updateThread thread (·.finish .killed) m.threads } := by
    rw [killThread_run, ht]
    simp [hlive]
  unfold fault at hrun
  rw [bind_run_of_ok hkill] at hrun
  cases hrun
  refine ⟨t.finish .killed, ?_, rfl, rfl, rfl⟩
  refine (thread?_updateThread (f := (·.finish .killed)) (fun _ => rfl) m).trans ?_
  rw [ht]
  rfl

theorem finishThread_ok (ht : m.thread? thread = some t) (outcome : Outcome) :
    ∃ n, finishThread thread outcome m = .ok () n := by
  unfold finishThread
  cases outcome with
  | threw v =>
    obtain ⟨n, hwrite, ht⟩ : ∃ n, write .error ("Uncaught " ++ m.uncaughtText v) m = .ok () n ∧
        n.thread? thread = some t := ⟨_, rfl, ht⟩
    have hfinish := modifyThread_run_of_some ht (·.finish (.threw v))
    exact ⟨_, (bind_run_of_ok (get_run m)).trans ((bind_run_of_ok hwrite).trans hfinish)⟩
  | completed v => exact ⟨_, modifyThread_run_of_some ht _⟩
  | killed => exact ⟨_, modifyThread_run_of_some ht _⟩

/-- The stack of a thread is changed, and nothing else. -/
theorem restack_run (ht : m.thread? thread = some t) (g : Stack → Stack) :
    ∃ n, modifyThread thread (fun t => { t with stack := g t.stack }) m = .ok () n ∧
      n.thread? thread = some { t with stack := g t.stack } ∧ n.heap = m.heap := by
  refine ⟨_, modifyThread_run_of_some ht _, ?_, rfl⟩
  refine (thread?_updateThread (f := fun t => { t with stack := g t.stack }) (fun _ => rfl) m).trans ?_
  rw [ht]
  rfl

theorem failsEnding_restack (ht : m.thread? thread = some t) (g : Stack → Stack) {u : Thread} :
    FailsEnding thread u (modifyThread thread fun t => { t with stack := g t.stack }) m := by
  obtain ⟨n, hrun, -⟩ := restack_run ht g
  exact failsEnding_of_ok hrun

theorem failsEnding_escape (ht : m.thread? thread = some t) (hlive : t.isZombie = false)
    (c : Completion) {u : Thread} : FailsEnding thread u (escape thread c) m := by
  obtain ⟨n, hrun, ht, -⟩ := restack_run ht fun _ => .empty
  refine failsEnding_bind_of_ok hrun ?_
  split
  · obtain ⟨n', hfinish⟩ := finishThread_ok ht (.threw c.value)
    exact failsEnding_of_ok hfinish
  · exact fun e n' hfault _ => .inl (felled_of_fault ht hlive hfault)

/-- Unwinding only breaks off at a try statement that cannot be judged. -/
theorem unwindFrames_broken {h : Heap} {c : Completion} {below : Stack} (frames : List Frame)
    (depth : Nat) (hdepth : depth = frames.length)
    (hbroken : unwindFrames h c frames depth hdepth = .broken below e) :
    ∃ dropped met phase pending, frames = dropped ++ met :: below.frames ∧
      met.info = .try phase pending ∧ tryClauses h met = .error e := by
  induction frames generalizing depth with
  | nil => cases hbroken
  | cons f rest ih =>
    unfold unwindFrames at hbroken
    cases hmeet : meet h f c with
    | error e' =>
      rw [hmeet] at hbroken
      cases hbroken
      unfold meet at hmeet
      split at hmeet
      · rename_i phase pending hinfo
        refine ⟨[], f, phase, pending, rfl, hinfo, ?_⟩
        cases hclauses : tryClauses h f with
        | error e' =>
          rw [hclauses] at hmeet
          exact congrArg _ (Except.error.inj hmeet)
        | ok clauses =>
          rw [hclauses] at hmeet
          dsimp only [bind, Except.bind] at hmeet
          split at hmeet
          · cases hmeet
          · split at hmeet <;> cases hmeet
      · cases hmeet
    | ok meeting =>
      rw [hmeet] at hbroken
      cases meeting with
      | drop =>
        obtain ⟨dropped, met, phase, pending, rfl, hrest⟩ := ih _ _ hbroken
        exact ⟨f :: dropped, met, phase, pending, rfl, hrest⟩
      | stop => cases hbroken
      | «catch» g => cases hbroken

theorem failsEnding_unwind (ht : m.thread? thread = some t) (hlive : t.isZombie = false)
    (c : Completion) : FailsEnding thread t (unwind thread c) m := by
  refine failsEnding_get_bind ?_
  rw [ht]
  refine failsEnding_get_bind ?_
  cases hunwound : unwindStack m.heap c t.stack with
  | caught stack => exact failsEnding_restack ht fun _ => stack
  | escaped => exact failsEnding_escape ht hlive c
  | broken below e =>
    obtain ⟨dropped, met, phase, pending, hframes, htry, hjudged⟩ :=
      unwindFrames_broken _ _ _ hunwound
    obtain ⟨n, hrun, hleft, hheap⟩ := restack_run ht fun _ => below
    intro e' n' hfailed _
    dsimp only at hfailed
    rw [bind_run_of_ok hrun] at hfailed
    cases hfailed
    exact .inr (.drop hframes htry (hheap.symm ▸ hjudged) hleft)

theorem thread?_of_roster (h : m'.roster = m.roster) : m'.thread? thread = m.thread? thread := by
  have hthreads : m'.threads = m.threads := congrArg Roster.threads h
  unfold thread?
  rw [hthreads]

/-- A failure is thrown into its thread; a fault ends it. -/
theorem failsEnding_raise (ht : m.thread? thread = some t) (hlive : t.isZombie = false)
    (scope : ScopeId) (e : Failure) : FailsEnding thread t (raise thread scope e) m := by
  unfold raise
  split
  · exact fun e n hfault _ => .inl (felled_of_fault ht hlive hfault)
  · have hsame := (aloof.errorToValue e scope thread).attempt m
    cases hrun : attempt (errorToValue e scope thread) m with
    | error e' m' =>
      intro e'' n hfailed hne
      have hran : e' = .overflow := by
        unfold attempt at hrun
        split at hrun <;> cases hrun
        rfl
      rw [bind_run, hrun] at hfailed
      cases hfailed
      exact absurd hran hne
    | ok answer m' =>
      rw [after_of_ok hrun] at hsame
      have ht : m'.thread? thread = some t := (thread?_of_roster hsame).trans ht
      refine failsEnding_bind_of_ok hrun ?_
      cases answer with
      | ok v => exact failsEnding_unwind ht hlive _
      | error e => exact fun e n hfault _ => .inl (felled_of_fault ht hlive hfault)

theorem failsEnding_pushChild (ht : m.thread? thread = some t) (hlive : t.isZombie = false)
    (f child : Frame) :
    FailsEnding thread { t with stack := t.stack.push f } (pushChild thread f child) m := by
  obtain ⟨n, hrun, ht, -⟩ := restack_run ht (·.push f)
  refine failsEnding_bind_of_ok hrun (failsEnding_get_bind (failsEnding_get_bind ?_))
  split
  · exact failsEnding_raise ht hlive _ _
  · exact failsEnding_restack ht (·.push child)

theorem failsEnding_applyStep (ht : m.thread? thread = some t) (hlive : t.isZombie = false)
    (step : Step) : FailsEnding thread { t with stack := unwoundFrom t.stack (.ok step) }
      (applyStep thread step) m := by
  cases step with
  | push f child => exact failsEnding_pushChild ht hlive f child
  | stay f => exact failsEnding_restack ht (·.push f)
  | suspend f => exact failsEnding_restack ht (·.push f)
  | done v =>
    refine failsEnding_get_bind ?_
    split
    · exact failsEnding_restack ht (·.modifyTop fun p => { p with value := v })
    · obtain ⟨n, hfinish⟩ := finishThread_ok ht (.completed v)
      exact failsEnding_of_ok hfinish
  | ref r =>
    refine failsEnding_get_bind ?_
    split
    · exact failsEnding_restack ht (·.modifyTop fun p => { p with reference := some r })
    · exact fun e n hfault _ => .inl (felled_of_fault ht hlive hfault)
  | unwind c => exact failsEnding_unwind ht hlive c

/-- When settling a step fails, its thread was alive, and it was ended or was torn; it is ended when the
step itself was a fault. -/
theorem settleStep_failure {f : Frame} {result : Except Failure Step}
    (ht : m.thread? thread = some t) (he : e ≠ .overflow)
    (h : settleStep thread f result m = .error e m') : t.isZombie = false ∧
      (Felled thread m' ∨ (∀ e', result = .error e' → e'.isFault = false) ∧
        Torn thread { t with stack := unwoundFrom t.stack result } e m') := by
  unfold settleStep at h
  rw [bind_run_of_ok (get_run m)] at h
  split at h
  · obtain ⟨_, hfound, hlive⟩ := isAlive_iff.1 ‹_›
    obtain rfl := Option.some.inj (ht.symm.trans hfound)
    refine ⟨hlive, ?_⟩
    cases result with
    | ok step =>
      exact (failsEnding_applyStep ht hlive step e m' h he).imp_right fun htorn =>
        ⟨fun e' hresult => (by cases hresult), htorn⟩
    | error e' =>
      dsimp only at h
      by_cases hfault : e'.isFault = true
      · unfold raise at h
        rw [if_pos hfault] at h
        exact .inl (felled_of_fault ht hlive h)
      · refine (failsEnding_raise ht hlive f.scope e' e m' h he).imp_right fun htorn => ⟨?_, htorn⟩
        intro _ hresult
        cases hresult
        exact Bool.eq_false_iff.2 hfault
  · cases h

/-- A step that is excused settles. -/
theorem applyStep_ok (ht : m.thread? thread = some t) {step : Step} {n : Machine}
    (h : Excused (.ok step n)) : ∃ n, applyStep thread step m = .ok () n := by
  cases step with
  | done v =>
    unfold applyStep
    dsimp only
    rw [bind_run_of_ok (get_run m)]
    split
    · exact ⟨_, modifyThread_run_of_some ht _⟩
    · exact finishThread_ok ht _
  | suspend f => exact ⟨_, modifyThread_run_of_some ht _⟩
  | _ => exact h.elim

end Ending

/-! ## A failed step -/

/-- A thread of the table can run. -/
def Runnable (m : Machine) (thread : ThreadId) : Prop :=
  ∃ t ∈ m.threads, t.id = thread ∧ t.status = .ready

/-- A step of a thread that could run failed: it changed no other thread, and the thread was ended
or is half unwound. -/
structure StepFailure (natives : Natives) (thread : ThreadId) (e : Failure) (m m' : Machine) :
    Prop where
  ready : m.Runnable thread
  failed : stepThread natives thread m = .error e m'
  others : ∀ other, other ≠ thread → m'.thread? other = m.thread? other
  ended : Felled thread m' ∨ HalfUnwound natives thread e m m'

/-- A thread is found among the others. -/
theorem thread?_of_others {threads : List Thread}
    (h : m.threads.filter (·.id != thread) = threads.filter (·.id != thread)) {other : ThreadId}
    (hother : other ≠ thread) : m.thread? other = threads.find? (·.id == other) := by
  have hfilter (threads : List Thread) : threads.find? (·.id == other) =
      (threads.filter (·.id != thread)).find? (·.id == other) := by
    rw [List.find?_filter]
    refine congrArg (threads.find? ·) (funext fun t => ?_)
    by_cases ht : t.id = other
    · simp [ht, hother]
    · simp [ht]
  unfold thread?
  rw [hfilter, h, ← hfilter]

/-- A step that is excused and was attempted with a result settles. -/
theorem settleStep_ok {x : Exec Step} {result : Except Failure Step} (f : Frame)
    (hattempt : attempt x m = .ok result m') (h : Excused (x m)) :
    ∃ n, settleStep thread f result m' = .ok () n := by
  unfold settleStep
  rw [bind_run_of_ok (get_run m')]
  split
  · obtain ⟨t, ht, -⟩ := isAlive_iff.1 ‹_›
    unfold attempt at hattempt
    cases hrun : x m with
    | ok step n =>
      rw [hrun] at hattempt h
      cases hattempt
      exact applyStep_ok ht h
    | error e n =>
      rw [hrun] at hattempt h
      cases e with
      | overflow => cases hattempt
      | _ => exact h.elim
  · exact ⟨m', rfl⟩

/-! ## The stepped thread -/

theorem along_modifyThread_tends (thread : ThreadId) {f : Thread → Thread}
    (hid : ∀ t, (f t).id = t.id) (hgoes : ∀ t : Thread, t.GoesOn (f t)) :
    Along (Roster.Tends thread) (modifyThread thread f) := by
  intro m
  unfold after
  rw [modifyThread_run]
  cases m.threads.all (·.id != thread) with
  | true => exact (Roster.chains_tends thread).refl _
  | false =>
    refine fun hearly => ⟨hearly, fun (t : Thread) ht => ⟨f t, ?_, hgoes t⟩⟩
    exact (find?_updateThread hid m.threads).trans (congrArg (Option.map f) ht)

theorem along_checkTimeLimit_tends (thread : ThreadId) :
    Along (Roster.Tends thread) (checkTimeLimit thread) := by
  have hR := Roster.chains_tends thread
  refine (along hR).bind (along hR).now fun time => (along hR).bind (along hR).get fun m => ?_
  split
  · exact (along hR).throw _
  · split
    · exact (along hR).pure _
    · split
      · exact (along hR).bind (along_modifyThread_tends thread (fun _ => rfl)
          fun t => .inr ⟨t.timeLimit, time, rfl⟩) fun _ => (along hR).throw _
      · exact (along hR).pure _

/-- What ends with a change of the thread and a step that is excused. -/
theorem steps_modifyThread_tends (thread : ThreadId) (f : Thread → Thread) {step : Step}
    (h : ∀ n, Excused (.ok step n)) : StepsAlong (Roster.Tends thread) Excused
      (modifyThread thread f >>= fun _ => pure step) := by
  intro m
  rw [bind_run, after_bind, modifyThread_run]
  cases m.threads.all (·.id != thread) with
  | true => exact .inl ((Roster.chains_tends thread).refl _)
  | false => exact .inr (h _)

/-- Until its step is settled, a thread goes on, or has ended, or the step cannot fail any more. -/
theorem works_tends (thread : ThreadId) : Works thread (Roster.Tends thread) Excused where
  toChains := Roster.chains_tends thread
  limit := along_checkTimeLimit_tends thread
  node f here program kind := by
    have hR := Roster.chains_tends thread
    by_cases hrecord : f.step ≠ 0 ∧ ∃ e, kind = .expressionStatement e
    · obtain ⟨hstep, e, rfl⟩ := hrecord
      change StepsAlong _ _ (stepExpressionStatement thread f here e)
      unfold stepExpressionStatement
      split
      · exact absurd ‹_› hstep
      · exact steps_modifyThread_tends thread _ fun _ => trivial
    · exact Along.steps (free_stepNode (along hR) f here (along_checkTimeLimit_tends thread)
        program kind fun e he hstep => absurd ⟨hstep, e, he⟩ hrecord)
  reply f call owner early result := by
    have hR := Roster.chains_tends thread
    cases result with
    | value v => exact ((along hR).pure _).steps
    | call func receiver args => exact ((along hR).pure _).steps
    | eval program =>
      refine (Aloof.along hR ((aloof.heapQuery _).bind fun p => aloof.get.bind fun m => ?_)).steps
      exact (aloof.newScope _ _ _ _).bind fun _ => aloof.pure _
    | block =>
      cases early with
      | some s => exact ((along hR).pure _).steps
      | none => exact steps_modifyThread_tends thread _ fun _ => trivial
    | sleep time =>
      intro m
      change Roster.Tends thread m.roster (after (takeQueuePosition >>= _) m).roster ∨
        Excused ((takeQueuePosition >>= _) m)
      rw [bind_run, after_bind, takeQueuePosition_run]
      cases hnext : nextCount m.nextQueued with
      | error e => exact .inl (hR.refl _)
      | ok next => exact steps_modifyThread_tends thread _ (fun _ => by trivial) { m with
          nextQueued := next }

theorem stepThread_failure (hnatives : natives.Each Discreet) (hearly : m.earlySettlements = [])
    (hready : m.Runnable thread) (he : e ≠ .overflow)
    (h : stepThread natives thread m = .error e m') : StepFailure natives thread e m m' := by
  have hR := Roster.stepping_spares thread
  obtain ⟨t, ht⟩ : ∃ t, m.thread? thread = some t := by
    obtain ⟨t, hmem, hid, -⟩ := hready
    refine Option.isSome_iff_exists.1 (List.find?_isSome.2 ⟨t, hmem, ?_⟩)
    simp [hid]
  have hpop := (turning_along hR).popFrame m
  have hstepped := h
  rw [stepThread_eq] at h
  cases htop : t.stack.top? with
  | none =>
    have hrun : popFrame thread m = .ok none m := by rw [popFrame_run ht, htop]
    obtain ⟨n, hfinish⟩ := finishThread_ok ht (.completed .undefined)
    rw [bind_run_of_ok hrun] at h
    cases hfinish.symm.trans h
  | some f =>
    let m₁ : Machine := { m with
      threads := updateThread thread (fun t => { t with stack := t.stack.dropTop }) m.threads }
    have hrun : popFrame thread m = .ok (some f) m₁ := by rw [popFrame_run ht, htop]
    have hpopped : m₁.thread? thread = some { t with stack := t.stack.dropTop } :=
      (thread?_updateThread (f := fun t => { t with stack := t.stack.dropTop }) (fun _ => rfl) m).trans
        (by rw [ht]; rfl)
    rw [bind_run_of_ok hrun] at h
    rw [after_of_ok hrun] at hpop
    dsimp only at h
    cases hattempt : attempt (dispatch natives thread f) m₁ with
    | error e' m₂ =>
      rw [bind_run, hattempt] at h
      cases h
      unfold attempt at hattempt
      split at hattempt <;> cases hattempt
      exact absurd rfl he
    | ok result m₂ =>
      rw [bind_run_of_ok hattempt] at h
      -- A step that failed was not excused, so the thread went on or ended while it was made.
      have hexcused : ¬ Excused (dispatch natives thread f m₁) := fun hexcused => by
        obtain ⟨n, hdone⟩ := settleStep_ok f hattempt hexcused
        cases hdone.symm.trans h
      have hmade : after (dispatch natives thread f) m₁ = m₂ := by
        rw [← after_attempt, after_of_ok hattempt]
      have hspares := (steps_dispatch (works_of_stepping hR) (hnatives.mono fun _ hcode =>
        hcode.spares) f m₁).resolve_right hexcused
      have htends := (steps_dispatch (works_tends thread) (hnatives.mono fun _ hcode =>
        hcode.tends) f m₁).resolve_right hexcused
      rw [hmade] at hspares htends
      have hsettle := (turning_along hR).settleStep f result m₂
      rw [after_of_error h] at hsettle
      refine ⟨hready, hstepped, fun _ => thread?_of_others ?_, ?_⟩
      · exact (hR.trans hpop (hR.trans hspares hsettle) hearly).1
      · obtain ⟨t₂, ht₂, hgoes⟩ := (htends hearly).2 _ hpopped
        obtain ⟨hlive, hended⟩ := settleStep_failure ht₂ he h
        refine hended.imp_right fun ⟨hfault, htorn⟩ => ?_
        obtain ⟨limit, started, rfl⟩ := hgoes.resolve_left (by rw [hlive]; exact Bool.false_ne_true)
        exact .tear ht hlive htop (after_of_ok hrun ▸ hattempt) hfault htorn

/-! ## Runs -/

/-- What the scheduler does between two failures. -/
inductive Turn (natives : Natives) (m : Machine) : Machine → Prop where
  | schedule {found : Pick} {m' : Machine} (h : schedule m = .ok found m') : Turn natives m m'
  | start {thread : ThreadId} {m' : Machine} (h : startRun thread m = .ok () m') :
    Turn natives m m'
  | attend (thread : Option ThreadId) : Turn natives m { m with currentThread := thread }
  | step {thread : ThreadId} {m' : Machine} (h : stepThread natives thread m = .ok () m') :
    Turn natives m m'
  | collect : Turn natives m (after maybeCollectGarbage m)

abbrev Turns (natives : Natives) : Machine → Machine → Prop :=
  Relation.ReflTransGen (Turn natives)

theorem schedule_eq (m : Machine) : schedule m =
    .ok (pick (m.threads.map (·.wake m.reading))) { m with
      clock := m.clock.read.2, threads := m.threads.map (·.wake m.reading) } := rfl

theorem startRun_early {m' : Machine} (h : startRun thread m = .ok () m') :
    m'.earlySettlements = m.earlySettlements := by
  unfold startRun at h
  rw [bind_run_of_ok (show now m = .ok m.reading _ from rfl), bind_run, modifyThread_run] at h
  cases hall : m.threads.all (·.id != thread) with
  | true => simp [hall] at h
  | false =>
    simp only [hall, Bool.false_eq_true, if_false] at h
    cases h
    rfl

theorem after_maybeCollectGarbage (m : Machine) :
    after maybeCollectGarbage m = m ∨ after maybeCollectGarbage m = after collectGarbage m := by
  unfold maybeCollectGarbage
  rw [after_bind, get_run]
  dsimp only
  split
  · exact .inr (by rw [after_bind]; rfl)
  · exact .inl rfl

theorem Turn.early (hnatives : natives.Each Discreet) (h : Turn natives m m')
    (hearly : m.earlySettlements = []) : m'.earlySettlements = [] := by
  cases h with
  | schedule h =>
    cases (schedule_eq m).symm.trans h
    exact hearly
  | start h => exact (startRun_early h).trans hearly
  | attend thread => exact hearly
  | @step thread m' h =>
    have hhushes := steps_stepThread (Roster.stepping_hushes thread) (E := RanOut)
      (fun _ => id) (hnatives.mono fun _ hcode => hcode.hushes) m
    rw [after_of_ok h] at hhushes
    refine hhushes.resolve_right (fun ⟨n, _, hrun⟩ => ?_) hearly
    cases h.symm.trans hrun
  | collect =>
    rcases after_maybeCollectGarbage m with hcollect | hcollect
    · rwa [hcollect]
    · rw [hcollect]
      exact hearly

theorem Turns.early (hnatives : natives.Each Discreet) (h : Turns natives m m')
    (hearly : m.earlySettlements = []) : m'.earlySettlements = [] := by
  induction h with
  | refl => exact hearly
  | tail _ hlast ih => exact hlast.early hnatives ih

/-- An operation is a course of turns; if it fails without a counter running out, then the last of
them failed, and what it left behind was put to `rest`. -/
def Proceeds {α : Type} (natives : Natives) (rest : Machine → Machine) (x : Exec α) (m : Machine) :
    Prop :=
  match x m with
  | .ok _ m' => Turns natives m m'
  | .error e m' => e = .overflow ∨ ∃ thread m₁ m₂, Turns natives m m₁ ∧
      StepFailure natives thread e m₁ m₂ ∧ m' = rest m₂

section Runs

variable {α β : Type} {rest : Machine → Machine}

theorem proceeds_of_ok {x : Exec α} {a : α} (h : x m = .ok a m') (hturns : Turns natives m m') :
    Proceeds natives rest x m := by
  unfold Proceeds
  rwa [h]

theorem proceeds_pure (a : α) : Proceeds natives rest (pure a : Exec α) m :=
  proceeds_of_ok (pure_run a m) .refl

/-- What goes on after a course of turns. -/
theorem proceeds_bind_of_ok {x : Exec α} {f : α → Exec β} {a : α} (h : x m = .ok a m')
    (hturns : Turns natives m m') (hf : Proceeds natives rest (f a) m') :
    Proceeds natives rest (x >>= f) m := by
  unfold Proceeds at hf ⊢
  rw [bind_run_of_ok h]
  cases hrun : f a m' with
  | ok b n =>
    rw [hrun] at hf
    exact hturns.trans hf
  | error e n =>
    rw [hrun] at hf
    refine hf.imp_right fun ⟨thread, m₁, m₂, hbefore, hfailure⟩ => ?_
    exact ⟨thread, m₁, m₂, hturns.trans hbefore, hfailure⟩

theorem Proceeds.bind {x : Exec α} {f : α → Exec β} (hx : Proceeds natives rest x m)
    (hf : ∀ a m', x m = .ok a m' → Turns natives m m' → Proceeds natives rest (f a) m') :
    Proceeds natives rest (x >>= f) m := by
  cases hrun : x m with
  | ok a m' =>
    have hturns : Turns natives m m' := by
      unfold Proceeds at hx
      rwa [hrun] at hx
    exact proceeds_bind_of_ok hrun hturns (hf a m' hrun hturns)
  | error e m' =>
    unfold Proceeds at hx ⊢
    rw [bind_run, hrun]
    rwa [hrun] at hx

/-- What is done at the end of a run does not hide that it broke off. -/
theorem proceeds_attempt {x : Exec α} {k : Exec Unit} {g : Except Failure α → Except Failure β}
    (hk : ∀ n, k n = .ok () (after k n) ∧ Turns natives n (after k n))
    (hok : ∀ a, ∃ b, g (.ok a) = .ok b) (herror : ∀ e, g (.error e) = .error e)
    (hx : Proceeds natives id x m) : Proceeds natives (after k) (do
      let result ← attempt x
      k
      query fun _ => g result) m := by
  unfold Proceeds at hx ⊢
  cases hend : x m with
  | ok a n =>
    have hattempt : attempt x m = .ok (.ok a) n := by rw [attempt, hend]
    obtain ⟨b, hb⟩ := hok a
    rw [hend] at hx
    rw [bind_run_of_ok hattempt, bind_run_of_ok (hk n).1, query_run_ok hb]
    exact hx.trans (hk n).2
  | error e n =>
    rw [hend] at hx
    by_cases hran : e = .overflow
    · subst hran
      rw [bind_run, attempt, hend]
      exact .inl rfl
    · have hattempt : attempt x m = .ok (.error e) n := by
        rw [attempt, hend]
        cases e <;> first | rfl | exact absurd rfl hran
      rw [bind_run_of_ok hattempt, bind_run_of_ok (hk n).1, query_run_error (herror e)]
      obtain ⟨thread, m₁, m₂, hturns, hfailure, rfl⟩ := hx.resolve_left hran
      exact .inr ⟨thread, m₁, n, hturns, hfailure, rfl⟩

/-- A thread can still run when something else about it changed. -/
theorem runnable_updateThread {threads : List Thread} {f : Thread → Thread}
    (hid : ∀ t, (f t).id = t.id) (hstatus : ∀ t, (f t).status = t.status)
    (h : ∃ t ∈ threads, t.id = thread ∧ t.status = .ready) :
    ∃ t ∈ updateThread thread f threads, t.id = thread ∧ t.status = .ready := by
  induction threads with
  | nil => exact h
  | cons u rest ih =>
    obtain ⟨t, ht, hfound, hready⟩ := h
    unfold updateThread
    rcases List.mem_cons.1 ht with rfl | ht
    · rw [if_pos (by simpa using hfound)]
      exact ⟨f t, List.mem_cons_self, (hid t).trans hfound, (hstatus t).trans hready⟩
    · split
      · exact ⟨t, List.mem_cons_of_mem _ ht, hfound, hready⟩
      · obtain ⟨t, ht, hrest⟩ := ih ⟨t, ht, hfound, hready⟩
        exact ⟨t, List.mem_cons_of_mem _ ht, hrest⟩

/-- A thread that can run can be started. -/
theorem startRun_ok (hready : m.Runnable thread) :
    ∃ m', startRun thread m = .ok () m' ∧ m'.Runnable thread := by
  have ⟨t, hmem, hid, _⟩ := hready
  have hall : m.threads.all (·.id != thread) = false :=
    List.all_eq_false.2 ⟨t, hmem, by simp [hid]⟩
  have hstarted := runnable_updateThread (f := fun t => { t with runStarted := m.reading })
    (fun _ => rfl) (fun _ => rfl) hready
  refine ⟨{ m with
    clock := m.clock.read.2, lastStepped := some thread
    threads := updateThread thread (fun t => { t with runStarted := m.reading }) m.threads },
    ?_, hstarted⟩
  unfold startRun
  rw [bind_run_of_ok (show now m = .ok m.reading _ from rfl), bind_run, modifyThread_run]
  simp only [hall, Bool.false_eq_true, if_false]
  rfl

/-- A thread that is picked can run. -/
theorem runnable_of_schedule (h : schedule m = .ok (.run thread) m') : m'.Runnable thread := by
  obtain ⟨t, ht, hid, hready, -⟩ := first_of_pick (pick_of_schedule h).symm
  exact ⟨t, ht, hid, hready⟩

theorem proceeds_startRun {f : Unit → Exec α} (hready : m.Runnable thread)
    (hf : ∀ n, n.Runnable thread → Turns natives m n → Proceeds natives rest (f ()) n) :
    Proceeds natives rest (startRun thread >>= f) m := by
  obtain ⟨n, hstart, hstarted⟩ := startRun_ok hready
  have hturns : Turns natives m n := .single (.start hstart)
  exact proceeds_bind_of_ok hstart hturns (hf n hstarted hturns)

/-- Scheduling picks a thread that can run. -/
theorem proceeds_schedule {f : Pick → Exec α} (hf : ∀ found n, Turns natives m n →
      (∀ thread, found = .run thread → n.Runnable thread) → Proceeds natives rest (f found) n) :
    Proceeds natives rest (schedule >>= f) m := by
  have hschedule := schedule_eq m
  have hturns : Turns natives m _ := .single (.schedule hschedule)
  refine proceeds_bind_of_ok hschedule hturns (hf _ _ hturns fun thread hpick => ?_)
  rw [hpick] at hschedule
  exact runnable_of_schedule hschedule

theorem maybeCollectGarbage_ok (m : Machine) :
    maybeCollectGarbage m = .ok () (after maybeCollectGarbage m) := by
  unfold after maybeCollectGarbage
  rw [bind_run_of_ok (get_run m)]
  split
  · rfl
  · rfl

variable (hnatives : natives.Each Discreet)

include hnatives

theorem proceeds_stepThread (hearly : m.earlySettlements = []) (hready : m.Runnable thread) :
    Proceeds natives id (stepThread natives thread) m := by
  unfold Proceeds
  cases hrun : stepThread natives thread m with
  | ok _ n => exact .single (.step hrun)
  | error e n =>
    by_cases he : e = .overflow
    · exact .inl he
    · exact .inr ⟨thread, m, n, .refl, stepThread_failure hnatives hearly hready he hrun, rfl⟩

theorem proceeds_runSteps (hearly : m.earlySettlements = []) (fuel : Nat) :
    Proceeds natives id (runSteps natives thread fuel) m := by
  induction fuel generalizing m with
  | zero => exact proceeds_pure 0
  | succ fuel ih =>
    refine proceeds_bind_of_ok (get_run m) .refl ?_
    split
    · exact proceeds_pure _
    · rename_i hproceeds
      have hready : m.Runnable thread := by
        simp only [threadStatus, Bool.or_eq_true, bne_iff_ne, ne_eq, not_or, not_not] at hproceeds
        obtain ⟨t, ht, hstatus⟩ := Option.map_eq_some_iff.1 hproceeds.2
        obtain ⟨hmem, hid⟩ := mem_threads_of_thread? ht
        exact ⟨t, hmem, hid, hstatus⟩
      refine (proceeds_stepThread hnatives hearly hready).bind fun _ n hrun hturns => ?_
      have hcollect : Turn natives n (after maybeCollectGarbage n) := .collect
      refine proceeds_bind_of_ok (maybeCollectGarbage_ok n) (.single hcollect) (ih ?_)
      exact Turns.early hnatives (hturns.tail hcollect) hearly

theorem proceeds_runThread (hearly : m.earlySettlements = []) (hready : m.Runnable thread)
    (fuel : Nat) : Proceeds natives (fun m => { m with currentThread := none })
      (runThread natives thread fuel) m := by
  refine proceeds_startRun hready fun n _ hturns => ?_
  have hearly := Turns.early hnatives hturns hearly
  refine proceeds_bind_of_ok (modify_run _ n) (.single (.attend (some thread))) ?_
  exact proceeds_attempt (k := modify fun m => { m with currentThread := none }) (g := id)
    (fun n => ⟨rfl, .single (.attend none)⟩) (fun a => ⟨a, rfl⟩) (fun _ => rfl)
    (proceeds_runSteps (m := { n with currentThread := some thread }) hnatives hearly fuel)

theorem proceeds_runRounds (hearly : m.earlySettlements = []) (rounds fuel : Nat) :
    Proceeds natives (fun m => { m with currentThread := none })
      (runRounds natives rounds fuel) m := by
  induction rounds generalizing m fuel with
  | zero => exact proceeds_pure _
  | succ rounds ih =>
    refine proceeds_bind_of_ok (get_run m) .refl ?_
    split
    · exact proceeds_pure _
    · exact proceeds_pure _
    · refine proceeds_schedule fun found n hturns hready => ?_
      have hearly := Turns.early hnatives hturns hearly
      cases found with
      | run thread =>
        refine (proceeds_runThread hnatives hearly (hready thread rfl) fuel).bind
          fun left n' _ hturns => ?_
        split
        · exact proceeds_pure _
        · exact ih (Turns.early hnatives hturns hearly) left
      | waitUntil time => exact proceeds_pure _
      | blocked => exact proceeds_pure _
      | idle => exact proceeds_pure _

theorem proceeds_stepOnce (hearly : m.earlySettlements = []) :
    Proceeds natives (fun m => after maybeCollectGarbage { m with currentThread := none })
      (stepOnce natives) m := by
  refine proceeds_bind_of_ok (get_run m) .refl ?_
  split
  · exact proceeds_pure _
  refine proceeds_schedule fun found n hturns hready => ?_
  have hearly := Turns.early hnatives hturns hearly
  cases found with
  | run thread =>
    have hrest (n : Machine) (hearly : n.earlySettlements = []) (hready : n.Runnable thread) :
        Proceeds natives (fun m => after maybeCollectGarbage { m with currentThread := none }) (do
          modify fun m => { m with currentThread := some thread }
          let result ← attempt (stepThread natives thread)
          modify fun m => { m with currentThread := none }
          maybeCollectGarbage
          query fun _ => result.map fun _ => true) n := by
      refine proceeds_bind_of_ok (modify_run _ n) (.single (.attend (some thread))) ?_
      have hend := proceeds_attempt (g := fun result => result.map fun _ => true) (k := do
          modify fun m => { m with currentThread := none }
          maybeCollectGarbage)
        (fun n => ⟨maybeCollectGarbage_ok _, .tail (.single (.attend none)) .collect⟩)
        (fun a => ⟨true, rfl⟩) (fun _ => rfl)
        (proceeds_stepThread (m := { n with currentThread := some thread })
          hnatives hearly hready)
      simp only [bind_assoc] at hend
      exact hend
    refine proceeds_bind_of_ok (get_run n) .refl ?_
    split
    · exact proceeds_startRun (hready thread rfl) fun n' hready' hturns =>
        hrest n' (Turns.early hnatives hturns hearly) hready'
    · exact hrest n hearly (hready thread rfl)
  | waitUntil time => exact proceeds_pure _
  | blocked => exact proceeds_pure _
  | idle => exact proceeds_pure _

end Runs

/-- A failure that reaches the host is that of a step: the threads are as that step left them, but
for a collection. The step changed no other thread and ended its own, unless that one is half
unwound. -/
theorem failed_step_ends_thread (hnatives : natives.Each Discreet)
    (hearly : m.earlySettlements = []) (he : e ≠ .overflow)
    (h : stepOnce natives m = .error e m' ∨
      ∃ fuel, runToQuiescence natives fuel m = .error e m') :
    ∃ thread m₁ m₂, Turns natives m m₁ ∧ StepFailure natives thread e m₁ m₂ ∧
      (m' = { m₂ with currentThread := none } ∨
        m' = after collectGarbage { m₂ with currentThread := none }) := by
  rcases h with h | ⟨fuel, h⟩
  · have hproceeds := proceeds_stepOnce hnatives hearly
    unfold Proceeds at hproceeds
    rw [h] at hproceeds
    obtain ⟨thread, m₁, m₂, hturns, hfailure, rfl⟩ := hproceeds.resolve_left he
    exact ⟨thread, m₁, m₂, hturns, hfailure, after_maybeCollectGarbage _⟩
  · have hproceeds := proceeds_runRounds hnatives hearly (fuel + 1) fuel
    unfold Proceeds at hproceeds
    rw [show runRounds natives (fuel + 1) fuel m = .error e m' from h] at hproceeds
    obtain ⟨thread, m₁, m₂, hturns, hfailure, rfl⟩ := hproceeds.resolve_left he
    exact ⟨thread, m₁, m₂, hturns, hfailure, .inl rfl⟩

/-- A snapshot with a thread that steps on a call of nothing, and with another thread. -/
def faultySnapshot : Json :=
  .arr [busyRecord [Snapshot.reference 3, Snapshot.reference 4] 3 3, scopeRecord .null,
    objectRecord .null [], threadRecord 1 1 [frameRecord [("kind", .str "none")] .null],
    threadRecord 2 2 [frameRecord (callRecord "returned") (.str "other")]]

theorem failed_step_ends_restored_thread : ∃ m m' n, create {} {} = .ok m ∧
    restore Builtin.natives faultySnapshot m = .ok () m' ∧
    stepOnce Builtin.natives m' = .error (.fault .callWithoutInfo) n ∧
    ∃ thread m₁ m₂, Turns Builtin.natives m' m₁ ∧
      StepFailure Builtin.natives thread (.fault .callWithoutInfo) m₁ m₂ ∧
      (n = { m₂ with currentThread := none } ∨
        n = after collectGarbage { m₂ with currentThread := none }) := by
  have hchecks : ((create {} {}).toOption.bind (ran? (restore Builtin.natives faultySnapshot))).any
      (fun m' => (failure? (stepOnce Builtin.natives) m').any fun failed =>
        decide (failed.1 = .fault .callWithoutInfo)) = true := by
    rw [toOption_create]
    decide +kernel
  obtain ⟨m', hm', hchecks⟩ := (Option.any_eq_true _ _).1 hchecks
  obtain ⟨m, hm, hrestored⟩ := Option.bind_eq_some_iff.1 hm'
  obtain ⟨failed, hfailed, hfault⟩ := (Option.any_eq_true _ _).1 hchecks
  have hrestore := ok_of_ran? hrestored
  obtain ⟨_, _, _, _, _, _, -, -, hshows⟩ := shows_of_restore hrestore
  have hstep : stepOnce Builtin.natives m' = .error (.fault .callWithoutInfo) failed.2 :=
    of_decide_eq_true hfault ▸ error_of_failure? hfailed
  exact ⟨m, m', failed.2, create_of_toOption hm, hrestore, hstep,
    failed_step_ends_thread Builtin.each_discreet hshows.earlySettlements (by decide) (.inl hstep)⟩

/-- A snapshot with a thread that throws below a try statement that is none. -/
def tornSnapshot : Json :=
  .arr [busyRecord [Snapshot.reference 3] 2 2, scopeRecord .null, objectRecord .null [],
    threadRecord 1 1
      [frameRecord (callRecord "returned") (.str "below"),
       frameRecord [("kind", .str "try"), ("phase", .str "block"), ("completion", .null)] .null,
       frameRecord (callRecord "rejected") (.str "reason")]]

/-- A thread whose step failed goes on with what is left of its stack. -/
theorem half_unwound_thread_goes_on : ∃ m m' n n', create {} {} = .ok m ∧
    restore Builtin.natives tornSnapshot m = .ok () m' ∧
    stepOnce Builtin.natives m' = .error (.fault .tryWithoutNode) n ∧
    n.threadStatus ⟨1⟩ = some .ready ∧ stepOnce Builtin.natives n = .ok true n' ∧
    (n'.thread? ⟨1⟩).bind (·.outcome) = some (.completed (.string "below")) := by
  have hchecks : ((create {} {}).toOption.bind (ran? (restore Builtin.natives tornSnapshot))).any
      (fun m' => (failure? (stepOnce Builtin.natives) m').any fun failed =>
        (answer? (stepOnce Builtin.natives) failed.2).any fun next =>
          decide (failed.1 = .fault .tryWithoutNode ∧
            failed.2.threadStatus ⟨1⟩ = some .ready ∧ next.1 = true ∧
            (next.2.thread? ⟨1⟩).bind (·.outcome) = some (.completed (.string "below")))) =
      true := by
    rw [toOption_create]
    decide +kernel
  obtain ⟨m', hm', hchecks⟩ := (Option.any_eq_true _ _).1 hchecks
  obtain ⟨m, hm, hrestored⟩ := Option.bind_eq_some_iff.1 hm'
  obtain ⟨failed, hfailed, hchecks⟩ := (Option.any_eq_true _ _).1 hchecks
  obtain ⟨next, hnext, hchecks⟩ := (Option.any_eq_true _ _).1 hchecks
  obtain ⟨hfault, hready, htrue, hcompleted⟩ := of_decide_eq_true hchecks
  exact ⟨m, m', failed.2, next.2, create_of_toOption hm, ok_of_ran? hrestored,
    hfault ▸ error_of_failure? hfailed, hready, htrue ▸ ok_of_answer? hnext, hcompleted⟩

/-! ## Jumps that escape -/

/-- Unwinding drops the whole stack exactly when no frame of it takes the completion. -/
theorem unwindFrames_escaped_iff {h : Heap} {c : Completion} (frames : List Frame) (depth : Nat)
    (hdepth : depth = frames.length) :
    unwindFrames h c frames depth hdepth = .escaped ↔ ∀ f ∈ frames, meet h f c = .ok .drop := by
  induction frames generalizing depth with
  | nil => simp [unwindFrames]
  | cons f rest ih =>
    unfold unwindFrames
    cases hmeet : meet h f c with
    | error e => simp [hmeet]
    | ok meeting => cases meeting <;> simp [hmeet, ih]

theorem tryClauses_ne_escaped (h : Heap) (f : Frame) (name : String) :
    tryClauses h f ≠ .error (.fault (.escaped name)) := by
  intro he
  unfold tryClauses at he
  cases hnode : f.node with
  | none =>
    rw [hnode] at he
    cases he
  | some node =>
    rw [hnode] at he
    simp only [Heap.program, Heap.nodeKind] at he
    cases hprogram : h.program? node.program with
    | none =>
      rw [hprogram] at he
      cases he
    | some p =>
      rw [hprogram] at he
      dsimp only [bind, Except.bind] at he
      cases hkind : p.kind? node.node with
      | none =>
        rw [hkind] at he
        cases he
      | some k =>
        rw [hkind] at he
        cases k <;> cases he

/-- A jump is a fault exactly when none of the frames on the stack takes it. The frame that jumped
is not among them. -/
theorem unwind_escaped_iff (ht : m.thread? thread = some t) {c : Completion}
    (hjump : c.kind ≠ .throw) :
    (∃ m', unwind thread c m = .error (.fault (.escaped c.kind.name)) m') ↔
      ∀ f ∈ t.stack.frames, meet m.heap f c = .ok .drop := by
  rw [← unwindFrames_escaped_iff _ _ t.stack.depth_eq, ← unwindStack]
  unfold unwind
  rw [bind_run_of_ok (get_run m), ht]
  dsimp only
  rw [bind_run_of_ok (get_run m)]
  cases hstack : unwindStack m.heap c t.stack with
  | caught stack =>
    obtain ⟨n, hrun, -⟩ := restack_run ht fun _ => stack
    simp [hrun]
  | broken stack e =>
    obtain ⟨n, hrun, -⟩ := restack_run ht fun _ => stack
    obtain ⟨-, met, -, -, -, -, hjudged⟩ := unwindFrames_broken _ _ _ hstack
    have hother : e ≠ .fault (.escaped c.kind.name) := fun he =>
      tryClauses_ne_escaped _ _ _ (he ▸ hjudged)
    simpa [bind_run_of_ok hrun, throw_run] using hother
  | escaped =>
    obtain ⟨n, hrun, -⟩ := restack_run ht fun _ => .empty
    obtain ⟨killed, n', hkill⟩ : ∃ killed n', killThread thread n = .ok killed n' := by
      rw [killThread_run]
      split
      · exact ⟨_, _, rfl⟩
      · split <;> exact ⟨_, _, rfl⟩
    refine iff_of_true ⟨n', (bind_run_of_ok hrun).trans ?_⟩ rfl
    cases hkind : c.kind with
    | throw => exact absurd hkind hjump
    | _ => exact bind_run_of_ok hkill

set_option maxRecDepth 100000 in
/-- A jump is taken off the stack before it looks for its target, so one that is itself what its
label stands on finds none. -/
theorem jump_escapes_its_own_label : ∃ m m',
    hosted Builtin.natives {} [.spawn "a: break a;"] = some m ∧ m.threads.length = 1 ∧
    runToQuiescence Builtin.natives 10 m = .error (.fault (.escaped "break")) m' := by
  have hchecks : (hosted Builtin.natives {} [.spawn "a: break a;"]).any (fun m =>
      (failure? (runToQuiescence Builtin.natives 10) m).any fun r => decide
        (m.threads.length = 1 ∧ r.1 = .fault (.escaped "break"))) = true := by
    rw [hosted_eq]
    decide +kernel
  obtain ⟨m, hm, hchecks⟩ := (Option.any_eq_true _ _).1 hchecks
  obtain ⟨⟨e, m'⟩, hrun, hchecks⟩ := (Option.any_eq_true _ _).1 hchecks
  obtain ⟨hone, rfl⟩ := of_decide_eq_true hchecks
  exact ⟨m, m', hm, hone, error_of_failure? hrun⟩

end Machine

end ScriptMachine
