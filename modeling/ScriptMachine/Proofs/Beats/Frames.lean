import Mathlib.Data.List.Forall2
import ScriptMachine.Proofs.Order.Passage
import ScriptMachine.Proofs.Order.Run

/-!
# The frames of one thread

What other threads and the host do leaves the frames of a thread as they are, or ends the thread.
When a child hands a value to the frame below it, or a resolver wakes a thread, the frames evaluate
the same nodes as before and are as far with them.
-/

namespace ScriptMachine

open Exec

/-- How the progress of a frame may change while the frame is not stepped: a program records what its
statements evaluate to, and a call that is parked is settled. -/
inductive FrameInfo.Agrees : FrameInfo → FrameInfo → Prop where
  | same (info : FrameInfo) : Agrees info info
  | recorded (v w : Value) : Agrees (.program v) (.program w)
  | settled {c d : CallInfo} (hblocked : c.phase = .blocked) : Agrees (.call c) (.call d)

namespace FrameInfo.Agrees

variable {i j k : FrameInfo}

theorem trans (h : i.Agrees j) (h' : j.Agrees k) : i.Agrees k := by
  cases h with
  | same => exact h'
  | recorded v w =>
    cases h' with
    | same => exact .recorded v w
    | recorded _ u => exact .recorded v u
  | settled hblocked =>
    cases h' with
    | same => exact .settled hblocked
    | settled _ => exact .settled hblocked

/-- Only the progress of programs and of calls changes so. -/
theorem eq_of_neither (h : i.Agrees j) (hprogram : ∀ v, i ≠ .program v)
    (hcall : ∀ c, i = .call c → c.phase ≠ .blocked) : j = i := by
  cases h with
  | same => rfl
  | recorded v w => exact absurd rfl (hprogram v)
  | settled hblocked => exact absurd hblocked (hcall _ rfl)

/-- What was no parked call is still none. -/
theorem not_parked (h : i.Agrees j) (hcall : ∀ c, i = .call c → c.phase ≠ .blocked) :
    ∀ c, j = .call c → c.phase ≠ .blocked := by
  cases h with
  | same => exact hcall
  | recorded v w =>
    intro c hc
    cases hc
  | settled hblocked => exact absurd hblocked (hcall _ rfl)

end FrameInfo.Agrees

/-- A frame evaluates the same as another and is as far with it. -/
structure Frame.Agrees (f g : Frame) : Prop where
  rest : g = { f with value := g.value, reference := g.reference, info := g.info }
  info : f.info.Agrees g.info

namespace Frame.Agrees

variable {f g e : Frame}

theorem refl (f : Frame) : f.Agrees f := ⟨rfl, .same f.info⟩

theorem trans (h : f.Agrees g) (h' : g.Agrees e) : f.Agrees e where
  rest := by
    have he := h'.rest
    rw [h.rest] at he
    exact he
  info := h.info.trans h'.info

theorem node (h : f.Agrees g) : g.node = f.node := by rw [h.rest]

theorem step (h : f.Agrees g) : g.step = f.step := by rw [h.rest]

theorem wantRef (h : f.Agrees g) : g.wantRef = f.wantRef := by rw [h.rest]

theorem isTrying (h : f.Agrees g) : g.isTrying = f.isTrying := by
  have hinfo := h.info
  unfold Frame.isTrying
  generalize f.info = i at hinfo
  generalize g.info = j at hinfo
  cases hinfo <;> rfl

/-- The value and the place that a child hands over do not matter. -/
theorem handed (f : Frame) (v : Value) (r : Option Reference) :
    f.Agrees { f with value := v, reference := r } := ⟨rfl, .same f.info⟩

end Frame.Agrees

/-- A frame is as it was, if it is not that of a parked call. -/
structure Frame.Stays (f g : Frame) : Prop where
  agrees : f.Agrees g
  reference : g.reference = f.reference
  value : (∀ c, f.info = .call c → c.phase ≠ .blocked) → g.value = f.value

namespace Frame.Stays

variable {f g e : Frame}

theorem refl (f : Frame) : f.Stays f := ⟨.refl f, rfl, fun _ => rfl⟩

theorem trans (h : f.Stays g) (h' : g.Stays e) : f.Stays e where
  agrees := h.agrees.trans h'.agrees
  reference := h'.reference.trans h.reference
  value := fun hcall => (h'.value (h.agrees.info.not_parked hcall)).trans (h.value hcall)

end Frame.Stays

/-- The progress of a frame that does not change while the frame is not stepped, and that is no try
statement. -/
def FrameInfo.isSteady : FrameInfo → Bool
  | .call _ => false
  | .try _ _ => false
  | .program _ => false
  | _ => true

theorem Frame.not_trying_of_steady {f : Frame} (hf : f.info.isSteady = true) :
    f.isTrying = false := by
  unfold Frame.isTrying
  split
  · rename_i hinfo
    rw [hinfo] at hf
    cases hf
  · rfl

theorem Frame.Stays.eq_of_steady {f g : Frame} (h : f.Stays g) (hf : f.info.isSteady = true) :
    g = f := by
  have hcall (c : CallInfo) : f.info ≠ .call c := by
    intro hinfo
    rw [hinfo] at hf
    cases hf
  have hinfo : g.info = f.info := by
    refine h.agrees.info.eq_of_neither (fun v hv => ?_) fun c hc => absurd hc (hcall c)
    rw [hv] at hf
    cases hf
  rw [h.agrees.rest, h.value fun c hc => absurd hc (hcall c), h.reference, hinfo]

namespace Stack

variable {frames frames' above below : List Frame} {f : Frame}

/-- Frames that evaluate the same, one by one. -/
abbrev Agree : List Frame → List Frame → Prop := List.Forall₂ Frame.Agrees

/-- Frames that are as they were, one by one. -/
abbrev Stay : List Frame → List Frame → Prop := List.Forall₂ Frame.Stays

theorem Agree.refl (frames : List Frame) : Agree frames frames :=
  List.forall₂_same.2 fun f _ => .refl f

theorem Stay.refl (frames : List Frame) : Stay frames frames :=
  List.forall₂_same.2 fun f _ => .refl f

theorem Agree.trans {frames'' : List Frame} (h : Agree frames frames')
    (h' : Agree frames' frames'') : Agree frames frames'' := by
  induction h generalizing frames'' with
  | nil => exact h'
  | cons hfirst _ ih =>
    cases h' with
    | cons hfirst' hrest' => exact .cons (hfirst.trans hfirst') (ih hrest')

theorem Stay.trans {frames'' : List Frame} (h : Stay frames frames')
    (h' : Stay frames' frames'') : Stay frames frames'' := by
  induction h generalizing frames'' with
  | nil => exact h'
  | cons hfirst _ ih =>
    cases h' with
    | cons hfirst' hrest' => exact .cons (hfirst.trans hfirst') (ih hrest')

theorem Stay.agree (h : Stay frames frames') : Agree frames frames' := h.imp fun _ _ h => h.agrees

/-- The frame with so many others below it. -/
theorem split {R : Frame → Frame → Prop} (h : List.Forall₂ R (above ++ f :: below) frames') :
    ∃ above' f' below', frames' = above' ++ f' :: below' ∧ R f f' ∧
      List.Forall₂ R above above' ∧ List.Forall₂ R below below' := by
  induction above generalizing frames' with
  | nil =>
    cases h with
    | cons hfirst hrest => exact ⟨[], _, _, rfl, hfirst, .nil, hrest⟩
  | cons e above ih =>
    cases h with
    | cons hfirst hrest =>
      obtain ⟨above', f', below', rfl, hf, habove, hbelow⟩ := ih hrest
      exact ⟨_ :: above', f', below', rfl, hf, .cons hfirst habove, hbelow⟩

theorem agree_modifyHead {g : Frame → Frame} (hg : ∀ f : Frame, f.Agrees (g f))
    (frames : List Frame) : Agree frames (frames.modifyHead g) := by
  cases frames with
  | nil => exact .nil
  | cons f rest => exact .cons (hg f) (Agree.refl rest)

/-- The completion of a program is no matter of the other frames. -/
theorem stay_recordIn (v : Value) (frames : List Frame) : Stay frames (recordIn v frames) := by
  induction frames with
  | nil => exact .nil
  | cons f rest ih =>
    unfold recordIn
    split
    · rename_i hinfo
      refine .cons ⟨⟨rfl, ?_⟩, rfl, fun _ => rfl⟩ (Stay.refl rest)
      rw [hinfo]
      exact .recorded _ v
    · exact Stay.refl _
    · exact .cons (.refl f) ih

/-- A call that is settled was parked. -/
theorem stay_settled {t : Thread} {s : Settlement} (h : Machine.settledFrame t s = .ok f) :
    Stay t.stack.frames (t.stack.modifyTop fun _ => f).frames := by
  rw [frames_modifyTop]
  unfold Machine.settledFrame at h
  cases hframes : t.stack.frames with
  | nil => exact .nil
  | cons top rest =>
    rw [hframes] at h
    dsimp only at h
    split at h
    · rename_i c hinfo
      split at h
      · rename_i hblocked
        cases h
        have hparked : c.phase = .blocked := by simpa using hblocked
        refine .cons ⟨⟨rfl, ?_⟩, rfl, fun hcall => absurd hparked (hcall c hinfo)⟩ (Stay.refl rest)
        rw [hinfo]
        exact .settled hparked
      · cases h
    · cases h

end Stack

namespace Machine

variable {settles : Bool} {m m' m'' : Machine} {thread : ThreadId}

/-- The frames of a thread, the top one first. -/
def frames (m : Machine) (thread : ThreadId) : List Frame :=
  ((m.thread? thread).map (·.stack.frames)).getD []

theorem frames_of_thread? {t : Thread} (h : m.thread? thread = some t) :
    m.frames thread = t.stack.frames := by
  unfold frames
  rw [h]
  rfl

/-- A thread with frames is found in the table. -/
theorem exists_of_frames {f : Frame} {rest : List Frame} (h : m.frames thread = f :: rest) :
    ∃ t, m.thread? thread = some t ∧ t.stack.frames = f :: rest := by
  unfold frames at h
  cases ht : m.thread? thread with
  | none =>
    rw [ht] at h
    cases h
  | some t =>
    rw [ht] at h
    exact ⟨t, rfl, h⟩

theorem frames_updateThread_of_ne {other : ThreadId} {g : Thread → Thread}
    (hid : ∀ t, (g t).id = t.id) (hne : thread ≠ other) :
    frames { m with threads := updateThread other g m.threads } thread = m.frames thread := by
  unfold frames thread?
  rw [find?_updateThread_of_ne hid hne]

/-- The frames of a thread that is not new are what they were, unless the thread has ended. -/
structure Undisturbed (thread : ThreadId) (m m' : Machine) : Prop where
  issued : thread.index < m.nextThreadId → thread.index < m'.nextThreadId
  frames : thread.index < m.nextThreadId →
    m'.frames thread = [] ∨ Stack.Stay (m.frames thread) (m'.frames thread)

namespace Undisturbed

theorem refl (m : Machine) : Undisturbed thread m m := ⟨id, fun _ => .inr (Stack.Stay.refl _)⟩

theorem trans (h : Undisturbed thread m m') (h' : Undisturbed thread m' m'') :
    Undisturbed thread m m'' where
  issued := h'.issued ∘ h.issued
  frames := by
    intro hissued
    have hlast := h'.frames (h.issued hissued)
    rcases h.frames hissued with hnone | hfirst
    · rw [hnone] at hlast
      exact .inl (hlast.elim id List.forall₂_nil_left_iff.1)
    · exact hlast.imp_right hfirst.trans

/-- The table of threads is the same. -/
theorem of_threads (hthreads : m'.threads = m.threads) (hnext : m.nextThreadId ≤ m'.nextThreadId) :
    Undisturbed thread m m' where
  issued := fun hissued => Nat.lt_of_lt_of_le hissued hnext
  frames := by
    intro _
    unfold Machine.frames thread?
    rw [hthreads]
    exact .inr (Stack.Stay.refl _)

/-- A thread is changed, whose frames stay, or which ends. -/
theorem update (id : ThreadId) {g : Thread → Thread} (hid : ∀ t, (g t).id = t.id)
    (hg : ∀ t, m.thread? id = some t →
      (g t).stack.frames = [] ∨ Stack.Stay t.stack.frames (g t).stack.frames) :
    Undisturbed thread m { m with threads := updateThread id g m.threads } where
  issued := fun hissued => hissued
  frames := by
    intro _
    by_cases hsame : thread = id
    · subst hsame
      unfold Machine.frames
      rw [thread?_updateThread hid]
      cases ht : m.thread? thread with
      | none => exact .inl rfl
      | some t => exact hg t ht
    · rw [frames_updateThread_of_ne hid hsame]
      exact .inr (Stack.Stay.refl _)

/-- Threads other than the one that is changed. -/
theorem update_of_ne {other : ThreadId} (hne : thread ≠ other) {g : Thread → Thread}
    (hid : ∀ t, (g t).id = t.id) :
    Undisturbed thread m { m with threads := updateThread other g m.threads } where
  issued := fun hissued => hissued
  frames := by
    intro _
    rw [frames_updateThread_of_ne hid hne]
    exact .inr (Stack.Stay.refl _)

/-- All threads are changed, and their frames stay, or they end. -/
theorem map {g : Thread → Thread} (hid : ∀ t, (g t).id = t.id)
    (hg : ∀ t : Thread, (g t).stack.frames = [] ∨ (g t).stack.frames = t.stack.frames) :
    Undisturbed thread m { m with threads := m.threads.map g } where
  issued := fun hissued => hissued
  frames := by
    intro _
    unfold Machine.frames thread?
    rw [find?_map hid]
    cases m.threads.find? (·.id == thread) with
    | none => exact .inl rfl
    | some t =>
      apply (hg t).imp_right
      intro hsame
      change Stack.Stay _ (g t).stack.frames
      rw [hsame]
      exact Stack.Stay.refl _

/-- Some threads are dropped. -/
theorem filter (hn : m.Numbered) (q : Thread → Bool) :
    Undisturbed thread m { m with threads := m.threads.filter q } where
  issued := fun hissued => hissued
  frames := by
    intro _
    unfold Machine.frames thread?
    rw [← filter_find? thread q hn.sorted.ascending]
    cases ht : m.threads.find? (·.id == thread) with
    | none => exact .inl rfl
    | some t =>
      cases hkept : q t with
      | false =>
        rw [Option.filter_some, hkept]
        exact .inl rfl
      | true =>
        rw [Option.filter_some, hkept]
        exact .inr (Stack.Stay.refl _)

/-- A new thread is none of those that were there. -/
theorem newThread (hn : m.Numbered) (base : Frame) (delay : Float) (keepOutcome : Bool) :
    Undisturbed thread m (after (newThread base delay keepOutcome) m) := by
  rcases after_newThread_cases base delay keepOutcome m with
    hserves | ⟨next, nextQueued, hnext, hqueue, heq⟩
  · exact of_threads hserves.threads hserves.nextThreadId
  · rw [heq]
    obtain ⟨happend, -⟩ := hn.insert (t := m.started base delay keepOutcome) rfl rfl hnext hqueue
    constructor
    · exact fun hissued => Nat.lt_trans hissued hnext
    · intro hissued
      unfold Machine.frames thread?
      dsimp only
      have hother : ((m.started base delay keepOutcome).id == thread) = false := by
        apply beq_false_of_ne
        rintro rfl
        exact Nat.lt_irrefl _ hissued
      rw [happend, List.find?_append, List.find?_singleton, hother]
      rw [if_neg Bool.false_ne_true, Option.or_none]
      exact .inr (Stack.Stay.refl _)

/-- A thread that a settled resolver wakes goes on with the call it waited in. -/
theorem settle (id : Nat) (holder : ThreadId) (s : Settlement) :
    Undisturbed thread m (after (settle id holder s) m) := by
  have hsettling := settling id holder s m
  unfold after
  cases hrun : Machine.settle id holder s m with
  | error e m' =>
    rw [hrun] at hsettling
    cases hsettling with
    | unknown => exact refl m
    | refused hserves => exact of_threads hserves.threads hserves.nextThreadId
  | ok a m' =>
    rw [hrun] at hsettling
    cases hsettling with
    | late _ hserves => exact of_threads hserves.threads hserves.nextThreadId
    | early _ _ _ => exact of_threads rfl (Nat.le_refl _)
    | @resumed t f next _ ht _ hframe _ =>
      have hwoken : Undisturbed thread m { m with
          threads := updateThread holder (awakened f m.reading m.nextQueued) m.threads } := by
        refine update holder (fun _ => rfl) fun u hu => ?_
        obtain rfl := Option.some.inj (ht.symm.trans hu)
        exact .inr (Stack.stay_settled hframe)
      exact hwoken.trans (of_threads rfl (Nat.le_refl _))

theorem alteration (hn : m.Numbered) (h : Alteration settles m m') :
    Undisturbed thread m m' := by
  cases h with
  | serve h => exact of_threads h.threads h.nextThreadId
  | tend id hf =>
    apply update id fun t => (hf t).id
    intro t _
    rw [(hf t).stack]
    exact .inr (Stack.Stay.refl _)
  | start _ delay keepOutcome => exact newThread hn _ delay keepOutcome
  | @finish id _ _ _ outcome => exact update id (fun _ => rfl) fun _ _ => .inl rfl
  | forget _ _ => exact filter hn _
  | stop status =>
    have hended : Undisturbed thread m { m with
        threads := m.threads.map fun t => if t.isZombie then t else t.finish .killed } := by
      apply map
      · intro t
        split <;> rfl
      · intro t
        split
        · exact .inr rfl
        · exact .inl rfl
    exact hended.trans (of_threads rfl (Nat.le_refl _))
  | @issue id _ _ _ =>
    unfold after
    rw [issueResolver_run]
    cases nextCount m.nextResolverId <;> exact of_threads rfl (Nat.le_refl _)
  | settle _ resolver holder s => exact settle resolver holder s
  | _ => exact of_threads rfl (Nat.le_refl _)

theorem altered (hn : m.Numbered) (h : Altered settles m m') :
    Undisturbed thread m m' ∧ m'.Numbered := by
  induction h with
  | refl => exact ⟨refl m, hn⟩
  | tail _ hlast ih => exact ⟨ih.1.trans (alteration ih.2 hlast), ih.2.alteration hlast⟩

/-- While another thread has a frame stepped. -/
theorem worked {other : ThreadId} (hn : m.Numbered) (h : Worked other m m') :
    Undisturbed thread m m' ∧ m'.Numbered := by
  induction h with
  | refl => exact ⟨refl m, hn⟩
  | tail _ hlast ih =>
    cases hlast with
    | frame hlast => exact ⟨ih.1.trans (alteration ih.2 hlast), ih.2.alteration hlast⟩
    | host hlast =>
      obtain ⟨hundisturbed, hnumbered⟩ := altered ih.2 hlast
      exact ⟨ih.1.trans (hundisturbed.trans (of_threads rfl (Nat.le_refl _))), hnumbered⟩

end Undisturbed

end Machine

end ScriptMachine
