import ScriptMachine.Proofs.Arrays.Extent
import ScriptMachine.Proofs.Attributes
import ScriptMachine.Proofs.Beats.Beat
import ScriptMachine.Proofs.Beats.Log
import ScriptMachine.Proofs.Beginning
import ScriptMachine.Proofs.Effect.Step

/-!
# Objects that are closed

An object that is not extensible stays so. No edit of it adds a property or links it to another
prototype, and edits are all that happens to it, whoever asks for them, unless it is still being
built for a literal or the host puts a hidden property on it past all checks.

Along the beats of a machine an object that no frame is building comes to be built by none, as long
as it is live.
-/

namespace ScriptMachine

open Machine Exec Stack

/-- Some frame on the stack is building an object. -/
def Stack.Builds (s : Stack) (id : ObjectId) : Prop := ∃ f ∈ s.frames, f.Builds id

/-- No frame is building an object. -/
def Machine.Unbuilt (id : ObjectId) (m : Machine) : Prop := ∀ t ∈ m.threads, ¬ t.stack.Builds id

instance (id : ObjectId) (m : Machine) : Decidable (m.Unbuilt id) :=
  inferInstanceAs (Decidable (∀ t ∈ m.threads, ¬ ∃ f ∈ t.stack.frames, f.info = .object id))

namespace Stack

variable {s : Stack} {f : Frame} {id : ObjectId} {v : Value}

theorem not_builds_empty (id : ObjectId) : ¬ Stack.empty.Builds id := by
  rintro ⟨f, hf, -⟩
  cases hf

theorem not_builds_push (hs : ¬ s.Builds id) (hf : ¬ f.Builds id) : ¬ (s.push f).Builds id := by
  rintro ⟨g, hg, hid⟩
  rcases List.mem_cons.1 hg with rfl | hg
  · exact hf hid
  · exact hs ⟨g, hg, hid⟩

theorem not_builds_dropTop (hs : ¬ s.Builds id) : ¬ s.dropTop.Builds id := by
  rintro ⟨f, hf, hid⟩
  exact hs ⟨f, List.mem_of_mem_tail hf, hid⟩

theorem not_builds_modifyTop (hs : ¬ s.Builds id) {g : Frame → Frame}
    (hg : ∀ f, (g f).Builds id → f.Builds id) : ¬ (s.modifyTop g).Builds id := by
  rintro ⟨f, hf, hid⟩
  rw [frames_modifyTop] at hf
  cases hframes : s.frames with
  | nil =>
    rw [hframes] at hf
    cases hf
  | cons top rest =>
    rw [hframes, List.modifyHead_cons] at hf
    rcases List.mem_cons.1 hf with rfl | hf
    · exact hs ⟨top, hframes ▸ List.mem_cons_self, hg top hid⟩
    · exact hs ⟨f, hframes ▸ List.mem_cons_of_mem top hf, hid⟩

theorem builds_of_mem_recordIn {frames : List Frame} (hf : f ∈ recordIn v frames)
    (hid : f.Builds id) : f ∈ frames := by
  induction frames with
  | nil => cases hf
  | cons g rest ih =>
    unfold recordIn at hf
    split at hf
    · rcases List.mem_cons.1 hf with rfl | hf
      · cases hid
      · exact List.mem_cons_of_mem g hf
    · exact hf
    · rcases List.mem_cons.1 hf with rfl | hf
      · exact List.mem_cons_self
      · exact List.mem_cons_of_mem g (ih hf)

theorem not_builds_recordCompletion (hs : ¬ s.Builds id) (v : Value) :
    ¬ (s.recordCompletion v).Builds id := by
  rintro ⟨f, hf, hid⟩
  exact hs ⟨f, builds_of_mem_recordIn hf hid, hid⟩

theorem builds_of_mem_agree {frames frames' : List Frame} (h : Agree frames frames')
    (hf : f ∈ frames') (hid : f.Builds id) : ∃ g ∈ frames, g.Builds id := by
  induction h with
  | nil => cases hf
  | @cons g g' _ _ hfirst _ ih =>
    rcases List.mem_cons.1 hf with rfl | hf
    · have hsame : f.info = g.info := by
        have hinfo := hfirst.info
        rw [show f.info = .object id from hid] at hinfo ⊢
        generalize g.info = i at hinfo ⊢
        cases hinfo
        rfl
      exact ⟨g, List.mem_cons_self, hsame.symm.trans hid⟩
    · obtain ⟨g, hg, hid⟩ := ih hf
      exact ⟨g, List.mem_cons_of_mem _ hg, hid⟩

/-- Frames that evaluate the same build the same. -/
theorem not_builds_of_agree {t : Stack} (hs : ¬ s.Builds id) (h : Agree s.frames t.frames) :
    ¬ t.Builds id := by
  rintro ⟨f, hf, hid⟩
  exact hs (builds_of_mem_agree h hf hid)

end Stack

namespace Machine

variable {id : ObjectId} {m m' : Machine} {thread : ThreadId} {settles : Bool}

namespace Unbuilt

theorem of_threads (h : m.Unbuilt id) (hthreads : m'.threads = m.threads) : m'.Unbuilt id := by
  unfold Unbuilt
  rw [hthreads]
  exact h

/-- A thread is changed so that it builds no more than it did. -/
theorem update (h : m.Unbuilt id) {thread : ThreadId} {g : Thread → Thread}
    (hthreads : m'.threads = updateThread thread g m.threads)
    (hg : ∀ t, m.thread? thread = some t → ¬ t.stack.Builds id → ¬ (g t).stack.Builds id) :
    m'.Unbuilt id := by
  intro u hu
  rw [hthreads] at hu
  rcases mem_updateThread hu with hu | ⟨t, ht, rfl⟩
  · exact h u hu
  · exact hg t ht (h t (mem_threads_of_thread? ht).1)

theorem map (h : m.Unbuilt id) {g : Thread → Thread} (hthreads : m'.threads = m.threads.map g)
    (hg : ∀ t, ¬ t.stack.Builds id → ¬ (g t).stack.Builds id) : m'.Unbuilt id := by
  intro u hu
  rw [hthreads] at hu
  obtain ⟨t, ht, rfl⟩ := List.mem_map.1 hu
  exact hg t (h t ht)

theorem filter (h : m.Unbuilt id) (q : Thread → Bool) :
    Unbuilt id { m with threads := m.threads.filter q } :=
  fun t ht => h t (List.mem_filter.1 ht).1

/-- A thread starts on a frame that builds nothing. -/
theorem newThread (h : m.Unbuilt id) {base : Frame} (hbase : ¬ base.Builds id) (delay : Float)
    (keepOutcome : Bool) : Unbuilt id (after (newThread base delay keepOutcome) m) := by
  rcases after_newThread_cases base delay keepOutcome m with hserves | ⟨_, _, _, _, heq⟩
  · exact h.of_threads hserves.threads
  · rw [heq]
    intro t ht
    rcases mem_insertThread ht with rfl | ht
    · exact not_builds_push (not_builds_empty id) hbase
    · exact h t ht

theorem settle (h : m.Unbuilt id) (resolver : Nat) (thread : ThreadId) (s : Settlement) :
    Unbuilt id (after (settle resolver thread s) m) := by
  have hsettling := settling resolver thread s m
  unfold after
  cases hrun : Machine.settle resolver thread s m with
  | error e n =>
    rw [hrun] at hsettling
    cases hsettling with
    | unknown => exact h
    | refused hserves => exact h.of_threads hserves.threads
  | ok a n =>
    rw [hrun] at hsettling
    cases hsettling with
    | late _ hserves => exact h.of_threads hserves.threads
    | early _ _ _ => exact h
    | @resumed t f next _ ht _ hframe _ =>
      refine h.update rfl fun u hu hbuilds => ?_
      obtain rfl := Option.some.inj (ht.symm.trans hu)
      exact not_builds_of_agree hbuilds (stay_settled hframe).agree

theorem alteration (h : m.Unbuilt id) (halters : Alteration settles m m') : m'.Unbuilt id := by
  cases halters with
  | serve hserves => exact h.of_threads hserves.threads
  | tend thread hf =>
    refine h.update rfl fun t _ hbuilds => ?_
    rw [(hf t).stack]
    exact hbuilds
  | start hbase delay keepOutcome =>
    refine h.newThread ?_ delay keepOutcome
    cases hbase <;> exact fun hid => by cases hid
  | finish _ _ outcome => exact h.update rfl fun _ _ _ => not_builds_empty id
  | forget _ _ => exact h.filter _
  | stop status =>
    refine h.map rfl fun t hbuilds => ?_
    split
    · exact hbuilds
    · exact not_builds_empty id
  | issue _ _ =>
    unfold after
    rw [issueResolver_run]
    cases nextCount m.nextResolverId <;> exact h.of_threads rfl
  | settle _ resolver thread s => exact h.settle resolver thread s
  | _ => exact h.of_threads rfl

theorem altered (h : m.Unbuilt id) (halters : Altered settles m m') : m'.Unbuilt id := by
  induction halters with
  | refl => exact h
  | tail _ hlast ih => exact ih.alteration hlast

theorem worked (h : m.Unbuilt id) (hworked : Worked thread m m') : m'.Unbuilt id := by
  induction hworked with
  | refl => exact h
  | tail _ hlast ih =>
    cases hlast with
    | frame hlast => exact ih.alteration hlast
    | host hlast => exact (ih.altered hlast).of_threads rfl

theorem ends {steady prompt : Prop} {step : Step} (h : m.Unbuilt id)
    (hends : Ends steady prompt thread m step m') : m'.Unbuilt id := by
  cases hends with
  | plain => exact h
  | recorded v => exact h.update rfl fun t _ hbuilds => not_builds_recordCompletion hbuilds v
  | blocked _ _ _ => exact h.update rfl fun _ _ hbuilds => hbuilds
  | asleep _ _ _ _ _ => exact h.update rfl fun _ _ hbuilds => hbuilds
  | napping _ _ _ _ => exact h.update rfl fun _ _ hbuilds => hbuilds

end Unbuilt

/-! ## What a step asks for -/

theorem keeps_unbuilt_restack (thread : ThreadId) {g : Stack → Stack}
    (hg : ∀ s : Stack, ¬ s.Builds id → ¬ (g s).Builds id) :
    Keeps (Unbuilt id) (modifyThread thread fun t => { t with stack := g t.stack }) :=
  keeps_modifyThread fun _ h => h.update rfl fun t _ hbuilds => hg t.stack hbuilds

theorem keeps_unbuilt_finish (thread : ThreadId) (outcome : Outcome) :
    Keeps (Unbuilt id) (modifyThread thread fun t => t.finish outcome) :=
  keeps_modifyThread fun _ h => h.update rfl fun _ _ _ => not_builds_empty id

theorem keeps_unbuilt_fault {α : Type} (thread : ThreadId) (e : Failure) :
    Keeps (Unbuilt id) (fault thread e : Exec α) := by
  refine Keeps.bind ?_ fun _ => keeps_throw e
  refine keeps_get.bind fun m => ?_
  split
  · split
    · exact keeps_pure false
    · exact (keeps_unbuilt_finish thread .killed).bind fun _ => keeps_pure true
  · exact keeps_pure false

theorem keeps_unbuilt_finishThread (thread : ThreadId) (outcome : Outcome) :
    Keeps (Unbuilt id) (finishThread thread outcome) := by
  unfold finishThread
  split
  · refine keeps_get.bind fun m => Keeps.bind ?_ fun _ => keeps_unbuilt_finish thread _
    exact keeps_modify fun _ h => h.of_threads rfl
  · exact keeps_unbuilt_finish thread _

/-- A frame that claims a completion builds what it has been building. -/
theorem builds_of_meet {h : Heap} {f g : Frame} {c : Completion} (hmeet : meet h f c = .ok (.catch g))
    (hid : g.Builds id) : f.Builds id := by
  unfold meet at hmeet
  split at hmeet
  · cases hclauses : tryClauses h f with
    | error e =>
      rw [hclauses] at hmeet
      cases hmeet
    | ok clauses =>
      rw [hclauses] at hmeet
      simp only [bind, Except.bind, pure, Except.pure] at hmeet
      split at hmeet
      · cases hmeet
        exact hid
      · split at hmeet
        · cases hmeet
          cases hid
        · cases hmeet
  · have hplain : meetPlain f c = .catch g := by
      injection hmeet
    unfold meetPlain at hplain
    repeat' split at hplain
    all_goals cases hplain
    · cases hid
    · exact hid

/-- What is left of frames that were dropped for a completion. -/
def Unwound.Unbuilt (id : ObjectId) : Unwound → Prop
  | .caught stack => ¬ stack.Builds id
  | .escaped => True
  | .broken stack _ => ¬ stack.Builds id

theorem unbuilt_unwindFrames (h : Heap) (c : Completion) (frames : List Frame) (depth : Nat)
    (hdepth : depth = frames.length) (hframes : ∀ f ∈ frames, ¬ f.Builds id) :
    (unwindFrames h c frames depth hdepth).Unbuilt id := by
  induction frames generalizing depth with
  | nil => exact trivial
  | cons f rest ih =>
    have hrest : ∀ g ∈ rest, ¬ g.Builds id := fun g hg => hframes g (List.mem_cons_of_mem f hg)
    have hbelow : ¬ Stack.Builds (⟨rest, depth - 1, by simp [hdepth]⟩ : Stack) id := by
      rintro ⟨g, hg, hid⟩
      exact hrest g hg hid
    unfold unwindFrames
    dsimp only
    split
    · exact hbelow
    · exact hbelow
    · refine not_builds_push hbelow fun hid => ?_
      exact hframes f List.mem_cons_self (builds_of_meet ‹_› hid)
    · exact ih _ _ hrest

theorem keeps_unbuilt_escape (thread : ThreadId) (c : Completion) :
    Keeps (Unbuilt id) (escape thread c) := by
  have hempty : ∀ s : Stack, ¬ s.Builds id → ¬ Stack.empty.Builds id := fun _ _ => not_builds_empty id
  refine (keeps_unbuilt_restack thread (g := fun _ => .empty) hempty).bind fun _ => ?_
  split
  · exact keeps_unbuilt_finishThread thread _
  · exact keeps_unbuilt_fault thread _

theorem keeps_unbuilt_unwind (thread : ThreadId) (c : Completion) :
    Keeps (Unbuilt id) (unwind thread c) := by
  intro m h
  unfold unwind
  rw [after_bind, get_run]
  dsimp only
  split
  · exact h
  · rename_i t ht
    rw [after_bind, get_run]
    dsimp only
    have hbuilds : ¬ t.stack.Builds id := h t (mem_threads_of_thread? ht).1
    have hleft : (unwindStack m.heap c t.stack).Unbuilt id :=
      unbuilt_unwindFrames _ c _ _ _ fun f hf hid => hbuilds ⟨f, hf, hid⟩
    have hstack {stack : Stack} (hs : ¬ stack.Builds id) :
        Keeps (Unbuilt id) (modifyThread thread fun t => { t with stack }) :=
      keeps_unbuilt_restack thread (g := fun _ => stack) fun _ _ => hs
    cases hunwound : unwindStack m.heap c t.stack with
    | caught stack =>
      rw [hunwound] at hleft
      exact hstack hleft m h
    | broken stack e =>
      rw [hunwound] at hleft
      exact (hstack hleft).bind (fun _ => keeps_throw e) m h
    | escaped => exact keeps_unbuilt_escape thread c m h

theorem keeps_unbuilt_raise (thread : ThreadId) (scope : ScopeId) (e : Failure) :
    Keeps (Unbuilt id) (raise thread scope e) := by
  unfold raise
  split
  · exact keeps_unbuilt_fault thread e
  · have hvalue : Keeps (Unbuilt id) (errorToValue e scope thread) := fun m h =>
      h.of_threads (keeps_threads_errorToValue m.threads e scope thread m rfl)
    refine hvalue.attempt.bind fun result => ?_
    split
    · exact keeps_unbuilt_unwind thread _
    · exact keeps_unbuilt_fault thread _

/-- What a step asks for builds what its frames build. -/
theorem keeps_unbuilt_applyStep (thread : ThreadId) {step : Step}
    (hstep : ∀ f ∈ step.frames, ¬ f.Builds id) : Keeps (Unbuilt id) (applyStep thread step) := by
  have hpush {f : Frame} (hf : f ∈ step.frames) :
      Keeps (Unbuilt id) (modifyThread thread fun t => { t with stack := t.stack.push f }) :=
    keeps_unbuilt_restack thread (g := (·.push f)) fun _ hs => not_builds_push hs (hstep f hf)
  have hhand {g : Frame → Frame} (hg : ∀ f, (g f).info = f.info) :
      Keeps (Unbuilt id) (modifyTop thread g) :=
    keeps_unbuilt_restack thread (g := (·.modifyTop g)) fun _ hs =>
      not_builds_modifyTop hs fun f hid => (hg f).symm.trans hid
  cases step with
  | push f child =>
    refine (hpush (List.mem_cons_of_mem _ List.mem_cons_self)).bind fun _ => ?_
    refine keeps_get.bind fun _ => keeps_get.bind fun _ => ?_
    split
    · exact keeps_unbuilt_raise thread _ _
    · exact hpush List.mem_cons_self
  | stay f => exact hpush List.mem_cons_self
  | suspend f => exact hpush List.mem_cons_self
  | done v =>
    refine keeps_get.bind fun _ => ?_
    split
    · exact hhand fun _ => rfl
    · exact keeps_unbuilt_finishThread thread _
  | ref r =>
    refine keeps_get.bind fun _ => ?_
    split
    · exact hhand fun _ => rfl
    · exact keeps_unbuilt_fault thread _
  | unwind c => exact keeps_unbuilt_unwind thread c

/-! ## Every beat -/

variable {natives : Natives} {origin : Machine} {who : Option ThreadId}

section Beats

variable (hcivil : natives.Each (Civil True))

include hcivil

/-- The turn of a thread leads to no frame that builds a live object which none has been building. -/
theorem Unbuilt.turn (h : m.Unbuilt id) (hm : Settled False True False origin none (some thread) m)
    (hready : m.threadStatus thread = some .ready) (hlive : ∃ o, m.heap.object? id = some o)
    (hcount : ∀ n, stepThread natives thread m ≠ .error .overflow n) :
    (after (stepThread natives thread) m).Unbuilt id := by
  have hpolite : natives.Each (Polite True False) := hcivil.mono fun _ h => ⟨h, False.elim⟩
  obtain ⟨f, rest, m₁, hp⟩ := exists_popped hm hready
  obtain ⟨t, ht, hframes⟩ := exists_of_frames hp.frames
  have hf : ¬ f.Builds id := fun hid =>
    h t (mem_threads_of_thread? ht).1 ⟨f, hframes ▸ List.mem_cons_self, hid⟩
  have h₁ : m₁.Unbuilt id := by
    have hpop : Keeps (Unbuilt id) (popFrame thread) := by
      refine keeps_get.bind fun _ => ?_
      split
      · exact keeps_throw _
      · split
        · refine Keeps.bind ?_ fun _ => keeps_pure _
          exact keeps_unbuilt_restack thread (g := (·.dropTop)) fun _ => not_builds_dropTop
        · exact keeps_pure _
    exact after_of_ok hp.run ▸ hpop m h
  have ht₁ := hp.settled.orderly.tidy
  have hstanding : m₁.Standing f id := ⟨hp.heap.symm ▸ hlive, hf⟩
  have hdispatches := dispatches_dispatch hpolite ht₁ hp.settled.orderly.grammatical hp.stacked
    hp.holds.alive fun h => h.elim
  unfold Dispatches at hdispatches
  cases hrun : dispatch natives thread f m₁ with
  | ok step m₂ =>
    rw [hrun] at hdispatches
    obtain ⟨mid, hworked, hends, -⟩ := hdispatches
    have h₂ : m₂.Unbuilt id := (h₁.worked hworked).ends hends
    rw [stepThread_eq_advance, after_bind, hp.advance_of_ok hrun]
    by_cases halive : m₂.isAlive thread = true
    · rw [if_pos halive, ← after_bind, ← applyStep_eq]
      refine keeps_unbuilt_applyStep thread (fun g hg hid => ?_) m₂ h₂
      exact (leadsOn_of_dispatch ht₁ thread hrun).not_builds hstanding g hg hid
    · rw [if_neg halive]
      exact h₂
  | error e m₂ =>
    rw [hrun] at hdispatches
    have hover : e ≠ .overflow := by
      rintro rfl
      refine hcount m₂ ?_
      rw [stepThread_eq_advance, bind_run, hp.advance_of_overflow hrun]
    have h₂ : m₂.Unbuilt id := h₁.worked (hdispatches.resolve_left hover)
    rw [stepThread_eq_advance, after_bind, hp.advance_of_error hrun hover]
    by_cases halive : m₂.isAlive thread = true
    · rw [if_pos halive, ← after_bind, ← raise_eq]
      exact keeps_unbuilt_raise thread _ e m₂ h₂
    · rw [if_neg halive]
      exact h₂

/-- Along the beats of a machine no frame comes to build a live object which none has been
building. -/
theorem Unbuilt.beat (h : m.Unbuilt id) (hm : Beating origin m)
    (hlive : ∃ o, m.heap.object? id = some o) (hbeat : Beat natives m who m') : m'.Unbuilt id := by
  have ht := hm.orderly.tidy
  have hwake : (after schedule m).Unbuilt id := by
    refine h.map (g := fun t => t.wake m.reading) rfl fun t hbuilds => ?_
    unfold Thread.wake
    split <;> exact hbuilds
  cases hbeat with
  | @pick thread n starts hidle hpick _ =>
    have ⟨u, hu, _⟩ := (settled_of_pick (hm.idle hidle) hpick).2 thread rfl
    rw [after_of_ok hpick] at hwake
    unfold attended
    cases starts with
    | false => exact hwake.of_threads rfl
    | true =>
      rw [if_pos rfl, after_of_ok (startRun_run hu)]
      exact hwake.update rfl fun _ _ hbuilds => hbuilds
  | turn hcurrent hready hcount =>
    rw [Beating, hcurrent] at hm
    exact h.turn hcivil hm hready hlive hcount
  | look => exact hwake
  | rest => exact h.of_threads rfl
  | collect => exact (h.filter _).of_threads rfl
  | request _ r hstep hrun _ =>
    by_cases hcollect : r = .collect
    · subst hcollect
      exact (h.filter _).of_threads rfl
    · exact h.altered (altered_request ht hm.orderly.global natives r hcollect hstep hrun)

end Beats

end Machine

/-! ## Objects that are closed -/

namespace Object

variable {o o' o'' : Object}

/-- An object is closed, and has no property and no prototype that another one has not. -/
structure ClosedAs (o o' : Object) : Prop where
  closed : o'.extensible = false
  keys : o'.properties.keys ⊆ o.properties.keys
  proto : o'.proto = o.proto

namespace ClosedAs

theorem refl (h : o.extensible = false) : o.ClosedAs o := ⟨h, List.Subset.refl _, rfl⟩

theorem trans (h : o.ClosedAs o') (h' : o'.ClosedAs o'') : o.ClosedAs o'' :=
  ⟨h'.closed, List.Subset.trans h'.keys h.keys, h'.proto.trans h.proto⟩

end ClosedAs

/-- A property that is there already is defined anew. -/
theorem keys_defined_of_mem {key : String} (p : Property) (h : key ∈ o.properties.keys) :
    (o.defined key p).properties.keys = o.properties.keys := by
  unfold defined
  split
  · exact (Table.keys_modify _ _ _).trans (keys_put_of_mem h p)
  · exact keys_put_of_mem h p

theorem keys_resize_subset (o : Object) (n : Nat) :
    (o.resize n).properties.keys ⊆ o.properties.keys := by
  rw [keys_resize]
  split
  · exact List.filter_subset_self _
  · exact List.Subset.refl _

/-- A closed object is edited. -/
theorem Edit.closedAs (h : o.Edit o') (hclosed : o.extensible = false) : o.ClosedAs o' := by
  have hopen {p : Prop} (hextensible : o.extensible = true) : p := by
    rw [hclosed] at hextensible
    cases hextensible
  have hsame {p : Object} (hkeys : p.properties.keys = o.properties.keys) :
      p.properties.keys ⊆ o.properties.keys := hkeys ▸ List.Subset.refl _
  cases h with
  | assign key p v hp hwritable hplain => exact ⟨hclosed, hsame (Table.keys_modify _ _ _), rfl⟩
  | resize n harray hlength => exact ⟨hclosed, keys_resize_subset o n, rfl⟩
  | limit writable harray hlength => exact ⟨hclosed, hsame (Table.keys_modify _ _ _), rfl⟩
  | add key v hextensible hnew => exact hopen hextensible
  | define key d p hp hplain =>
    have hmem : key ∈ o.properties.keys := by
      by_contra hnone
      unfold definedProperty at hp
      rw [(Table.get?_eq_none_iff _).2 hnone, hclosed] at hp
      cases hp
    refine ⟨?_, hsame (keys_defined_of_mem p hmem), ?_⟩
    · unfold defined
      split <;> exact hclosed
    · unfold defined
      split <;> rfl
  | erase key p hp hconfigurable =>
    refine ⟨hclosed, ?_, rfl⟩
    rw [Table.keys_erase]
    exact List.erase_subset
  | link proto hextensible => exact hopen hextensible
  | close => exact ⟨rfl, List.Subset.refl _, rfl⟩
  | give owner => exact ⟨hclosed, List.Subset.refl _, rfl⟩

theorem Evolves.closedAs (h : o.Evolves o') (hclosed : o.extensible = false) : o.ClosedAs o' := by
  induction h with
  | refl => exact .refl hclosed
  | tail _ hlast ih => exact ih.trans (hlast.closedAs ih.closed)

end Object

namespace Machine

variable {m m' : Machine} {id : ObjectId} {o : Object} {origin : Machine}

/-- What may happen to a machine next, but that the host puts a hidden property on an object. -/
inductive Passes (natives : Natives) (id : ObjectId) (m : Machine) : Machine → Prop where
  | thread {thread : ThreadId} {m' : Machine} (hbeat : Beat natives m (some thread) m') :
    Passes natives id m m'
  | idle {m' : Machine} (hbeat : Beat natives m none m') (hheap : m'.heap = m.heap) :
    Passes natives id m m'
  | collect : Passes natives id m (after collectGarbage m)
  | request (hidle : m.currentThread = none) (r : Request) (hstep : r ≠ .step)
    (hrun : ∀ fuel, r ≠ .run fuel) (hcount : ∀ n, r.perform natives m ≠ .error .overflow n)
    (hhidden : ∀ key v actor, r ≠ .defineHidden id key v actor) :
    Passes natives id m (after (r.perform natives) m)

/-- What happens to a machine as long as an object is live, but that the host puts a hidden property
on that object. -/
abbrev Lasts (natives : Natives) (id : ObjectId) : Machine → Machine → Prop :=
  Relation.ReflTransGen fun m m' => Passes natives id m m' ∧ (m'.heap.object? id).isSome = true

theorem Passes.beat {natives : Natives} (h : Passes natives id m m') :
    ∃ who, Beat natives m who m' := by
  cases h with
  | thread hbeat => exact ⟨_, hbeat⟩
  | idle hbeat _ => exact ⟨_, hbeat⟩
  | collect => exact ⟨_, .collect⟩
  | request hidle r hstep hrun hcount _ => exact ⟨_, .request hidle r hstep hrun hcount⟩

theorem Lasts.beats {natives : Natives} (h : Lasts natives id m m') : Beats natives m m' := by
  induction h with
  | refl => exact .refl
  | tail _ hlast ih => exact ih.tail hlast.1.beat

end Machine

/-! ## What the host does -/

/-- A request of the host edits an object or frees it, unless it puts a hidden property on it. -/
theorem Request.leaves_object {m : Machine} {id : ObjectId} {o : Object} (r : Request)
    (hm : m.Has id o) (hstep : r ≠ .step) (hrun : ∀ fuel, r ≠ .run fuel)
    (hhidden : ∀ key v actor, r ≠ .defineHidden id key v actor) :
    Action.Leaves Object.Evolves id o (after (r.perform Builtin.natives) m) := by
  have hact (a : Action) (ha : a.stepped? = none) :
      Action.Leaves Object.Evolves id o (a.apply m) := by
    refine a.leaves_apply permits_evolves hm fun thread hthread => ?_
    rw [ha] at hthread
    cases hthread
  have hdiscard {α : Type} {x : Exec α} (hx : Action.Leaves Object.Evolves id o (after x m)) :
      Action.Leaves Object.Evolves id o (after (do let _ ← x) m) := by
    rw [after_bind]
    unfold after at hx
    cases hrun : x m with
    | ok a n =>
      rw [hrun] at hx
      exact hx
    | error e n =>
      rw [hrun] at hx
      exact hx
  have hsame {m' : Machine} (hobjects : m'.heap.objects = m.heap.objects) :
      Action.Leaves Object.Evolves id o m' := by
    refine .inl ⟨o, ?_, .refl⟩
    rw [Heap.object?, hobjects]
    exact hm.live
  have hquiet {α : Type} {x : Exec α} (hx : Quiet id x) :
      Action.Leaves Object.Evolves id o (after x m) :=
    Action.leaves_of_touches (permits_evolves.quiet hx) hm
  have hquiet' {α : Type} {x : Exec α} (hx : Quiet id x) :
      Action.Leaves Object.Evolves id o (after (do let _ ← x) m) :=
    hdiscard (hquiet hx)
  have htouch {α : Type} {x : Exec α} (hx : Touches id Object.Evolves x) :
      Action.Leaves Object.Evolves id o (after x m) :=
    Action.leaves_of_touches hx hm
  have hwriting : Writing (fun _ => True) (Quiet id) (Touches id Object.Evolves) :=
    permits_evolves.writing _
  cases r with
  | load source => exact hquiet' (quiet_load source)
  | spawnProgram program =>
    exact hquiet' (quiet.bind (quiet.heapQuery _) fun _ => quiet.bind quiet.get fun _ =>
      quiet_newThread _ _ _)
  | spawn source => exact hdiscard (hact (.spawn source) rfl)
  | call func receiver args delay => exact hdiscard (hact (.call func receiver args delay) rfl)
  | settle resolver thread s => exact hact (.settle resolver thread s) rfl
  | kill thread => exact hdiscard (hact (.kill thread) rfl)
  | take thread => exact hdiscard (hact (.take thread) rfl)
  | release => exact hact .release rfl
  | pin v => exact hsame (Heap.SameSlots.pin m.heap m.hostValues v).objects
  | limit thread most => exact hact (.limit thread most) rfl
  | threshold count => exact hact (.threshold count) rfl
  | policy p => exact hsame rfl
  | pause => exact hact .pause rfl
  | resume => exact hact .resume rfl
  | stop => exact hact .stop rfl
  | setGlobal name v => exact hact (.setGlobal name v) rfl
  | declare name v mutable => exact hquiet (quiet.bind quiet.get fun _ => quiet.declare _ _ _ _)
  | define name => exact hquiet (quiet.defineGlobalNative _ name)
  | newScope kind outer owner receiver => exact hquiet' (quiet.newScope kind outer owner receiver)
  | declareIn scope name v mutable => exact hquiet (quiet.declare scope name v mutable)
  | setBinding scope name v => exact hquiet (quiet.setBinding scope name v)
  | writeBinding scope name v => exact hquiet (quiet.writeBinding scope name v)
  | setScopeOwner scope owner => exact hquiet (quiet_setScopeOwner scope owner)
  | alloc object => exact hquiet' (quiet.alloc object)
  | createObject proto owner => exact hquiet' (quiet.createObject proto owner)
  | createPlainObject owner => exact hquiet' (quiet.createPlainObject owner)
  | createArray values owner => exact hquiet' (quiet.createArray values owner)
  | createFunction name label => exact hquiet' (quiet.createNativeFunction _ name label)
  | createClosure node scope owner => exact hquiet' (quiet_createClosure node scope owner)
  | createError kind message owner thread => exact hquiet' (quiet.createError kind message owner thread)
  | setProperty base key v actor => exact htouch (hwriting.setProperty base key v actor trivial)
  | defineProperty other key d actor =>
    exact htouch (hwriting.defineProperty other key d actor trivial)
  | defineHidden other key v actor =>
    have hother : other ≠ id := fun heq => hhidden key v actor (heq ▸ rfl)
    exact hquiet (quiet.bind (quiet.query _) fun _ _ =>
      keeps_modify fun _ hm => has_withObject hm hother _)
  | deleteProperty other key actor =>
    exact hdiscard (htouch (hwriting.deleteProperty other key actor trivial))
  | setPrototype other proto actor => exact htouch (hwriting.setPrototype other proto actor trivial)
  | preventExtensions other actor => exact htouch (hwriting.preventExtensions other actor trivial)
  | setOwnerOf other owner actor => exact htouch (hwriting.setOwnerOf other owner actor trivial)
  | advance millis => exact hact (.advance millis) rfl
  | wait time => exact hact (.wait time) rfl
  | setClock time => exact hact (.setClock time) rfl
  | replaceClock clock => exact hact (.replaceClock clock) rfl
  | collect => exact hdiscard (hact .collect rfl)
  | step => exact absurd rfl hstep
  | run fuel => exact absurd rfl (hrun fuel)

namespace Machine

variable {m m' : Machine} {id : ObjectId} {o : Object} {origin : Machine}

/-- An object that no literal is building is edited or freed. -/
theorem Passes.leaves (h : Passes Builtin.natives id m m') (hm : Beating origin m)
    (ho : m.heap.object? id = some o) (hunbuilt : m.Unbuilt id) :
    Action.Leaves Object.Evolves id o m' := by
  have hhas : m.Has id o := ⟨hm.orderly.tidy, ho⟩
  have hsame {m' : Machine} (hheap : m'.heap = m.heap) : Action.Leaves Object.Evolves id o m' :=
    .inl ⟨o, hheap ▸ ho, .refl⟩
  cases h with
  | thread hbeat =>
    cases hbeat with
    | pick starts hidle hpick _ =>
      have hforemost := (settled_of_pick (hm.idle hidle) hpick).2 _ rfl
      refine hsame ((heap_attended hforemost starts).1.trans ?_)
      rw [← after_of_ok hpick]
      rfl
    | turn _ _ _ =>
      refine Action.leaves_apply permits_evolves hhas (.step _) fun thread hthread f hf hid => ?_
      cases hthread
      obtain ⟨t, ht, htop⟩ : ∃ t, m.thread? _ = some t ∧ t.stack.top? = some f := by
        simpa [topFrame?, Option.bind_eq_some_iff] using hf
      exact hunbuilt t (mem_threads_of_thread? ht).1 ⟨f, List.mem_of_head? htop, hid⟩
  | idle _ hheap => exact hsame hheap
  | collect => exact Action.leaves_apply permits_evolves hhas .collect fun _ h => by cases h
  | request _ r hstep hrun _ hhidden => exact r.leaves_object hhas hstep hrun hhidden

theorem Lasts.closedAs (hrun : Lasts Builtin.natives id m m') (hm : Beating origin m)
    (ho : m.heap.object? id = some o) (hclosed : o.extensible = false)
    (hunbuilt : m.Unbuilt id) :
    Beating origin m' ∧ m'.Unbuilt id ∧ ∃ o', m'.heap.object? id = some o' ∧ o.ClosedAs o' := by
  induction hrun with
  | refl => exact ⟨hm, hunbuilt, o, ho, .refl hclosed⟩
  | tail _ hlast ih =>
    obtain ⟨hm₁, hunbuilt₁, o₁, ho₁, hclosed₁⟩ := ih
    obtain ⟨hpasses, hlive⟩ := hlast
    obtain ⟨who, hbeat⟩ := hpasses.beat
    refine ⟨hm₁.beat Builtin.each_civil hbeat, ?_, ?_⟩
    · exact hunbuilt₁.beat Builtin.each_civil hm₁ ⟨o₁, ho₁⟩ hbeat
    · rcases hpasses.leaves hm₁ ho₁ hunbuilt₁ with ⟨o₂, ho₂, hevolves⟩ | hnone
      · exact ⟨o₂, ho₂, hclosed₁.trans (hevolves.closedAs hclosed₁.closed)⟩
      · rw [hnone] at hlive
        cases hlive

/-- Once an object is closed, and built by no literal any more, it stays closed for as long as it is
live. It has no property that it had not, and the same prototype. -/
theorem Played.closed_object_kept (hplayed : Played Builtin.natives m)
    (hrun : Lasts Builtin.natives id m m') (ho : m.heap.object? id = some o)
    (hclosed : o.extensible = false) (hunbuilt : m.Unbuilt id) :
    ∃ o', m'.heap.object? id = some o' ∧ o.ClosedAs o' := by
  obtain ⟨origin, hm⟩ := hplayed.beating Builtin.each_civil
  exact (hrun.closedAs hm ho hclosed hunbuilt).2.2

/-! ## A literal that is closed while it is built -/

/-- Whether an object is live. -/
def live (id : ObjectId) (m : Machine) : List Bool := [(m.heap.object? id).isSome]

/-- A thread has its turns while an object is live. -/
theorem lasts_follow {natives : Natives} {thread : ThreadId} {below turns : Nat} {log : List Bool}
    (hfollow : follow natives thread below (live id) turns m = some (log, m'))
    (hlog : ∀ b ∈ log, b = true) (hlast : (m'.heap.object? id).isSome = true) :
    Lasts natives id m m' := by
  induction turns generalizing m log with
  | zero =>
    cases hfollow
    exact .refl
  | succ turns ih =>
    unfold follow at hfollow
    split at hfollow
    · rename_i hchecks
      obtain ⟨-, hcurrent, hready, hcount⟩ := hchecks
      obtain ⟨⟨rest, n⟩, hrest, heq⟩ := Option.map_eq_some_iff.1 hfollow
      cases heq
      have hbeat := beat_of_turn hcurrent hready hcount
      have hrests : ∀ b ∈ rest, b = true := fun b hb => hlog b (List.mem_append_right _ hb)
      refine .head ⟨.thread hbeat, ?_⟩ (ih hrest hrests)
      cases turns with
      | zero =>
        cases hrest
        exact hlast
      | succ turns =>
        unfold follow at hrest
        split at hrest
        · obtain ⟨⟨later, n⟩, -, heq⟩ := Option.map_eq_some_iff.1 hrest
          cases heq
          exact hrests _ List.mem_cons_self
        · cases hrest
    · cases hfollow

/-- The host knows the object of a literal by a handle of an object that was freed. It closes the
object before the property of the literal is stored. -/
def closing : List Request :=
  [.spawn "var o = {p: 1}; o.q = 2;", .step, .step, .step, .step, .step,
    .preventExtensions ⟨103⟩ (some ⟨0⟩)]

/-- Whether an object is extensible, and the names of its properties. -/
def outline (id : ObjectId) (m : Machine) : Option (Bool × List String) :=
  (m.heap.object? id).map fun o => (o.extensible, o.properties.keys)

set_option maxRecDepth 100000 in
/-- The literal stores its property, and then the program fails to store another one. -/
theorem closing_run : ∃ k m m', Played Builtin.natives k ∧
    outline ⟨103⟩ k = some (false, []) ∧ Lasts Builtin.natives ⟨103⟩ k m ∧
    outline ⟨103⟩ m = some (false, ["p"]) ∧ m.Unbuilt ⟨103⟩ ∧ Lasts Builtin.natives ⟨103⟩ m m' ∧
    m'.frames ⟨1⟩ = [] := by
  have hchecks : (hosted Builtin.natives {} closing).any (fun k =>
      (follow Builtin.natives ⟨1⟩ 0 (live ⟨103⟩) 2 ((after schedule k).attended ⟨1⟩ true)).any
        fun built => (follow Builtin.natives ⟨1⟩ 0 (live ⟨103⟩) 11 built.2).any fun last => decide
          (picks ⟨1⟩ k = true ∧ outline ⟨103⟩ k = some (false, []) ∧
            (∀ b ∈ built.1, b = true) ∧ outline ⟨103⟩ built.2 = some (false, ["p"]) ∧
            built.2.Unbuilt ⟨103⟩ ∧ (∀ b ∈ last.1, b = true) ∧
            (last.2.heap.object? ⟨103⟩).isSome = true ∧ last.2.frames ⟨1⟩ = [])) = true := by
    rw [hosted_eq]
    decide +kernel
  obtain ⟨k, hk, hchecks⟩ := (Option.any_eq_true _ _).1 hchecks
  obtain ⟨⟨log, m⟩, hbuilt, hchecks⟩ := (Option.any_eq_true _ _).1 hchecks
  obtain ⟨⟨log', m'⟩, hlast, hchecks⟩ := (Option.any_eq_true _ _).1 hchecks
  obtain ⟨hpicks, hk₀, hlog, hm, hunbuilt, hlog', hlive, hended⟩ := of_decide_eq_true hchecks
  obtain ⟨hplayed, hidle⟩ := (reachable_of_hosted hk).played Builtin.each_civil
  have hbeat : Beat Builtin.natives k (some ⟨1⟩) ((after schedule k).attended ⟨1⟩ true) :=
    .pick true hidle (schedule_of_picks hpicks) fun h => by cases h
  have hstarts : (((after schedule k).attended ⟨1⟩ true).heap.object? ⟨103⟩).isSome = true := by
    obtain ⟨origin, hm⟩ := hplayed.beating Builtin.each_civil
    have hforemost := (settled_of_pick (hm.idle hidle) (schedule_of_picks hpicks)).2 _ rfl
    obtain ⟨o, ho, -⟩ := Option.map_eq_some_iff.1 hk₀
    rw [(heap_attended hforemost true).1]
    exact Option.isSome_of_eq_some ho
  have hmlive : (m.heap.object? ⟨103⟩).isSome = true := by
    obtain ⟨o, ho, -⟩ := Option.map_eq_some_iff.1 hm
    exact Option.isSome_of_eq_some ho
  exact ⟨k, m, m', hplayed, hk₀, .head ⟨.thread hbeat, hstarts⟩ (lasts_follow hbuilt hlog hmlive),
    hm, hunbuilt, lasts_follow hlast hlog' hlive, hended⟩

/-- What an outline tells of an object. -/
theorem exists_of_outline {keys : List String} (h : outline id m = some (false, keys)) :
    ∃ o, m.heap.object? id = some o ∧ o.extensible = false ∧ o.properties.keys = keys := by
  obtain ⟨o, ho, houtline⟩ := Option.map_eq_some_iff.1 h
  exact ⟨o, ho, congrArg Prod.fst houtline, congrArg Prod.snd houtline⟩

/-- A literal goes on building an object that the host has closed. -/
theorem closed_literal_grows : ∃ m m' o o', Played Builtin.natives m ∧
    Lasts Builtin.natives ⟨103⟩ m m' ∧ m.heap.object? ⟨103⟩ = some o ∧ o.extensible = false ∧
    m'.heap.object? ⟨103⟩ = some o' ∧ ¬ o.ClosedAs o' := by
  obtain ⟨k, m, -, hplayed, hk, hbuilt, hm, -⟩ := closing_run
  obtain ⟨o, ho, hclosed, hkeys⟩ := exists_of_outline hk
  obtain ⟨o', ho', -, hkeys'⟩ := exists_of_outline hm
  refine ⟨k, m, o, o', hplayed, hbuilt, ho, hclosed, ho', fun h => ?_⟩
  have hsubset := h.keys
  rw [hkeys, hkeys'] at hsubset
  exact List.not_mem_nil (hsubset List.mem_cons_self)

/-- Once the literal is done the object is closed for good. -/
theorem closed_object_kept_past_its_literal : ∃ m m' o o', Played Builtin.natives m ∧
    Lasts Builtin.natives ⟨103⟩ m m' ∧ m.heap.object? ⟨103⟩ = some o ∧ o.extensible = false ∧
    m.Unbuilt ⟨103⟩ ∧ m'.heap.object? ⟨103⟩ = some o' ∧ o.ClosedAs o' := by
  obtain ⟨k, m, m', hplayed, -, hbuilt, hm, hunbuilt, hlast, -⟩ := closing_run
  obtain ⟨o, ho, hclosed, -⟩ := exists_of_outline hm
  have hplayed' : Played Builtin.natives m := by
    obtain ⟨config, clock, m₀, hcreate, hbeats⟩ := hplayed
    exact ⟨config, clock, m₀, hcreate, hbeats.trans hbuilt.beats⟩
  obtain ⟨o', ho', hkept⟩ := hplayed'.closed_object_kept hlast ho hclosed hunbuilt
  exact ⟨m, m', o, o', hplayed', hlast, ho, hclosed, hunbuilt, ho', hkept⟩

end Machine

end ScriptMachine
