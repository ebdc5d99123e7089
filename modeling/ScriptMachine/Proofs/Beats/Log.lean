import ScriptMachine.Proofs.Beats.Beat

/-!
# What the turns of a thread tell about one of its frames

A thread and the number of frames below it identify a frame, from the time that it is pushed until
it leaves the stack. Only the turns of the thread do anything to it. While there are others above it,
the frame is as far as it was.

A completion drops the frames that let it pass and stops at the first that does not. The frames below
are left alone.
-/

namespace ScriptMachine

open Machine Exec Stack

namespace Stack

variable {h : Heap} {c : Completion} {above rest : List Frame} {f g : Frame}

/-- A frame lets a completion pass. -/
def passes (h : Heap) (c : Completion) (f : Frame) : Bool :=
  match meet h f c with
  | .ok .drop => true
  | _ => false

/-- The frames that a completion leaves. -/
def leftBy (h : Heap) (c : Completion) : List Frame → List Frame
  | [] => []
  | f :: rest =>
    match meet h f c with
    | .ok .drop => leftBy h c rest
    | .ok (.catch g) => g :: rest
    | .ok .stop => rest
    | .error _ => rest

theorem leftBy_of_drop (hmeet : meet h f c = .ok .drop) :
    leftBy h c (f :: rest) = leftBy h c rest := by
  rw [leftBy, hmeet]

theorem leftBy_of_catch (hmeet : meet h f c = .ok (.catch g)) :
    leftBy h c (f :: rest) = g :: rest := by
  rw [leftBy, hmeet]

theorem meet_of_passes (hf : passes h c f = true) : meet h f c = .ok .drop := by
  unfold passes at hf
  split at hf
  · assumption
  · cases hf

/-- A completion that all frames above let pass goes on below. -/
theorem leftBy_append (habove : above.all (passes h c) = true) :
    leftBy h c (above ++ rest) = leftBy h c rest := by
  induction above with
  | nil => rfl
  | cons f above ih =>
    rw [List.all_cons, Bool.and_eq_true] at habove
    exact (leftBy_of_drop (meet_of_passes habove.1)).trans (ih habove.2)

/-- A completion that is stopped above leaves what is below. -/
theorem exists_leftBy_append (habove : ¬ above.all (passes h c) = true) :
    ∃ above', leftBy h c (above ++ rest) = above' ++ rest := by
  induction above with
  | nil => exact absurd rfl habove
  | cons f above ih =>
    rw [List.cons_append, leftBy]
    cases hmeet : meet h f c with
    | error e => exact ⟨above, rfl⟩
    | ok meeting =>
      cases meeting with
      | stop => exact ⟨above, rfl⟩
      | «catch» g => exact ⟨g :: above, rfl⟩
      | drop =>
        apply ih
        intro hall
        apply habove
        rw [List.all_cons, hall, Bool.and_true]
        unfold passes
        rw [hmeet]

theorem length_leftBy_le (h : Heap) (c : Completion) (frames : List Frame) :
    (leftBy h c frames).length ≤ frames.length := by
  induction frames with
  | nil => exact Nat.le_refl 0
  | cons f rest ih =>
    rw [leftBy]
    split
    · exact Nat.le_succ_of_le ih
    · exact Nat.le_refl _
    · exact Nat.le_succ _
    · exact Nat.le_succ _

end Stack

namespace Machine

variable {m : Machine} {thread : ThreadId} {F : List Frame}

/-- The frames that are left after unwinding. -/
def Unwound.frames : Unwound → List Frame
  | .caught stack => stack.frames
  | .escaped => []
  | .broken stack _ => stack.frames

theorem frames_unwindFrames (h : Heap) (c : Completion) (frames : List Frame) (depth : Nat)
    (hdepth : depth = frames.length) :
    (unwindFrames h c frames depth hdepth).frames = leftBy h c frames := by
  induction frames generalizing depth with
  | nil => rfl
  | cons f rest ih =>
    rw [unwindFrames, leftBy]
    cases meet h f c with
    | error e => rfl
    | ok meeting =>
      cases meeting with
      | drop => exact ih _ _
      | stop => rfl
      | «catch» g => rfl

/-- A completion that no frame claims leaves none. -/
theorem Holds.frames_escape (hF : Holds thread F m) (c : Completion) :
    (after (escape thread c) m).frames thread = [] := by
  have hempty : Holds thread [] (m.restacked thread fun _ => .empty) :=
    hF.restacked fun _ _ => rfl
  unfold escape
  rw [after_bind, hF.run_restack fun _ => .empty]
  dsimp only
  split
  · obtain ⟨n, hrun, -, hframes⟩ := hempty.run_finishThread (.threw c.value)
    rw [after_of_ok hrun]
    exact hframes
  · obtain ⟨n, hrun, -, hframes⟩ := hempty.run_fault (α := Unit) (.fault (.escaped c.kind.name))
    rw [after_of_error hrun]
    exact hframes

/-- Unwinding a live thread leaves it the frames that the completion leaves. -/
theorem Holds.frames_unwind (hF : Holds thread F m) (c : Completion) :
    (after (unwind thread c) m).frames thread = leftBy m.heap c F := by
  obtain ⟨t, ht, -, hframes⟩ := hF.exists_thread
  have hleft : (unwindStack m.heap c t.stack).frames = leftBy m.heap c F := by
    rw [← hframes]
    exact frames_unwindFrames _ _ _ _ _
  have hreplace (stack : Stack) :
      modifyThread thread (fun t => { t with stack }) m = .ok () (m.restacked thread fun _ => stack) :=
    hF.run_restack fun _ => stack
  have hreplaced (stack : Stack) : (m.restacked thread fun _ => stack).frames thread = stack.frames :=
    (hF.restacked fun _ _ => rfl : Holds thread stack.frames _).frames
  rw [← hleft]
  unfold unwind
  rw [after_bind, get_run]
  dsimp only
  rw [ht]
  dsimp only
  rw [after_bind, get_run]
  dsimp only
  cases unwindStack m.heap c t.stack with
  | caught stack =>
    dsimp only
    rw [after_of_ok (hreplace stack)]
    exact hreplaced stack
  | broken stack e =>
    dsimp only
    rw [after_bind, hreplace stack]
    exact hreplaced stack
  | escaped => exact hF.frames_escape c

end Machine

/-! ## What the turns of a thread tell about one of its frames -/

variable {natives : Natives} {origin k m m' n : Machine} {thread : ThreadId}
  {who : Option ThreadId} {e f f' : Frame} {above rest : List Frame} {α : Type}

/-- Frames that stand on others in order leave those in order. -/
theorem Stack.Stacked.lower {strict : Prop} {h : Heap} (hs : Stacked strict h (above ++ f :: rest)) :
    Stacked strict h (f :: rest) := by
  induction above with
  | nil => exact hs
  | cons e above ih =>
    apply ih
    cases above with
    | nil => exact hs.tail
    | cons g above => exact hs.tail

namespace Machine

/-- Between the beats of a machine its stacks are in order. -/
theorem Beating.stacked (hm : Beating origin m) (hframes : m.frames thread = above ++ f :: rest) :
    Stacked False m.heap (f :: rest) := by
  have hne : m.frames thread ≠ [] := by
    rw [hframes]
    exact List.append_ne_nil_of_right_ne_nil _ (List.cons_ne_nil _ _)
  obtain ⟨e, tail, hcons⟩ := List.exists_cons_of_ne_nil hne
  obtain ⟨t, ht, hstack⟩ := exists_of_frames hcons
  have hstands := hm.orderly.stands t (mem_threads_of_thread? ht).1
  have hlive : t.isZombie = false := by
    cases hzombie : t.isZombie with
    | false => rfl
    | true =>
      have hnone := (hstands.finished hzombie).1
      rw [hstack] at hnone
      cases hnone
  have hs := (hstands.stacked (fun _ h => by cases h) hlive).1
  rw [← frames_of_thread? ht, hframes] at hs
  exact hs.lower

/-- The program of a frame is there, and it is the one that was there before. -/
theorem Beating.program_of_node {here : NodeRef} {p : Tree.Program} (hm' : Beating origin m')
    (hspares : Spares who m m') (hframes : m'.frames thread = above ++ f :: rest)
    (hnode : f.node = some here) (hprogram : m.heap.program? here.program = some p) :
    m'.heap.program? here.program = some p := by
  cases (hm'.stacked hframes).sits with
  | node _ hnode' hprogram' =>
    obtain rfl := Option.some.inj (hnode.symm.trans hnode')
    rw [hprogram', hspares.programs hprogram hprogram']
  | call _ hnone _ => exact nomatch hnode.symm.trans hnone

/-- Between the turns of a thread its frames stay, unless the thread is ended. -/
theorem Beat.undisturbed (hcivil : natives.Each (Civil True)) (hmoderate : natives.Each Moderate)
    (hm : Beating origin m) (h : Beat natives m who m')
    (hother : ¬ (m.currentThread = some thread ∧ who = some thread)) :
    Undisturbed thread m m' := by
  by_cases hwho : who = some thread
  · subst hwho
    cases h with
    | pick starts hidle hpick _ =>
      have hspares : Spares none m _ := spares_pick (hm.idle hidle) hpick starts
      exact hspares.others nofun
    | turn hcurrent _ _ => exact absurd ⟨hcurrent, rfl⟩ hother
  · exact (h.spares hcivil hmoderate hm).others hwho

theorem Beat.stay (hcivil : natives.Each (Civil True)) (hmoderate : natives.Each Moderate)
    (hm : Beating origin m) (h : Beat natives m who m')
    (hother : ¬ (m.currentThread = some thread ∧ who = some thread))
    (hframes : m.frames thread = above ++ f :: rest) (hthere : m'.frames thread ≠ []) :
    Stay (m.frames thread) (m'.frames thread) := by
  obtain ⟨e, tail, hcons⟩ := List.exists_cons_of_ne_nil
    (List.append_ne_nil_of_right_ne_nil above (List.cons_ne_nil f rest))
  obtain ⟨t, ht, -⟩ := exists_of_frames (hframes.trans hcons)
  obtain ⟨hmem, rfl⟩ := mem_threads_of_thread? ht
  have hundisturbed := h.undisturbed hcivil hmoderate hm hother
  exact (hundisturbed.frames (hm.orderly.queued.sorted.issued t hmem)).resolve_left hthere

/-! ## A frame that has others above it -/

/-- A turn in which the thread is ended: it is killed, or there is a fault of the host. -/
def Cuts : EStateM.Result Failure Machine Progress → Prop
  | .error _ _ => True
  | .ok .struck _ => True
  | _ => False

/-- What the first half of a turn comes to for a frame that has others above it. -/
inductive Underneath (thread : ThreadId) (above : List Frame) (f : Frame) (rest : List Frame) :
    EStateM.Result Failure Machine Progress → Prop where
  | cut {result : EStateM.Result Failure Machine Progress} (h : Cuts result) :
    Underneath thread above f rest result
  | quiet {n : Machine} {above' rest' : List Frame} {f' : Frame}
    (hframes : n.frames thread = above' ++ f' :: rest') (hagrees : f.Agrees f')
    (hbelow : rest'.length = rest.length) (hbare : above' = [] → above = []) :
    Underneath thread above f rest (.ok .quiet n)
  | unwinding {n : Machine} {c : Completion} {above' rest' : List Frame} {f' : Frame}
    (hholds : Holds thread (above' ++ f' :: rest') n) (hagrees : f.Agrees f')
    (hbelow : rest'.length = rest.length) :
    Underneath thread above f rest (.ok (.unwinding c) n)

/-- The frame is as far as it was until frames are dropped. -/
theorem Popped.underneath (hcivil : natives.Each (Civil True)) (hmoderate : natives.Each Moderate)
    {m₁ : Machine} (hp : Popped origin thread e (above ++ f :: rest) m m₁) :
    Underneath thread above f rest (advance natives thread m) := by
  have hcomes := comes_advance hcivil hmoderate hp
  have hcovered {F : List Frame} (h : Covers (above ++ f :: rest) F) : ∃ above' f' rest',
      F = above' ++ f' :: rest' ∧ f.Agrees f' ∧ rest'.length = rest.length ∧
        (above' = [] → above = []) := by
    obtain ⟨new, tail, rfl, hagree⟩ := h
    obtain ⟨above', f', rest', rfl, hf, habove, hrest⟩ := Stack.split hagree
    refine ⟨new ++ above', f', rest', (List.append_assoc _ _ _).symm, hf, hrest.length_eq.symm, ?_⟩
    intro hnil
    rw [(List.append_eq_nil_iff.1 hnil).2] at habove
    exact List.forall₂_nil_right_iff.1 habove
  cases hrun : advance natives thread m with
  | error e n => exact .cut trivial
  | ok progress n =>
    rw [hrun] at hcomes
    cases progress with
    | struck => exact .cut trivial
    | quiet =>
      obtain ⟨above', f', rest', hframes, hf, hbelow, hbare⟩ := hcovered hcomes
      exact .quiet hframes hf hbelow hbare
    | unwinding c =>
      obtain ⟨halive, hcovers⟩ := hcomes
      obtain ⟨above', f', rest', hframes, hf, hbelow, -⟩ := hcovered hcovers
      exact .unwinding ⟨halive, hframes⟩ hf hbelow

/-! ## A frame that is stepped -/

section Stepped

variable {m₁ m₂ : Machine} {g child : Frame} {c : Completion}

variable (hcivil : natives.Each (Civil True)) (hmoderate : natives.Each Moderate)

include hcivil hmoderate

/-- A step that gives a result is carried out, with the frames below as they were. -/
theorem Popped.cuts_or_carries (hp : Popped origin thread f rest m m₁) {step : Step}
    (hrun : dispatch natives thread f m₁ = .ok step m₂) : Cuts (advance natives thread m) ∨
      advance natives thread m = carry thread step m₂ ∧ ActsApart thread m m₂ ∧
        ∃ rest', Holds thread rest' m₂ ∧ Stay rest rest' := by
  have hleaves := leaves_dispatch hcivil hmoderate hp
  unfold Leaves at hleaves
  rw [hrun] at hleaves
  rw [hp.advance_of_ok hrun]
  split
  · exact .inr ⟨rfl, hp.apart.trans hleaves.1, hleaves.2 ‹_›⟩
  · exact .inl trivial

/-- A child is put on the stack if there is room for it. -/
theorem Popped.cuts_or_places (hp : Popped origin thread f rest m m₁)
    (hrun : dispatch natives thread f m₁ = .ok (.push g child) m₂) :
    Cuts (advance natives thread m) ∨ ∃ rest' n, Stay rest rest' ∧
      (rest.length + 1 < m.config.maxStackDepth ∧ advance natives thread m = .ok .quiet n ∧
          n.frames thread = child :: g :: rest' ∨
        m.config.maxStackDepth ≤ rest.length + 1 ∧ ∃ v,
          advance natives thread m = .ok (.unwinding { kind := .throw, value := v }) n ∧
            Holds thread (g :: rest') n) := by
  rcases hp.cuts_or_carries hcivil hmoderate hrun with hcuts | ⟨hcarry, hapart, rest', hholds, hstay⟩
  · exact .inl hcuts
  have hlimit : m₂.config.maxStackDepth = m.config.maxStackDepth := (hapart.fixed ⟨rfl, rfl⟩).1
  have hplace : advance natives thread m = place thread g child m₂ := hcarry
  rw [hholds.run_place, hlimit, ← hstay.length_eq] at hplace
  split at hplace
  · rename_i hfull
    rcases (hholds.pushed g).thrown_cases g.scope
      (.rangeError "Maximum call stack size exceeded") with ⟨e, n, hthrown, -⟩ | ⟨-, v, n, hthrown, hn⟩
    · rw [hplace, hthrown]
      exact .inl trivial
    · exact .inr ⟨rest', n, hstay, .inr ⟨hfull, v, hplace.trans hthrown, hn⟩⟩
  · rename_i hroom
    exact .inr ⟨rest', _, hstay,
      .inl ⟨Nat.lt_of_not_le hroom, hplace, ((hholds.pushed g).pushed child).frames⟩⟩

/-- A value is handed to the frame below, or the thread comes to its end. -/
theorem Popped.cuts_or_hands (hp : Popped origin thread f rest m m₁) {v : Value}
    (hrun : dispatch natives thread f m₁ = .ok (.done v) m₂) :
    Cuts (advance natives thread m) ∨ ∃ n, advance natives thread m = .ok .quiet n ∧
      (rest = [] ∧ n.frames thread = [] ∨ ∃ rest', Stay rest rest' ∧
        n.frames thread = rest'.modifyHead fun p => { p with value := v }) := by
  rcases hp.cuts_or_carries hcivil hmoderate hrun with hcuts | ⟨hcarry, -, rest', hholds, hstay⟩
  · exact .inl hcuts
  right
  by_cases hempty : rest' = []
  · subst hempty
    obtain ⟨n, hrun', -, hframes⟩ := hholds.run_finishThread (.completed v)
    have happly : applyStep thread (.done v) m₂ = .ok () n := (hholds.run_hand _ _).trans hrun'
    exact ⟨n, hcarry.trans (bind_run_of_ok happly), .inl ⟨List.forall₂_nil_right_iff.1 hstay, hframes⟩⟩
  · have happly : applyStep thread (.done v) m₂ = .ok () _ := (hholds.run_hand _ _).trans
      ((if_neg hempty).trans (hholds.run_restack (·.modifyTop fun p => { p with value := v })))
    refine ⟨_, hcarry.trans (bind_run_of_ok happly), .inr ⟨rest', hstay, ?_⟩⟩
    exact (hholds.restacked fun s hs => by rw [frames_modifyTop, hs] : Holds thread _ _).frames

/-- A step that asks for a completion leaves the frames below to be unwound. -/
theorem Popped.cuts_or_unwinds (hp : Popped origin thread f rest m m₁)
    (hrun : dispatch natives thread f m₁ = .ok (.unwind c) m₂) :
    Cuts (advance natives thread m) ∨ ∃ n rest', Stay rest rest' ∧
      advance natives thread m = .ok (.unwinding c) n ∧ Holds thread rest' n := by
  rcases hp.cuts_or_carries hcivil hmoderate hrun with hcuts | ⟨hcarry, -, rest', hholds, hstay⟩
  · exact .inl hcuts
  · exact .inr ⟨m₂, rest', hstay, hcarry, hholds⟩

/-- A step that fails throws, unless that is a fault. -/
theorem Popped.cuts_or_throws (hp : Popped origin thread f rest m m₁) {e : Failure}
    (hrun : dispatch natives thread f m₁ = .error e m₂) :
    Cuts (advance natives thread m) ∨ e.isFault = false ∧ ∃ v n rest', Stay rest rest' ∧
      advance natives thread m = .ok (.unwinding { kind := .throw, value := v }) n ∧
        Holds thread rest' n := by
  have hleaves := leaves_dispatch hcivil hmoderate hp
  unfold Leaves at hleaves
  rw [hrun] at hleaves
  by_cases he : e = .overflow
  · subst he
    rw [hp.advance_of_overflow hrun]
    exact .inl trivial
  rw [hp.advance_of_error hrun he]
  split
  · obtain ⟨rest', hholds, hstay⟩ := (hleaves.resolve_left he).2 ‹_›
    rcases hholds.thrown_cases f.scope e with ⟨e', n, hthrown, -⟩ | ⟨hfault, v, n, hthrown, hn⟩
    · rw [hthrown]
      exact .inl trivial
    · exact .inr ⟨hfault, v, n, rest', hstay, hthrown, hn⟩
  · exact .inl trivial

end Stepped

/-- The frames after a turn in which the first half came to no completion. -/
theorem after_stepThread_of_quiet (h : advance natives thread m = .ok .quiet n) :
    after (stepThread natives thread) m = n := by
  rw [stepThread_eq_advance, after_bind, h]
  rfl

/-- The frames that a completion leaves are those after the turn. -/
theorem frames_of_unwinding {c : Completion} {F : List Frame} (hF : Holds thread F n)
    (h : advance natives thread m = .ok (.unwinding c) n) :
    (after (stepThread natives thread) m).frames thread = leftBy n.heap c F := by
  rw [stepThread_eq_advance, after_bind, h]
  exact hF.frames_unwind c

/-! ## Telling -/

/-- What the turns of a thread tell, while it has more than so many frames. -/
inductive Told (natives : Natives) (thread : ThreadId) (below : Nat) (told : Machine → List α)
    (k : Machine) : List α → Machine → Prop where
  | start : Told natives thread below told k [] k
  | turn {log : List α} {m m' : Machine} (h : Told natives thread below told k log m)
    (hthere : below < (m.frames thread).length) (hcurrent : m.currentThread = some thread)
    (hbeat : Beat natives m (some thread) m') :
    Told natives thread below told k (log ++ told m) m'
  /-- The thread is not ended by anything else. -/
  | other {log : List α} {m m' : Machine} {who : Option ThreadId}
    (h : Told natives thread below told k log m) (hthere : below < (m.frames thread).length)
    (hbeat : Beat natives m who m') (hother : ¬ (m.currentThread = some thread ∧ who = some thread))
    (hstill : below < (m'.frames thread).length) :
    Told natives thread below told k log m'

namespace Told

variable {below : Nat} {told : Machine → List α} {log : List α}

theorem beats (h : Told natives thread below told k log m) : Beats natives k m := by
  induction h with
  | start => exact .refl
  | turn _ _ _ hbeat ih => exact ih.tail ⟨_, hbeat⟩
  | other _ _ hbeat _ _ ih => exact ih.tail ⟨_, hbeat⟩

end Told

/-! ## Following a thread -/

/-- A counter ran out. -/
def isOverflow : EStateM.Result Failure Machine α → Bool
  | .error .overflow _ => true
  | _ => false

/-- What so many turns of a thread tell that it has one after the other, and the machine then. -/
def follow (natives : Natives) (thread : ThreadId) (below : Nat) (told : Machine → List α) :
    Nat → Machine → Option (List α × Machine)
  | 0, m => some ([], m)
  | turns + 1, m =>
    if below < (m.frames thread).length ∧ m.currentThread = some thread ∧
        m.threadStatus thread = some .ready ∧ isOverflow (stepThread natives thread m) = false then
      (follow natives thread below told turns (after (stepThread natives thread) m)).map
        fun result => (told m ++ result.1, result.2)
    else none

/-- A turn whose counters do not run out is a beat. -/
theorem beat_of_turn {thread : ThreadId} (hcurrent : m.currentThread = some thread)
    (hready : m.threadStatus thread = some .ready)
    (hcount : isOverflow (stepThread natives thread m) = false) :
    Beat natives m (some thread) (after (stepThread natives thread) m) := by
  refine .turn hcurrent hready fun n hrun => ?_
  rw [hrun] at hcount
  cases hcount

theorem Told.follow {below : Nat} {told : Machine → List α} {log later : List α} {turns : Nat}
    (h : Told natives thread below told k log m)
    (hfollow : follow natives thread below told turns m = some (later, m')) :
    Told natives thread below told k (log ++ later) m' := by
  induction turns generalizing log later m with
  | zero =>
    cases hfollow
    rwa [List.append_nil]
  | succ turns ih =>
    unfold Machine.follow at hfollow
    split at hfollow
    · rename_i hchecks
      obtain ⟨hthere, hcurrent, hready, hcount⟩ := hchecks
      obtain ⟨⟨rest, n⟩, hrest, heq⟩ := Option.map_eq_some_iff.1 hfollow
      cases heq
      have hlater := ih (h.turn hthere hcurrent (beat_of_turn hcurrent hready hcount)) hrest
      rwa [List.append_assoc] at hlater
    · cases hfollow

/-- The scheduler picks a thread. -/
def picks (thread : ThreadId) (m : Machine) : Bool :=
  match schedule m with
  | .ok (.run id) _ => id == thread
  | _ => false

theorem schedule_of_picks (h : picks thread m = true) :
    schedule m = .ok (.run thread) (after schedule m) := by
  unfold picks at h
  split at h
  · rename_i hrun
    rw [hrun, after_of_ok hrun, eq_of_beq h]
  · cases h

/-- What so many turns of a thread tell that it has after some requests of the host, with the
machines before and after them. -/
def recital (natives : Natives) (requests : List Request) (thread : ThreadId) (below : Nat)
    (told : Machine → List α) (turns : Nat) : Option (Machine × List α × Machine) :=
  (hosted natives {} requests).bind fun k =>
    let picked := (after schedule k).attended thread true
    if picks thread k = true ∧ below < (k.frames thread).length ∧
        below < (picked.frames thread).length then
      (follow natives thread below told turns picked).map fun result => (k, result)
    else none

theorem told_of_recital (hcivil : natives.Each (Civil True)) {requests : List Request}
    {below turns : Nat} {told : Machine → List α} {log : List α}
    (h : recital natives requests thread below told turns = some (k, log, m)) :
    Played natives k ∧ Told natives thread below told k log m := by
  obtain ⟨k', hk, h⟩ := Option.bind_eq_some_iff.1 h
  obtain ⟨⟨hpicks, hthere, hstill⟩, h⟩ := Option.ite_none_right_eq_some.1 h
  obtain ⟨result, hfollow, heq⟩ := Option.map_eq_some_iff.1 h
  cases heq
  obtain ⟨hplayed, hidle⟩ := (reachable_of_hosted hk).played hcivil
  have hbeat : Beat natives k (some thread) ((after schedule k).attended thread true) :=
    .pick true hidle (schedule_of_picks hpicks) fun h => by cases h
  refine ⟨hplayed, (Told.other .start hthere hbeat ?_ hstill).follow hfollow⟩
  rw [hidle]
  exact fun h => by cases h.1

end Machine

end ScriptMachine
