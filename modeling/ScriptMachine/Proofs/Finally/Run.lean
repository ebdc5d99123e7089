import ScriptMachine.Proofs.Beats.Log
import ScriptMachine.Proofs.Beginning
import ScriptMachine.Proofs.Fault

/-!
# The turns of a running try statement

The frame of a try statement is stepped when it is on top, and a completion meets it when all that was
above it is dropped. Each turn takes it from one place in its log to the next, and nothing else does
anything to it. So its finalizer begins once, and what it interrupted goes on.

The activation of a try statement is its frame, from the time that it is pushed until it leaves the
stack. A thread and the number of frames below it identify it. What the turns of the thread do to it
is told by a log.
-/

namespace ScriptMachine

open Exec Machine Stack
open Tree (NodeId)

/-- The activation of a try statement with a finalizer. -/
structure Activation where
  thread : ThreadId
  /-- So many frames are below it. -/
  below : Nat
  node : NodeRef
  block : NodeId
  handler : Option Tree.CatchClause
  finalizer : NodeId

namespace Activation

/-- What happens to the frame of a try statement. -/
inductive Happening where
  /-- A clause begins: the frame of its node is put on top. -/
  | entered (clause : TryPhase) (node : NodeId)
  /-- What was on top came to its normal end. -/
  | ended
  /-- A completion dropped all that was on top. -/
  | reached (c : Completion)
  /-- The frame leaves the stack, normally or because the frames below it unwind with a completion. -/
  | left (c : Option Completion)
  /-- The thread is ended without unwinding: it is killed, or there is a fault of the host. -/
  | cut
  deriving DecidableEq, Repr

/-! ## What a turn tells -/

/-- The clause that begins when its frame is on top of the frame of a try statement. -/
def entering : List Frame → List Happening
  | child :: f :: _ =>
    match f.info, child.node with
    | .try clause _, some here => [.entered clause here.node]
    | _, _ => []
  | _ => []

/-- What happens to the frame with `k` frames below it in a turn that comes to no completion. -/
def toldQuietly (k : Nat) (before left : List Frame) : List Happening :=
  if before.length = k + 1 ∧ left.length = k + 2 then entering left
  else if before.length = k + 2 ∧ left.length = k + 1 then [.ended]
  else if left.length ≤ k then [.left none]
  else []

/-- What happens to the frame with `k` frames below it when frames are dropped for a completion. -/
def toldUnwinding (k : Nat) (h : Heap) (c : Completion) (frames left : List Frame) :
    List Happening :=
  if frames.length ≤ k then [.left (some c)]
  else if (frames.take (frames.length - (k + 1))).all (passes h c) then
    .reached c :: if left.length ≤ k then [.left (some c)] else []
  else if left.length = k + 1 then [.ended]
  else []

/-- What happens to a try statement in the next turn of its thread. -/
def told (natives : Natives) (a : Activation) (m : Machine) : List Happening :=
  match advance natives a.thread m with
  | .error _ _ => [.cut]
  | .ok .struck _ => [.cut]
  | .ok .quiet n => toldQuietly a.below (m.frames a.thread) (n.frames a.thread)
  | .ok (.unwinding c) n => toldUnwinding a.below n.heap c (n.frames a.thread)
    ((after (unwind a.thread c) n).frames a.thread)

/-! ## Complete logs -/

/-- What may happen from the beginning of the block to that of the finalizer, and the completion
that the finalizer then interrupts. A throw out of the block begins the handler, if there is one. -/
inductive During (a : Activation) : List Happening → Option Completion → Prop where
  | ended : During a [.ended] none
  | interrupted {c : Completion} (h : c.kind = .throw → a.handler = none) :
    During a [.reached c] (some c)
  | handled {c : Completion} {clause : Tree.CatchClause} (hthrow : c.kind = .throw)
    (hhandler : a.handler = some clause) :
    During a [.reached c, .entered .handler clause.body, .ended] none
  | handlerInterrupted {c d : Completion} {clause : Tree.CatchClause} (hthrow : c.kind = .throw)
    (hhandler : a.handler = some clause) :
    During a [.reached c, .entered .handler clause.body, .reached d] (some d)

/-- What happens from the beginning of the block until the try statement leaves the stack: the
finalizer begins once, and what it interrupted goes on as it was, unless the finalizer itself comes to
another completion. -/
inductive Complete (a : Activation) : List Happening → Prop where
  | resumed {during : List Happening} {saved : Option Completion} (h : During a during saved) :
    Complete a (.entered .block a.block ::
      (during ++ [.entered .finalizer a.finalizer, .ended, .left saved]))
  | replaced {during : List Happening} {saved : Option Completion} (h : During a during saved)
    (c : Completion) :
    Complete a (.entered .block a.block ::
      (during ++ [.entered .finalizer a.finalizer, .reached c, .left (some c)]))

/-- A clause begins. -/
def Happening.begins (clause : TryPhase) : Happening → Bool
  | .entered c _ => c == clause
  | _ => false

/-- The finalizer begins exactly once. -/
theorem Complete.count_finalizer {a : Activation} {log : List Happening} (h : Complete a log) :
    log.countP (·.begins .finalizer) = 1 := by
  cases h with
  | resumed h => cases h <;> rfl
  | replaced h c => cases h <;> rfl

/-- The handler begins at most once. -/
theorem Complete.count_handler {a : Activation} {log : List Happening} (h : Complete a log) :
    log.countP (·.begins .handler) ≤ 1 := by
  cases h with
  | resumed h => cases h <;> first | exact Nat.zero_le 1 | exact Nat.le_refl 1
  | replaced h c => cases h <;> first | exact Nat.zero_le 1 | exact Nat.le_refl 1

/-! ## Logs that are not complete -/

/-- What has happened so far, and how far the frame is: its progress, its step, and whether it is on
top of the stack. -/
inductive So (a : Activation) : List Happening → FrameInfo → Nat → Bool → Prop where
  | block : So a [.entered .block a.block] (.try .block none) 1 false
  | caught {c : Completion} {clause : Tree.CatchClause} (hthrow : c.kind = .throw)
    (hhandler : a.handler = some clause) :
    So a [.entered .block a.block, .reached c] (.try .block none) 2 true
  | handler {c : Completion} {clause : Tree.CatchClause} (hthrow : c.kind = .throw)
    (hhandler : a.handler = some clause) :
    So a [.entered .block a.block, .reached c, .entered .handler clause.body]
      (.try .handler none) 1 false
  | ended {during : List Happening} {phase : TryPhase} (h : During a during none)
    (hphase : phase ≠ .finalizer) :
    So a (.entered .block a.block :: during) (.try phase none) 1 true
  | held {during : List Happening} {phase : TryPhase} {c : Completion}
    (h : During a during (some c)) (hphase : phase ≠ .finalizer) :
    So a (.entered .block a.block :: during) (.try phase (some c)) 4 true
  | finalizer {during : List Happening} {saved : Option Completion} (h : During a during saved) :
    So a (.entered .block a.block :: (during ++ [.entered .finalizer a.finalizer]))
      (.try .finalizer saved) 3 false
  | finalized {during : List Happening} {saved : Option Completion} (h : During a during saved) :
    So a (.entered .block a.block :: (during ++ [.entered .finalizer a.finalizer, .ended]))
      (.try .finalizer saved) 3 true

namespace So

variable {a : Activation} {log : List Happening} {info : FrameInfo} {step : Nat} {top : Bool}
  {f g : Frame}

/-- The frame is that of a try statement that is running. -/
theorem exists_trying (h : So a log info step top) : ∃ phase saved, info = .try phase saved := by
  cases h <;> exact ⟨_, _, rfl⟩

/-- Another frame of the same node may be as far. -/
theorem agrees (h : So a log f.info f.step top) (hg : f.Agrees g) : So a log g.info g.step top := by
  obtain ⟨phase, saved, hinfo⟩ := h.exists_trying
  have hsame : g.info = f.info := by
    apply hg.info.eq_of_neither
    · rw [hinfo]
      intro v hv
      cases hv
    · rw [hinfo]
      intro c hc
      cases hc
  rw [hsame, hg.step]
  exact h

/-- What was on top comes to its normal end. -/
theorem close (h : So a log info step false) : So a (log ++ [.ended]) info step true := by
  cases h with
  | block => exact .ended .ended nofun
  | handler hthrow hhandler => exact .ended (.handled hthrow hhandler) nofun
  | finalizer h =>
    have hlog := So.finalized h
    simpa using hlog

/-- A log that is not complete can be completed. -/
theorem exists_complete (h : So a log info step top) :
    ∃ rest, rest ≠ [] ∧ Complete a (log ++ rest) := by
  have hend {during : List Happening} {saved : Option Completion} (h : During a during saved)
      (sofar rest : List Happening) (hrest : rest ≠ [])
      (heq : sofar ++ rest = during ++ [.entered .finalizer a.finalizer, .ended, .left saved]) :
      ∃ rest, rest ≠ [] ∧ Complete a (.entered .block a.block :: sofar ++ rest) := by
    refine ⟨rest, hrest, ?_⟩
    rw [List.cons_append, heq]
    exact .resumed h
  cases h with
  | block => exact hend .ended [] _ (List.cons_ne_nil _ _) rfl
  | caught hthrow hhandler =>
    exact hend (.handled hthrow hhandler) [.reached _] (.entered .handler _ :: _)
      (List.cons_ne_nil _ _) rfl
  | handler hthrow hhandler =>
    exact hend (.handled hthrow hhandler) [.reached _, .entered .handler _] (.ended :: _)
      (List.cons_ne_nil _ _) rfl
  | ended h _ => exact hend h _ _ (List.cons_ne_nil _ _) rfl
  | held h _ => exact hend h _ _ (List.cons_ne_nil _ _) rfl
  | finalizer h =>
    exact hend h _ [.ended, .left _] (List.cons_ne_nil _ _) (List.append_assoc _ _ _)
  | finalized h =>
    exact hend h _ [.left _] (List.cons_ne_nil _ _) (List.append_assoc _ _ _)

end So

end Activation

/-! ## The step of a try statement -/

namespace Machine

/-- A try statement itself only fails with faults. -/
theorem faults_stepTry (f : Frame) (here : NodeRef) (block : Tree.NodeId)
    (handler : Option Tree.CatchClause) (finalizer : Option Tree.NodeId) :
    Faults (stepTry f here block handler finalizer) := by
  unfold stepTry
  split
  · exact faults_pure _
  · split
    · exact faults_pure _
    · exact faults_pure _
  · split
    · exact faults_throw rfl
    · refine (faults_scopeOwner f.scope).bind fun owner => ?_
      refine (faults_newScope _ _ owner _).bind fun scope => ?_
      exact (faults_declare scope _ _ true).bind fun _ => faults_pure _
  · split
    · exact faults_pure _
    · exact faults_pure _
  · split
    · exact faults_throw rfl
    · exact faults_pure _

/-- A throw that is caught enters the handler in a scope of its own. -/
theorem exists_scope_of_stepTry {f : Frame} {here : NodeRef} {block : Tree.NodeId}
    {clause : Tree.CatchClause} {finalizer : Option Tree.NodeId} {step : Step} {m n : Machine}
    (hstep : f.step = 2) (hinfo : f.info = .try .block none)
    (hrun : stepTry f here block (some clause) finalizer m = .ok step n) :
    ∃ scope, step = .push { f.clearValue with info := .try .handler none, step := 1 }
      (.ofNode { here with node := clause.body } scope) := by
  unfold stepTry at hrun
  rw [hstep] at hrun
  dsimp only at hrun
  rw [hinfo] at hrun
  obtain ⟨owner, n₁, -, hrun⟩ := bind_eq_ok_iff.1 hrun
  obtain ⟨scope, n₂, -, hrun⟩ := bind_eq_ok_iff.1 hrun
  obtain ⟨_, n₃, -, hrun⟩ := bind_eq_ok_iff.1 hrun
  cases hrun
  exact ⟨scope, rfl⟩

end Machine

namespace Activation

variable {natives : Natives} {origin k m m' m₁ m₂ n : Machine} {a : Activation} {h h' : Heap}
  {log : List Happening} {e f g : Frame} {above rest : List Frame} {c : Completion}
  {clause : TryPhase} {child : Tree.NodeId} {scope : ScopeId}

/-! ## What is told -/

/-- What is told when the frame had others above it. -/
theorem toldQuietly_above {before : List Frame} (hbefore : rest.length + 2 ≤ before.length)
    (hlast : above = [] → before.length = rest.length + 2) :
    toldQuietly rest.length before (above ++ f :: rest) =
      if above.isEmpty then [.ended] else [] := by
  have hleft : (above ++ f :: rest).length = above.length + (rest.length + 1) := List.length_append
  unfold toldQuietly
  rw [hleft, if_neg (by omega)]
  cases above with
  | nil => rw [if_pos ⟨hlast rfl, Nat.zero_add _⟩, List.isEmpty_nil, if_pos rfl]
  | cons e above =>
    rw [List.length_cons, if_neg (by omega), if_neg (by omega)]
    rfl

/-- What is told when a completion drops all frames above. -/
theorem toldUnwinding_reached {left : List Frame} (habove : above.all (passes h c) = true) :
    toldUnwinding rest.length h c (above ++ f :: rest) left =
      .reached c :: if left.length ≤ rest.length then [.left (some c)] else [] := by
  have hlength : (above ++ f :: rest).length = above.length + (rest.length + 1) := List.length_append
  unfold toldUnwinding
  rw [hlength, if_neg (by omega), Nat.add_sub_cancel, List.take_left, if_pos habove]

/-- What is told when a completion is stopped above. -/
theorem toldUnwinding_stopped {above' : List Frame} (habove : ¬ above.all (passes h c) = true) :
    toldUnwinding rest.length h c (above ++ f :: rest) (above' ++ g :: rest) =
      if above'.isEmpty then [.ended] else [] := by
  have hlength (new : List Frame) (e : Frame) :
      (new ++ e :: rest).length = new.length + (rest.length + 1) := List.length_append
  unfold toldUnwinding
  rw [hlength, if_neg (by omega), Nat.add_sub_cancel, List.take_left, if_neg habove, hlength]
  cases above' with
  | nil => rw [List.length_nil, if_pos (Nat.zero_add _), List.isEmpty_nil, if_pos rfl]
  | cons e above' =>
    rw [List.length_cons, if_neg (by omega)]
    rfl

theorem entering_cons {here : NodeRef} {saved : Option Completion}
    (hinfo : f.info = .try clause saved) (hnode : e.node = some here) :
    entering (e :: f :: rest) = [.entered clause here.node] := by
  unfold entering
  dsimp only
  rw [hinfo, hnode]

/-- What is told when the frame is done. -/
theorem toldQuietly_left {left : List Frame} (hgone : left.length ≤ rest.length) :
    toldQuietly rest.length (f :: rest) left = [.left none] := by
  unfold toldQuietly
  rw [List.length_cons, if_neg (by omega), if_neg (by omega), if_pos hgone]

theorem told_of_cuts (hcuts : Cuts (advance natives a.thread m)) : told natives a m = [.cut] := by
  unfold told
  cases hrun : advance natives a.thread m with
  | error e n => rfl
  | ok progress n =>
    rw [hrun] at hcuts
    cases progress with
    | struck => rfl
    | quiet => cases hcuts
    | unwinding c => cases hcuts

theorem told_of_quiet (hrun : advance natives a.thread m = .ok .quiet n) :
    told natives a m = toldQuietly a.below (m.frames a.thread) (n.frames a.thread) := by
  unfold told
  rw [hrun]

theorem told_of_unwinding {F : List Frame} (hF : Holds a.thread F n)
    (hrun : advance natives a.thread m = .ok (.unwinding c) n) :
    told natives a m = toldUnwinding a.below n.heap c F (leftBy n.heap c F) := by
  unfold told
  rw [hrun]
  dsimp only
  rw [hF.frames, hF.frames_unwind]

/-! ## The statement of the activation -/

/-- The program that the activation belongs to has the try statement. -/
def Known (a : Activation) (h : Heap) : Prop :=
  ∃ p, h.program? a.node.program = some p ∧
    p.kind? a.node.node = some (.tryStatement a.block a.handler (some a.finalizer))

namespace Known

theorem retained (hknown : a.Known h) (hretains : h.Retains h') : a.Known h' := by
  obtain ⟨p, hprogram, hkind⟩ := hknown
  exact ⟨p, hretains.program hprogram, hkind⟩

/-- The step of the frame. -/
theorem dispatch_run (hknown : a.Known m.heap) (hnode : f.node = some a.node) :
    dispatch natives a.thread f m =
      stepTry f a.node a.block a.handler (some a.finalizer) m := by
  obtain ⟨p, hprogram, hkind⟩ := hknown
  exact dispatch_run_of_node hnode hprogram hkind

/-- What becomes of the frame when a completion meets it. -/
theorem meet_run (hknown : a.Known h) (hnode : f.node = some a.node) {phase : TryPhase}
    {saved : Option Completion} (hinfo : f.info = .try phase saved) (c : Completion) :
    meet h f c = .ok (
      if phase == .block && a.handler.isSome && c.kind == .throw then
        .catch { f with step := 2, value := c.value }
      else if phase != .finalizer then .catch { f with info := .try phase (some c), step := 4 }
      else .drop) := by
  obtain ⟨p, hprogram, hkind⟩ := hknown
  have hclauses : tryClauses h f = .ok (a.handler.isSome, true) := by
    unfold tryClauses
    rw [hnode]
    dsimp only
    have hread : Heap.nodeKind p a.node.node =
        .ok (.tryStatement a.block a.handler (some a.finalizer)) := by
      unfold Heap.nodeKind
      rw [hkind]
    rw [Heap.program_eq_ok_iff.2 hprogram]
    simp only [bind, Except.bind]
    rw [hread]
    rfl
  unfold meet
  rw [hinfo]
  dsimp only
  rw [hclauses]
  change (if _ then _ else _ : Except Failure Meeting) = _
  dsimp only
  rw [Bool.and_true]
  split
  · rfl
  · split <;> rfl

end Known

/-! ## One turn -/

/-- The frame is on the stack and as far as the log tells. -/
def At (a : Activation) (log : List Happening) (frames : List Frame) : Prop :=
  ∃ above f rest, frames = above ++ f :: rest ∧ rest.length = a.below ∧ f.node = some a.node ∧
    So a log f.info f.step above.isEmpty

/-- What there is of an activation after a turn. -/
inductive Goes (a : Activation) (log : List Happening) (frames : List Frame) : Prop where
  | on (h : At a log frames)
  | off (h : Complete a log) (hgone : frames.length ≤ a.below)
  | cut (h : .cut ∈ log)

section Turns

variable (hcivil : natives.Each (Civil True)) (hmoderate : natives.Each Moderate)

theorem goes_of_cuts (hcuts : Cuts (advance natives a.thread m)) (frames : List Frame) :
    Goes a (log ++ told natives a m) frames := by
  rw [told_of_cuts hcuts]
  exact .cut (List.mem_append_right log List.mem_cons_self)

/-- A completion that drops all that was above the frame meets it. -/
theorem goes_reached (hknown : a.Known h) (hbelow : rest.length = a.below)
    (hnode : f.node = some a.node) (hso : So a log f.info f.step false)
    (habove : above.all (passes h c) = true) :
    Goes a (log ++ toldUnwinding a.below h c (above ++ f :: rest) (leftBy h c (above ++ f :: rest)))
      (leftBy h c (above ++ f :: rest)) := by
  have hon {g : Frame} (hmeet : meet h f c = .ok (.catch g)) (hg : g.node = some a.node)
      (hso : So a (log ++ [.reached c]) g.info g.step true) : Goes a (log ++
        toldUnwinding a.below h c (above ++ f :: rest) (leftBy h c (above ++ f :: rest)))
        (leftBy h c (above ++ f :: rest)) := by
    have hleft : leftBy h c (above ++ f :: rest) = g :: rest :=
      (leftBy_append habove).trans (leftBy_of_catch hmeet)
    rw [← hbelow, toldUnwinding_reached habove, hleft, List.length_cons,
      if_neg (Nat.not_succ_le_self rest.length)]
    exact .on ⟨[], g, rest, rfl, hbelow, hg, hso⟩
  generalize hinfo : f.info = info at hso
  generalize hstep : f.step = step at hso
  cases hso with
  | block =>
    have hmeet := hknown.meet_run hnode hinfo c
    by_cases hcaught : a.handler.isSome = true ∧ c.kind = .throw
    · obtain ⟨clause, hclause⟩ := Option.isSome_iff_exists.1 hcaught.1
      rw [if_pos (by rw [hcaught.1, hcaught.2]; rfl)] at hmeet
      refine hon hmeet hnode ?_
      rw [show ({ f with step := 2, value := c.value } : Frame).info = .try .block none from hinfo]
      exact .caught hcaught.2 hclause
    · rw [if_neg (by simpa using hcaught), if_pos (by decide)] at hmeet
      refine hon hmeet hnode (.held (.interrupted fun hthrow => ?_) nofun)
      cases hhandler : a.handler with
      | none => rfl
      | some clause => exact absurd ⟨by rw [hhandler]; rfl, hthrow⟩ hcaught
  | handler hthrow hhandler =>
    have hmeet := hknown.meet_run hnode hinfo c
    rw [if_neg (by simp), if_pos (by decide)] at hmeet
    exact hon hmeet hnode (.held (.handlerInterrupted hthrow hhandler) nofun)
  | finalizer hduring =>
    have hmeet := hknown.meet_run hnode hinfo c
    rw [if_neg (by simp), if_neg (by simp)] at hmeet
    have hleft : leftBy h c (above ++ f :: rest) = leftBy h c rest :=
      (leftBy_append habove).trans (leftBy_of_drop hmeet)
    have hgone : (leftBy h c rest).length ≤ rest.length := length_leftBy_le h c rest
    rw [← hbelow, toldUnwinding_reached habove, hleft, if_pos hgone]
    refine .off ?_ (hbelow ▸ hgone)
    have hcomplete := Complete.replaced hduring c
    simpa using hcomplete

include hcivil hmoderate

/-- A turn in which the frame has others above it. -/
theorem goes_underneath (htidy : m.heap.Tidy) (hknown : a.Known m.heap)
    (hp : Popped origin a.thread e (above ++ f :: rest) m m₁) (hbelow : rest.length = a.below)
    (hnode : f.node = some a.node) (hso : So a log f.info f.step false) :
    Goes a (log ++ told natives a m) ((after (stepThread natives a.thread) m).frames a.thread) := by
  have hunderneath := hp.underneath hcivil hmoderate
  have hleaves := leaves_apart_advance hcivil hmoderate hp
  have hcuts : Cuts (advance natives a.thread m) → Goes a (log ++ told natives a m)
      ((after (stepThread natives a.thread) m).frames a.thread) := (goes_of_cuts · _)
  unfold Leaves at hleaves
  generalize hrun : advance natives a.thread m = result at hunderneath hleaves hcuts
  cases hunderneath with
  | cut h => exact hcuts h
  | @quiet n above' rest' f' hframes hagrees hbelow' hbare =>
    rw [after_stepThread_of_quiet hrun, told_of_quiet hrun, hframes, hp.frames, ← hbelow,
      ← hbelow', toldQuietly_above]
    · cases above' with
      | nil =>
        exact .on ⟨[], f', rest', rfl, hbelow'.trans hbelow, hagrees.node.trans hnode,
          (hso.agrees hagrees).close⟩
      | cons e' above' =>
        refine .on ⟨e' :: above', f', rest', rfl, hbelow'.trans hbelow,
          hagrees.node.trans hnode, ?_⟩
        rw [List.isEmpty_cons, if_neg Bool.false_ne_true, List.append_nil]
        exact hso.agrees hagrees
    · rw [hbelow', List.length_cons, List.length_append, List.length_cons]
      omega
    · intro hnil
      rw [hbare hnil, hbelow']
      rfl
  | @unwinding n c above' rest' f' hholds hagrees hbelow' =>
    have hknown' : a.Known n.heap := hknown.retained (hleaves.retains htidy)
    rw [frames_of_unwinding hholds hrun, told_of_unwinding hholds hrun]
    by_cases habove : above'.all (passes n.heap c) = true
    · exact goes_reached hknown' (hbelow'.trans hbelow) (hagrees.node.trans hnode)
        (hso.agrees hagrees) habove
    · obtain ⟨left, hleft⟩ : ∃ left, leftBy n.heap c (above' ++ f' :: rest') =
          left ++ f' :: rest' := exists_leftBy_append habove
      rw [hleft, ← hbelow, ← hbelow', toldUnwinding_stopped habove]
      cases left with
      | nil =>
        exact .on ⟨[], f', rest', rfl, hbelow'.trans hbelow, hagrees.node.trans hnode,
          (hso.agrees hagrees).close⟩
      | cons e' left =>
        refine .on ⟨e' :: left, f', rest', rfl, hbelow'.trans hbelow,
          hagrees.node.trans hnode, ?_⟩
        rw [List.isEmpty_cons, if_neg Bool.false_ne_true, List.append_nil]
        exact hso.agrees hagrees

/-- A clause that begins is put on top of the frame if there is room for it. -/
theorem tells_entered (hp : Popped origin a.thread f rest m m₁) (hbelow : rest.length = a.below)
    (hrun : dispatch natives a.thread f m₁ =
      .ok (.push g (.ofNode { a.node with node := child } scope)) m₂)
    {saved : Option Completion} (hinfo : g.info = .try clause saved) (hnode : g.node = some a.node)
    (hso : So a (log ++ [.entered clause child]) g.info g.step false) :
    Cuts (advance natives a.thread m) ∨
      (a.below + 1 < m.config.maxStackDepth ∧ told natives a m = [.entered clause child] ∧
        At a (log ++ [.entered clause child])
          ((after (stepThread natives a.thread) m).frames a.thread)) ∨
      m.config.maxStackDepth ≤ a.below + 1 ∧ ∃ d left, told natives a m = .reached d :: left := by
  rcases hp.cuts_or_places hcivil hmoderate hrun with
    hcuts | ⟨rest', n, hstay, ⟨hroom, hadvance, hframes⟩ | ⟨hfull, v, hadvance, hholds⟩⟩
  · exact .inl hcuts
  · refine .inr (.inl ⟨hbelow ▸ hroom, ?_, ?_⟩)
    · rw [told_of_quiet hadvance, hp.frames, hframes, ← hbelow]
      unfold toldQuietly
      rw [List.length_cons, List.length_cons, List.length_cons, ← hstay.length_eq, if_pos ⟨rfl, rfl⟩]
      exact entering_cons (e := .ofNode { a.node with node := child } scope) hinfo rfl
    · rw [after_stepThread_of_quiet hadvance, hframes]
      exact ⟨[_], g, rest', rfl, hstay.length_eq.symm.trans hbelow, hnode, hso⟩
  · refine .inr (.inr ⟨hbelow ▸ hfull, { kind := .throw, value := v }, ?_⟩)
    rw [told_of_unwinding hholds hadvance, ← hbelow, hstay.length_eq]
    exact ⟨_, toldUnwinding_reached (List.all_nil : [].all (passes n.heap _) = true)⟩

/-- A turn in which the frame is on top. -/
theorem goes_top (hknown : a.Known m.heap) (hroom : a.below + 1 < m.config.maxStackDepth)
    (hp : Popped origin a.thread f rest m m₁) (hbelow : rest.length = a.below)
    (hnode : f.node = some a.node) (hso : So a log f.info f.step true) :
    Goes a (log ++ told natives a m) ((after (stepThread natives a.thread) m).frames a.thread) := by
  have hdispatch : dispatch natives a.thread f m₁ =
      stepTry f a.node a.block a.handler (some a.finalizer) m₁ :=
    Known.dispatch_run (hp.heap.symm ▸ hknown) hnode
  have henter {g : Frame} {clause : TryPhase} {child : Tree.NodeId} {scope : ScopeId}
      {m₂ : Machine} {saved : Option Completion}
      (hrun : dispatch natives a.thread f m₁ =
        .ok (.push g (.ofNode { a.node with node := child } scope)) m₂)
      (hinfo : g.info = .try clause saved) (hnode : g.node = some a.node)
      (hso : So a (log ++ [.entered clause child]) g.info g.step false) :
      Goes a (log ++ told natives a m)
        ((after (stepThread natives a.thread) m).frames a.thread) := by
    rcases tells_entered hcivil hmoderate hp hbelow hrun hinfo hnode hso with
      hcuts | ⟨-, htold, hat⟩ | ⟨hfull, -⟩
    · exact goes_of_cuts hcuts _
    · rw [htold]
      exact .on hat
    · exact absurd hroom (Nat.not_lt.2 hfull)
  generalize hinfo : f.info = info at hso
  generalize hstep : f.step = step at hso
  cases hso with
  | @caught c clause hthrow hhandler =>
    rw [hhandler] at hdispatch
    cases hrun : stepTry f a.node a.block (some clause) (some a.finalizer) m₁ with
    | ok step m₂ =>
      obtain ⟨scope, rfl⟩ := exists_scope_of_stepTry hstep hinfo hrun
      exact henter (hdispatch.trans hrun) rfl hnode (.handler hthrow hhandler)
    | error e m₂ =>
      rcases hp.cuts_or_throws hcivil hmoderate (hdispatch.trans hrun) with hcuts | ⟨hfault, -⟩
      · exact goes_of_cuts hcuts _
      · exact absurd ((faults_stepTry _ _ _ _ _) _ _ _ hrun) (Bool.eq_false_iff.1 hfault)
  | ended hduring hphase =>
    unfold stepTry at hdispatch
    rw [hstep] at hdispatch
    refine henter hdispatch rfl hnode ?_
    exact .finalizer hduring
  | held hduring hphase =>
    unfold stepTry at hdispatch
    rw [hstep] at hdispatch
    dsimp only at hdispatch
    rw [hinfo] at hdispatch
    refine henter hdispatch rfl hnode ?_
    exact .finalizer hduring
  | @finalized during saved hduring =>
    unfold stepTry at hdispatch
    rw [hstep] at hdispatch
    dsimp only at hdispatch
    rw [hinfo] at hdispatch
    have hcomplete : Complete a (.entered .block a.block ::
        (during ++ [.entered .finalizer a.finalizer, .ended]) ++ [.left saved]) := by
      simpa using Complete.resumed hduring
    cases saved with
    | none =>
      rcases hp.cuts_or_hands hcivil hmoderate hdispatch with hcuts | ⟨n, hadvance, hframes⟩
      · exact goes_of_cuts hcuts _
      have hgone : (n.frames a.thread).length ≤ rest.length := by
        rcases hframes with ⟨-, hnone⟩ | ⟨rest', hstay, hhanded⟩
        · rw [hnone]
          exact Nat.zero_le _
        · rw [hhanded, List.length_modifyHead]
          exact Nat.le_of_eq hstay.length_eq.symm
      have htold : told natives a m = [.left none] := by
        rw [told_of_quiet hadvance, hp.frames, ← hbelow, toldQuietly_left hgone]
      rw [htold, after_stepThread_of_quiet hadvance]
      exact .off hcomplete (hbelow ▸ hgone)
    | some c =>
      rcases hp.cuts_or_unwinds hcivil hmoderate hdispatch with
        hcuts | ⟨n, rest', hstay, hadvance, hholds⟩
      · exact goes_of_cuts hcuts _
      have hlength : rest'.length = a.below := hstay.length_eq.symm.trans hbelow
      have htold : told natives a m = [.left (some c)] := by
        rw [told_of_unwinding hholds hadvance]
        exact if_pos (Nat.le_of_eq hlength)
      rw [htold, frames_of_unwinding hholds hadvance]
      exact .off hcomplete (hlength ▸ length_leftBy_le n.heap c rest')

/-- A turn in which the frame is on the stack. -/
theorem goes_turn (hm : Beating origin m) (hcurrent : m.currentThread = some a.thread)
    (hready : m.threadStatus a.thread = some .ready) (hknown : a.Known m.heap)
    (hroom : a.below + 1 < m.config.maxStackDepth) (hat : At a log (m.frames a.thread)) :
    Goes a (log ++ told natives a m) ((after (stepThread natives a.thread) m).frames a.thread) := by
  rw [Beating, hcurrent] at hm
  obtain ⟨e, tail, m₁, hp⟩ := exists_popped hm hready
  obtain ⟨above, f, rest, hframes, hbelow, hnode, hso⟩ := hat
  have hstack := hp.frames.symm.trans hframes
  cases above with
  | nil =>
    cases hstack
    exact goes_top hcivil hmoderate hknown hroom hp hbelow hnode hso
  | cons e' above =>
    cases hstack
    exact goes_underneath hcivil hmoderate hm.orderly.tidy hknown hp hbelow hnode hso

end Turns

/-! ## The whole activation -/

/-- The frame of the try statement has just been put on the stack. -/
structure Fresh (a : Activation) (m : Machine) : Prop where
  known : a.Known m.heap
  pushed : ∃ f rest, m.frames a.thread = f :: rest ∧ rest.length = a.below ∧
    f.node = some a.node ∧ f.step = 0

/-- How an activation goes from the time that its frame is put on the stack. -/
inductive Proceeds (a : Activation) (log : List Happening) (m : Machine) : Prop where
  | fresh (hlog : log = []) (h : Fresh a m)
  /-- The block was not entered. -/
  | barred {d : Happening} {later : List Happening} (hlog : log = d :: later)
    (hblock : d ≠ .entered .block a.block)
  | on (hlog : log ≠ []) (hat : At a log (m.frames a.thread)) (hknown : a.Known m.heap)
    (hroom : a.below + 1 < m.config.maxStackDepth)
  | off (h : Complete a log) (hgone : (m.frames a.thread).length ≤ a.below)
  | cut (h : .cut ∈ log)

theorem At.stay {frames frames' : List Frame} (hat : At a log frames) (hstay : Stay frames frames') :
    At a log frames' := by
  obtain ⟨above, f, rest, rfl, hbelow, hnode, hso⟩ := hat
  obtain ⟨above', f', rest', rfl, hf, habove, hrest⟩ := Stack.split hstay
  refine ⟨above', f', rest', rfl, hrest.length_eq.symm.trans hbelow, hf.agrees.node.trans hnode, ?_⟩
  have hempty : above'.isEmpty = above.isEmpty := by cases habove <;> rfl
  rw [hempty]
  exact hso.agrees hf.agrees

/-- The program stays what it was while the frame is on the stack. -/
theorem Known.spared {who : Option ThreadId} (hknown : a.Known m.heap) (hm' : Beating origin m')
    (hspares : Spares who m m') (hframes : m'.frames a.thread = above ++ f :: rest)
    (hnode : f.node = some a.node) : a.Known m'.heap := by
  obtain ⟨p, hprogram, hkind⟩ := hknown
  exact ⟨p, hm'.program_of_node hspares hframes hnode hprogram, hkind⟩

section Runs

variable (hcivil : natives.Each (Civil True)) (hmoderate : natives.Each Moderate)

include hcivil hmoderate

/-- The first turn of a try statement enters the block if there is room for it. -/
theorem proceeds_first (hm : Beating origin m) (hcurrent : m.currentThread = some a.thread)
    (hready : m.threadStatus a.thread = some .ready) (hfresh : Fresh a m) :
    (told natives a m = [.entered .block a.block] ∧ a.below + 1 < m.config.maxStackDepth ∧
      At a [.entered .block a.block]
        ((after (stepThread natives a.thread) m).frames a.thread)) ∨
      ∃ d later, told natives a m = d :: later ∧ d ≠ .entered .block a.block := by
  rw [Beating, hcurrent] at hm
  obtain ⟨e, tail, m₁, hp⟩ := exists_popped hm hready
  obtain ⟨f, rest, hframes, hbelow, hnode, hstep⟩ := hfresh.pushed
  obtain ⟨rfl, rfl⟩ := List.cons_eq_cons.1 (hp.frames.symm.trans hframes)
  have hdispatch : dispatch natives a.thread e m₁ =
      stepTry e a.node a.block a.handler (some a.finalizer) m₁ :=
    Known.dispatch_run (hp.heap.symm ▸ hfresh.known) hnode
  unfold stepTry at hdispatch
  rw [hstep] at hdispatch
  have hso : So a ([] ++ [.entered .block a.block]) (.try .block none) 1 false := .block
  rcases tells_entered hcivil hmoderate hp hbelow hdispatch rfl hnode hso with
    hcuts | ⟨hroom, htold, hat⟩ | ⟨-, d, later, htold⟩
  · exact .inr ⟨.cut, [], told_of_cuts hcuts, by simp⟩
  · exact .inl ⟨htold, hroom, hat⟩
  · exact .inr ⟨.reached d, later, htold, by simp⟩

theorem Proceeds.turn (hproceeds : Proceeds a log m) (hm : Beating origin m)
    (hthere : a.below < (m.frames a.thread).length) (hcurrent : m.currentThread = some a.thread)
    (hready : m.threadStatus a.thread = some .ready)
    (hcount : ∀ n, stepThread natives a.thread m ≠ .error .overflow n) :
    Proceeds a (log ++ told natives a m) (after (stepThread natives a.thread) m) := by
  have hbeat : Beat natives m (some a.thread) (after (stepThread natives a.thread) m) :=
    .turn hcurrent hready hcount
  have hm' := hm.beat hcivil hbeat
  have hspares := hbeat.spares hcivil hmoderate hm
  have hon {log' : List Happening} (hlog : log' ≠ []) (hknown : a.Known m.heap)
      (hroom : a.below + 1 < m.config.maxStackDepth)
      (hat : At a log' ((after (stepThread natives a.thread) m).frames a.thread)) :
      Proceeds a log' (after (stepThread natives a.thread) m) := by
    have ⟨above, f, rest, hframes, _, hnode, _⟩ := hat
    exact .on hlog hat (hknown.spared hm' hspares hframes hnode) (hspares.limit.symm ▸ hroom)
  cases hproceeds with
  | fresh hlog hfresh =>
    rw [hlog, List.nil_append]
    rcases proceeds_first hcivil hmoderate hm hcurrent hready hfresh with
      ⟨htold, hroom, hat⟩ | ⟨d, later, htold, hblock⟩
    · rw [htold]
      exact hon (List.cons_ne_nil _ _) hfresh.known hroom hat
    · exact .barred htold hblock
  | barred hlog hblock =>
    rw [hlog, List.cons_append]
    exact .barred rfl hblock
  | on hlog hat hknown hroom =>
    cases goes_turn hcivil hmoderate hm hcurrent hready hknown hroom hat with
    | on hat' => exact hon (List.append_ne_nil_of_left_ne_nil hlog _) hknown hroom hat'
    | off hcomplete hgone => exact .off hcomplete hgone
    | cut h => exact .cut h
  | off _ hgone => exact absurd hthere (Nat.not_lt.2 hgone)
  | cut h => exact .cut (List.mem_append_left _ h)

theorem Proceeds.other {who : Option ThreadId} (hproceeds : Proceeds a log m)
    (hm : Beating origin m) (hthere : a.below < (m.frames a.thread).length)
    (hbeat : Beat natives m who m')
    (hother : ¬ (m.currentThread = some a.thread ∧ who = some a.thread))
    (hstill : a.below < (m'.frames a.thread).length) : Proceeds a log m' := by
  have hm' := hm.beat hcivil hbeat
  have hspares := hbeat.spares hcivil hmoderate hm
  have hne : m'.frames a.thread ≠ [] := List.ne_nil_of_length_pos (Nat.zero_lt_of_lt hstill)
  cases hproceeds with
  | fresh hlog hfresh =>
    obtain ⟨f, rest, hframes, hbelow, hnode, hstep⟩ := hfresh.pushed
    have hstay := hbeat.stay hcivil hmoderate hm hother (hframes.trans (List.nil_append _).symm) hne
    rw [hframes] at hstay
    generalize hframes' : m'.frames a.thread = frames' at hstay
    cases hstay with
    | @cons _ f' _ rest' hf hrest =>
      have hnode' := hf.agrees.node.trans hnode
      refine .fresh hlog ⟨hfresh.known.spared hm' hspares
        (hframes'.trans (List.nil_append _).symm) hnode', ?_⟩
      exact ⟨f', rest', hframes', hrest.length_eq.symm.trans hbelow, hnode',
        hf.agrees.step.trans hstep⟩
  | barred hlog hblock => exact .barred hlog hblock
  | on hlog hat hknown hroom =>
    have ⟨above, f, rest, hframes, _⟩ := hat
    have hat' := hat.stay (hbeat.stay hcivil hmoderate hm hother hframes hne)
    have ⟨above', f', rest', hframes', _, hnode', _⟩ := hat'
    exact .on hlog hat' (hknown.spared hm' hspares hframes' hnode') (hspares.limit.symm ▸ hroom)
  | off _ hgone => exact absurd hthere (Nat.not_lt.2 hgone)
  | cut h => exact .cut h

/-- An activation proceeds as long as it is followed. -/
theorem proceeds_of_told (hk : Played natives k) (hfresh : Fresh a k)
    (hlog : Told natives a.thread a.below (told natives a) k log m) : Proceeds a log m := by
  obtain ⟨origin, hk⟩ := hk.beating hcivil
  induction hlog with
  | start => exact .fresh rfl hfresh
  | @turn log m m' hlog hthere hcurrent hbeat ih =>
    have hm := hk.beats hcivil hlog.beats
    cases hbeat with
    | pick _ hidle _ _ => exact nomatch hidle.symm.trans hcurrent
    | turn _ hready hcount =>
      exact ih.turn hcivil hmoderate hm hthere hcurrent hready hcount
  | @other log m m' who hlog hthere hbeat hother hstill ih =>
    have hm := hk.beats hcivil hlog.beats
    exact ih.other hcivil hmoderate hm hthere hbeat hother hstill

end Runs

/-- Once the block of a try statement with a finalizer has begun and unless the thread is ended, the
activation is told by a complete log when it leaves the stack, and until then by the beginning of
one. So the finalizer has begun exactly once, whatever it interrupted, and what it interrupted goes
on unless the finalizer comes to another completion. The handler begins at most once. -/
theorem finalizer_begins_once {natives : Natives} (hcivil : natives.Each (Civil True))
    (hmoderate : natives.Each Moderate) {k m : Machine} (hk : Played natives k) {a : Activation}
    (hfresh : Fresh a k) {log : List Happening}
    (hlog : Told natives a.thread a.below (told natives a) k log m)
    (hbegun : log.head? = some (.entered .block a.block)) (hcut : .cut ∉ log) :
    (∃ later, Complete a (log ++ later) ∧
      (later = [] ↔ (m.frames a.thread).length ≤ a.below)) ∧
    ((m.frames a.thread).length ≤ a.below → log.countP (·.begins .finalizer) = 1) ∧
    log.countP (·.begins .handler) ≤ 1 := by
  have hwhole : ∃ later, Complete a (log ++ later) ∧
      (later = [] ↔ (m.frames a.thread).length ≤ a.below) := by
    cases proceeds_of_told hcivil hmoderate hk hfresh hlog with
    | fresh hnone =>
      rw [hnone] at hbegun
      cases hbegun
    | barred hcons hblock =>
      rw [hcons] at hbegun
      exact absurd (Option.some.inj hbegun) hblock
    | on _ hat _ _ =>
      obtain ⟨above, f, rest, hframes, hbelow, -, hso⟩ := hat
      obtain ⟨later, hne, hcomplete⟩ := hso.exists_complete
      refine ⟨later, hcomplete, fun hnil => absurd hnil hne, fun hgone => ?_⟩
      rw [hframes, List.length_append, List.length_cons, hbelow] at hgone
      omega
    | off hcomplete hgone => exact ⟨[], by rwa [List.append_nil], fun _ => hgone, fun _ => rfl⟩
    | cut h => exact absurd h hcut
  refine ⟨hwhole, fun hgone => ?_, ?_⟩
  · obtain ⟨later, hcomplete, hleft⟩ := hwhole
    obtain rfl := hleft.2 hgone
    rw [List.append_nil] at hcomplete
    exact hcomplete.count_finalizer
  · obtain ⟨later, hcomplete, -⟩ := hwhole
    have hcount := hcomplete.count_handler
    rw [List.countP_append] at hcount
    exact Nat.le_trans (Nat.le_add_right _ _) hcount

/-! ## A handler that throws -/

/-- The try statement of `try { throw 1 } catch (e) { throw 2 } finally {}`. -/
def rethrowing : Activation where
  thread := ⟨1⟩
  below := 1
  node := ⟨⟨0⟩, 7⟩
  block := 2
  handler := some ⟨"e", 5⟩
  finalizer := 6

/-- The host runs the program up to its try statement. -/
def rethrowingBegun : List Request :=
  [.spawn "try { throw 1 } catch (e) { throw 2 } finally {}", .step, .step]

/-- What is told of the try statement. -/
def rethrowingLog : List Happening :=
  [.entered .block 2, .reached { kind := .throw, value := .nat 1 }, .entered .handler 5,
    .reached { kind := .throw, value := .nat 2 }, .entered .finalizer 6, .ended,
    .left (some { kind := .throw, value := .nat 2 })]

set_option maxRecDepth 100000 in
/-- The finalizer runs once, and the throw of the handler goes on after it. -/
theorem finalizer_begins_once_rethrowing : ∃ k m, Played Builtin.natives k ∧ Fresh rethrowing k ∧
    Told Builtin.natives ⟨1⟩ 1 (told Builtin.natives rethrowing) k rethrowingLog m ∧
    (m.frames ⟨1⟩).length ≤ 1 ∧ Complete rethrowing rethrowingLog ∧
    rethrowingLog.countP (·.begins .finalizer) = 1 := by
  have hchecks : (hosted Builtin.natives {} rethrowingBegun).any (fun k =>
      (k.heap.program? ⟨0⟩).any fun p =>
        (follow Builtin.natives ⟨1⟩ 1 (told Builtin.natives rethrowing) 13
            ((after schedule k).attended ⟨1⟩ true)).any fun result => decide
          (picks ⟨1⟩ k = true ∧ p.kind? 7 = some (.tryStatement 2 (some ⟨"e", 5⟩) (some 6)) ∧
            (k.frames ⟨1⟩).map (fun f => (f.node, f.step)) =
              [(some ⟨⟨0⟩, 7⟩, 0), (some ⟨⟨0⟩, 8⟩, 2)] ∧
            result.1 = rethrowingLog ∧ (result.2.frames ⟨1⟩).length ≤ 1 ∧
            1 < (((after schedule k).attended ⟨1⟩ true).frames ⟨1⟩).length)) = true := by
    rw [hosted_eq]
    decide +kernel
  obtain ⟨k, hk, hchecks⟩ := (Option.any_eq_true _ _).1 hchecks
  obtain ⟨p, hp, hchecks⟩ := (Option.any_eq_true _ _).1 hchecks
  obtain ⟨⟨log, m⟩, hfollow, hchecks⟩ := (Option.any_eq_true _ _).1 hchecks
  obtain ⟨hpicks, hkind, hframes, hlog, hgone, hthere⟩ := of_decide_eq_true hchecks
  dsimp only at hlog hgone
  subst hlog
  obtain ⟨hplayed, hidle⟩ := (reachable_of_hosted hk).played Builtin.each_civil
  have hfresh : Fresh rethrowing k := by
    refine ⟨⟨p, hp, hkind⟩, ?_⟩
    obtain ⟨f, tail, hcons, hf, htail⟩ := List.map_eq_cons_iff.1 hframes
    obtain ⟨base, rest, rfl, -, hrest⟩ := List.map_eq_cons_iff.1 htail
    obtain rfl := List.map_eq_nil_iff.1 hrest
    exact ⟨f, [base], hcons, rfl, congrArg Prod.fst hf, congrArg Prod.snd hf⟩
  have hbeat : Beat Builtin.natives k (some ⟨1⟩) ((after schedule k).attended ⟨1⟩ true) :=
    .pick true hidle (schedule_of_picks hpicks) nofun
  have htold : Told Builtin.natives ⟨1⟩ 1 (told Builtin.natives rethrowing) k rethrowingLog m := by
    refine (Told.other .start ?_ hbeat ?_ hthere).follow hfollow
    · rw [← List.length_map, hframes]
      exact Nat.lt_succ_self 1
    · rw [hidle]
      exact fun h => nomatch h.1
  obtain ⟨⟨later, hcomplete, hleft⟩, hcount, -⟩ := finalizer_begins_once Builtin.each_civil
    Builtin.each_moderate hplayed hfresh htold rfl (by decide)
  obtain rfl := hleft.2 hgone
  rw [List.append_nil] at hcomplete
  exact ⟨k, m, hplayed, hfresh, htold, hgone, hcomplete, hcount hgone⟩

end Activation

end ScriptMachine
