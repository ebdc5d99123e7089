import ScriptMachine.Machine.Schedule
import ScriptMachine.Proofs.Execution

/-!
# What a step reports to the host

Errors of the program stay in its thread: they are thrown there, and a throw that nothing catches
ends the thread. So the only failures that leave a step are faults.
-/

namespace ScriptMachine

open Exec Machine

/-- Whatever a reading fails with passes by the handlers of the program. -/
def Except.Faults {α : Type} (r : Except Failure α) : Prop :=
  ∀ e, r = .error e → e.isFault = true

namespace Except.Faults

variable {α β : Type}

theorem pure (a : α) : Faults (pure a : Except Failure α) := fun _ h => by cases h

theorem throw {e : Failure} (he : e.isFault = true) : Faults (throw e : Except Failure α) :=
  fun _ h => by cases h; exact he

theorem bind {r : Except Failure α} {f : α → Except Failure β} (hr : Faults r)
    (hf : ∀ a, Faults (f a)) : Faults (r >>= f) := by
  intro e h
  cases r with
  | ok a => exact hf a e h
  | error e' =>
    cases h
    exact hr e rfl

theorem scope (h : Heap) (id : ScopeId) : Faults (h.scope id) := by
  intro e he
  unfold Heap.scope at he
  split at he <;> cases he
  rfl

theorem declarationTargetFrom (h : Heap) (fuel : Nat) (id : ScopeId) :
    Faults (h.declarationTargetFrom fuel id) := by
  induction fuel generalizing id with
  | zero => exact pure id
  | succ fuel ih =>
    unfold Heap.declarationTargetFrom
    refine (scope h id).bind fun s => ?_
    split
    · exact ih _
    · exact pure id

theorem program (h : Heap) (id : ProgramId) : Faults (h.program id) := by
  intro e he
  unfold Heap.program at he
  split at he <;> cases he
  rfl

theorem nodeKind (p : Tree.Program) (id : Tree.NodeId) : Faults (Heap.nodeKind p id) := by
  intro e he
  unfold Heap.nodeKind at he
  split at he <;> cases he
  rfl

theorem tryClauses (h : Heap) (f : Frame) : Faults (Machine.tryClauses h f) := by
  unfold Machine.tryClauses
  split
  · exact throw rfl
  · refine (program _ _).bind fun p => (nodeKind _ _).bind fun kind => ?_
    split
    · exact pure _
    · exact throw rfl

theorem meet (h : Heap) (f : Frame) (c : Completion) : Faults (Machine.meet h f c) := by
  unfold Machine.meet
  split
  · refine (tryClauses h f).bind fun clauses => ?_
    dsimp only
    split
    · exact pure _
    · split
      · exact pure _
      · exact pure _
  · exact pure _

end Except.Faults

namespace Exec

variable {α β : Type}

/-- Whatever an operation fails with passes by the handlers of the program. -/
def Faults (x : Exec α) : Prop :=
  ∀ m e n, x m = .error e n → e.isFault = true

theorem faults_pure (a : α) : Faults (pure a : Exec α) := fun _ _ _ h => by cases h

theorem faults_get : Faults (get : Exec Machine) := fun _ _ _ h => by cases h

theorem faults_modify (f : Machine → Machine) : Faults (modify f : Exec Unit) :=
  fun _ _ _ h => by cases h

theorem faults_modifyGet (f : Machine → α × Machine) : Faults (modifyGet f : Exec α) :=
  fun _ _ _ h => by cases h

theorem faults_throw {e : Failure} (he : e.isFault = true) : Faults (throw e : Exec α) :=
  fun _ _ _ h => by cases h; exact he

theorem faults_query {f : Machine → Except Failure α} (hf : ∀ m, Except.Faults (f m)) :
    Faults (query f) := by
  intro m e n h
  unfold query at h
  cases hr : f m with
  | ok a =>
    rw [hr] at h
    cases h
  | error e' =>
    rw [hr] at h
    cases h
    exact hf m e hr

theorem Faults.bind {x : Exec α} {f : α → Exec β} (hx : Faults x) (hf : ∀ a, Faults (f a)) :
    Faults (x >>= f) := by
  intro m e n h
  rw [bind_run] at h
  cases hrun : x m with
  | ok a m' =>
    rw [hrun] at h
    exact hf a m' e n h
  | error e' m' =>
    rw [hrun] at h
    cases h
    exact hx m e n hrun

theorem faults_attempt_bind {x : Exec α} {k : Except Failure α → Exec β}
    (hk : ∀ r, Faults (k r)) : Faults (attempt x >>= k) := by
  refine Faults.bind (fun m e n h => ?_) hk
  unfold attempt at h
  split at h <;> cases h
  rfl

/-- What is attempted is looked at, and a fault may be passed on. -/
theorem Faults.attempt_bind {x : Exec α} (hx : Faults x) {k : Except Failure α → Exec β}
    (hk : ∀ r, Except.Faults r → Faults (k r)) : Faults (attempt x >>= k) := by
  intro m e n h
  rw [bind_run] at h
  unfold attempt at h
  cases hrun : x m with
  | ok a m' =>
    rw [hrun] at h
    exact hk (.ok a) (fun e he => by cases he) m' e n h
  | error e' m' =>
    have hfault : Except.Faults (.error e' : Except Failure α) := fun e he => by
      cases he
      exact hx m e' m' hrun
    rw [hrun] at h
    cases e' <;> first | exact hk _ hfault m' e n h | (cases h; rfl)

end Exec

namespace Machine

theorem faults_scope (id : ScopeId) : Faults (heapQuery (·.scope id)) :=
  faults_query fun m => .scope m.heap id

theorem faults_scopeOwner (id : ScopeId) : Faults (scopeOwner id) :=
  faults_query fun m => (Except.Faults.scope m.heap id).bind fun s => .pure s.owner

theorem faults_newScope (kind : ScopeKind) (outer : Option ScopeId) (owner : Option Owner)
    (receiver : Option Value) : Faults (newScope kind outer owner receiver) := by
  unfold newScope
  dsimp only
  split
  · exact faults_modifyGet _
  · exact (faults_scope _).bind fun _ => faults_modifyGet _
  · exact faults_modifyGet _

theorem faults_declare (id : ScopeId) (name : String) (v : Value) (mutable : Bool) :
    Faults (declare id name v mutable) := by
  have htarget : Faults (heapQuery (·.declarationTarget id)) :=
    faults_query fun m => .declarationTargetFrom m.heap _ id
  refine htarget.bind fun target => (faults_scope target).bind fun s => ?_
  split
  · exact faults_throw rfl
  · exact faults_modify _

variable (thread : ThreadId)

theorem faults_modifyThread (g : Thread → Thread) : Faults (modifyThread thread g) := by
  intro m e n h
  rw [modifyThread_run] at h
  split at h <;> cases h
  rfl

theorem faults_killThread : Faults (killThread thread) := by
  refine faults_get.bind fun m => ?_
  split
  · split
    · exact faults_pure false
    · exact (faults_modifyThread _ _).bind fun _ => faults_pure true
  · exact faults_pure false

theorem faults_fault {α : Type} {e : Failure} (he : e.isFault = true) :
    Faults (fault thread e : Exec α) :=
  (faults_killThread thread).bind fun _ => faults_throw he

theorem faults_finishThread (outcome : Outcome) : Faults (finishThread thread outcome) := by
  unfold finishThread
  split
  · exact faults_get.bind fun _ => (faults_modify _).bind fun _ => faults_modifyThread _ _
  · exact faults_modifyThread _ _

theorem faults_escape (c : Completion) : Faults (escape thread c) := by
  refine (faults_modifyThread _ _).bind fun _ => ?_
  split
  · exact faults_finishThread _ _
  · exact faults_fault thread rfl

theorem isFault_of_broken {h : Heap} {c : Completion} {s : Stack} {e : Failure}
    (frames : List Frame) (depth : Nat) (heq : depth = frames.length)
    (hbroken : unwindFrames h c frames depth heq = .broken s e) : e.isFault = true := by
  induction frames generalizing depth with
  | nil => cases hbroken
  | cons f rest ih =>
    unfold unwindFrames at hbroken
    cases hmeet : meet h f c with
    | error e' =>
      rw [hmeet] at hbroken
      cases hbroken
      exact Except.Faults.meet h f c e hmeet
    | ok meeting =>
      rw [hmeet] at hbroken
      cases meeting with
      | drop => exact ih _ _ hbroken
      | stop => cases hbroken
      | «catch» g => cases hbroken

theorem faults_unwind (c : Completion) : Faults (unwind thread c) := by
  refine faults_get.bind fun m => ?_
  split
  · exact faults_throw rfl
  · refine faults_get.bind fun m => ?_
    split
    · exact faults_modifyThread _ _
    · rename_i hbroken
      exact (faults_modifyThread _ _).bind fun _ => faults_throw (isFault_of_broken _ _ _ hbroken)
    · exact faults_escape thread c

theorem faults_builtinObject (name : String) : Faults (builtinObject name) := by
  refine faults_query fun m e h => ?_
  split at h <;> cases h
  rfl

theorem faults_createError (kind : ErrorKind) (message : String) (owner : Option Owner)
    (thread : Option ThreadId) : Faults (createError kind message owner thread) :=
  (faults_builtinObject _).bind fun _ => faults_get.bind fun _ => faults_modifyGet _

theorem faults_errorToValue (e : Failure) (scope : ScopeId) :
    Faults (errorToValue e scope thread) := by
  refine (faults_query fun m => (Except.Faults.scope _ _).bind fun _ => .pure _).bind fun _ => ?_
  cases e with
  | thrown v message => exact faults_pure v
  | raised kind message => exact (faults_createError _ _ _ _).bind fun _ => faults_pure _
  | malformed message line column =>
    exact (faults_createError _ _ _ _).bind fun _ => faults_pure _
  | fault cause => exact faults_throw rfl
  | image message => exact faults_throw rfl
  | json => exact faults_throw rfl
  | overflow => exact faults_throw rfl

theorem faults_raise (scope : ScopeId) (e : Failure) : Faults (raise thread scope e) := by
  unfold raise
  split
  · exact faults_fault thread (by assumption)
  · intro m e' n h
    rw [bind_run] at h
    unfold attempt at h
    cases hrun : errorToValue e scope thread m with
    | ok v m' =>
      rw [hrun] at h
      exact faults_unwind thread _ m' e' n h
    | error e'' m' =>
      have hfault := faults_errorToValue thread e scope m e'' m' hrun
      rw [hrun] at h
      cases e'' <;> first
        | exact faults_fault thread hfault _ _ _ h
        | (cases h; rfl)

theorem faults_pushChild (f child : Frame) : Faults (pushChild thread f child) := by
  refine (faults_modifyThread _ _).bind fun _ => faults_get.bind fun m => faults_get.bind fun n => ?_
  split
  · exact faults_raise thread _ _
  · exact faults_modifyThread _ _

theorem faults_applyStep (step : Step) : Faults (applyStep thread step) := by
  cases step with
  | push f child => exact faults_pushChild thread f child
  | stay f => exact faults_modifyThread _ _
  | suspend f => exact faults_modifyThread _ _
  | done v =>
    refine faults_get.bind fun m => ?_
    split
    · exact faults_modifyThread _ _
    · exact faults_finishThread thread _
  | ref r =>
    refine faults_get.bind fun m => ?_
    split
    · exact faults_modifyThread _ _
    · exact faults_fault thread rfl
  | unwind c => exact faults_unwind thread c

theorem faults_popFrame : Faults (popFrame thread) := by
  refine faults_get.bind fun m => ?_
  split
  · exact faults_throw rfl
  · split
    · exact (faults_modifyThread _ _).bind fun _ => faults_pure _
    · exact faults_pure _

/-- Whatever a step of a thread fails with is a fault, whatever its host functions do. -/
theorem faults_stepThread (natives : Natives) : Faults (stepThread natives thread) := by
  refine (faults_popFrame thread).bind fun top => ?_
  split
  · exact faults_finishThread thread _
  · refine faults_attempt_bind fun result => faults_get.bind fun m => ?_
    split
    · split
      · exact faults_applyStep thread _
      · exact faults_raise thread _ _
    · exact faults_pure ()

/-! ## Runs -/

theorem faults_now : Faults now := faults_modifyGet _

theorem faults_maybeCollectGarbage : Faults maybeCollectGarbage := by
  refine faults_get.bind fun m => ?_
  split
  · exact (faults_modifyGet _).bind fun _ => faults_pure ()
  · exact faults_pure ()

theorem faults_schedule : Faults schedule :=
  faults_now.bind fun _ => (faults_modify _).bind fun _ => faults_get.bind fun _ => faults_pure _

theorem faults_startRun : Faults (startRun thread) :=
  faults_now.bind fun _ => (faults_modifyThread thread _).bind fun _ => faults_modify _

/-- Whatever one step of a machine fails with is a fault. -/
theorem faults_stepOnce (natives : Natives) : Faults (stepOnce natives) := by
  have hturn (thread : ThreadId) : Faults (do
      modify fun m => { m with currentThread := some thread }
      let result ← attempt (stepThread natives thread)
      modify fun m => { m with currentThread := none }
      maybeCollectGarbage
      query fun _ => result.map fun _ => true) := by
    refine (faults_modify _).bind fun _ => (faults_stepThread thread natives).attempt_bind
      fun result hresult => (faults_modify _).bind fun _ => faults_maybeCollectGarbage.bind
        fun _ => faults_query fun _ e he => ?_
    cases result with
    | ok a => cases he
    | error cause =>
      cases he
      exact hresult e rfl
  refine faults_get.bind fun m => ?_
  split
  · exact faults_pure false
  refine faults_schedule.bind fun found => ?_
  cases found with
  | run thread =>
    refine faults_get.bind fun m => ?_
    split
    · exact (faults_startRun thread).bind fun _ => hturn thread
    · exact hturn thread
  | _ => exact faults_pure false

theorem faults_runSteps (natives : Natives) (fuel : Nat) :
    Faults (runSteps natives thread fuel) := by
  induction fuel with
  | zero => exact faults_pure 0
  | succ fuel ih =>
    refine faults_get.bind fun m => ?_
    split
    · exact faults_pure _
    · exact (faults_stepThread thread natives).bind fun _ =>
        faults_maybeCollectGarbage.bind fun _ => ih

theorem faults_runThread (natives : Natives) (fuel : Nat) :
    Faults (runThread natives thread fuel) :=
  (faults_startRun thread).bind fun _ => (faults_modify _).bind fun _ =>
    (faults_runSteps thread natives fuel).attempt_bind fun _ hresult =>
      (faults_modify _).bind fun _ => faults_query fun _ => hresult

theorem faults_runRounds (natives : Natives) (rounds fuel : Nat) :
    Faults (runRounds natives rounds fuel) := by
  induction rounds generalizing fuel with
  | zero => exact faults_pure _
  | succ rounds ih =>
    refine faults_get.bind fun m => ?_
    split
    · exact faults_pure _
    · exact faults_pure _
    · refine faults_schedule.bind fun found => ?_
      cases found with
      | run thread =>
        refine (faults_runThread thread natives fuel).bind fun left => ?_
        split
        · exact faults_pure _
        · exact ih left
      | _ => exact faults_pure _

/-- Whatever a run fails with is a fault. -/
theorem faults_runToQuiescence (natives : Natives) (fuel : Nat) :
    Faults (runToQuiescence natives fuel) :=
  faults_runRounds natives _ _

end Machine

end ScriptMachine
