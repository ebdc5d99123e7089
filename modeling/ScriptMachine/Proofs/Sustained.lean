import ScriptMachine.Proofs.Start
import ScriptMachine.Proofs.Confinement

/-!
# What a step sustains

A step of a thread is made of changes on behalf of the owner that the scope of its frame acts as.
In between that scope may come to act as another owner, and frames are put on the stack. What holds
along each of these holds along the step.
-/

namespace ScriptMachine

open Exec Machine Builtin

/-- A thread that must exist is changed where it stands. -/
theorem Exec.keeps_modifyThread {P : Machine → Prop} {id : ThreadId} {f : Thread → Thread}
    (h : ∀ m, P m → P { m with threads := updateThread id f m.threads }) :
    Keeps P (modifyThread id f) := by
  refine keeps_get.bind fun m => ?_
  dsimp only
  split
  · exact (keeps_throw _).bind fun _ => keeps_modify h
  · exact keeps_modify h

/-- A statement about a machine that is kept by all that a step of a frame in a scope is made of, as
long as it is done on behalf of certain owners. -/
structure Sustained (old : ObjectId → Prop) (scope : ScopeId) (actors : Option Owner → Prop)
    (P : Machine → Prop) : Prop where
  holds : ∀ {m}, P m → m.heap.Holds old
  acts : ∀ {m}, P m → ∃ actor, m.ActsAs scope actor ∧ actors actor
  change : ∀ {m m' actor}, P m → actors actor → Change old actor m m' → P m'
  become : ∀ {m m' actor target}, P m → actors actor → Become scope actor target m m' → P m'
  threads : ∀ {m} (threads : List Thread), P m → P { m with threads }

namespace Sustained

variable {old : ObjectId → Prop} {scope : ScopeId} {actors : Option Owner → Prop}
  {P : Machine → Prop} {m m' : Machine} {actor : Option Owner} {α : Type}

theorem changes (h : Sustained old scope actors P) (hm : P m) (hactor : actors actor)
    (hchanges : Changes old actor m m') : P m' := by
  induction hchanges with
  | refl => exact hm
  | tail _ hlast ih => exact h.change ih hactor hlast

theorem moves (h : Sustained old scope actors P) (hm : P m) (hactor : actors actor)
    (hmoves : Moves old scope actor m m') : P m' := by
  rcases hmoves with hchanges | ⟨target, m₁, m₂, hbefore, hbecome, hafter⟩
  · exact h.changes hm hactor hchanges
  · exact h.changes (h.become (h.changes hm hactor hbefore) hactor hbecome) hactor hafter

theorem keeps_effects (h : Sustained old scope actors P) {x : Exec α}
    (hx : ∀ actor, Effects scope actor x) : Keeps P x := by
  intro m hm
  obtain ⟨actor, hacts, hactor⟩ := h.acts hm
  exact h.changes hm hactor (hx actor old m (h.holds hm) hacts).1

theorem keeps_modifyThread (h : Sustained old scope actors P) (thread : ThreadId)
    (f : Thread → Thread) : Keeps P (modifyThread thread f) :=
  Exec.keeps_modifyThread fun _ hm => h.threads _ hm

/-- What a step asks for is carried out on the stack of its thread. -/
theorem keeps_applyStep (h : Sustained old scope actors P) (thread : ThreadId) (step : Step) :
    Keeps P (applyStep thread step) := by
  cases step with
  | push f child =>
    refine (h.keeps_modifyThread thread _).bind fun _ => keeps_get.bind fun _ => ?_
    refine keeps_get.bind fun _ => ?_
    split
    · exact h.keeps_effects fun _ => effects_raise thread _ _
    · exact h.keeps_modifyThread thread _
  | stay f => exact h.keeps_modifyThread thread _
  | suspend f => exact h.keeps_modifyThread thread _
  | done v =>
    refine keeps_get.bind fun _ => ?_
    split
    · exact h.keeps_modifyThread thread _
    · exact h.keeps_effects fun _ => effects_finishThread thread _
  | ref r =>
    refine keeps_get.bind fun _ => ?_
    split
    · exact h.keeps_modifyThread thread _
    · exact h.keeps_effects fun _ => effects_fault thread _
  | unwind c => exact h.keeps_effects fun _ => effects_unwind thread c

/-- A step of a frame that runs in the scope and builds none of the old objects. -/
theorem stepThread {thread : ThreadId} {f : Frame} (h : Sustained old f.scope actors P) (hm : P m)
    (htop : m.topFrame? thread = some f) (hnew : f.BuildsNew old) :
    P (after (Machine.stepThread natives thread) m) := by
  obtain ⟨t, hthread, hframe⟩ : ∃ t, m.thread? thread = some t ∧ t.stack.top? = some f := by
    simpa [topFrame?, Option.bind_eq_some_iff] using htop
  unfold Machine.stepThread
  rw [after_bind, popFrame_run hthread, hframe]
  let m₁ : Machine := { m with
    threads := updateThread thread (fun t => { t with stack := t.stack.dropTop }) m.threads }
  have h₁ : P m₁ := h.threads _ hm
  obtain ⟨actor, hacts, hactor⟩ := h.acts h₁
  have htakes := takes_dispatch (h.holds h₁) hnew hacts thread
  have hattempt : P (after (attempt (dispatch natives thread f)) m₁) := by
    rw [after_attempt]
    exact h.moves h₁ hactor htakes.moves
  refine after_bind_of hattempt (fun _ h => h) fun result m₂ _ h₂ => ?_
  refine keeps_get.bind (fun _ => ?_) m₂ h₂
  split
  · split
    · exact h.keeps_applyStep thread _
    · exact h.keeps_effects fun _ => effects_raise thread _ _
  · exact keeps_pure ()

end Sustained

end ScriptMachine
