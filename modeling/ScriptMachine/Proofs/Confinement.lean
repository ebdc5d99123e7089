import ScriptMachine.Proofs.Collection
import ScriptMachine.Proofs.Effect.Call
import ScriptMachine.Proofs.Threads

/-!
# Owners confine their code

Under the policy that lets only owners change what they own, a thread that acts as an owner goes on
acting as that owner, and so do the timers it sets, as long as every closure it enters belongs to
that owner or to nobody. A closure that was given away runs as the owner it was given to.
-/

namespace ScriptMachine

namespace Machine

open Exec Builtin

/-- The frame that the next step of a thread takes up. -/
def topFrame? (m : Machine) (thread : ThreadId) : Option Frame :=
  (m.thread? thread).bind (·.stack.top?)

end Machine

open Machine Exec Builtin

/-- Every thread after a change was there before and runs in scopes it ran in, or it is new and acts
as the actor. -/
theorem Change.thread_cases {old : ObjectId → Prop} {actor : Option Owner} {m m' : Machine}
    (h : Change old actor m m') {u : Thread} (hu : u ∈ m'.threads) :
    (∃ t ∈ m.threads, t.KeepsScopes u) ∨
      (u.id.index = m.nextThreadId ∧ m.nextThreadId < m'.nextThreadId ∧
        ∀ f ∈ u.stack.frames, m.ActsAs f.scope actor) := by
  have hsame : u ∈ m.threads → ∃ t ∈ m.threads, t.KeepsScopes u :=
    fun hu => ⟨u, hu, keepsScopes_of_stack_eq rfl rfl⟩
  cases h with
  | allocObject o => exact .inl (hsame hu)
  | allocScope s => exact .inl (hsame hu)
  | load source p _ => exact .inl (hsame hu)
  | build id f _ _ => exact .inl (hsame hu)
  | edit id access f _ _ _ => exact .inl (hsame hu)
  | bind id f _ => exact .inl (hsame hu)
  | thread id f hf =>
    rcases mem_updateThread hu with hu | ⟨t, ht, rfl⟩
    · exact .inl (hsame hu)
    · exact .inl ⟨t, List.mem_of_find?_eq_some ht, hf t ht⟩
  | spawn t _ hid hnext _ hframes hthreads _ =>
    rw [hthreads] at hu
    rcases mem_insertThread hu with rfl | hu
    · exact .inr ⟨hid, hnext, hframes⟩
    · exact .inl (hsame hu)
  | host _ _ hthreads _ => exact .inl (hsame (hthreads ▸ hu))

namespace Builtin.Become

variable {scope id : ScopeId} {actor owner : Option Owner} {target g : Owner} {m m' : Machine}

theorem live (h : Become scope actor target m m') (hid : m.ActsAs id owner) :
    ∃ owner', m'.ActsAs id owner' := by
  obtain ⟨u, hu, -⟩ := hid
  rw [h.after_eq]
  unfold ActsAs
  rw [Heap.scope?_modifyScope, hu]
  split
  · exact ⟨_, _, rfl, rfl⟩
  · exact ⟨_, _, rfl, rfl⟩

/-- A guest may become nobody but itself, so its scopes stay its own. -/
theorem actsAs_guest (h : Become scope actor target m m') (hpolicy : m.policy = .ownerOnly)
    (hroot : g ≠ m.rootOwner) (hid : m.ActsAs id (some g)) : m'.ActsAs id (some g) := by
  obtain ⟨u, hu, hug⟩ := hid
  rw [h.after_eq]
  unfold ActsAs
  rw [Heap.scope?_modifyScope, hu]
  split
  · rename_i heq
    obtain rfl : scope = id := by
      cases scope
      cases id
      exact congrArg ScopeId.mk heq
    obtain ⟨s, hs, howner⟩ := h.acts
    rw [hu] at hs
    cases hs
    have hallowed := h.allowed
    rw [← howner, hug, authorizeOwner, hpolicy] at hallowed
    have htarget : some target = some g := by
      split at hallowed
      · rename_i hallows
        rw [Policy.allows_ownerOnly_iff _ rfl] at hallows
        exact hallows.resolve_left hroot
      · cases hallowed
    exact ⟨_, rfl, htarget⟩
  · exact ⟨u, rfl, hug⟩

end Builtin.Become

/-- Free slots are known, threads have numbers that were issued, and the global scope and the scope
of every frame are live. -/
structure Ordered (m : Machine) : Prop where
  tidy : m.heap.Tidy
  issued : ∀ t ∈ m.threads, t.id.index < m.nextThreadId
  live : ∀ t ∈ m.threads, ∀ f ∈ t.stack.frames, ∃ owner, m.ActsAs f.scope owner
  global : ∃ owner, m.ActsAs m.globalScope owner

/-- The threads of a family act as a guest, which is not the root owner. A number of threads was
issued. -/
structure Confined (F : ThreadId → Prop) (g : Owner) (k : Nat) (m : Machine) : Prop extends
    Ordered m where
  floor : k ≤ m.nextThreadId
  guest : (∃ id, F id) → m.policy = .ownerOnly ∧ g ≠ m.rootOwner
  acts : ∀ t ∈ m.threads, F t.id → ∀ f ∈ t.stack.frames, m.ActsAs f.scope (some g)

theorem Ordered.confined {m : Machine} (h : Ordered m) (g : Owner) :
    Confined (fun _ => False) g m.nextThreadId m :=
  { h with
    floor := Nat.le_refl _
    guest := fun hmember => hmember.elim fun _ h => h.elim
    acts := fun _ _ hmember => hmember.elim }

namespace Confined

variable {F : ThreadId → Prop} {g : Owner} {k : Nat} {m m' : Machine} {actor : Option Owner}
  {old : ObjectId → Prop}

/-- A change of a thread of the family, or one that starts no thread of the family. -/
theorem change (h : Confined F g k m) (hchange : Change old actor m m')
    (hnew : ∀ id : ThreadId, m.nextThreadId ≤ id.index → F id → actor = some g) :
    Confined F g k m' := by
  have hacts : ∀ {id owner}, m.ActsAs id owner → m'.ActsAs id owner :=
    fun hs => Changes.actsAs (.single hchange) h.tidy hs
  have hsettings := hchange.sameSettings
  refine ⟨⟨hchange.tidy h.tidy, fun u hu => ?_, fun u hu f hf => ?_, ?_⟩, ?_,
    fun hmember => ?_, fun u hu hmember f hf => ?_⟩
  · rcases hchange.thread_cases hu with ⟨t, ht, hkeeps⟩ | ⟨hid, hnext, -⟩
    · rw [hkeeps.id]
      exact Nat.lt_of_lt_of_le (h.issued t ht) hsettings.nextThreadId
    · rw [hid]
      exact hnext
  · rcases hchange.thread_cases hu with ⟨t, ht, hkeeps⟩ | ⟨-, -, hframes⟩
    · obtain ⟨f', hf', hscope⟩ := hkeeps.frames f hf
      obtain ⟨owner, howner⟩ := h.live t ht f' hf'
      exact ⟨owner, hscope ▸ hacts howner⟩
    · exact ⟨actor, hacts (hframes f hf)⟩
  · obtain ⟨owner, howner⟩ := h.global
    exact ⟨owner, hsettings.globalScope ▸ hacts howner⟩
  · exact Nat.le_trans h.floor hsettings.nextThreadId
  · rw [hsettings.policy, hsettings.rootOwner]
    exact h.guest hmember
  · rcases hchange.thread_cases hu with ⟨t, ht, hkeeps⟩ | ⟨hid, -, hframes⟩
    · obtain ⟨f', hf', hscope⟩ := hkeeps.frames f hf
      exact hscope ▸ hacts (h.acts t ht (hkeeps.id ▸ hmember) f' hf')
    · have hactor : actor = some g := hnew u.id (Nat.le_of_eq hid.symm) hmember
      exact hacts (hactor ▸ hframes f hf)

theorem changes (h : Confined F g k m) (hchanges : Changes old actor m m')
    (hnew : ∀ id : ThreadId, m.nextThreadId ≤ id.index → F id → actor = some g) :
    Confined F g k m' := by
  induction hchanges with
  | refl => exact h
  | tail hfirst hlast ih =>
    refine ih.change hlast fun id hid => hnew id (Nat.le_trans ?_ hid)
    exact (Changes.sameSettings hfirst).nextThreadId

theorem become {scope : ScopeId} {target : Owner} (h : Confined F g k m)
    (hbecome : Become scope actor target m m') : Confined F g k m' := by
  have hlive : ∀ t ∈ m.threads, ∀ f ∈ t.stack.frames, ∃ owner, m'.ActsAs f.scope owner := by
    intro t ht f hf
    obtain ⟨owner, howner⟩ := h.live t ht f hf
    exact hbecome.live howner
  have hacts : ∀ t ∈ m.threads, F t.id → ∀ f ∈ t.stack.frames, m'.ActsAs f.scope (some g) := by
    intro t ht hmember f hf
    obtain ⟨hpolicy, hroot⟩ := h.guest ⟨t.id, hmember⟩
    exact hbecome.actsAs_guest hpolicy hroot (h.acts t ht hmember f hf)
  have hglobal : ∃ owner, m'.ActsAs m.globalScope owner := by
    obtain ⟨owner, howner⟩ := h.global
    exact hbecome.live howner
  obtain ⟨-, -, rfl⟩ := hbecome
  exact ⟨⟨h.tidy.modifyScope scope _, h.issued, hlive, hglobal⟩, h.floor, h.guest, hacts⟩

theorem moves {scope : ScopeId} (h : Confined F g k m) (hmoves : Moves old scope actor m m')
    (hnew : ∀ id : ThreadId, m.nextThreadId ≤ id.index → F id → actor = some g) :
    Confined F g k m' := by
  rcases hmoves with hchanges | ⟨target, m₁, m₂, hbefore, hbecome, hafter⟩
  · exact h.changes hchanges hnew
  · have hnext : m₂.nextThreadId = m₁.nextThreadId := by
      rw [hbecome.after_eq]
    refine ((h.changes hbefore hnew).become hbecome).changes hafter fun id hid => hnew id ?_
    exact Nat.le_trans (Changes.sameSettings hbefore).nextThreadId (hnext ▸ hid)

/-- A frame is put on the stack of a thread, in a scope that acts as the thread does. -/
theorem push {thread : ThreadId} {f : Frame} {owner : Option Owner} (h : Confined F g k m)
    (hf : m.ActsAs f.scope owner) (howner : F thread → owner = some g) :
    Confined F g k { m with
      threads := updateThread thread (fun t => { t with stack := t.stack.push f }) m.threads } := by
  refine ⟨⟨h.tidy, fun u hu => ?_, fun u hu => ?_, h.global⟩, h.floor, h.guest,
    fun u hu => ?_⟩
  · rcases mem_updateThread hu with hu | ⟨t, ht, rfl⟩
    · exact h.issued u hu
    · exact h.issued t (List.mem_of_find?_eq_some ht)
  · rcases mem_updateThread hu with hu | ⟨t, ht, rfl⟩
    · exact h.live u hu
    · intro f' hf'
      rcases List.mem_cons.1 hf' with rfl | hf'
      · exact ⟨owner, hf⟩
      · exact h.live t (List.mem_of_find?_eq_some ht) f' hf'
  · rcases mem_updateThread hu with hu | ⟨t, ht, rfl⟩
    · exact h.acts u hu
    · intro hmember f' hf'
      have hid : t.id = thread := by simpa using List.find?_some ht
      rcases List.mem_cons.1 hf' with rfl | hf'
      · exact howner (hid ▸ hmember) ▸ hf
      · exact h.acts t (List.mem_of_find?_eq_some ht) hmember f' hf'

/-! ## One step of a thread -/

/-- The scope is live, and it acts as the guest if the thread is of the family. -/
def Suits (F : ThreadId → Prop) (g : Owner) (thread : ThreadId) (m : Machine) (id : ScopeId) :
    Prop :=
  ∃ owner, m.ActsAs id owner ∧ (F thread → owner = some g)

variable {thread : ThreadId} {scope : ScopeId}

/-- An operation for the owner of a scope that suits a thread. -/
theorem effects {α : Type} {x : Exec α} (h : Confined F g k m) (hscope : Suits F g thread m scope)
    (hnew : ∀ id : ThreadId, m.nextThreadId ≤ id.index → F id → F thread)
    (hx : ∀ owner, Effects scope owner x) : Confined F g k (after x m) := by
  obtain ⟨owner, howner, hguest⟩ := hscope
  exact h.changes (hx owner _ m h.tidy.holds howner).1 fun id hid hmember => hguest (hnew id hid hmember)

theorem keepsScopes_modifyTop (t : Thread) {k : Frame → Frame} (hk : ∀ f, (k f).scope = f.scope) :
    t.KeepsScopes { t with stack := t.stack.modifyTop k } := by
  refine ⟨rfl, fun f hf => ?_⟩
  unfold Stack.modifyTop at hf
  dsimp only at hf
  split at hf
  · exact ⟨f, hf, rfl⟩
  · rename_i top rest hframes
    rw [hframes]
    rcases List.mem_cons.1 hf with rfl | hf
    · exact ⟨top, List.mem_cons_self, hk top⟩
    · exact ⟨f, List.mem_cons_of_mem top hf, rfl⟩

theorem effects_modifyTop (id : ScopeId) (owner : Option Owner) (thread : ThreadId)
    {k : Frame → Frame} (hk : ∀ f, (k f).scope = f.scope) :
    Effects id owner (modifyTop thread k) :=
  effects_modifyThread thread fun t => keepsScopes_modifyTop t hk

/-- A frame is put on the stack, or there is no such thread. -/
theorem push_modifyThread {f : Frame} (h : Confined F g k m) (hf : Suits F g thread m f.scope) :
    Confined F g k
      (after (modifyThread thread fun t => { t with stack := t.stack.push f }) m) := by
  obtain ⟨owner, howner, hguest⟩ := hf
  rw [after, modifyThread_run]
  by_cases hall : m.threads.all (·.id != thread)
  · rw [if_pos hall]
    exact h
  · rw [if_neg hall]
    exact h.push howner hguest

theorem Suits.of_threads {threads : List Thread} (h : Suits F g thread m scope) :
    Suits F g thread { m with threads } scope :=
  h

/-- What a step asks for is carried out on the stack of its thread. -/
theorem applyStep {step : Step} (h : Confined F g k m) (hscope : Suits F g thread m scope)
    (hleaves : step.Leaves (Suits F g thread m) (Suits F g thread m))
    (hnew : ∀ id : ThreadId, m.nextThreadId ≤ id.index → F id → F thread) :
    Confined F g k (after (Machine.applyStep thread step) m) := by
  unfold Machine.applyStep
  cases step with
  | push f child =>
    obtain ⟨hf, hchild⟩ := hleaves
    have hpushed := h.push_modifyThread hf
    change Confined F g k (after (pushChild thread f child) m)
    unfold pushChild
    rw [after_bind]
    rw [after, modifyThread_run] at hpushed
    rw [modifyThread_run]
    by_cases hall : m.threads.all (·.id != thread)
    · rw [if_pos hall]
      exact h
    · rw [if_neg hall] at hpushed ⊢
      -- The scopes are what they were when the frame was pushed.
      change Confined F g k (after (ite _ _ _) _)
      split
      · exact hpushed.effects hscope.of_threads hnew fun owner => effects_raise thread _ _
      · exact hpushed.push_modifyThread hchild.of_threads
  | stay f => exact h.push_modifyThread hleaves
  | suspend f => exact h.push_modifyThread hleaves
  | done v =>
    refine h.effects hscope hnew fun owner => effects_get.bind fun m _ => ?_
    split
    · exact effects_modifyTop _ _ _ fun _ => rfl
    · exact effects_finishThread thread _
  | ref r =>
    refine h.effects hscope hnew fun owner => effects_get.bind fun m _ => ?_
    split
    · exact effects_modifyTop _ _ _ fun _ => rfl
    · exact effects_fault thread _
  | unwind c => exact h.effects hscope hnew fun owner => effects_unwind thread c

/-- The closure that the next step of a thread enters, if it enters one, is owned by an owner or by
nobody. -/
def EntersOwn (g : Owner) (m : Machine) (thread : ThreadId) : Prop :=
  ∀ f o, m.topFrame? thread = some f → m.entered? f = some o → o.owner = none ∨ o.owner = some g

instance (g : Owner) (m : Machine) (thread : ThreadId) : Decidable (EntersOwn g m thread) :=
  decidable_of_iff
    (∀ o ∈ (m.topFrame? thread).bind m.entered?, o.owner = none ∨ o.owner = some g) <| by
      unfold EntersOwn
      simp only [Option.mem_def, Option.bind_eq_some_iff]
      constructor
      · exact fun h f o hf ho => h o ⟨f, hf, ho⟩
      · rintro h o ⟨f, hf, ho⟩
        exact h f o hf ho

/-- Scopes stay live in a move, and those of the guest stay its own. -/
theorem Suits.moves (h : Confined F g k m) (hmoves : Moves old scope actor m m') {id : ScopeId}
    (hid : Suits F g thread m id) : Suits F g thread m' id := by
  obtain ⟨owner, howner, hguest⟩ := hid
  rcases hmoves with hchanges | ⟨target, m₁, m₂, hbefore, hbecome, hafter⟩
  · exact ⟨owner, hchanges.actsAs h.tidy howner, hguest⟩
  · have ht₁ := hbefore.tidy h.tidy
    have ht₂ : m₂.heap.Tidy := by
      rw [hbecome.after_eq]
      exact ht₁.modifyScope scope _
    have howner₁ := hbefore.actsAs h.tidy howner
    by_cases hF : F thread
    · obtain ⟨hpolicy, hroot⟩ := h.guest ⟨thread, hF⟩
      have hsettings := Changes.sameSettings hbefore
      have hguest₂ := hbecome.actsAs_guest (hsettings.policy.trans hpolicy)
        (hsettings.rootOwner ▸ hroot) (hguest hF ▸ howner₁)
      exact ⟨some g, hafter.actsAs ht₂ hguest₂, fun _ => rfl⟩
    · obtain ⟨owner', howner'⟩ := hbecome.live howner₁
      exact ⟨owner', hafter.actsAs ht₂ howner', fun hmem => absurd hmem hF⟩

/-- A frame of a thread runs in a scope that suits the thread. -/
theorem suits_of_mem (h : Confined F g k m) {t : Thread} (ht : t ∈ m.threads) {f : Frame}
    (hf : f ∈ t.stack.frames) : Suits F g t.id m f.scope := by
  by_cases hF : F t.id
  · exact ⟨some g, h.acts t ht hF f hf, fun _ => rfl⟩
  · obtain ⟨owner, howner⟩ := h.live t ht f hf
    exact ⟨owner, howner, fun hmem => absurd hmem hF⟩

theorem popped (h : Confined F g k m) (thread : ThreadId) :
    Confined F g k { m with
      threads := updateThread thread (fun t => { t with stack := t.stack.dropTop }) m.threads } := by
  have hdrop : ∀ t : Thread, t.KeepsScopes { t with stack := t.stack.dropTop } :=
    fun t => ⟨rfl, fun f hf => ⟨f, List.mem_of_mem_tail hf, rfl⟩⟩
  have hchange : Change (fun _ => False) (some g) m { m with
      threads := updateThread thread (fun t => { t with stack := t.stack.dropTop }) m.threads } :=
    .thread thread _ fun t _ => hdrop t
  exact h.change hchange fun _ _ _ => rfl

/-- A closure that is owned by nobody or by the guest runs as the guest. -/
theorem bodyOwner_eq {closure : Option Object}
    (h : ∀ o, closure = some o → o.owner = none ∨ o.owner = some g) :
    bodyOwner closure (some g) = some g := by
  cases closure with
  | none => rfl
  | some o =>
    rcases h o rfl with hnone | hsome
    · simp [bodyOwner, hnone]
    · simp [bodyOwner, hsome]

/-- A frame that was taken off its stack is stepped, and what it asks for is carried out. -/
theorem stepFrame {f : Frame} (h : Confined F g k m) (hsuits : Suits F g thread m f.scope)
    (hnew : ∀ id : ThreadId, m.nextThreadId ≤ id.index → F id → F thread)
    (hown : F thread → ∀ o, m.entered? f = some o → o.owner = none ∨ o.owner = some g) :
    Confined F g k (after (do
      let result ← attempt (dispatch natives thread f)
      if (← get).isAlive thread then
        match result with
        | .ok step => Machine.applyStep thread step
        | .error e => raise thread f.scope e) m) := by
  obtain ⟨owner, howner, hguest⟩ := id hsuits
  have htakes := takes_dispatch h.tidy.holds (fun _ _ => not_false) howner thread
  have hstepped := h.moves htakes.moves fun id hid hmember => hguest (hnew id hid hmember)
  have hscope := Suits.moves h htakes.moves hsuits
  have hnext := htakes.moves.nextThreadId_le
  rw [← after_attempt] at hstepped hscope hnext
  rw [after_bind]
  cases hrun : attempt (dispatch natives thread f) m with
  | error e m₁ =>
    rw [after_of_error hrun] at hstepped
    exact hstepped
  | ok result m₁ =>
    rw [after_of_ok hrun] at hstepped hscope hnext
    have hnew₁ : ∀ id : ThreadId, m₁.nextThreadId ≤ id.index → F id → F thread :=
      fun id hid => hnew id (Nat.le_trans hnext hid)
    change Confined F g k (after (ite _ _ _) m₁)
    split
    · cases result with
      | error e => exact hstepped.effects hscope hnew₁ fun owner => effects_raise thread _ e
      | ok step =>
        refine hstepped.applyStep hscope ?_ hnew₁
        refine (htakes.leaves step m₁ (attempt_eq_ok hrun)).mono ?_ ?_
        · exact fun id hid => ⟨owner, hid, hguest⟩
        · refine fun id hid => ⟨_, hid, fun hF => ?_⟩
          rw [hguest hF]
          exact bodyOwner_eq (hown hF)
    · exact hstepped

theorem stepThread (h : Confined F g k m)
    (hnew : ∀ id : ThreadId, m.nextThreadId ≤ id.index → F id → F thread)
    (hown : F thread → EntersOwn g m thread) :
    Confined F g k (after (Machine.stepThread natives thread) m) := by
  unfold Machine.stepThread
  rw [after_bind]
  cases hthread : m.thread? thread with
  | none =>
    have hrun : popFrame thread m = .error (.fault (.noThread thread.index)) m := by
      unfold popFrame
      rw [bind_run, get_run]
      dsimp only
      rw [hthread]
      rfl
    rw [hrun]
    exact h
  | some t =>
    obtain ⟨hmem, hid⟩ := mem_threads_of_thread? hthread
    rw [popFrame_run hthread]
    cases htop : t.stack.top? with
    | none =>
      have hfinish : DoesAt (fun _ => False) (some g) m (fun _ _ => True)
          (finishThread thread (.completed .undefined)) :=
        doesAt_modifyThread thread fun t _ => keepsScopes_finish t _
      exact h.changes hfinish.1 fun _ _ _ => rfl
    | some f =>
      have hf : f ∈ t.stack.frames := List.mem_of_head? htop
      have hsuits : Suits F g thread m f.scope := hid ▸ h.suits_of_mem hmem hf
      refine (h.popped thread).stepFrame hsuits.of_threads hnew fun hF o ho => ?_
      have htopFrame : m.topFrame? thread = some f := by
        rw [topFrame?, hthread]
        exact htop
      exact hown hF f o htopFrame ho

/-! ## Between steps -/

/-- Threads run in the scopes they ran in, and the scopes act as they did. -/
structure Rests (m m' : Machine) : Prop where
  tidy : m.heap.Tidy → m'.heap.Tidy
  acts : ∀ id owner, m.ActsAs id owner → m'.ActsAs id owner
  policy : m'.policy = m.policy
  rootOwner : m'.rootOwner = m.rootOwner
  globalScope : m'.globalScope = m.globalScope
  nextThreadId : m.nextThreadId ≤ m'.nextThreadId
  threads : ∀ u ∈ m'.threads, ∃ t ∈ m.threads, t.KeepsScopes u

theorem rests (h : Confined F g k m) (hrests : Rests m m') : Confined F g k m' := by
  refine ⟨⟨hrests.tidy h.tidy, fun u hu => ?_, fun u hu f hf => ?_, ?_⟩, ?_,
    fun hmember => ?_, fun u hu hmember f hf => ?_⟩
  · obtain ⟨t, ht, hkeeps⟩ := hrests.threads u hu
    rw [hkeeps.id]
    exact Nat.lt_of_lt_of_le (h.issued t ht) hrests.nextThreadId
  · obtain ⟨t, ht, hkeeps⟩ := hrests.threads u hu
    obtain ⟨f', hf', hscope⟩ := hkeeps.frames f hf
    obtain ⟨owner, howner⟩ := h.live t ht f' hf'
    exact ⟨owner, hscope ▸ hrests.acts _ _ howner⟩
  · obtain ⟨owner, howner⟩ := h.global
    exact ⟨owner, hrests.globalScope ▸ hrests.acts _ _ howner⟩
  · exact Nat.le_trans h.floor hrests.nextThreadId
  · rw [hrests.policy, hrests.rootOwner]
    exact h.guest hmember
  · obtain ⟨t, ht, hkeeps⟩ := hrests.threads u hu
    obtain ⟨f', hf', hscope⟩ := hkeeps.frames f hf
    exact hscope ▸ hrests.acts _ _ (h.acts t ht (hkeeps.id ▸ hmember) f' hf')

/-- A collection keeps the global scope and the scope of every frame of the threads that it
keeps. -/
theorem collectGarbage (h : Confined F g k m) :
    Confined F g k (after Machine.collectGarbage m) := by
  let n : Machine := { m with threads := m.threads.filter fun t => !t.isZombie || t.keepOutcome }
  have hkept : ∀ t ∈ n.threads, t ∈ m.threads := fun t ht => (List.mem_filter.1 ht).1
  have hheld : ∀ {id owner}, n.roots.Holds (.scope id) → m.ActsAs id owner →
      Machine.ActsAs { n with heap := (n.heap.collect n.roots).2 } id owner := by
    rintro id owner hroot ⟨s, hs, howner⟩
    exact ⟨s, h.tidy.scope?_collect_of_root hroot hs, howner⟩
  have hacts : ∀ t ∈ n.threads, ∀ f ∈ t.stack.frames, ∀ {owner}, m.ActsAs f.scope owner →
      Machine.ActsAs { n with heap := (n.heap.collect n.roots).2 } f.scope owner :=
    fun t ht f hf => hheld (holds_of_thread ht (Thread.holds_of_frame hf f.holds_scope))
  change Confined F g k { n with heap := (n.heap.collect n.roots).2 }
  refine ⟨⟨h.tidy.collect _, fun t ht => h.issued t (hkept t ht), fun t ht f hf => ?_, ?_⟩,
    h.floor, h.guest, fun t ht hmember f hf => ?_⟩
  · obtain ⟨owner, howner⟩ := h.live t (hkept t ht) f hf
    exact ⟨owner, hacts t ht f hf howner⟩
  · obtain ⟨owner, howner⟩ := h.global
    exact ⟨owner, hheld n.holds_globalScope howner⟩
  · exact hacts t ht f hf (h.acts t (hkept t ht) hmember f hf)

end Confined

end ScriptMachine
