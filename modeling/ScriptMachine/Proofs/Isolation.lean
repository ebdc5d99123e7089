import ScriptMachine.Proofs.Authority
import ScriptMachine.Proofs.Sustained

/-!
# Isolation of owners

Under the policy that lets only owners change what they own, a step that acts as a guest leaves
every object as it is that the guest does not own. The literal that the stepped frame is building is
the one exception: it was made by whoever the scope acted as when the literal began.
-/

namespace ScriptMachine

open Exec Machine Builtin

/-- A guest acts in a scope, and some objects, none of which it owns, are as they were in a heap. -/
structure Apart (before : Heap) (kept : ObjectId → Prop) (g : Owner) (scope : ScopeId)
    (m : Machine) : Prop where
  tidy : m.heap.Tidy
  policy : m.policy = .ownerOnly
  guest : g ≠ m.rootOwner
  acts : m.ActsAs scope (some g)
  foreign : ∀ id, kept id → ∃ o, before.object? id = some o ∧ o.owner ≠ some g
  same : ∀ id, kept id → m.heap.object? id = before.object? id

namespace Apart

variable {before : Heap} {kept : ObjectId → Prop} {g : Owner} {scope : ScopeId} {m m' : Machine}
  {α β : Type}

theorem holds (h : Apart before kept g scope m) : m.heap.Holds kept := by
  refine ⟨h.tidy, fun id hid => ?_⟩
  obtain ⟨o, ho, -⟩ := h.foreign id hid
  exact ⟨o, (h.same id hid).trans ho⟩

/-- What the policy lets a guest change, the guest owns. -/
theorem not_kept_of_authorized (h : Apart before kept g scope m) {id : ObjectId} {access : Access}
    (hauthorized : m.Authorized (some g) id access) (hmutation : access.isMutation = true) :
    ¬ kept id := by
  intro hid
  obtain ⟨o, ho, hforeign⟩ := h.foreign id hid
  obtain ⟨p, hp, hallowed⟩ := hauthorized
  rw [h.same id hid, ho] at hp
  cases hp
  rw [authorizeOwner, h.policy] at hallowed
  split at hallowed
  · rename_i hallows
    rw [Policy.allows_ownerOnly_iff _ hmutation] at hallows
    exact hallows.elim h.guest hforeign
  · cases hallowed

theorem change (h : Apart before kept g scope m) (hchange : Change kept (some g) m m') :
    Apart before kept g scope m' := by
  have hmodify : ∀ {other : ObjectId}, ¬ kept other → ∀ (f : Object → Object) (id : ObjectId),
      kept id → (m.heap.modifyObject other f).object? id = before.object? id := by
    intro other hother f id hid
    have hne : other.index ≠ id.index := by
      intro heq
      cases other
      cases id
      cases heq
      exact hother hid
    rw [Heap.object?_modifyObject, if_neg hne]
    exact h.same id hid
  have hsettings := hchange.sameSettings
  refine ⟨hchange.tidy h.tidy, hsettings.policy.trans h.policy, hsettings.rootOwner ▸ h.guest,
    Changes.actsAs (.single hchange) h.tidy h.acts, h.foreign, fun id hid => ?_⟩
  cases hchange with
  | allocObject o =>
    obtain ⟨p, hp, -⟩ := h.foreign id hid
    rw [hp]
    exact h.tidy.allocObject_of_live o ((h.same id hid).trans hp)
  | allocScope s => simpa using h.same id hid
  | load source p _ => exact h.same id hid
  | build other f hnew _ => exact hmodify hnew f id hid
  | edit other access f hauthorized hmutation _ =>
    exact hmodify (h.not_kept_of_authorized hauthorized hmutation) f id hid
  | bind other f _ => exact h.same id hid
  | thread other f _ => exact h.same id hid
  | spawn t _ _ _ hheap _ _ _ => exact hheap ▸ h.same id hid
  | host _ hheap _ _ => exact hheap ▸ h.same id hid

/-- A guest becomes nobody but itself, and a scope is no object. -/
theorem become {target : Owner} (h : Apart before kept g scope m)
    (hbecome : Become scope (some g) target m m') : Apart before kept g scope m' := by
  have hacts := hbecome.actsAs_guest h.policy h.guest h.acts
  obtain ⟨-, -, rfl⟩ := hbecome
  exact ⟨h.tidy.modifyScope scope _, h.policy, h.guest, hacts, h.foreign, h.same⟩

theorem sustained : Sustained kept scope (· = some g) (Apart before kept g scope) where
  holds := holds
  acts h := ⟨some g, h.acts, rfl⟩
  change h hactor hchange := h.change (hactor ▸ hchange)
  become h hactor hbecome := h.become (hactor ▸ hbecome)
  threads _ h := ⟨h.tidy, h.policy, h.guest, h.acts, h.foreign, h.same⟩

end Apart

/-! ## The step that the scheduler picks -/

namespace Machine

variable {top : Option Frame} {thread : ThreadId}

theorem topFrame?_updateThread {f : Thread → Thread} (hid : ∀ t, (f t).id = t.id)
    (hstack : ∀ t, (f t).stack = t.stack) (m : Machine) (id : ThreadId) :
    topFrame? { m with threads := updateThread id f m.threads } thread = m.topFrame? thread := by
  unfold topFrame? thread?
  dsimp only
  induction m.threads with
  | nil => rfl
  | cons t rest ih =>
    rw [updateThread]
    split
    · rw [List.find?_cons, List.find?_cons, hid]
      split
      · change (f t).stack.top? = t.stack.top?
        rw [hstack]
      · rfl
    · rw [List.find?_cons, List.find?_cons]
      split
      · rfl
      · exact ih

/-- Waking the threads that are due leaves their stacks alone. -/
theorem keeps_top_schedule : Keeps (·.topFrame? thread = top) schedule := by
  have hwake : ∀ (t : Thread) (time : Float),
      (t.wake time).id = t.id ∧ (t.wake time).stack = t.stack := by
    intro t time
    unfold Thread.wake
    split
    · exact ⟨rfl, rfl⟩
    · exact ⟨rfl, rfl⟩
  refine (keeps_modifyGet fun _ h => h).bind fun time => ?_
  refine (keeps_modify fun m h => ?_).bind fun _ => keeps_get.bind fun _ => keeps_pure _
  rw [← h]
  simp only [topFrame?, thread?, List.find?_map, Function.comp_def, hwake, Option.bind_map]

theorem keeps_top_startRun (id : ThreadId) : Keeps (·.topFrame? thread = top) (startRun id) := by
  refine (keeps_modifyGet fun _ h => h).bind fun time => Keeps.bind ?_ fun _ =>
    keeps_modify fun _ h => h
  refine keeps_modifyThread fun m h => ?_
  rw [topFrame?_updateThread]
  · exact h
  · exact fun _ => rfl
  · exact fun _ => rfl

end Machine

namespace Apart

variable {before : Heap} {kept : ObjectId → Prop} {g : Owner} {m m₁ : Machine}
  {thread : ThreadId} {f : Frame}

/-- What is left of some objects is as it was. -/
def Left (before : Heap) (kept : ObjectId → Prop) (m : Machine) : Prop :=
  ∀ id, kept id → ∀ o, m.heap.object? id = some o → before.object? id = some o

theorem left {scope : ScopeId} (h : Apart before kept g scope m) : Left before kept m :=
  fun id hid _ ho => h.same id hid ▸ ho

theorem left_maybeCollectGarbage {scope : ScopeId} (h : Apart before kept g scope m) :
    Left before kept (after maybeCollectGarbage m) := by
  intro id hid o ho
  rw [← h.same id hid]
  change (after (ite _ _ _) m).heap.object? id = some o at ho
  split at ho
  · exact h.tidy.object?_of_collect ho
  · exact ho

/-- The scheduler steps the frame and may collect. -/
theorem left_stepPicked (h : Apart before kept g f.scope m) (htop : m.topFrame? thread = some f)
    (hnew : f.BuildsNew kept) :
    Left before kept (after (do
      modify fun m => { m with currentThread := some thread }
      let result ← attempt (Machine.stepThread natives thread)
      modify fun m => { m with currentThread := none }
      maybeCollectGarbage
      query fun _ => result.map fun _ => true) m) := by
  have hattend : Apart before kept g f.scope { m with currentThread := some thread } :=
    ⟨h.tidy, h.policy, h.guest, h.acts, h.foreign, h.same⟩
  rw [after_bind, modify_run]
  refine after_bind_of (P := Apart before kept g f.scope) ?_ (fun _ h => h.left)
    fun result m₂ _ h₂ => ?_
  · rw [after_attempt]
    exact sustained.stepThread hattend htop hnew
  have hleave : Apart before kept g f.scope { m₂ with currentThread := none } :=
    ⟨h₂.tidy, h₂.policy, h₂.guest, h₂.acts, h₂.foreign, h₂.same⟩
  rw [after_bind, modify_run]
  refine after_bind_of hleave.left_maybeCollectGarbage (fun _ h => h) fun _ m₃ _ h₃ => ?_
  exact keeps_query _ m₃ h₃

/-- The scheduler does its own part before it steps the frame. -/
theorem left_stepOnce (h : Apart before kept g f.scope m) (htop : m.topFrame? thread = some f)
    (hnew : f.BuildsNew kept) (hpick : schedule m = .ok (.run thread) m₁) :
    Left before kept (after (Machine.stepOnce natives) m) := by
  have h₁ : Apart before kept g f.scope m₁ := by
    obtain rfl := after_of_ok hpick
    exact ⟨h.tidy, h.policy, h.guest, h.acts, h.foreign, h.same⟩
  have htop₁ : m₁.topFrame? thread = some f := after_of_ok hpick ▸ keeps_top_schedule m htop
  change Left before kept (after (ite _ _ _) m)
  split
  · exact h.left
  rw [after_bind, hpick]
  change Left before kept (after (ite _ _ _) m₁)
  split
  · refine after_bind_of (P := fun m' => Apart before kept g f.scope m' ∧
      m'.topFrame? thread = some f) ?_ (fun _ h => h.1.left) fun _ m₂ _ h₂ => ?_
    · refine ⟨?_, keeps_top_startRun thread m₁ htop₁⟩
      obtain ⟨threads, lastStepped, hstarted, -⟩ := exists_after_startRun thread m₁
      rw [hstarted]
      exact ⟨h₁.tidy, h₁.policy, h₁.guest, h₁.acts, h₁.foreign, h₁.same⟩
    · exact h₂.1.left_stepPicked h₂.2 hnew
  · exact h₁.left_stepPicked htop₁ hnew

end Apart

namespace Machine

/-- Under the policy that lets only owners change what they own, a step of a thread that acts as a
guest leaves every object as it is that the guest does not own, but for the literal that the stepped
frame is building. After the collection that may follow, such an object is as it was or gone. -/
theorem foreign_object_kept {m : Machine} (htidy : m.heap.Tidy) (hpolicy : m.policy = .ownerOnly)
    {g : Owner} (hguest : g ≠ m.rootOwner) {thread : ThreadId} {f : Frame}
    (htop : m.topFrame? thread = some f) (hacts : m.ActsAs f.scope (some g)) {id : ObjectId}
    {o : Object} (ho : m.heap.object? id = some o) (hforeign : o.owner ≠ some g)
    (hliteral : f.info ≠ .object id) :
    (after (stepThread natives thread) m).heap.object? id = some o ∧
      ∀ m₁, schedule m = .ok (.run thread) m₁ →
        ∀ p, (after (stepOnce natives) m).heap.object? id = some p → p = o := by
  let kept : ObjectId → Prop := fun i => i = id
  have hnew : f.BuildsNew kept := by
    intro i hi hkept
    exact hliteral (hkept ▸ hi)
  have hstart : Apart m.heap kept g f.scope m := by
    refine ⟨htidy, hpolicy, hguest, hacts, ?_, fun _ _ => rfl⟩
    intro i hkept
    exact ⟨o, hkept ▸ ho, hforeign⟩
  refine ⟨((Apart.sustained.stepThread hstart htop hnew).same id rfl).trans ho, fun m₁ hpick p hp => ?_⟩
  have hbefore := hstart.left_stepOnce htop hnew hpick id rfl p hp
  exact Option.some.inj (hbefore.symm.trans ho)

/-- Whether the scheduler picks the first thread. -/
def picksFirst (m : Machine) : Bool :=
  match schedule m with
  | .ok (.run thread) _ => thread == ⟨1⟩
  | _ => false

set_option maxRecDepth 100000 in
/-- A guest assigns to an object that the root owner made. -/
theorem foreign_object_kept_on_assignment :
    ∃ m o, trial "var o = {}; setPerms({}); o.x = 1;" 25 = some m ∧
      m.heap.object? ⟨103⟩ = some o ∧
      (after (stepThread natives ⟨1⟩) m).heap.object? ⟨103⟩ = some o ∧
      ∀ p, (after (stepOnce natives) m).heap.object? ⟨103⟩ = some p → p = o := by
  have hchecks : (trial "var o = {}; setPerms({}); o.x = 1;" 25).any (fun m =>
      (m.topFrame? ⟨1⟩).any fun f => (m.heap.object? ⟨103⟩).any fun o => decide
        ((⟨104⟩ : Owner) ≠ m.rootOwner ∧ m.ActsAs f.scope (some ⟨104⟩) ∧
          o.owner ≠ some ⟨104⟩ ∧ f.info ≠ .object ⟨103⟩ ∧ m.picksFirst = true)) = true := by
    decide +kernel
  obtain ⟨m, hm, hchecks⟩ := (Option.any_eq_true _ _).1 hchecks
  obtain ⟨f, htop, hchecks⟩ := (Option.any_eq_true _ _).1 hchecks
  obtain ⟨o, ho, hchecks⟩ := (Option.any_eq_true _ _).1 hchecks
  obtain ⟨hguest, hacts, hforeign, hliteral, hpicks⟩ := of_decide_eq_true hchecks
  obtain ⟨m₁, hpick⟩ : ∃ m₁, schedule m = .ok (.run ⟨1⟩) m₁ := by
    unfold picksFirst at hpicks
    split at hpicks
    · rename_i thread m₁ hrun
      exact ⟨m₁, by rw [hrun, beq_iff_eq.1 hpicks]⟩
    · cases hpicks
  obtain ⟨hstep, honce⟩ := foreign_object_kept (reached_of_trial hm).ordered.tidy
    (policy_of_trial hm) hguest htop hacts ho hforeign hliteral
  exact ⟨m, o, hm, ho, hstep, honce m₁ hpick⟩

end Machine

end ScriptMachine
