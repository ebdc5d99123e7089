import ScriptMachine.Proofs.Confinement
import ScriptMachine.Proofs.Start

/-!
# Code does not come to act as another owner by itself

A machine is watched along any run, made of the steps of its threads and of what the scheduler, the
collector and the host do in between. A family of threads starts with one thread and takes in every
thread that a member starts. While all members enter closures of one owner only, all of them act as
that owner.
-/

namespace ScriptMachine

open Machine Exec Builtin

/-- What happens to a machine: a thread takes a step, or the scheduler, the collector or the host
does something between two steps. -/
inductive Action where
  | step (thread : ThreadId)
  | schedule
  | start (thread : ThreadId)
  | attend (thread : Option ThreadId)
  | collect
  | spawn (source : String)
  | call (func receiver : Value) (args : List Value) (delay : Float)
  | settle (resolver : Nat) (thread : ThreadId) (s : Settlement)
  | kill (thread : ThreadId)
  | take (thread : ThreadId)
  | release
  | limit (thread : ThreadId) (most : Option Float)
  | threshold (count : Nat)
  | pause
  | resume
  | stop
  | setGlobal (name : String) (v : Value)
  | advance (millis : Float)
  | wait (time : Float)
  | setClock (time : Float)
  | replaceClock (clock : Host.Clock)

namespace Action

/-- The thread that takes a step. -/
def stepped? : Action → Option ThreadId
  | step thread => some thread
  | _ => none

/-- The machine after an action, which may have failed. -/
def apply (m : Machine) : Action → Machine
  | step thread => after (stepThread natives thread) m
  | schedule => after Machine.schedule m
  | start thread => after (startRun thread) m
  | attend thread => { m with currentThread := thread }
  | collect => after collectGarbage m
  | spawn source => after (Machine.spawn source) m
  | call func receiver args delay => after (spawnCall func receiver args delay) m
  | settle resolver thread s => after (Machine.settle resolver thread s) m
  | kill thread => after (killThread thread) m
  | take thread => after (takeResult thread) m
  | release => after releaseHostValues m
  | limit thread most => after (setTimeLimit thread most) m
  | threshold count => after (setGcThreshold count) m
  | pause => after Machine.pause m
  | resume => after Machine.resume m
  | stop => after Machine.stop m
  | setGlobal name v => after (Machine.setGlobal name v) m
  | advance millis => { m with clock := m.clock.advance millis }
  | wait time => after (waitUntil time) m
  | setClock time => after (Machine.setClock time) m
  | replaceClock clock => after (Machine.replaceClock clock) m

end Action

namespace Machine

/-- One machine comes from another by actions. -/
inductive Reaches (m : Machine) : Machine → Prop where
  | refl : Reaches m m
  | act {m' : Machine} (a : Action) (h : Reaches m m') : Reaches m (a.apply m')

/-- A machine that comes from a new one by actions. -/
def Reached (m : Machine) : Prop :=
  ∃ config clock m₀, create config clock = .ok m₀ ∧ Reaches m₀ m

end Machine

/-! ## What the host does -/

/-- The slots of a heap are those of another. -/
structure Heap.SameSlots (h h' : Heap) : Prop where
  objects : h'.objects = h.objects
  freeObjects : h'.freeObjects = h.freeObjects
  scopes : h'.scopes = h.scopes
  freeScopes : h'.freeScopes = h.freeScopes

namespace Heap.SameSlots

variable {h h' : Heap}

theorem tidy (hs : h.SameSlots h') (ht : h.Tidy) : h'.Tidy := by
  constructor
  · rw [hs.objects, hs.freeObjects]
    exact ht.objects
  · rw [hs.scopes, hs.freeScopes]
    exact ht.scopes

theorem scope?_eq (hs : h.SameSlots h') (id : ScopeId) : h'.scope? id = h.scope? id := by
  unfold Heap.scope?
  rw [hs.scopes]

theorem pin (h : Heap) (g : Guard) (v : Value) : h.SameSlots (h.pin g v).2.2 := by
  unfold Heap.pin
  split
  · split
    · exact ⟨rfl, rfl, rfl, rfl⟩
    · exact ⟨rfl, rfl, rfl, rfl⟩
  · exact ⟨rfl, rfl, rfl, rfl⟩

theorem clearGuard (h : Heap) (g : Guard) : h.SameSlots (h.clearGuard g).2 := by
  unfold Heap.clearGuard Heap.release
  dsimp only
  split
  · exact ⟨rfl, rfl, rfl, rfl⟩
  · exact ⟨rfl, rfl, rfl, rfl⟩

end Heap.SameSlots

namespace Machine

variable {old : ObjectId → Prop} {scope : ScopeId} {actor : Option Owner}

theorem effects_modify_host {f : Machine → Machine}
    (h : ∀ m, (f m).heap = m.heap ∧ (f m).threads = m.threads ∧ m.SameSettings (f m)) :
    Effects scope actor (modify f : Exec Unit) :=
  effects_modify fun _ m => .host _ (h m).1 (h m).2.1 (h m).2.2

/-- Starting a run times a thread anew and notes which one it is. -/
theorem exists_after_startRun (thread : ThreadId) (m : Machine) : ∃ threads lastStepped,
    after (startRun thread) m = { after now m with threads, lastStepped } ∧
      ∀ u ∈ threads, ∃ t ∈ m.threads, t.KeepsScopes u := by
  have hself : ∀ u ∈ m.threads, ∃ t ∈ m.threads, t.KeepsScopes u :=
    fun u hu => ⟨u, hu, keepsScopes_of_stack_eq rfl rfl⟩
  unfold startRun
  rw [after_bind, show now m = .ok m.reading (after now m) from rfl]
  dsimp only
  rw [after_bind, modifyThread_run]
  cases (after now m).threads.all (·.id != thread) with
  | true => exact ⟨m.threads, m.lastStepped, rfl, hself⟩
  | false =>
    refine ⟨_, some thread, rfl, fun u hu => ?_⟩
    rcases mem_updateThread hu with hu | ⟨t, ht, rfl⟩
    · exact hself u hu
    · exact ⟨t, List.mem_of_find?_eq_some ht, keepsScopes_of_stack_eq rfl rfl⟩

theorem effects_clock (clock : Machine → Host.Clock) (elapsed : Machine → Float) :
    Effects scope actor
      (modify fun m => { m with clock := clock m, previousElapsed := elapsed m } : Exec Unit) :=
  effects_modify_host fun _ => ⟨rfl, rfl, rfl, rfl, rfl, rfl, rfl, rfl, Nat.le_refl _⟩

theorem effects_waitUntil (time : Float) : Effects scope actor (waitUntil time) :=
  effects.waitUntil effects_clock time

theorem effects_replaceClock (clock : Host.Clock) : Effects scope actor (replaceClock clock) :=
  effects.replaceClock effects_clock clock

theorem effects_pause : Effects scope actor pause := by
  refine effects_modify_host fun m => ?_
  split
  · exact ⟨rfl, rfl, rfl, rfl, rfl, rfl, rfl, rfl, Nat.le_refl _⟩
  · exact ⟨rfl, rfl, .refl m⟩

theorem effects_resume : Effects scope actor resume := by
  refine effects_modify_host fun m => ?_
  split
  · exact ⟨rfl, rfl, rfl, rfl, rfl, rfl, rfl, rfl, Nat.le_refl _⟩
  · exact ⟨rfl, rfl, .refl m⟩

theorem effects.setGlobal (name : String) (v : Value) :
    Effects scope actor (setGlobal name v) := by
  refine effects_get.bind fun m _ => (effects.bindsLocally _ name).bind fun bound _ => ?_
  split
  · exact effects.writeBinding _ name v
  · exact effects.declare _ name v true

/-- A program is started in the global scope, on behalf of the owner that scope acts as. -/
theorem doesAt_spawnProgram {m : Machine} (hacts : m.ActsAs m.globalScope actor)
    (program : ProgramId) : DoesAt old actor m (fun _ _ => True) (spawnProgram program) := by
  refine (doesAt_query _).bind fun p m₁ _ h₁ => ?_
  obtain ⟨rfl, -⟩ := h₁
  exact doesAt_get_bind (doesAt_newThread hacts 0 true)

theorem doesAt_spawn {m : Machine} (hh : m.heap.Holds old) (hacts : m.ActsAs m.globalScope actor)
    (source : String) : DoesAt old actor m (fun _ _ => True) (spawn source) := by
  refine (effects_load source old m hh hacts).bind fun program m₁ h₁ _ => ?_
  have hglobal := (Changes.sameSettings h₁).globalScope
  exact doesAt_spawnProgram (hglobal ▸ h₁.actsAs hh.toTidy hacts) program

theorem doesAt_spawnCall {m : Machine} (ht : m.heap.Tidy) (func receiver : Value)
    (args : List Value) (delay : Float) :
    DoesAt old (some m.rootOwner) m (fun _ _ => True) (spawnCall func receiver args delay) := by
  unfold spawnCall
  exact doesAt_get_bind (doesAt_spawnCallAs ht func receiver args delay m.rootOwner true)

/-- A settled thread goes on in the frame it was parked in. -/
theorem keepsScopes_settled {t : Thread} {s : Settlement} {f : Frame}
    (h : settledFrame t s = .ok f) {u : Thread} (hid : u.id = t.id)
    (hstack : u.stack = t.stack.modifyTop fun _ => f) : t.KeepsScopes u := by
  unfold settledFrame at h
  cases hframes : t.stack.frames with
  | nil =>
    rw [hframes] at h
    cases h
  | cons top rest =>
    rw [hframes] at h
    have hscope : f.scope = top.scope := by
      dsimp only at h
      split at h
      · split at h
        · cases h
          rfl
        · cases h
      · cases h
    refine ⟨hid, fun f' hf' => ?_⟩
    have hframes' : u.stack.frames = f :: rest := by
      rw [hstack]
      unfold Stack.modifyTop
      split
      · rename_i hnil
        rw [hframes] at hnil
        cases hnil
      · rename_i top' rest' hcons
        rw [hframes] at hcons
        cases hcons
        rfl
    rw [hframes'] at hf'
    rw [hframes]
    rcases List.mem_cons.1 hf' with rfl | hf'
    · exact ⟨top, List.mem_cons_self, hscope⟩
    · exact ⟨f', List.mem_cons_of_mem top hf', rfl⟩

theorem effects_removeResolver (id : Nat) : Effects scope actor (removeResolver id) :=
  effects_modify_host fun _ => ⟨rfl, rfl, rfl, rfl, rfl, rfl, rfl, rfl, Nat.le_refl _⟩

theorem effects_keepEarly (thread : ThreadId) (s : Settlement) :
    Effects scope actor (keepEarly thread s) :=
  effects_modify_host fun _ => ⟨rfl, rfl, rfl, rfl, rfl, rfl, rfl, rfl, Nat.le_refl _⟩

theorem effects_settle (id : Nat) (thread : ThreadId) (s : Settlement) :
    Effects scope actor (settle id thread s) := by
  refine effects_get.bind fun m _ => ?_
  split
  · exact does_throw _
  rename_i holder _
  refine (effects_removeResolver id).bind fun _ _ => ?_
  dsimp only
  split
  · exact does_throw_bind _ _
  refine effects.now.bind fun time _ => effects_takeQueuePosition.bind fun queued _ => ?_
  intro old m hh hacts
  refine doesAt_get_bind ?_
  cases hthread : m.thread? holder with
  | none => exact does_pure trivial old m hh hacts
  | some t =>
    dsimp only
    split
    · exact does_pure trivial old m hh hacts
    · refine (doesAt_query _).bind fun f m₁ _ h₁ => ?_
      obtain ⟨rfl, hf⟩ := h₁
      refine doesAt_modifyThread holder fun u hu => ?_
      rw [hthread] at hu
      cases hu
      exact keepsScopes_settled hf rfl rfl
    · refine doesAt_get_bind ?_
      split
      · exact effects_keepEarly holder s old m hh hacts
      · exact does_throw _ old m hh hacts

end Machine

/-! ## Actions confine -/

namespace Confined

variable {F : ThreadId → Prop} {g : Owner} {k : Nat} {m : Machine}

/-- What the host does in the global scope leaves a family alone. -/
theorem host {α : Type} {x : Exec α} (h : Confined F g k m)
    (hnew : ∀ id : ThreadId, m.nextThreadId ≤ id.index → ¬ F id)
    (hx : ∀ owner, Effects m.globalScope owner x) : Confined F g k (after x m) := by
  obtain ⟨owner, howner⟩ := h.global
  have hchanges := (hx owner _ m h.tidy.holds howner).1
  exact h.changes hchanges fun id hid hmember => absurd hmember (hnew id hid)

theorem rests_of_slots {m' : Machine} (hheap : m.heap.SameSlots m'.heap)
    (hsettings : m.rootOwner = m'.rootOwner ∧ m'.globalScope = m.globalScope ∧
      m'.policy = m.policy ∧ m'.nextThreadId = m.nextThreadId)
    (hthreads : ∀ u ∈ m'.threads, ∃ t ∈ m.threads, t.KeepsScopes u) : Rests m m' := by
  obtain ⟨hroot, hglobal, hpolicy, hnext⟩ := hsettings
  refine ⟨hheap.tidy, fun id owner hid => ?_, hpolicy, hroot.symm, hglobal, Nat.le_of_eq hnext.symm, hthreads⟩
  unfold ActsAs
  rw [hheap.scope?_eq]
  exact hid

theorem keepsScopes_self (m : Machine) : ∀ u ∈ m.threads, ∃ t ∈ m.threads, t.KeepsScopes u :=
  fun u hu => ⟨u, hu, keepsScopes_of_stack_eq rfl rfl⟩

theorem rests_schedule (m : Machine) : Rests m (after schedule m) := by
  refine rests_of_slots ⟨rfl, rfl, rfl, rfl⟩ ⟨rfl, rfl, rfl, rfl⟩ fun u hu => ?_
  obtain ⟨t, ht, rfl⟩ := List.mem_map.1 hu
  refine ⟨t, ht, keepsScopes_of_stack_eq ?_ ?_⟩
  · unfold Thread.wake
    split <;> rfl
  · unfold Thread.wake
    split <;> rfl

theorem rests_stop (m : Machine) : Rests m (after stop m) := by
  refine rests_of_slots ⟨rfl, rfl, rfl, rfl⟩ ⟨rfl, rfl, rfl, rfl⟩ fun u hu => ?_
  obtain ⟨t, ht, rfl⟩ := List.mem_map.1 hu
  refine ⟨t, ht, ?_⟩
  split
  · exact keepsScopes_of_stack_eq rfl rfl
  · exact keepsScopes_finish t _

theorem rests_takeResult (thread : ThreadId) (m : Machine) :
    Rests m (after (takeResult thread) m) := by
  have hself : Rests m m :=
    rests_of_slots ⟨rfl, rfl, rfl, rfl⟩ ⟨rfl, rfl, rfl, rfl⟩ (keepsScopes_self m)
  have hkept : ∀ u ∈ m.threads.filter (·.id != thread), ∃ t ∈ m.threads, t.KeepsScopes u :=
    fun u hu => keepsScopes_self m u (List.mem_filter.1 hu).1
  unfold takeResult
  rw [after_bind, get_run]
  dsimp only
  cases m.thread? thread with
  | none => exact hself
  | some t =>
    dsimp only
    split
    · exact hself
    · rw [after_bind, modify_run]
      dsimp only
      split
      · exact rests_of_slots (.pin m.heap m.hostValues _) ⟨rfl, rfl, rfl, rfl⟩ hkept
      · exact rests_of_slots (.pin m.heap m.hostValues _) ⟨rfl, rfl, rfl, rfl⟩ hkept
      · exact rests_of_slots ⟨rfl, rfl, rfl, rfl⟩ ⟨rfl, rfl, rfl, rfl⟩ hkept

/-- An action of a thread that enters its own closures, or of the host, confines a family. -/
theorem act (h : Confined F g k m) (a : Action)
    (hnew : ∀ id : ThreadId, m.nextThreadId ≤ id.index → F id →
      ∃ thread, a.stepped? = some thread ∧ F thread)
    (hown : ∀ thread, a.stepped? = some thread → F thread → EntersOwn g m thread) :
    Confined F g k (a.apply m) := by
  have hhost : a.stepped? = none → ∀ id : ThreadId, m.nextThreadId ≤ id.index → ¬ F id := by
    intro hstepped id hid hmember
    obtain ⟨thread, hthread, -⟩ := hnew id hid hmember
    rw [hstepped] at hthread
    cases hthread
  have hsame : ∀ {m' : Machine}, m.heap.SameSlots m'.heap → m.rootOwner = m'.rootOwner ∧
      m'.globalScope = m.globalScope ∧ m'.policy = m.policy ∧ m'.nextThreadId = m.nextThreadId →
      m'.threads = m.threads → Confined F g k m' := fun hheap hsettings hthreads =>
    h.rests (rests_of_slots hheap hsettings (hthreads ▸ keepsScopes_self m))
  cases a with
  | step thread =>
    refine h.stepThread (fun id hid hmember => ?_) (hown thread rfl)
    obtain ⟨thread', hthread, hF⟩ := hnew id hid hmember
    cases hthread
    exact hF
  | schedule => exact h.rests (rests_schedule m)
  | start thread =>
    obtain ⟨threads, lastStepped, hstarted, hkept⟩ := exists_after_startRun thread m
    refine h.rests ?_
    rw [Action.apply, hstarted]
    exact rests_of_slots ⟨rfl, rfl, rfl, rfl⟩ ⟨rfl, rfl, rfl, rfl⟩ hkept
  | attend thread => exact hsame ⟨rfl, rfl, rfl, rfl⟩ ⟨rfl, rfl, rfl, rfl⟩ rfl
  | collect => exact h.collectGarbage
  | spawn source =>
    obtain ⟨owner, howner⟩ := h.global
    refine h.changes (doesAt_spawn h.tidy.holds howner source).1 fun id hid hmember => ?_
    exact absurd hmember (hhost rfl id hid)
  | call func receiver args delay =>
    have hcall : DoesAt (fun _ => False) _ m _ _ :=
      doesAt_spawnCall h.tidy func receiver args delay
    refine h.changes hcall.1 fun id hid hmember => ?_
    exact absurd hmember (hhost rfl id hid)
  | settle resolver thread s => exact h.host (hhost rfl) fun _ => effects_settle resolver thread s
  | kill thread => exact h.host (hhost rfl) fun _ => effects_killThread thread
  | take thread => exact h.rests (rests_takeResult thread m)
  | release => exact hsame (.clearGuard m.heap m.hostValues) ⟨rfl, rfl, rfl, rfl⟩ rfl
  | limit thread most => exact h.host (hhost rfl) fun _ => effects_setTimeLimit thread most
  | threshold count => exact hsame ⟨rfl, rfl, rfl, rfl⟩ ⟨rfl, rfl, rfl, rfl⟩ rfl
  | pause => exact h.host (hhost rfl) fun _ => effects_pause
  | resume => exact h.host (hhost rfl) fun _ => effects_resume
  | stop => exact h.rests (rests_stop m)
  | setGlobal name v => exact h.host (hhost rfl) fun _ => effects.setGlobal name v
  | advance millis => exact hsame ⟨rfl, rfl, rfl, rfl⟩ ⟨rfl, rfl, rfl, rfl⟩ rfl
  | wait time => exact h.host (hhost rfl) fun _ => effects_waitUntil time
  | setClock time => exact hsame ⟨rfl, rfl, rfl, rfl⟩ ⟨rfl, rfl, rfl, rfl⟩ rfl
  | replaceClock clock => exact h.host (hhost rfl) fun _ => effects_replaceClock clock

end Confined

namespace Machine

/-- A new machine is in order, and actions keep it so. -/
theorem Reached.ordered {m : Machine} (h : Reached m) : Ordered m := by
  obtain ⟨config, clock, m₀, hcreate, hreaches⟩ := h
  induction hreaches with
  | refl =>
    have hvacant := vacant_of_create hcreate
    have hnone : ∀ t, t ∉ m₀.threads := fun t ht => by
      rw [hvacant.threads] at ht
      cases ht
    obtain ⟨s, hs⟩ := hvacant.global
    exact ⟨hvacant.tidy, fun t ht => absurd ht (hnone t), fun t ht => absurd ht (hnone t),
      s.owner, s, hs, rfl⟩
  | act a hrun ih =>
    refine ((ih.confined ⟨0⟩).act a ?_ ?_).toOrdered
    · exact fun _ _ hmember => hmember.elim
    · exact fun _ _ hmember => hmember.elim

end Machine

/-! ## A family of threads is watched -/

/-- A machine and the threads that are watched in it. -/
structure Watch where
  machine : Machine
  family : ThreadId → Bool

namespace Watch

/-- One thread is watched first. -/
def ofThread (m : Machine) (thread : ThreadId) : Watch := ⟨m, (· == thread)⟩

/-- Every thread that a member of the family starts becomes a member. -/
def act (w : Watch) (a : Action) : Watch where
  machine := a.apply w.machine
  family id := w.family id || (a.stepped?.any w.family &&
    decide (w.machine.nextThreadId ≤ id.index) &&
    decide (id.index < (a.apply w.machine).nextThreadId))

def run (w : Watch) (actions : List Action) : Watch := actions.foldl act w

/-- Along a run, every closure that a member of the family enters is owned by an owner or by
nobody. -/
def EntersOwn (g : Owner) : Watch → List Action → Prop
  | _, [] => True
  | w, a :: rest =>
    (∀ thread ∈ a.stepped?, w.family thread = true → Confined.EntersOwn g w.machine thread) ∧
      EntersOwn g (w.act a) rest

instance decidableEntersOwn (g : Owner) :
    (w : Watch) → (actions : List Action) → Decidable (w.EntersOwn g actions)
  | _, [] => .isTrue trivial
  | w, a :: rest =>
    have := decidableEntersOwn g (w.act a) rest
    inferInstanceAs (Decidable (_ ∧ _))

variable {g : Owner} {w : Watch}

/-- The members of the family act as the guest, and their numbers were issued. -/
structure Guarded (g : Owner) (w : Watch) : Prop where
  confined : Confined (w.family · = true) g w.machine.nextThreadId w.machine
  issued : ∀ id : ThreadId, w.family id = true → id.index < w.machine.nextThreadId

theorem Guarded.act (h : Guarded g w) (a : Action)
    (hown : ∀ thread, a.stepped? = some thread → w.family thread = true →
      Confined.EntersOwn g w.machine thread) : Guarded g (w.act a) := by
  have hfamily : ∀ id, (w.act a).family id = true → w.family id = true ∨
      (∃ thread, a.stepped? = some thread ∧ w.family thread = true) ∧
        w.machine.nextThreadId ≤ id.index ∧ id.index < (w.act a).machine.nextThreadId := by
    intro id hid
    simp only [Watch.act, Bool.or_eq_true, Bool.and_eq_true, decide_eq_true_eq,
      Option.any_eq_true] at hid
    rcases hid with hid | ⟨⟨hstepped, hlow⟩, hhigh⟩
    · exact .inl hid
    · exact .inr ⟨hstepped, hlow, hhigh⟩
  have hkept : ∀ id, w.family id = true → (w.act a).family id = true := by
    intro id hid
    simp [Watch.act, hid]
  -- No thread of the machine as it is has one of the numbers that the action issues.
  have hbefore : Confined ((w.act a).family · = true) g w.machine.nextThreadId w.machine := by
    refine ⟨h.confined.toOrdered, h.confined.floor, fun ⟨id, hid⟩ => ?_, fun t ht hmember => ?_⟩
    · rcases hfamily id hid with hid | ⟨⟨thread, -, hthread⟩, -⟩
      · exact h.confined.guest ⟨id, hid⟩
      · exact h.confined.guest ⟨thread, hthread⟩
    · rcases hfamily t.id hmember with hmember | ⟨-, hlow, -⟩
      · exact h.confined.acts t ht hmember
      · exact absurd (h.confined.issued t ht) (Nat.not_lt.2 hlow)
  have hafter := hbefore.act a (fun id hid hmember => ?_) (fun thread hthread hmember => ?_)
  · refine ⟨{ hafter with floor := Nat.le_refl _ }, fun id hid => ?_⟩
    rcases hfamily id hid with hid | ⟨-, -, hhigh⟩
    · exact Nat.lt_of_lt_of_le (h.issued id hid) hafter.floor
    · exact hhigh
  · rcases hfamily id hmember with hmember | ⟨⟨thread, hstepped, hthread⟩, -⟩
    · exact absurd (h.issued id hmember) (Nat.not_lt.2 hid)
    · exact ⟨thread, hstepped, hkept thread hthread⟩
  · rcases hfamily thread hmember with hmember | ⟨⟨thread', hstepped, hthread'⟩, -⟩
    · exact hown thread hthread hmember
    · rw [hthread] at hstepped
      cases hstepped
      exact hown thread hthread hthread'

theorem Guarded.run (h : Guarded g w) (actions : List Action) (hown : w.EntersOwn g actions) :
    Guarded g (w.run actions) := by
  induction actions generalizing w with
  | nil => exact h
  | cons a rest ih => exact ih (h.act a hown.1) hown.2

/-- A frame that is about to enter a closure with an owner pushes a body that runs as that
owner. -/
theorem Guarded.enters (h : Guarded g w) {thread : ThreadId} (hmember : w.family thread = true)
    {f f' child : Frame} {o : Object} {m₁ m₂ : Machine}
    (hpop : popFrame thread w.machine = .ok (some f) m₁) (ho : w.machine.entered? f = some o)
    (hpush : dispatch natives thread f m₁ = .ok (.push f' child) m₂) :
    m₂.ActsAs f'.scope (some g) ∧ m₂.ActsAs child.scope (o.owner.or (some g)) := by
  cases hthread : w.machine.thread? thread with
  | none =>
    unfold popFrame at hpop
    rw [bind_run, get_run] at hpop
    simp [hthread, throw_run] at hpop
  | some t =>
    obtain ⟨hmem, hid⟩ := mem_threads_of_thread? hthread
    rw [popFrame_run hthread] at hpop
    cases htop : t.stack.top? with
    | none => simp [htop] at hpop
    | some top =>
      simp only [htop, EStateM.Result.ok.injEq, Option.some.injEq] at hpop
      obtain ⟨rfl, hm₁⟩ := hpop
      have hheap : m₁.heap = w.machine.heap := by rw [← hm₁]
      have hacts : m₁.ActsAs top.scope (some g) := by
        unfold ActsAs
        rw [hheap]
        exact h.confined.acts t hmem (hid ▸ hmember) top (List.mem_of_head? htop)
      have hentered : m₁.entered? top = some o := by
        unfold entered? at ho ⊢
        rw [hheap]
        exact ho
      have hleaves :=
        (takes_dispatch (hheap ▸ h.confined.tidy.holds) (fun _ _ hold => hold) hacts
          thread).leaves _ _ hpush
      rw [hentered] at hleaves
      exact hleaves

end Watch

/-- Under the policy that lets only owners change what they own, a thread that acts as a guest, and
every thread that it or one of those starts, goes on acting as the guest as long as the closures they
enter are owned by the guest or by nobody. A closure that is owned by another is entered as that
other, and there is no other way out. -/
theorem Machine.Reached.acts_as_guest {m : Machine} (h : Reached m)
    (hpolicy : m.policy = .ownerOnly) {g : Owner} (hguest : g ≠ m.rootOwner) {thread : ThreadId}
    (hthread : ∃ t ∈ m.threads, t.id = thread)
    (hacts : ∀ t ∈ m.threads, t.id = thread → ∀ f ∈ t.stack.frames, m.ActsAs f.scope (some g))
    (actions : List Action) (hown : (Watch.ofThread m thread).EntersOwn g actions) :
    let w := (Watch.ofThread m thread).run actions
    (∀ t ∈ w.machine.threads, w.family t.id = true →
      ∀ f ∈ t.stack.frames, w.machine.ActsAs f.scope (some g)) ∧
    ∀ member f o f' child m₁ m₂, w.family member = true →
      popFrame member w.machine = .ok (some f) m₁ → w.machine.entered? f = some o →
      dispatch natives member f m₁ = .ok (.push f' child) m₂ →
      m₂.ActsAs child.scope (o.owner.or (some g)) := by
  have hordered := h.ordered
  have hfamily : ∀ id, (Watch.ofThread m thread).family id = true → id = thread :=
    fun id hid => beq_iff_eq.1 hid
  have hstart : Watch.Guarded g (Watch.ofThread m thread) := by
    refine ⟨⟨hordered, Nat.le_refl _, fun _ => ⟨hpolicy, hguest⟩, fun t ht hmember => ?_⟩, ?_⟩
    · exact hacts t ht (hfamily t.id hmember)
    · intro id hid
      obtain ⟨t, ht, rfl⟩ := hthread
      rw [hfamily id hid]
      exact hordered.issued t ht
  have hguarded := hstart.run actions hown
  constructor
  · exact hguarded.confined.acts
  · intro member f o f' child m₁ m₂ hmember hpop ho hpush
    exact (hguarded.enters hmember hpop ho hpush).2

namespace Machine

/-- The machine after some steps of its first thread. -/
def later (m : Machine) (steps : Nat) : Machine :=
  (List.replicate steps (.step ⟨1⟩)).foldl Action.apply m

/-- A machine on which only owners may change what they own, some steps after a program was
started. -/
def trial (source : String) (steps : Nat) : Option Machine :=
  (create { ownerPolicy := true } {}).toOption.map fun m =>
    (Action.apply m (.spawn source)).later steps

theorem reaches_foldl {m m' : Machine} (actions : List Action) (h : Reaches m m') :
    Reaches m (actions.foldl Action.apply m') := by
  induction actions generalizing m' with
  | nil => exact h
  | cons a rest ih => exact ih (h.act a)

theorem reached_of_trial {source : String} {steps : Nat} {m : Machine}
    (h : trial source steps = some m) : Reached m := by
  unfold trial at h
  cases hcreate : create { ownerPolicy := true } {} with
  | error e =>
    rw [hcreate] at h
    cases h
  | ok m₀ =>
    rw [hcreate] at h
    cases h
    exact ⟨_, _, m₀, hcreate, reaches_foldl _ (Reaches.refl.act _)⟩

/-- The policy stays the one that the machine was made with: no thread bears the number zero, and so
a family of that number alone is confined whatever happens. -/
theorem policy_of_trial {source : String} {steps : Nat} {m : Machine}
    (h : trial source steps = some m) : m.policy = .ownerOnly := by
  unfold trial at h
  cases hcreate : create { ownerPolicy := true } {} with
  | error e =>
    rw [hcreate] at h
    cases h
  | ok m₀ =>
    rw [hcreate] at h
    cases h
    obtain ⟨hpolicy, hnext⟩ := unstarted_of_create hcreate
    let g : Owner := ⟨m₀.rootOwner.index + 1⟩
    have hact {m : Machine} (hm : Confined (·.index = 0) g 1 m) {a : Action}
        (ha : ∀ thread, a.stepped? = some thread → thread.index ≠ 0) :
        Confined (·.index = 0) g 1 (a.apply m) := by
      refine hm.act a (fun id hid hzero => ?_) fun thread hthread hzero =>
        absurd hzero (ha thread hthread)
      have := hm.floor
      omega
    have hstart : Confined (·.index = 0) g 1 m₀ :=
      { Reached.ordered ⟨_, _, m₀, hcreate, .refl⟩ with
        floor := Nat.le_of_eq hnext.symm
        guest := fun _ => ⟨hpolicy, fun heq => Nat.succ_ne_self _ (congrArg ObjectId.index heq)⟩
        acts := fun t ht => by
          rw [(vacant_of_create hcreate).threads] at ht
          cases ht }
    have hsteps {m : Machine} (hm : Confined (·.index = 0) g 1 m) :
        Confined (·.index = 0) g 1 (m.later steps) := by
      unfold later
      induction steps generalizing m with
      | zero => exact hm
      | succ steps ih =>
        refine ih (hact (a := .step ⟨1⟩) hm ?_)
        rintro thread ⟨⟩
        decide
    exact ((hsteps (hact hstart (a := .spawn source) nofun)).guest ⟨⟨0⟩, rfl⟩).1

set_option maxRecDepth 100000 in
/-- A guest enters a closure of its own. -/
theorem acts_as_guest_in_its_own_closure :
    ∃ m, trial "setPerms({}); (function () {})();" 9 = some m ∧
      let w := (Watch.ofThread m ⟨1⟩).run (List.replicate 8 (.step ⟨1⟩))
      ∀ t ∈ w.machine.threads, w.family t.id = true →
        ∀ f ∈ t.stack.frames, w.machine.ActsAs f.scope (some ⟨103⟩) := by
  have hchecks : (trial "setPerms({}); (function () {})();" 9).any (fun m => decide
      ((⟨103⟩ : Owner) ≠ m.rootOwner ∧ (∃ t ∈ m.threads, t.id = ⟨1⟩) ∧
        (∀ t ∈ m.threads, t.id = ⟨1⟩ → ∀ f ∈ t.stack.frames, m.ActsAs f.scope (some ⟨103⟩)) ∧
        (Watch.ofThread m ⟨1⟩).EntersOwn ⟨103⟩ (List.replicate 8 (.step ⟨1⟩)))) = true := by
    decide +kernel
  obtain ⟨m, hm, hchecks⟩ := (Option.any_eq_true _ _).1 hchecks
  obtain ⟨hroot, hthread, hacts, hown⟩ := of_decide_eq_true hchecks
  exact ⟨m, hm, ((reached_of_trial hm).acts_as_guest (policy_of_trial hm) hroot hthread hacts _
    hown).1⟩

/-- Whether there is a function made by a program. -/
def hasClosure (m : Machine) : Bool :=
  m.heap.objects.any fun o =>
    match o.bind (·.function) with
    | some (.closure _ _) => true
    | _ => false

/-- Every frame of every thread acts as one owner. -/
def ActsOnlyAs (m : Machine) (g : Owner) : Prop :=
  ∀ t ∈ m.threads, ∀ f ∈ t.stack.frames, m.ActsAs f.scope (some g)

instance (m : Machine) (g : Owner) : Decidable (m.ActsOnlyAs g) :=
  inferInstanceAs (Decidable (∀ t ∈ m.threads, ∀ f ∈ t.stack.frames, m.ActsAs f.scope (some g)))

set_option maxRecDepth 100000 in
/-- A guest makes the only closure there is, gives it to the root owner, enters it, and acts as the
root owner there. -/
theorem guest_acts_as_root :
    ∃ m, trial ("setPerms({}); var f = function () {}; " ++
        "Object.setOwnerOf(f, Object.getOwnerOf(Object)); f();") 9 = some m ∧
      (m.policy = .ownerOnly ∧ (⟨103⟩ : Owner) ≠ m.rootOwner ∧ m.hasClosure = false) ∧
      (∀ n : Fin 36, (m.later n).ActsOnlyAs ⟨103⟩) ∧
      ∃ t ∈ (m.later 36).threads, ∃ f ∈ t.stack.frames,
        (m.later 36).ActsAs f.scope (some m.rootOwner) := by
  have hchecks : (trial ("setPerms({}); var f = function () {}; " ++
      "Object.setOwnerOf(f, Object.getOwnerOf(Object)); f();") 9).any (fun m =>
        decide ((⟨103⟩ : Owner) ≠ m.rootOwner ∧ m.hasClosure = false) &&
        decide (∀ n : Fin 36, (m.later n).ActsOnlyAs ⟨103⟩) &&
        decide (∃ t ∈ (m.later 36).threads, ∃ f ∈ t.stack.frames,
          (m.later 36).ActsAs f.scope (some m.rootOwner))) = true := by
    decide +kernel
  obtain ⟨m, hm, hchecks⟩ := (Option.any_eq_true _ _).1 hchecks
  simp only [Bool.and_eq_true, decide_eq_true_eq] at hchecks
  exact ⟨m, hm, ⟨policy_of_trial hm, hchecks.1.1⟩, hchecks.1.2, hchecks.2⟩

end Machine

end ScriptMachine
