import ScriptMachine.Proofs.Pairing.Builtin
import ScriptMachine.Proofs.Pairing.Run

/-!
# Sound machines

A machine is sound when every handle in it names a slot in use and every chain of prototypes, of
bound functions and of scopes ends. Such a machine is paired with itself, each handle with itself,
so whatever follows itself leaves a sound machine and never meets a slot that is free.
-/

namespace ScriptMachine

open Machine Exec

/-! ## Handles in use -/

namespace Heap

/-- Every handle stands for itself, and the handles of slots in use are known. -/
def self (h : Heap) : Pairing where
  object := .refl _
  scope := .refl _
  program := .refl _
  known := h.InUse
  actor := none
  whole := True

/-- Every handle in the data names a slot in use. -/
def Live {α : Type} [Carried α] (h : Heap) (x : α) : Prop := Within h.self x

theorem fixes_self (h : Heap) (thread : Option ThreadId) : (h.self.acting thread).Fixes :=
  ⟨fun _ => rfl, fun _ => rfl, fun _ => rfl⟩

theorem pairs_self {α : Type} [Carried α] {h : Heap} {x : α} (hx : h.Live x)
    (thread : Option ThreadId) : (h.self.acting thread).Pairs x x :=
  ⟨Pairing.within_acting hx thread, (Carried.image_of_fixes (h.fixes_self thread)).symm⟩

end Heap

/-! ## Sound machines -/

/-- No handle names a free slot and no chain is endless, while a thread may be being stepped. -/
structure Machine.Sound (turn : Option ThreadId) (m : Machine) : Prop where
  tidy : m.heap.Tidy
  object : ∀ id o, m.heap.object? id = some o → m.heap.Live o
  scope : ∀ id s, m.heap.scope? id = some s → m.heap.Live s
  protos : ∀ id, m.heap.object? id ≠ none → ∃ n, Chain m.heap.protoLink n id
  targets : ∀ id, m.heap.object? id ≠ none → ∃ n, Chain m.heap.targetLink n id
  outers : ∀ id, m.heap.scope? id ≠ none → ∃ n, Chain m.heap.outerLink n id
  globalScope : m.heap.Live m.globalScope
  rootOwner : m.heap.Live m.rootOwner
  builtins : m.heap.Live m.builtins
  /-- Threads that have ended and that nobody waits for are garbage. -/
  threads : ∀ t ∈ m.threads, t.isZombie = false ∨ t.keepOutcome = true ∨ turn = some t.id →
    m.heap.Live t
  early : m.heap.Live m.earlySettlements
  sorted : Machine.Sorted m.threads m.nextThreadId

namespace Machine

variable {turn : Option ThreadId} {m m' : Machine} {p : Pairing}

theorem shows_iff {t : Thread} : p.shows t = true ↔
    t.isZombie = false ∨ t.keepOutcome = true ∨ p.actor = some t.id := by
  unfold Pairing.shows
  cases t.isZombie <;> cases t.keepOutcome <;> simp

/-- A sound machine is paired with itself. -/
theorem Sound.machines (h : m.Sound turn) : (m.heap.self.acting turn).Machines m m where
  same _ := rfl
  heap := by
    refine ⟨fun _ => ⟨m.heap.fixes_self turn, rfl⟩, h.tidy, h.tidy, fun id hid => ?_,
      fun id hid => ?_, fun id hid => ?_, h.protos, h.targets, h.outers, fun _ => ⟨?_, ?_, ?_⟩⟩
    · obtain ⟨o, ho⟩ := Option.ne_none_iff_exists'.1 hid
      obtain ⟨hw, heq⟩ := Heap.pairs_self (h.object id o ho) turn
      exact ⟨o, ho, heq ▸ ho, hw⟩
    · obtain ⟨s, hs⟩ := Option.ne_none_iff_exists'.1 hid
      obtain ⟨hw, heq⟩ := Heap.pairs_self (h.scope id s hs) turn
      exact ⟨s, hs, heq ▸ hs, hw⟩
    · obtain ⟨t, ht⟩ := Option.ne_none_iff_exists'.1 hid
      exact ⟨t, ht, ht, trivial⟩
    · exact fun _ hid => hid
    · exact fun _ hid => hid
    · exact fun _ hid => hid
  globalScope := Heap.pairs_self h.globalScope turn
  rootOwner := Heap.pairs_self h.rootOwner turn
  builtins := Heap.pairs_self h.builtins turn
  threads := by
    have hlive : m.heap.Live (m.threads.filter (m.heap.self.acting turn).shows) := fun t ht =>
      h.threads t (List.mem_of_mem_filter ht) (shows_iff.1 (List.mem_filter.1 ht).2)
    exact Heap.pairs_self hlive turn
  sorted := h.sorted
  sorted' := h.sorted
  early := Heap.pairs_self h.early turn
  compares := .inl trivial
  rest := rfl

/-- Where two paired machines are one, what is known is what is in use. -/
theorem known_iff (hm : p.Machines m m') (hwhole : p.whole) (x : Handle) :
    p.known x ↔ m.heap.InUse x := by
  obtain ⟨hobject, hscope, hprogram⟩ := hm.heap.covers hwhole
  cases x with
  | object id =>
    refine ⟨fun hid => ?_, hobject id⟩
    obtain ⟨o, ho, -⟩ := hm.heap.object id hid
    simp [Heap.InUse, ho]
  | scope id =>
    refine ⟨fun hid => ?_, hscope id⟩
    obtain ⟨s, hs, -⟩ := hm.heap.scope id hid
    simp [Heap.InUse, hs]
  | program id =>
    refine ⟨fun hid => ?_, hprogram id⟩
    obtain ⟨t, ht, -⟩ := hm.heap.program id hid
    simp [Heap.InUse, ht]

theorem live_of_within {α : Type} [Carried α] {x : α} (hm : p.Machines m m') (hwhole : p.whole)
    (hx : Within p x) : m.heap.Live x :=
  Carried.within_mono (fun y => (known_iff hm hwhole y).1) hx

/-- A machine that is paired with itself is sound. -/
theorem sound_of_machines (hm : p.Machines m m') (hwhole : p.whole) : m.Sound p.actor where
  tidy := hm.heap.tidy
  object id o ho := by
    obtain ⟨o', ho', -, hw⟩ := hm.heap.object id ((known_iff hm hwhole (.object id)).2 (by
      simp [Heap.InUse, ho]))
    obtain rfl := Option.some.inj (ho.symm.trans ho')
    exact live_of_within hm hwhole hw
  scope id s hs := by
    obtain ⟨s', hs', -, hw⟩ := hm.heap.scope id ((known_iff hm hwhole (.scope id)).2 (by
      simp [Heap.InUse, hs]))
    obtain rfl := Option.some.inj (hs.symm.trans hs')
    exact live_of_within hm hwhole hw
  protos id hid := hm.heap.protos id ((known_iff hm hwhole (.object id)).2 hid)
  targets id hid := hm.heap.targets id ((known_iff hm hwhole (.object id)).2 hid)
  outers id hid := hm.heap.outers id ((known_iff hm hwhole (.scope id)).2 hid)
  globalScope := live_of_within hm hwhole hm.globalScope.within
  rootOwner := live_of_within hm hwhole hm.rootOwner.within
  builtins := live_of_within hm hwhole hm.builtins.within
  threads t ht hshown :=
    live_of_within hm hwhole (hm.threads.within t (List.mem_filter.2 ⟨ht, shows_iff.2 hshown⟩))
  early := live_of_within hm hwhole hm.early.within
  sorted := hm.sorted

theorem Sound.host {g : Machine → Machine} (hg : HostOnly g) (h : m.Sound turn) :
    (g m).Sound turn :=
  sound_of_machines (h.machines.host hg) trivial

/-! ## Operations -/

/-- An operation leaves a sound machine, in which everything that was in use still is, and what it
gives or fails with names nothing that is free. -/
structure Minds {α : Type} [Carried α] (turn : Option ThreadId) (x : Exec α) (m : Machine) :
    Prop where
  sound : (after x m).Sound turn
  result : ∀ a n, x m = .ok a n → n.heap.Live a
  failure : ∀ e n, x m = .error e n → n.heap.Live e
  kept : ∀ y, m.heap.InUse y → (after x m).heap.InUse y

/-- What follows itself minds a sound machine. -/
theorem Sound.minds {α : Type} [Carried α] {x : Exec α} (h : m.Sound turn)
    (hx : (m.heap.self.acting turn).Follows x x) : Minds turn x m := by
  obtain ⟨q, hle, hagree⟩ := hx m m h.machines
  have hwhole : q.whole := hle.whole.2 trivial
  have hturn : q.actor = turn := hle.actor
  have hused {n n' : Machine} (hn : q.Machines n n') (y : Handle) (hy : m.heap.InUse y) :
      n.heap.InUse y := (known_iff hn hwhole y).1 (hle.known y hy)
  cases hrun : x m with
  | ok a n =>
    rw [hrun] at hagree
    have hafter := after_of_ok hrun
    refine ⟨?_, ?_, ?_, ?_⟩
    · exact hafter ▸ hturn ▸ sound_of_machines hagree.1 hwhole
    · rintro b k hb
      cases hrun.symm.trans hb
      exact live_of_within hagree.1 hwhole hagree.2.within
    · intro e k he
      cases hrun.symm.trans he
    · exact hafter ▸ hused hagree.1
  | error e n =>
    rw [hrun] at hagree
    have hafter := after_of_error hrun
    refine ⟨?_, ?_, ?_, ?_⟩
    · exact hafter ▸ hturn ▸ sound_of_machines hagree.1 hwhole
    · intro b k hb
      cases hrun.symm.trans hb
    · rintro d k hd
      cases hrun.symm.trans hd
      exact live_of_within hagree.1 hwhole hagree.2.within
    · exact hafter ▸ hused hagree.1

/-- What minds every sound machine follows itself where the machines are one. -/
theorem follows_of_minds {α : Type} [Carried α] {x : Exec α} (hwhole : p.whole)
    (hx : ∀ m m', p.Machines m m' → Minds p.actor x m) : p.Follows x x := by
  intro m m' hm
  obtain rfl := hm.same hwhole
  have hfixes := (hm.heap.same hwhole).1
  have hle {n : Machine} (hused : ∀ y, m'.heap.InUse y → n.heap.InUse y) :
      p ≤ n.heap.self.acting p.actor :=
    ⟨⟨fun id _ => (hfixes.object id).symm, fun id _ => (hfixes.scope id).symm,
      fun id _ => (hfixes.program id).symm⟩, fun y hy => hused y ((known_iff hm hwhole y).1 hy),
      rfl, ⟨fun _ => hwhole, fun _ => trivial⟩⟩
  obtain ⟨hsound, hresult, hfailure, hused⟩ := hx m' m' hm
  cases hrun : x m' with
  | ok a n =>
    rw [after_of_ok hrun] at hsound hused
    exact ⟨_, hle hused, hsound.machines, Heap.pairs_self (hresult a n hrun) p.actor⟩
  | error e n =>
    rw [after_of_error hrun] at hsound hused
    exact ⟨_, hle hused, hsound.machines, Heap.pairs_self (hfailure e n hrun) p.actor⟩

/-- A host function that is called with handles in use, while the machine is sound, leaves it sound
and answers with handles in use. -/
def Careful (code : NativeCode) : Prop :=
  ∀ c m, m.Sound (some c.thread) → m.heap.Live c → Minds (some c.thread) (code c) m

theorem obeyed_of_careful {natives : Natives} (h : natives.Each Careful) :
    Pairing.Obeyed True natives := by
  intro p hwhole q hle c c' hc hactor id construct code hcode
  have hwhole : q.whole := hle.whole.2 (hwhole.2 trivial)
  intro m m' hm
  obtain rfl : c' = c := hc.eq.trans (Carried.image_of_fixes (hm.heap.same hwhole).1)
  refine follows_of_minds hwhole (fun n n' hn => ?_) m m' hm
  have hsound := sound_of_machines hn hwhole
  rw [hactor] at hsound ⊢
  exact h.of_nativeCode hcode c' n hsound (live_of_within hn hwhole hc.within)

/-- A host function that answers alike on paired machines is careful. -/
theorem careful_of_carries {code : NativeCode} (h : Pairing.Carries code) : Careful code :=
  fun c _ hm hc => hm.minds (h (Heap.pairs_self hc (some c.thread)) rfl)

end Machine

namespace Builtin

theorem each_careful : natives.Each Machine.Careful :=
  each_carries.mono fun _ => Machine.careful_of_carries

end Builtin

end ScriptMachine
