import ScriptMachine.Proofs.Pairing.Roots

/-!
# Collections on paired machines

What a machine can still reach has a counterpart that the other machine can reach, so a collection
on either of them leaves both paired in what can be reached.
-/

namespace ScriptMachine

/-! ## What roots lead to -/

namespace Pairing

open Machine Exec

variable {p : Pairing} {h h' : Heap}

/-- The counterparts of what the roots lead to are what their counterparts lead to. -/
theorem Heaps.traced (hp : p.Heaps h h') {roots : Roots} (hroots : Within p roots) {x : Handle}
    (hx : h.Traced roots x) : p.known x ∧ h'.Traced (image p roots) (p.handle x) := by
  induction hx with
  | root hx => exact ⟨within_roots_iff.1 hroots _ hx, .root (holds_image hx)⟩
  | @held x y _ hy ih =>
    obtain ⟨hknown, htraced⟩ := ih
    cases x with
    | object id =>
      obtain ⟨o, ho, ho', hw⟩ := hp.object id hknown
      rw [Heap.held_object ho] at hy
      refine ⟨within_roots_iff.1 ((within_rootsObject p o).2 hw) y hy, htraced.held ?_⟩
      rw [handle, Heap.held_object ho', roots_imageObject]
      exact holds_image hy
    | scope id =>
      obtain ⟨s, hs, hs', hw⟩ := hp.scope id hknown
      rw [Heap.held_scope hs] at hy
      refine ⟨within_roots_iff.1 ((within_rootsScope p s).2 hw) y hy, htraced.held ?_⟩
      rw [handle, Heap.held_scope hs', roots_imageScope]
      exact holds_image hy
    | program id => exact absurd hy (Roots.holds_empty y)

theorem Heaps.inRange (hp : p.Heaps h h') {x : Handle} (hx : p.known x) :
    h.InRange x ∧ h'.InRange (p.handle x) := by
  cases x with
  | object id =>
    obtain ⟨o, ho, ho', -⟩ := hp.object id hx
    exact ⟨Heap.inRange_object ho, Heap.inRange_object ho'⟩
  | scope id =>
    obtain ⟨s, hs, hs', -⟩ := hp.scope id hx
    exact ⟨Heap.inRange_scope hs, Heap.inRange_scope hs'⟩
  | program id =>
    obtain ⟨t, ht, ht', -⟩ := hp.program id hx
    exact ⟨Heap.inRange_program ht, Heap.inRange_program ht'⟩

end Pairing

/-! ## Collecting on either side -/

namespace Machine

/-- The machine without the threads that have ended and that nobody waits for. -/
def kept (m : Machine) : Machine :=
  { m with threads := m.threads.filter fun t => !t.isZombie || t.keepOutcome }

/-- The machine after a collection, if there is one. -/
def collectIf (collects : Bool) (m : Machine) : Machine :=
  if collects then Exec.after collectGarbage m else m

variable (m : Machine)

/-- A collection changes the heap and the table of threads. -/
theorem collectIf_eq (collects : Bool) : m.collectIf collects =
    { m with
      heap := (m.collectIf collects).heap
      threads := (m.collectIf collects).threads } := by
  cases collects <;> rfl

variable {m}

/-- A slot that is marked when there is a collection stays as it is. -/
theorem object?_collectIf (ht : m.heap.Tidy) {collects : Bool} {id : ObjectId}
    (hid : collects → (m.heap.reached m.kept.roots).Marks (.object id)) :
    (m.collectIf collects).heap.object? id = m.heap.object? id := by
  cases collects with
  | false => rfl
  | true => exact ht.object?_collect (hid rfl)

theorem scope?_collectIf (ht : m.heap.Tidy) {collects : Bool} {id : ScopeId}
    (hid : collects → (m.heap.reached m.kept.roots).Marks (.scope id)) :
    (m.collectIf collects).heap.scope? id = m.heap.scope? id := by
  cases collects with
  | false => rfl
  | true => exact ht.scope?_collect (hid rfl)

theorem program?_collectIf {collects : Bool} {id : ProgramId}
    (hid : collects → (m.heap.reached m.kept.roots).Marks (.program id)) :
    (m.collectIf collects).heap.program? id = m.heap.program? id := by
  cases collects with
  | false => rfl
  | true => exact Heap.program?_collect (hid rfl)

theorem tidy_collectIf (ht : m.heap.Tidy) (collects : Bool) :
    (m.collectIf collects).heap.Tidy := by
  cases collects with
  | false => exact ht
  | true => exact ht.collect _

theorem threads_collectIf (collects : Bool) :
    (m.collectIf collects).threads.Sublist m.threads := by
  cases collects with
  | false => exact .refl _
  | true => exact List.filter_sublist

end Machine

namespace Pairing

open Machine Exec

variable {p : Pairing} {m m' : Machine}

/-- Between two steps the threads that are shown are those that a collection keeps. -/
theorem kept_threads (hrests : p.actor = none) (m : Machine) :
    m.kept.threads = m.threads.filter p.shows := by
  refine List.filter_congr fun t _ => ?_
  simp [shows, hrests]

theorem shown_collectIf (hrests : p.actor = none) (m : Machine) (collects : Bool) :
    (m.collectIf collects).threads.filter p.shows = m.threads.filter p.shows := by
  cases collects with
  | false => rfl
  | true =>
    change m.kept.threads.filter p.shows = _
    rw [kept_threads hrests, List.filter_filter]
    simp

/-- The roots of a machine are known, and their counterparts are roots of the other one. -/
theorem Machines.roots (hm : p.Machines m m') (hrests : p.actor = none) :
    Within p m.kept.roots ∧ m'.kept.roots = image p m.kept.roots := by
  have hthreads : p.Pairs m.kept.threads m'.kept.threads := by
    rw [kept_threads hrests, kept_threads hrests]
    exact hm.threads
  exact ⟨(within_rootsMachine p m.kept).2 ⟨hm.rootOwner.within, hm.globalScope.within,
      hm.builtins.within, hthreads.within⟩,
    roots_imageMachine p hm.globalScope.eq hm.rootOwner.eq hm.builtins.eq hthreads.eq⟩

/-! ## What stays known -/

/-- What is known after a collection, if there is one. Where the machines are one it is whatever
was known and not swept. -/
def keeping (p : Pairing) (m : Machine) (collects : Bool) : Pairing :=
  { p with
    known := fun x => p.known x ∧ (m.heap.Traced m.kept.roots x ∨
      p.whole ∧ (collects → (m.heap.reached m.kept.roots).Marks x)) }

variable {collects collects' : Bool}

theorem extends_keeping (m : Machine) (collects : Bool) : p.Extends (p.keeping m collects) :=
  ⟨fun _ _ => rfl, fun _ _ => rfl, fun _ _ => rfl⟩

theorem shows_keeping (m : Machine) (collects : Bool) : (p.keeping m collects).shows = p.shows :=
  rfl

theorem handle_of_fixes (hfixes : p.Fixes) (x : Handle) : p.handle x = x := by
  cases x with
  | object id => exact congrArg Handle.object (hfixes.object id)
  | scope id => exact congrArg Handle.scope (hfixes.scope id)
  | program id => exact congrArg Handle.program (hfixes.program id)

section Keeping

variable (hm : p.Machines m m')

include hm

/-- What stays known is marked on both sides. -/
theorem Machines.marks (hrests : p.actor = none) (hsame : p.whole → collects' = collects)
    {x : Handle} (hx : (p.keeping m collects).known x) :
    (collects → (m.heap.reached m.kept.roots).Marks x) ∧
      (collects' → (m'.heap.reached m'.kept.roots).Marks (p.handle x)) := by
  obtain ⟨hknown, htraced | ⟨hwhole, hmarked⟩⟩ := hx
  · obtain ⟨hroots, hroots'⟩ := hm.roots hrests
    obtain ⟨hrange, hrange'⟩ := hm.heap.inRange hknown
    exact ⟨fun _ => htraced.marks hrange,
      fun _ => hroots' ▸ (hm.heap.traced hroots htraced).2.marks hrange'⟩
  · obtain rfl := hm.same hwhole
    rw [handle_of_fixes (hm.heap.same hwhole).1, hsame hwhole]
    exact ⟨hmarked, hmarked⟩

/-- What stays known holds only what stays known. -/
theorem Machines.held {x : Handle} (hx : (p.keeping m collects).known x)
    (hheld : Within p (m.heap.held x)) : Within (p.keeping m collects) (m.heap.held x) := by
  refine within_roots_iff.2 fun y hy => ⟨within_roots_iff.1 hheld y hy, ?_⟩
  obtain ⟨-, htraced | ⟨hwhole, hmarked⟩⟩ := hx
  · exact .inl (htraced.held hy)
  · have hrange := (hm.heap.inRange (within_roots_iff.1 hheld y hy)).1
    exact .inr ⟨hwhole, fun h => (Heap.reached_spec _ _).2.2 x (hmarked h) y hy hrange⟩

theorem Machines.within_object {id : ObjectId} {o : Object}
    (hid : Within (p.keeping m collects) id) (ho : m.heap.object? id = some o) :
    Within (p.keeping m collects) o := by
  obtain ⟨o', ho', -, hw⟩ := hm.heap.object id hid.1
  obtain rfl := Option.some.inj (ho.symm.trans ho')
  rw [← within_rootsObject, ← Heap.held_object ho]
  exact hm.held hid (Heap.held_object ho ▸ (within_rootsObject p o).2 hw)

theorem Machines.within_scope {id : ScopeId} {s : Scope}
    (hid : Within (p.keeping m collects) id) (hs : m.heap.scope? id = some s) :
    Within (p.keeping m collects) s := by
  obtain ⟨s', hs', -, hw⟩ := hm.heap.scope id hid.1
  obtain rfl := Option.some.inj (hs.symm.trans hs')
  rw [← within_rootsScope, ← Heap.held_scope hs]
  exact hm.held hid (Heap.held_scope hs ▸ (within_rootsScope p s).2 hw)

/-- Where the machines are one, what is in use after a collection stays known. -/
theorem Machines.covers_keeping (hwhole : p.whole) :
    (p.keeping m collects).Covers (m.collectIf collects).heap := by
  obtain ⟨hobjects, hscopes, hprograms⟩ := hm.heap.covers hwhole
  have htidy := hm.heap.tidy
  cases collects with
  | false =>
    exact ⟨fun id hid => ⟨hobjects id hid, .inr ⟨hwhole, fun h => by cases h⟩⟩,
      fun id hid => ⟨hscopes id hid, .inr ⟨hwhole, fun h => by cases h⟩⟩,
      fun id hid => ⟨hprograms id hid, .inr ⟨hwhole, fun h => by cases h⟩⟩⟩
  | true =>
    refine ⟨fun id hid => ?_, fun id hid => ?_, fun id hid => ?_⟩
    · obtain ⟨o, ho⟩ := Option.ne_none_iff_exists'.1 hid
      obtain ⟨hmarked, hused⟩ := htidy.marks_of_object? ho
      exact ⟨hobjects id (by simp [hused]), .inr ⟨hwhole, fun _ => hmarked⟩⟩
    · obtain ⟨s, hs⟩ := Option.ne_none_iff_exists'.1 hid
      obtain ⟨hmarked, hused⟩ := htidy.marks_of_scope? hs
      exact ⟨hscopes id (by simp [hused]), .inr ⟨hwhole, fun _ => hmarked⟩⟩
    · obtain ⟨t, ht⟩ := Option.ne_none_iff_exists'.1 hid
      obtain ⟨hmarked, hused⟩ := Heap.marks_of_program? ht
      exact ⟨hprograms id (by simp [hused]), .inr ⟨hwhole, fun _ => hmarked⟩⟩

/-- Machines that are paired between two steps stay paired when garbage is collected on either of
them, or on both if they are one. -/
theorem Machines.collected (hrests : p.actor = none) (hearly : m.earlySettlements = [])
    (hsame : p.whole → collects' = collects) :
    (p.keeping m collects).Machines (m.collectIf collects) (m'.collectIf collects') := by
  have hkeeps := @Machines.marks p m m' collects collects' hm hrests hsame
  have hroots : Within (p.keeping m collects) m.kept.roots := within_roots_iff.2 fun x hx =>
    ⟨within_roots_iff.1 (hm.roots hrests).1 x hx, .inl (.root hx)⟩
  obtain ⟨hroot, hglobal, hbuiltins, hthreads⟩ := (within_rootsMachine _ _).1 hroots
  have hext := extends_keeping (p := p) m collects
  have hheap : (p.keeping m collects).Heaps (m.collectIf collects).heap
      (m'.collectIf collects').heap := by
    refine hm.heap.narrow hext (fun _ h => h.1) (tidy_collectIf hm.heap.tidy _)
      (tidy_collectIf hm.heap.tidy' _) (fun id o hid ho => ?_) (fun id s hid hs => ?_)
      (fun id t hid ht => ?_) (fun hwhole => ?_) hm.covers_keeping
    · obtain ⟨hmarked, hmarked'⟩ := hkeeps hid
      exact ⟨(object?_collectIf hm.heap.tidy hmarked).trans ho,
        object?_collectIf hm.heap.tidy' hmarked', hm.within_object hid ho⟩
    · obtain ⟨hmarked, hmarked'⟩ := hkeeps hid
      exact ⟨(scope?_collectIf hm.heap.tidy hmarked).trans hs,
        scope?_collectIf hm.heap.tidy' hmarked', hm.within_scope hid hs⟩
    · obtain ⟨hmarked, hmarked'⟩ := hkeeps hid
      exact ⟨(program?_collectIf hmarked).trans ht, program?_collectIf hmarked'⟩
    · obtain ⟨hfixes, -⟩ := hm.heap.same hwhole
      exact ⟨⟨hfixes.object, hfixes.scope, hfixes.program⟩, by
        rw [hm.same hwhole, hsame hwhole]⟩
  rw [collectIf_eq m, collectIf_eq m']
  refine hm.narrow hext hheap hglobal hroot hbuiltins (hearly ▸ within_nil _) ?_
    (threads_collectIf _) (threads_collectIf _) hm.compares id fun hwhole => by
      rw [hm.same hwhole, hsame hwhole]
  rw [shows_keeping, shown_collectIf hrests, shown_collectIf hrests]
  exact hm.threads.narrow hext (kept_threads hrests m ▸ hthreads)

end Keeping

end Pairing

end ScriptMachine
