import ScriptMachine.Proofs.Collection

/-!
# What marking reaches

A handle is marked exactly when the roots and the pins lead to it. A sweep then leaves in use what
was in use and marked.
-/

namespace ScriptMachine

/-! ## Handles in use -/

namespace Heap

/-- The handle names a slot in use. -/
def InUse (h : Heap) : Handle → Prop
  | .object id => h.object? id ≠ none
  | .scope id => h.scope? id ≠ none
  | .program id => h.program? id ≠ none

theorem lt_size_of_object? {h : Heap} {id : ObjectId} (hid : h.object? id ≠ none) :
    id.index < h.objects.size := by
  obtain ⟨o, ho⟩ := Option.ne_none_iff_exists'.1 hid
  exact (Array.getElem?_eq_some_iff.1 (object?_eq_some_iff.1 ho)).1

theorem lt_size_of_scope? {h : Heap} {id : ScopeId} (hid : h.scope? id ≠ none) :
    id.index < h.scopes.size := by
  obtain ⟨s, hs⟩ := Option.ne_none_iff_exists'.1 hid
  exact (Array.getElem?_eq_some_iff.1 (scope?_eq_some_iff.1 hs)).1

/-! ## What a sweep leaves -/

variable {h : Heap} {roots : Roots}

/-- There is one mark for each slot. -/
theorem fits_reached (h : Heap) (roots : Roots) : (h.reached roots).Fits h := by
  have htrace (fuel : Nat) (m : Marker) (hm : m.Fits h) : (Marker.trace h fuel m).Fits h := by
    induction fuel generalizing m with
    | zero => exact hm
    | succ fuel ih =>
      rcases Marker.trace_cases h fuel m with ⟨x, n, htrace, hn, -⟩ | ⟨htrace, -⟩
      · rw [htrace]
        exact ih _ ((Marker.mark_spec (hn hm) (h.held x)).1.fits (hn hm))
      · rw [htrace]
        exact hm
  unfold reached
  refine htrace _ _ ?_
  have hstart : Marker.Fits ⟨Array.replicate h.objects.size false,
      Array.replicate h.scopes.size false, Array.replicate h.programs.size false, [], []⟩ h :=
    ⟨by simp, by simp, by simp⟩
  have hroots := (Marker.mark_spec hstart roots).1.fits hstart
  exact (Marker.mark_spec hroots { objects := h.pins }).1.fits hroots

/-- A slot that a sweep leaves in use is marked. -/
theorem marked_of_sweep {α : Type} {arena : Array (Option α)} {free : List Nat}
    (htidy : TidyArena arena free) {marked : Array Bool} (hsize : marked.size = arena.size)
    {i : Nat} {a : α} (ha : (sweep arena marked free).1[i]? = some (some a)) :
    marked[i]? = some true ∧ arena[i]? = some (some a) := by
  obtain ⟨-, hswept, hkept⟩ : _ ∧ (∀ i, Swept arena marked i → _) ∧ _ := sweep_spec htidy
  have hnot : ¬ Swept arena marked i := fun h => by
    rw [hswept i h] at ha
    cases ha
  have harena := (hkept i hnot).symm.trans ha
  have hlt : i < marked.size := hsize ▸ (Array.getElem?_eq_some_iff.1 harena).1
  refine ⟨?_, harena⟩
  rw [Array.getElem?_eq_getElem hlt]
  cases hmark : marked[i] with
  | true => rfl
  | false => exact absurd ⟨⟨a, harena⟩, by rw [Array.getElem?_eq_getElem hlt, hmark]⟩ hnot

theorem Tidy.marks_of_object? (ht : h.Tidy) {id : ObjectId} {o : Object}
    (ho : (h.collect roots).2.object? id = some o) :
    (h.reached roots).Marks (.object id) ∧ h.object? id = some o := by
  obtain ⟨hmarked, harena⟩ := marked_of_sweep ht.objects (fits_reached h roots).objects
    (object?_eq_some_iff.1 ho)
  exact ⟨hmarked, object?_eq_some_iff.2 harena⟩

theorem Tidy.marks_of_scope? (ht : h.Tidy) {id : ScopeId} {s : Scope}
    (hs : (h.collect roots).2.scope? id = some s) :
    (h.reached roots).Marks (.scope id) ∧ h.scope? id = some s := by
  obtain ⟨hmarked, harena⟩ := marked_of_sweep ht.scopes (fits_reached h roots).scopes
    (scope?_eq_some_iff.1 hs)
  exact ⟨hmarked, scope?_eq_some_iff.2 harena⟩

theorem marks_of_program? {id : ProgramId} {t : Tree.Program}
    (ht : (h.collect roots).2.program? id = some t) :
    (h.reached roots).Marks (.program id) ∧ h.program? id = some t := by
  simp only [collect, program?, Array.getElem?_mapIdx] at ht
  cases hslot : h.programs[id.index]? with
  | none =>
    rw [hslot] at ht
    cases ht
  | some slot =>
    rw [hslot] at ht
    dsimp only [Option.map_some, Option.join_some] at ht
    split at ht
    · rename_i hmarked
      exact ⟨eq_of_beq hmarked, by rw [program?, hslot]; exact ht⟩
    · cases ht

/-! ## What roots lead to -/

variable {h : Heap} {roots : Roots}

/-- What roots name and what is held in the slots of what they lead to. -/
inductive Traced (h : Heap) (roots : Roots) : Handle → Prop
  | root {x : Handle} (hx : roots.Holds x) : Traced h roots x
  | held {x y : Handle} (hx : Traced h roots x) (hy : (h.held x).Holds y) : Traced h roots y

theorem held_object {id : ObjectId} {o : Object} (ho : h.object? id = some o) :
    h.held (.object id) = o.roots := by
  simp only [held, ho]

theorem held_scope {id : ScopeId} {s : Scope} (hs : h.scope? id = some s) :
    h.held (.scope id) = s.roots := by
  simp only [held, hs]

/-- A slot that holds anything is there. -/
theorem inRange_of_held {x y : Handle} (hy : (h.held x).Holds y) : h.InRange x := by
  cases x with
  | object id =>
    refine lt_size_of_object? fun hnone => ?_
    simp [held, hnone] at hy
  | scope id =>
    refine lt_size_of_scope? fun hnone => ?_
    simp [held, hnone] at hy
  | program id => simp [held] at hy

/-- Marking reaches what the roots lead to. -/
theorem Traced.marks {x : Handle} (hx : h.Traced roots x) (hrange : h.InRange x) :
    (h.reached roots).Marks x := by
  obtain ⟨hroots, -, hheld⟩ := reached_spec h roots
  induction hx with
  | root hx => exact hroots _ hx hrange
  | @held x y _ hy ih => exact hheld x (ih (inRange_of_held hy)) y hy hrange

theorem inRange_object {id : ObjectId} {o : Object} (ho : h.object? id = some o) :
    h.InRange (.object id) :=
  lt_size_of_object? (by simp [ho])

theorem inRange_scope {id : ScopeId} {s : Scope} (hs : h.scope? id = some s) :
    h.InRange (.scope id) :=
  lt_size_of_scope? (by simp [hs])

theorem inRange_program {id : ProgramId} {t : Tree.Program} (ht : h.program? id = some t) :
    h.InRange (.program id) := by
  obtain ⟨slot, hslot, -⟩ := Option.bind_eq_some_iff.1 ht
  exact (Array.getElem?_eq_some_iff.1 hslot).1

end Heap

/-! ## Nothing else is marked -/

namespace Marker

theorem trace_of_object (h : Heap) (fuel : Nat) {m : Marker} {id : ObjectId}
    {rest : List ObjectId} (hm : m.pendingObjects = id :: rest) :
    trace h (fuel + 1) m =
      trace h fuel (mark { m with pendingObjects := rest } (h.held (.object id))) := by
  simp only [trace.eq_2, hm, Heap.held]
  cases h.object? id <;> rfl

theorem trace_of_scope (h : Heap) (fuel : Nat) {m : Marker} {id : ScopeId} {rest : List ScopeId}
    (hobjects : m.pendingObjects = []) (hscopes : m.pendingScopes = id :: rest) :
    trace h (fuel + 1) m =
      trace h fuel (mark { m with pendingScopes := rest } (h.held (.scope id))) := by
  simp only [trace.eq_2, hobjects, hscopes, Heap.held]
  cases h.scope? id <;> rfl

/-- Whatever is marked or waits to be followed has a property. -/
structure Stays (m : Marker) (P : Handle → Prop) : Prop where
  marks : ∀ x, m.Marks x → P x
  pending : ∀ x, m.Pending x → P x

namespace Stays

variable {m : Marker} {P : Handle → Prop}

theorem markObject (hm : m.Stays P) {id : ObjectId} (hid : P (.object id)) :
    (m.markObject id).Stays P := by
  unfold Marker.markObject
  split
  · refine ⟨fun x hx => ?_, fun x hx => ?_⟩
    · cases x with
      | object other =>
        rcases true_of_setIfInBounds_true hx with hold | hindex
        · exact hm.marks _ hold
        · cases id; cases other; cases hindex
          exact hid
      | scope other => exact hm.marks _ hx
      | program other => exact hm.marks _ hx
    · cases x with
      | object other =>
        rcases List.mem_cons.1 hx with rfl | hold
        · exact hid
        · exact hm.pending _ hold
      | scope other => exact hm.pending _ hx
      | program other => exact hx.elim
  · exact hm

theorem markScope (hm : m.Stays P) {id : ScopeId} (hid : P (.scope id)) :
    (m.markScope id).Stays P := by
  unfold Marker.markScope
  split
  · refine ⟨fun x hx => ?_, fun x hx => ?_⟩
    · cases x with
      | object other => exact hm.marks _ hx
      | scope other =>
        rcases true_of_setIfInBounds_true hx with hold | hindex
        · exact hm.marks _ hold
        · cases id; cases other; cases hindex
          exact hid
      | program other => exact hm.marks _ hx
    · cases x with
      | object other => exact hm.pending _ hx
      | scope other =>
        rcases List.mem_cons.1 hx with rfl | hold
        · exact hid
        · exact hm.pending _ hold
      | program other => exact hx.elim
  · exact hm

theorem markProgram (hm : m.Stays P) {id : ProgramId} (hid : P (.program id)) :
    (m.markProgram id).Stays P := by
  refine ⟨fun x hx => ?_, fun x hx => hm.pending x hx⟩
  cases x with
  | program other =>
    rcases true_of_setIfInBounds_true hx with hold | hindex
    · exact hm.marks _ hold
    · cases id; cases other; cases hindex
      exact hid
  | object other => exact hm.marks _ hx
  | scope other => exact hm.marks _ hx

theorem foldl {α : Type} {f : Marker → α → Marker} (handle : α → Handle)
    (hf : ∀ (m : Marker) a, m.Stays P → P (handle a) → (f m a).Stays P) (hm : m.Stays P)
    (items : List α) (hitems : ∀ a ∈ items, P (handle a)) : (items.foldl f m).Stays P := by
  induction items generalizing m with
  | nil => exact hm
  | cons a rest ih =>
    exact ih (hf m a hm (hitems a List.mem_cons_self))
      fun b hb => hitems b (List.mem_cons_of_mem a hb)

theorem mark (hm : m.Stays P) {r : Roots} (hr : ∀ x, r.Holds x → P x) : (m.mark r).Stays P := by
  have hobjects : (r.objects.foldl Marker.markObject m).Stays P :=
    hm.foldl .object (fun _ _ h hid => h.markObject hid) _ fun id hid => hr (.object id) hid
  have hscopes := hobjects.foldl .scope (fun _ _ h hid => markScope h hid) r.scopes
    fun id hid => hr (.scope id) hid
  exact hscopes.foldl .program (fun _ _ h hid => markProgram h hid) r.programs
    fun id hid => hr (.program id) hid

/-- Following what is held in the slots of what has the property stays with the property. -/
theorem trace {h : Heap} (hP : ∀ x y, P x → (h.held x).Holds y → P y) (fuel : Nat)
    (hm : m.Stays P) : (Marker.trace h fuel m).Stays P := by
  induction fuel generalizing m with
  | zero => exact hm
  | succ fuel ih =>
    cases hobjects : m.pendingObjects with
    | cons id rest =>
      have hid : P (.object id) :=
        hm.pending _ (show id ∈ m.pendingObjects from hobjects ▸ List.mem_cons_self)
      have hrest : Stays { m with pendingObjects := rest } P := by
        refine ⟨fun x hx => hm.marks x (by cases x <;> exact hx), fun x hx => hm.pending x ?_⟩
        cases x with
        | object other =>
          exact (show other ∈ m.pendingObjects from hobjects ▸ List.mem_cons_of_mem _ hx)
        | scope other => exact hx
        | program other => exact hx
      rw [trace_of_object h fuel hobjects]
      exact ih (hrest.mark fun y hy => hP _ y hid hy)
    | nil =>
      cases hscopes : m.pendingScopes with
      | cons id rest =>
        have hid : P (.scope id) :=
          hm.pending _ (show id ∈ m.pendingScopes from hscopes ▸ List.mem_cons_self)
        have hrest : Stays { m with pendingScopes := rest } P := by
          refine ⟨fun x hx => hm.marks x (by cases x <;> exact hx),
            fun x hx => hm.pending x ?_⟩
          cases x with
          | object other => exact hx
          | scope other =>
            exact (show other ∈ m.pendingScopes from hscopes ▸ List.mem_cons_of_mem _ hx)
          | program other => exact hx
        rw [trace_of_scope h fuel hobjects hscopes]
        exact ih (hrest.mark fun y hy => hP _ y hid hy)
      | nil =>
        simp only [Marker.trace.eq_2, hobjects, hscopes]
        exact hm

end Stays

end Marker

namespace Heap

variable {h : Heap} {roots : Roots}

/-- What is marked is what the roots and the pins lead to. -/
theorem marks_iff_traced {x : Handle} (hrange : h.InRange x) :
    (h.reached roots).Marks x ↔ h.Traced (roots ++ { objects := h.pins }) x := by
  refine ⟨fun hx => ?_, fun hx => ?_⟩
  · let start : Marker :=
      ⟨Array.replicate h.objects.size false, Array.replicate h.scopes.size false,
       Array.replicate h.programs.size false, [], []⟩
    have hblank : start.Stays (h.Traced (roots ++ { objects := h.pins })) := by
      refine ⟨fun y hy => ?_, fun y hy => ?_⟩
      · cases y <;> simp [Marker.Marks, start, Array.getElem?_replicate] at hy
      · cases y <;> simp [Marker.Pending, start] at hy
    have hroots := hblank.mark (r := roots) fun y hy => .root ((Roots.holds_append _ _ y).2 (.inl hy))
    have hpins := hroots.mark (r := { objects := h.pins })
      fun y hy => .root ((Roots.holds_append _ _ y).2 (.inr hy))
    exact (hpins.trace (fun _ _ hy hz => hy.held hz) (h.objects.size + h.scopes.size + 1)).marks x hx
  · obtain ⟨hroots, hpins, hheld⟩ := reached_spec h roots
    induction hx with
    | @root x hx =>
      rcases (Roots.holds_append _ _ x).1 hx with hx | hx
      · exact hroots x hx hrange
      · cases x with
        | object id => exact hpins id hx hrange
        | scope id => cases hx
        | program id => cases hx
    | @held x y _ hy ih => exact hheld x (ih (inRange_of_held hy)) y hy hrange

/-- What was in use stays in use exactly when it is marked. -/
theorem Tidy.inUse_collect_iff (ht : h.Tidy) {x : Handle} (hx : h.InUse x) :
    (h.collect roots).2.InUse x ↔ (h.reached roots).Marks x := by
  cases x with
  | object id =>
    refine ⟨fun hkept => ?_,
      fun hmarked hnone => hx ((ht.object?_collect hmarked).symm.trans hnone)⟩
    obtain ⟨o, ho⟩ := Option.ne_none_iff_exists'.1 hkept
    exact (ht.marks_of_object? ho).1
  | scope id =>
    refine ⟨fun hkept => ?_,
      fun hmarked hnone => hx ((ht.scope?_collect hmarked).symm.trans hnone)⟩
    obtain ⟨s, hs⟩ := Option.ne_none_iff_exists'.1 hkept
    exact (ht.marks_of_scope? hs).1
  | program id =>
    refine ⟨fun hkept => ?_,
      fun hmarked hnone => hx ((program?_collect hmarked).symm.trans hnone)⟩
    obtain ⟨t, ht⟩ := Option.ne_none_iff_exists'.1 hkept
    exact (marks_of_program? ht).1

theorem inRange_of_inUse {x : Handle} (hx : h.InUse x) : h.InRange x := by
  cases x with
  | object id => exact lt_size_of_object? hx
  | scope id => exact lt_size_of_scope? hx
  | program id =>
    obtain ⟨t, ht⟩ := Option.ne_none_iff_exists'.1 hx
    exact inRange_program ht

end Heap

end ScriptMachine
