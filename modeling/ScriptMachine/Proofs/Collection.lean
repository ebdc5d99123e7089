import ScriptMachine.Machine.Basic
import ScriptMachine.Proofs.Arena

/-!
# What a collection keeps

Marking reaches everything that the roots and the pins lead to: the fuel of the walk is enough,
because each slot is followed once. Sweeping keeps what is marked and leaves the arenas tidy.
-/

namespace ScriptMachine

/-- A handle of any kind. -/
inductive Handle where
  | object (id : ObjectId)
  | scope (id : ScopeId)
  | program (id : ProgramId)
  deriving DecidableEq

/-- A list of roots names a handle. -/
def Roots.Holds (r : Roots) : Handle → Prop
  | .object id => id ∈ r.objects
  | .scope id => id ∈ r.scopes
  | .program id => id ∈ r.programs

@[simp] theorem Roots.holds_append (a b : Roots) (x : Handle) :
    (a ++ b).Holds x ↔ a.Holds x ∨ b.Holds x := by
  cases x <;> exact List.mem_append

@[simp] theorem Roots.holds_empty (x : Handle) : ¬ Roots.Holds {} x := by
  cases x <;> exact List.not_mem_nil

theorem Roots.holds_foldr {α : Type} (r : α → Roots) (items : List α) (x : Handle) :
    (items.foldr (fun a acc => r a ++ acc) {}).Holds x ↔ ∃ a ∈ items, (r a).Holds x := by
  induction items with
  | nil => simp
  | cons a rest ih => simp [ih]

namespace Heap

/-- The handle names a slot of the heap, which may be free. -/
def InRange (h : Heap) : Handle → Prop
  | .object id => id.index < h.objects.size
  | .scope id => id.index < h.scopes.size
  | .program id => id.index < h.programs.size

/-- The handles in the slot of a handle. -/
def held (h : Heap) : Handle → Roots
  | .object id =>
    match h.object? id with
    | some o => o.roots
    | none => {}
  | .scope id =>
    match h.scope? id with
    | some s => s.roots
    | none => {}
  | .program _ => {}

end Heap

/-! ## Marking -/

namespace Marker

def Marks (m : Marker) : Handle → Prop
  | .object id => m.objects[id.index]? = some true
  | .scope id => m.scopes[id.index]? = some true
  | .program id => m.programs[id.index]? = some true

/-- The handle was reached and is still to be followed. -/
def Pending (m : Marker) : Handle → Prop
  | .object id => id ∈ m.pendingObjects
  | .scope id => id ∈ m.pendingScopes
  | .program _ => False

/-- There is one mark for each slot. -/
structure Fits (m : Marker) (h : Heap) : Prop where
  objects : m.objects.size = h.objects.size
  scopes : m.scopes.size = h.scopes.size
  programs : m.programs.size = h.programs.size

/-- What is left to do: slots that are not marked and slots that are not followed. -/
def work (m : Marker) : Nat :=
  m.objects.count false + m.scopes.count false + m.pendingObjects.length + m.pendingScopes.length

/-- More is marked, and what is newly marked is still to be followed. -/
structure Grows (m n : Marker) : Prop where
  marks : ∀ x, m.Marks x → n.Marks x
  fresh : ∀ x, n.Marks x → m.Marks x ∨ n.Pending x ∨ ∃ id, x = .program id
  pending : ∀ x, m.Pending x → n.Pending x
  work : n.work = m.work
  objects : n.objects.size = m.objects.size
  scopes : n.scopes.size = m.scopes.size
  programs : n.programs.size = m.programs.size

theorem Grows.refl (m : Marker) : m.Grows m :=
  ⟨fun _ h => h, fun _ h => .inl h, fun _ h => h, rfl, rfl, rfl, rfl⟩

theorem Grows.trans {m n o : Marker} (h : m.Grows n) (h' : n.Grows o) : m.Grows o := by
  refine ⟨fun x hx => h'.marks x (h.marks x hx), fun x hx => ?_,
    fun x hx => h'.pending x (h.pending x hx), h'.work.trans h.work, h'.objects.trans h.objects,
    h'.scopes.trans h.scopes, h'.programs.trans h.programs⟩
  rcases h'.fresh x hx with hn | hpending
  · rcases h.fresh x hn with hm | hpending | hprogram
    · exact .inl hm
    · exact .inr (.inl (h'.pending x hpending))
    · exact .inr (.inr hprogram)
  · exact .inr hpending

theorem Grows.fits {m n : Marker} {h : Heap} (hgrows : m.Grows n) (hm : m.Fits h) : n.Fits h :=
  ⟨hgrows.objects.trans hm.objects, hgrows.scopes.trans hm.scopes,
    hgrows.programs.trans hm.programs⟩

/-- Setting a mark takes one slot off those that are not marked. -/
theorem count_set_true {marks : Array Bool} {i : Nat} (h : marks[i]? = some false) :
    (marks.setIfInBounds i true).count false + 1 = marks.count false := by
  obtain ⟨hi, hget⟩ := Array.getElem?_eq_some_iff.1 h
  have hpos : 0 < marks.count false := Array.count_pos_iff.2 (hget ▸ Array.getElem_mem hi)
  rw [Array.setIfInBounds_def, dif_pos hi, Array.count_set]
  simp [hget]
  omega

theorem setIfInBounds_true_of_true {marks : Array Bool} {i j : Nat} (h : marks[j]? = some true) :
    (marks.setIfInBounds i true)[j]? = some true := by
  obtain ⟨hj, -⟩ := Array.getElem?_eq_some_iff.1 h
  rw [Array.getElem?_setIfInBounds]
  split
  · rename_i hij
    rw [if_pos (hij ▸ hj)]
  · exact h

theorem true_of_setIfInBounds_true {marks : Array Bool} {i j : Nat}
    (h : (marks.setIfInBounds i true)[j]? = some true) : marks[j]? = some true ∨ i = j := by
  rw [Array.getElem?_setIfInBounds] at h
  split at h
  · rename_i hij
    exact .inr hij
  · exact .inl h

theorem grows_markObject (m : Marker) (id : ObjectId) : m.Grows (m.markObject id) := by
  unfold markObject
  split
  · rename_i hfalse
    refine ⟨fun x hx => ?_, fun x hx => ?_, fun x hx => ?_, ?_, by simp, rfl, rfl⟩
    · cases x with
      | object other => exact setIfInBounds_true_of_true hx
      | scope other => exact hx
      | program other => exact hx
    · cases x with
      | object other =>
        rcases true_of_setIfInBounds_true hx with hm | hid
        · exact .inl hm
        · right; left
          cases id; cases other; cases hid
          exact List.mem_cons_self
      | scope other => exact .inl hx
      | program other => exact .inl hx
    · cases x with
      | object other => exact List.mem_cons_of_mem _ hx
      | scope other => exact hx
      | program other => exact hx
    · have := count_set_true hfalse
      simp only [work, List.length_cons]
      omega
  · exact .refl m

theorem grows_markScope (m : Marker) (id : ScopeId) : m.Grows (m.markScope id) := by
  unfold markScope
  split
  · rename_i hfalse
    refine ⟨fun x hx => ?_, fun x hx => ?_, fun x hx => ?_, ?_, rfl, by simp, rfl⟩
    · cases x with
      | object other => exact hx
      | scope other => exact setIfInBounds_true_of_true hx
      | program other => exact hx
    · cases x with
      | object other => exact .inl hx
      | scope other =>
        rcases true_of_setIfInBounds_true hx with hm | hid
        · exact .inl hm
        · right; left
          cases id; cases other; cases hid
          exact List.mem_cons_self
      | program other => exact .inl hx
    · cases x with
      | object other => exact hx
      | scope other => exact List.mem_cons_of_mem _ hx
      | program other => exact hx
    · have := count_set_true hfalse
      simp only [work, List.length_cons]
      omega
  · exact .refl m

theorem grows_markProgram (m : Marker) (id : ProgramId) : m.Grows (m.markProgram id) := by
  refine ⟨fun x hx => ?_, fun x hx => ?_, fun x hx => hx, rfl, rfl, rfl, by simp [markProgram]⟩
  · cases x with
    | program other => exact setIfInBounds_true_of_true hx
    | object other => exact hx
    | scope other => exact hx
  · cases x with
    | program other => exact .inr (.inr ⟨other, rfl⟩)
    | object other => exact .inl hx
    | scope other => exact .inl hx

theorem marks_markObject {m : Marker} {id : ObjectId} (h : id.index < m.objects.size) :
    (m.markObject id).Marks (.object id) := by
  unfold markObject
  split
  · simp [Marks, h]
  · rename_i hne
    cases hmark : m.objects[id.index]? with
    | none => simp [Nat.not_le.2 h] at hmark
    | some b =>
      cases b with
      | true => exact hmark
      | false => exact absurd hmark hne

theorem marks_markScope {m : Marker} {id : ScopeId} (h : id.index < m.scopes.size) :
    (m.markScope id).Marks (.scope id) := by
  unfold markScope
  split
  · simp [Marks, h]
  · rename_i hne
    cases hmark : m.scopes[id.index]? with
    | none => simp [Nat.not_le.2 h] at hmark
    | some b =>
      cases b with
      | true => exact hmark
      | false => exact absurd hmark hne

theorem marks_markProgram {m : Marker} {id : ProgramId} (h : id.index < m.programs.size) :
    (m.markProgram id).Marks (.program id) := by
  simp [markProgram, Marks, h]

/-- Marking one after another marks each of them that is in range. -/
theorem foldl_mark {α : Type} {f : Marker → α → Marker} (handle : α → Handle) {h : Heap}
    (hgrows : ∀ (m : Marker) a, m.Grows (f m a))
    (hmarks : ∀ (m : Marker) a, m.Fits h → h.InRange (handle a) → (f m a).Marks (handle a))
    (m : Marker) (items : List α) (hm : m.Fits h) :
    m.Grows (items.foldl f m) ∧
      ∀ a ∈ items, h.InRange (handle a) → (items.foldl f m).Marks (handle a) := by
  induction items generalizing m with
  | nil => exact ⟨.refl m, fun _ ha => by cases ha⟩
  | cons a rest ih =>
    obtain ⟨hrest, hmarked⟩ := ih (f m a) ((hgrows m a).fits hm)
    refine ⟨(hgrows m a).trans hrest, fun b hb hrange => ?_⟩
    rcases List.mem_cons.1 hb with rfl | hb
    · exact hrest.marks _ (hmarks m b hm hrange)
    · exact hmarked b hb hrange

theorem mark_spec {m : Marker} {h : Heap} (hm : m.Fits h) (r : Roots) :
    m.Grows (m.mark r) ∧ ∀ x, r.Holds x → h.InRange x → (m.mark r).Marks x := by
  obtain ⟨hgrows₁, hmarks₁⟩ := foldl_mark (h := h) .object grows_markObject
    (fun m id hfits hrange => marks_markObject (Nat.lt_of_lt_of_eq hrange hfits.objects.symm)) m r.objects hm
  obtain ⟨hgrows₂, hmarks₂⟩ := foldl_mark (h := h) .scope grows_markScope
    (fun m id hfits hrange => marks_markScope (Nat.lt_of_lt_of_eq hrange hfits.scopes.symm)) _ r.scopes
    (hgrows₁.fits hm)
  obtain ⟨hgrows₃, hmarks₃⟩ := foldl_mark (h := h) .program grows_markProgram
    (fun m id hfits hrange => marks_markProgram (Nat.lt_of_lt_of_eq hrange hfits.programs.symm)) _ r.programs
    (hgrows₂.fits (hgrows₁.fits hm))
  refine ⟨(hgrows₁.trans hgrows₂).trans hgrows₃, fun x hx hrange => ?_⟩
  cases x with
  | object id => exact hgrows₃.marks _ (hgrows₂.marks _ (hmarks₁ id hx hrange))
  | scope id => exact hgrows₃.marks _ (hmarks₂ id hx hrange)
  | program id => exact hmarks₃ id hx hrange

/-- What is marked and not pending has been followed. -/
def Closed (m : Marker) (h : Heap) : Prop :=
  ∀ x, m.Marks x → m.Pending x ∨ ∀ y, (h.held x).Holds y → h.InRange y → m.Marks y

theorem Closed.grows {m n : Marker} {h : Heap} (hm : m.Closed h) (hgrows : m.Grows n) :
    n.Closed h := by
  intro x hx
  rcases hgrows.fresh x hx with hold | hpending | ⟨id, rfl⟩
  · rcases hm x hold with hpending | hfollowed
    · exact .inl (hgrows.pending x hpending)
    · exact .inr fun y hy hrange => hgrows.marks y (hfollowed y hy hrange)
  · exact .inl hpending
  · exact .inr fun y hy => absurd hy (Roots.holds_empty y)

/-- The slots that a step of the walk takes up next. -/
theorem trace_cases (h : Heap) (fuel : Nat) (m : Marker) :
    (∃ (x : Handle) (n : Marker), trace h (fuel + 1) m = trace h fuel (n.mark (h.held x)) ∧
      (m.Fits h → n.Fits h) ∧ (∀ y, n.Marks y ↔ m.Marks y) ∧
      (∀ y, m.Pending y → y = x ∨ n.Pending y) ∧ n.work + 1 = m.work) ∨
    trace h (fuel + 1) m = m ∧ ∀ x, ¬ m.Pending x := by
  cases hobjects : m.pendingObjects with
  | cons id rest =>
    left
    refine ⟨.object id, { m with pendingObjects := rest }, ?_,
      fun hm => ⟨hm.objects, hm.scopes, hm.programs⟩, fun y => ?_, fun y hy => ?_, ?_⟩
    · simp only [trace.eq_2, hobjects, Heap.held]
      cases h.object? id <;> rfl
    · cases y <;> rfl
    · cases y with
      | object other =>
        change other ∈ m.pendingObjects at hy
        rw [hobjects, List.mem_cons] at hy
        exact hy.imp (congrArg Handle.object) fun h => h
      | scope other => exact .inr hy
      | program other => exact .inr hy
    · simp only [work, hobjects, List.length_cons]
      omega
  | nil =>
    cases hscopes : m.pendingScopes with
    | cons id rest =>
      left
      refine ⟨.scope id, { m with pendingScopes := rest }, ?_,
        fun hm => ⟨hm.objects, hm.scopes, hm.programs⟩, fun y => ?_, fun y hy => ?_, ?_⟩
      · simp only [trace.eq_2, hobjects, hscopes, Heap.held]
        cases h.scope? id <;> rfl
      · cases y <;> rfl
      · cases y with
        | object other => exact .inr hy
        | scope other =>
          change other ∈ m.pendingScopes at hy
          rw [hscopes, List.mem_cons] at hy
          exact hy.imp (congrArg Handle.scope) fun h => h
        | program other => exact .inr hy
      · simp only [work, hscopes, List.length_cons]
        omega
    | nil =>
      right
      refine ⟨by simp only [trace.eq_2, hobjects, hscopes], fun x hx => ?_⟩
      cases x with
      | object id =>
        change id ∈ m.pendingObjects at hx
        rw [hobjects] at hx
        cases hx
      | scope id =>
        change id ∈ m.pendingScopes at hx
        rw [hscopes] at hx
        cases hx
      | program id => exact hx

/-- Following one pending slot. -/
theorem closed_follow {m n : Marker} {h : Heap} {x : Handle} (hm : m.Closed h) (hfits : n.Fits h)
    (hmarks : ∀ y, n.Marks y ↔ m.Marks y)
    (hpending : ∀ y, m.Pending y → y = x ∨ n.Pending y) :
    (n.mark (h.held x)).Closed h := by
  obtain ⟨hgrows, hheld⟩ := mark_spec hfits (h.held x)
  intro y hy
  rcases hgrows.fresh y hy with hold | hnew | ⟨id, rfl⟩
  · rcases hm y ((hmarks y).1 hold) with hwas | hfollowed
    · rcases hpending y hwas with rfl | hstill
      · exact .inr hheld
      · exact .inl (hgrows.pending y hstill)
    · exact .inr fun z hz hrange => hgrows.marks z ((hmarks z).2 (hfollowed z hz hrange))
  · exact .inl hnew
  · exact .inr fun z hz => absurd hz (Roots.holds_empty z)

theorem not_pending_of_work_eq_zero {m : Marker} (h : m.work = 0) (x : Handle) :
    ¬ m.Pending x := by
  have hobjects : m.pendingObjects = [] := List.eq_nil_of_length_eq_zero (by unfold work at h; omega)
  have hscopes : m.pendingScopes = [] := List.eq_nil_of_length_eq_zero (by unfold work at h; omega)
  cases x <;> simp [Pending, hobjects, hscopes]

/-- With enough fuel the walk keeps every mark and follows everything that is pending. -/
theorem trace_spec {h : Heap} (fuel : Nat) {m : Marker} (hfits : m.Fits h) (hclosed : m.Closed h)
    (hfuel : m.work ≤ fuel) :
    (∀ x, m.Marks x → (trace h fuel m).Marks x) ∧
      ∀ x, (trace h fuel m).Marks x → ∀ y, (h.held x).Holds y → h.InRange y →
        (trace h fuel m).Marks y := by
  induction fuel generalizing m with
  | zero =>
    refine ⟨fun x hx => hx, fun x hx => ?_⟩
    exact (hclosed x hx).resolve_left (not_pending_of_work_eq_zero (by omega) x)
  | succ fuel ih =>
    rcases trace_cases h fuel m with ⟨x, n, htrace, hn, hmarks, hpending, hwork⟩ | ⟨htrace, hdone⟩
    · obtain ⟨hgrows, -⟩ := mark_spec (hn hfits) (h.held x)
      have hless : (n.mark (h.held x)).work ≤ fuel := by
        rw [hgrows.work]
        omega
      obtain ⟨hkeeps, hfollows⟩ := ih (hgrows.fits (hn hfits))
        (closed_follow hclosed (hn hfits) hmarks hpending) hless
      rw [htrace]
      exact ⟨fun y hy => hkeeps y (hgrows.marks y ((hmarks y).2 hy)), hfollows⟩
    · rw [htrace]
      exact ⟨fun y hy => hy, fun y hy => (hclosed y hy).resolve_left (hdone y)⟩

end Marker

namespace Heap

/-- The roots and the pins are marked, and so is everything that a marked slot leads to. -/
theorem reached_spec (h : Heap) (roots : Roots) :
    (∀ x, roots.Holds x → h.InRange x → (h.reached roots).Marks x) ∧
      (∀ id ∈ h.pins, h.InRange (.object id) → (h.reached roots).Marks (.object id)) ∧
      ∀ x, (h.reached roots).Marks x → ∀ y, (h.held x).Holds y → h.InRange y →
        (h.reached roots).Marks y := by
  let start : Marker :=
    ⟨Array.replicate h.objects.size false, Array.replicate h.scopes.size false,
     Array.replicate h.programs.size false, [], []⟩
  have hfits : start.Fits h := ⟨by simp [start], by simp [start], by simp [start]⟩
  have hblank : ∀ x, ¬ start.Marks x := by
    intro x hx
    cases x <;> simp [Marker.Marks, start, Array.getElem?_replicate] at hx
  have hclosed : start.Closed h := fun x hx => absurd hx (hblank x)
  obtain ⟨hgrows₁, hroots⟩ := Marker.mark_spec hfits roots
  obtain ⟨hgrows₂, hpins⟩ := Marker.mark_spec (hgrows₁.fits hfits) { objects := h.pins }
  have hwork : ((start.mark roots).mark { objects := h.pins }).work ≤
      h.objects.size + h.scopes.size + 1 := by
    rw [hgrows₂.work, hgrows₁.work]
    simp [Marker.work, start]
  obtain ⟨hkeeps, hfollows⟩ := Marker.trace_spec (h.objects.size + h.scopes.size + 1)
    (hgrows₂.fits (hgrows₁.fits hfits)) ((hclosed.grows hgrows₁).grows hgrows₂) hwork
  refine ⟨fun x hx hrange => ?_, fun id hid hrange => ?_, hfollows⟩
  · exact hkeeps x (hgrows₂.marks x (hroots x hx hrange))
  · exact hkeeps _ (hpins (.object id) hid hrange)

/-! ## Sweeping -/

section Sweep

variable {α : Type} {arena : Array (Option α)} {marked : Array Bool} {free : List Nat}

/-- One slot of a sweep. -/
def sweepSlot (marked : Array Bool) (state : Array (Option α) × List Nat × Nat) (i : Nat) :
    Array (Option α) × List Nat × Nat :=
  match state.1[i]?, marked[i]? with
  | some (some _), some false =>
    (state.1.setIfInBounds i none, i :: state.2.1, state.2.2 + 1)
  | _, _ => state

theorem sweep_eq (arena : Array (Option α)) (marked : Array Bool) (free : List Nat) :
    sweep arena marked free = (List.range arena.size).foldl (sweepSlot marked) (arena, free, 0) := by
  unfold sweep
  congr 1

/-- A slot that a sweep frees. -/
def Swept (arena : Array (Option α)) (marked : Array Bool) (i : Nat) : Prop :=
  (∃ a, arena[i]? = some (some a)) ∧ marked[i]? = some false

/-- After the first slots have been swept. -/
theorem foldl_sweepSlot (htidy : TidyArena arena free) (n : Nat) :
    let state := (List.range n).foldl (sweepSlot marked) (arena, free, 0)
    TidyArena state.1 state.2.1 ∧
      (∀ i, i < n → Swept arena marked i → state.1[i]? = some none) ∧
      ∀ i, ¬ (i < n ∧ Swept arena marked i) → state.1[i]? = arena[i]? := by
  induction n with
  | zero => exact ⟨htidy, fun i hi => absurd hi (Nat.not_lt_zero i), fun i _ => rfl⟩
  | succ n ih =>
    rw [List.range_succ, List.foldl_append, List.foldl_cons, List.foldl_nil]
    generalize (List.range n).foldl (sweepSlot marked) (arena, free, 0) = state at ih ⊢
    obtain ⟨slots, free', count⟩ := state
    obtain ⟨htidy', hswept, hkept⟩ := ih
    have hslot : slots[n]? = arena[n]? := hkept n fun h => Nat.lt_irrefl n h.1
    by_cases hn : Swept arena marked n
    · obtain ⟨⟨a, ha⟩, hmark⟩ := id hn
      have hstep : sweepSlot marked (slots, free', count) n =
          (slots.setIfInBounds n none, n :: free', count + 1) := by
        simp only [sweepSlot, hslot, ha, hmark]
      have hsize : n < slots.size := (Array.getElem?_eq_some_iff.1 (hslot.trans ha)).1
      rw [hstep]
      refine ⟨htidy'.release (hslot.trans ha), fun i hi hi' => ?_, fun i hi => ?_⟩
      · rw [Array.getElem?_setIfInBounds]
        split
        · simp_all
        · rename_i hne
          exact hswept i (by omega) hi'
      · have hne : n ≠ i := fun heq => hi ⟨by omega, heq ▸ hn⟩
        rw [Array.getElem?_setIfInBounds, if_neg hne]
        exact hkept i fun h => hi ⟨by omega, h.2⟩
    · have hstep : sweepSlot marked (slots, free', count) n = (slots, free', count) := by
        unfold sweepSlot
        split
        · rename_i a hget hmark
          exact absurd ⟨⟨a, hslot.symm.trans hget⟩, hmark⟩ hn
        · rfl
      rw [hstep]
      refine ⟨htidy', fun i hi hi' => ?_, fun i hi => hkept i fun h => hi ⟨by omega, h.2⟩⟩
      have hne : i ≠ n := fun heq => hn (heq ▸ hi')
      exact hswept i (by omega) hi'

/-- A sweep frees the slots in use that are not marked and keeps the others. -/
theorem sweep_spec (htidy : TidyArena arena free) :
    TidyArena (sweep arena marked free).1 (sweep arena marked free).2.1 ∧
      (∀ i, Swept arena marked i → (sweep arena marked free).1[i]? = some none) ∧
      ∀ i, ¬ Swept arena marked i → (sweep arena marked free).1[i]? = arena[i]? := by
  rw [sweep_eq]
  obtain ⟨htidy', hswept, hkept⟩ := foldl_sweepSlot htidy arena.size
  refine ⟨htidy', fun i hi => hswept i ?_ hi, fun i hi => hkept i fun h => hi h.2⟩
  obtain ⟨⟨a, ha⟩, -⟩ := hi
  exact (Array.getElem?_eq_some_iff.1 ha).1

end Sweep

/-! ## Collecting -/

theorem Tidy.collect {h : Heap} (ht : h.Tidy) (roots : Roots) : (h.collect roots).2.Tidy :=
  ⟨(sweep_spec ht.objects).1, (sweep_spec ht.scopes).1⟩

/-- A live object that is marked is still there after a collection. -/
theorem Tidy.object?_collect {h : Heap} (ht : h.Tidy) {roots : Roots} {id : ObjectId}
    (hmarked : (h.reached roots).Marks (.object id)) :
    (h.collect roots).2.object? id = h.object? id := by
  have hkept : ¬ Swept h.objects (h.reached roots).objects id.index := by
    rintro ⟨-, hfalse⟩
    rw [show (h.reached roots).objects[id.index]? = some true from hmarked] at hfalse
    cases hfalse
  exact congrArg Option.join ((sweep_spec ht.objects).2.2 id.index hkept)

/-- An object that is live after a collection was there before and is what it was. -/
theorem Tidy.object?_of_collect {h : Heap} (ht : h.Tidy) {roots : Roots} {id : ObjectId}
    {o : Object} (ho : (h.collect roots).2.object? id = some o) : h.object? id = some o := by
  by_cases hid : Swept h.objects (h.reached roots).objects id.index
  · have hnone : (h.collect roots).2.object? id = none :=
      congrArg Option.join ((sweep_spec ht.objects).2.1 id.index hid)
    rw [hnone] at ho
    cases ho
  · exact (congrArg Option.join ((sweep_spec ht.objects).2.2 id.index hid)).symm.trans ho

theorem Tidy.scope?_collect {h : Heap} (ht : h.Tidy) {roots : Roots} {id : ScopeId}
    (hmarked : (h.reached roots).Marks (.scope id)) :
    (h.collect roots).2.scope? id = h.scope? id := by
  have hkept : ¬ Swept h.scopes (h.reached roots).scopes id.index := by
    rintro ⟨-, hfalse⟩
    rw [show (h.reached roots).scopes[id.index]? = some true from hmarked] at hfalse
    cases hfalse
  exact congrArg Option.join ((sweep_spec ht.scopes).2.2 id.index hkept)

theorem program?_collect {h : Heap} {roots : Roots} {id : ProgramId}
    (hmarked : (h.reached roots).Marks (.program id)) :
    (h.collect roots).2.program? id = h.program? id := by
  simp only [collect, program?, Array.getElem?_mapIdx]
  rw [show (h.reached roots).programs[id.index]? = some true from hmarked]
  cases h.programs[id.index]? <;> rfl

/-- A scope that the roots name survives. -/
theorem Tidy.scope?_collect_of_root {h : Heap} (ht : h.Tidy) {roots : Roots} {id : ScopeId}
    {s : Scope} (hroot : id ∈ roots.scopes) (hs : h.scope? id = some s) :
    (h.collect roots).2.scope? id = some s := by
  have hrange : h.InRange (.scope id) :=
    (Array.getElem?_eq_some_iff.1 (scope?_eq_some_iff.1 hs)).1
  rw [ht.scope?_collect ((reached_spec h roots).1 (.scope id) hroot hrange)]
  exact hs

end Heap

/-! ## The roots of a machine -/

theorem Frame.holds_scope (f : Frame) : f.roots.Holds (.scope f.scope) := by
  unfold Frame.roots
  rw [Roots.holds_append, Roots.holds_append]
  exact .inl (.inl List.mem_cons_self)

/-- A thread holds what its frames hold. -/
theorem Thread.holds_of_frame {t : Thread} {f : Frame} (hf : f ∈ t.stack.frames) {x : Handle}
    (hx : f.roots.Holds x) : t.roots.Holds x := by
  have hframes : (t.stack.frames.foldr (fun (f : Frame) acc => f.roots ++ acc) {}).Holds x :=
    (Roots.holds_foldr _ _ x).2 ⟨f, hf, hx⟩
  unfold Thread.roots
  dsimp only
  split
  · exact (Roots.holds_append _ _ x).2 (.inl hframes)
  · exact (Roots.holds_append _ _ x).2 (.inl hframes)
  · exact hframes

namespace Machine

theorem holds_of_thread {m : Machine} {t : Thread} (ht : t ∈ m.threads) {x : Handle}
    (hx : t.roots.Holds x) : m.roots.Holds x := by
  unfold roots
  rw [Roots.holds_append]
  exact .inr ((Roots.holds_foldr _ _ x).2 ⟨t, ht, hx⟩)

theorem holds_globalScope (m : Machine) : m.roots.Holds (.scope m.globalScope) := by
  unfold roots
  rw [Roots.holds_append, Roots.holds_append]
  exact .inl (.inl List.mem_cons_self)

end Machine

end ScriptMachine
