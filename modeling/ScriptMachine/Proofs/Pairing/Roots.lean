import ScriptMachine.Proofs.Pairing.Unwind

/-!
# Paired turns of threads

Between two steps no thread is being stepped, so that a thread that has ended and that nobody waits
for may be in one table only. Machines stay paired when a pairing is narrowed to less handles or
turns to another thread, as long as what it keeps is closed under what is held.
-/

namespace ScriptMachine

namespace Pairing

open Machine Exec

variable {p q : Pairing}

/-! ## Other pairings of the same data -/

section Narrowing

variable {α : Type} [Carried α] {x x' : α}

/-- What is known of the data to a pairing with the same counterparts is paired in it. -/
theorem Pairs.narrow (h : p.Pairs x x') (hext : p.Extends q) (hw : Within q x) : q.Pairs x x' :=
  ⟨hw, h.eq.trans (Carried.image_of_extends hext h.within).symm⟩

theorem pairs_filter {l l' : List Thread} (h : p.Pairs l l') {f : Thread → Bool}
    (hf : ∀ t, f (image p t) = f t) : p.Pairs (l.filter f) (l'.filter f) := by
  refine ⟨fun t ht => h.within t (List.mem_of_mem_filter ht), ?_⟩
  rw [h.eq]
  exact List.filter_map.trans (congrArg (fun g => (l.filter g).map (image p)) (funext hf))

end Narrowing

/-- The heaps of paired machines in a pairing that knows less. Each slot that is still known holds
what it held, and knows what is in it. -/
theorem Heaps.narrow {h h' k k' : Heap} (hp : p.Heaps h h') (hext : p.Extends q)
    (hknown : ∀ x, q.known x → p.known x) (htidy : k.Tidy) (htidy' : k'.Tidy)
    (hobject : ∀ id o, Within q id → h.object? id = some o → k.object? id = some o ∧
      k'.object? (image p id) = h'.object? (image p id) ∧ Within q o)
    (hscope : ∀ id s, Within q id → h.scope? id = some s → k.scope? id = some s ∧
      k'.scope? (image p id) = h'.scope? (image p id) ∧ Within q s)
    (hprogram : ∀ id t, Within q id → h.program? id = some t → k.program? id = some t ∧
      k'.program? (image p id) = h'.program? (image p id))
    (hsame : q.whole → q.Fixes ∧ k' = k) (hcovers : q.whole → q.Covers k) : q.Heaps k k' := by
  have hid : ∀ id : ObjectId, Within q id → Within p id := fun id => hknown (.object id)
  have hsid : ∀ id : ScopeId, Within q id → Within p id := fun id => hknown (.scope id)
  have hprogramId : ∀ id : ProgramId, Within q id → Within p id := fun id => hknown (.program id)
  have hobjects : ∀ id : ObjectId, Within q id → ∃ o, h.object? id = some o ∧
      k.object? id = some o ∧ k'.object? (image q id) = some (image q o) ∧ Within q o := by
    intro id hw
    obtain ⟨o, ho, ho', hwo⟩ := hp.object id (hid id hw)
    obtain ⟨hk, hk', hq⟩ := hobject id o hw ho
    rw [Carried.image_of_extends hext (hid id hw), hk', ho']
    exact ⟨o, ho, hk, congrArg some (Carried.image_of_extends hext hwo).symm, hq⟩
  have hscopes : ∀ id : ScopeId, Within q id → ∃ s, h.scope? id = some s ∧
      k.scope? id = some s ∧ k'.scope? (image q id) = some (image q s) ∧ Within q s := by
    intro id hw
    obtain ⟨s, hs, hs', hws⟩ := hp.scope id (hsid id hw)
    obtain ⟨hk, hk', hq⟩ := hscope id s hw hs
    rw [Carried.image_of_extends hext (hsid id hw), hk', hs']
    exact ⟨s, hs, hk, congrArg some (Carried.image_of_extends hext hws).symm, hq⟩
  refine ⟨hsame, htidy, htidy', fun id hw => ?_, fun id hw => ?_, fun id hw => ?_, fun id hw => ?_,
    fun id hw => ?_, fun id hw => ?_, hcovers⟩
  · obtain ⟨o, -, hk, hk', hq⟩ := hobjects id hw
    exact ⟨o, hk, hk', hq⟩
  · obtain ⟨s, -, hk, hk', hq⟩ := hscopes id hw
    exact ⟨s, hk, hk', hq⟩
  · obtain ⟨t, ht, ht', -⟩ := hp.program id (hprogramId id hw)
    obtain ⟨hk, hk'⟩ := hprogram id t hw ht
    exact ⟨t, hk, by rw [Carried.image_of_extends hext (hprogramId id hw), hk', ht']; rfl, trivial⟩
  · obtain ⟨n, hchain⟩ := hp.protos id (hid id hw)
    refine ⟨n, hchain.congr (P := Within q) hw (fun a next ha hlink => ?_)
      fun a ha => ?_⟩
    · obtain ⟨o, ho, -, -, hq⟩ := hobjects a ha
      rw [Heap.protoLink, ho] at hlink
      exact hq.proto next (Option.some.inj hlink)
    · obtain ⟨o, ho, hk, -⟩ := hobjects a ha
      rw [Heap.protoLink, Heap.protoLink, ho, hk]
  · obtain ⟨n, hchain⟩ := hp.targets id (hid id hw)
    refine ⟨n, hchain.congr (P := Within q) hw (fun a next ha hlink => ?_)
      fun a ha => ?_⟩
    · obtain ⟨o, ho, -, -, hq⟩ := hobjects a ha
      rw [Heap.targetLink, ho] at hlink
      exact Heaps.within_targetOf hq next (Option.some.inj hlink)
    · obtain ⟨o, ho, hk, -⟩ := hobjects a ha
      rw [Heap.targetLink, Heap.targetLink, ho, hk]
  · obtain ⟨n, hchain⟩ := hp.outers id (hsid id hw)
    refine ⟨n, hchain.congr (P := Within q) hw (fun a next ha hlink => ?_)
      fun a ha => ?_⟩
    · obtain ⟨s, hs, -, -, hq⟩ := hscopes a ha
      rw [Heap.outerLink, hs] at hlink
      exact hq.outer next (Option.some.inj hlink)
    · obtain ⟨s, hs, hk, -⟩ := hscopes a ha
      rw [Heap.outerLink, Heap.outerLink, hs, hk]

/-- Machines that are paired go on with heaps and threads paired in a pairing that knows less. -/
theorem Machines.narrow {m m' : Machine} (hm : p.Machines m m') (hext : p.Extends q)
    {k k' : Heap} (hheap : q.Heaps k k') (hglobal : Within q m.globalScope)
    (hroot : Within q m.rootOwner) (hbuiltins : Within q m.builtins)
    (hearly : Within q m.earlySettlements) {threads threads' : List Thread}
    (hthreads : q.Pairs (threads.filter q.shows) (threads'.filter q.shows))
    (hsub : threads.Sublist m.threads) (hsub' : threads'.Sublist m'.threads)
    (hcompares : q.whole ∨ m.policy.ComparesOwners) (hwhole : q.whole → p.whole)
    (hsame : q.whole → threads' = threads) :
    q.Machines { m with heap := k, threads } { m' with heap := k', threads := threads' } where
  same hq := by rw [hm.same (hwhole hq), (hheap.same hq).2, hsame hq]
  compares := hcompares
  heap := hheap
  globalScope := hm.globalScope.narrow hext hglobal
  rootOwner := hm.rootOwner.narrow hext hroot
  builtins := hm.builtins.narrow hext hbuiltins
  threads := hthreads
  sorted := hm.sorted.sublist hsub
  sorted' := hm.sorted'.sublist hsub'
  early := hm.early.narrow hext hearly
  rest := congrArg (fun n : Machine => { n with heap := k', threads := threads' }) hm.rest

/-! ## Turns -/

/-- Another thread is being stepped, or none. -/
def acting (p : Pairing) (thread : Option ThreadId) : Pairing := { p with actor := thread }

theorem extends_acting (thread : Option ThreadId) : p.Extends (p.acting thread) :=
  ⟨fun _ _ => rfl, fun _ _ => rfl, fun _ _ => rfl⟩

theorem within_acting {α : Type} [Carried α] {x : α} (h : Within p x) (thread : Option ThreadId) :
    Within (p.acting thread) x :=
  Carried.within_mono (p := p) (fun _ hx => hx) h

theorem Pairs.acting {α : Type} [Carried α] {x x' : α} (h : p.Pairs x x')
    (thread : Option ThreadId) : (p.acting thread).Pairs x x' :=
  h.narrow (extends_acting thread) (within_acting h.within thread)

/-- Machines stay paired in a turn that shows the same threads, or those of them that somebody may
wait for. -/
theorem Machines.turn {m m' : Machine} (hm : p.Machines m m') (thread : Option ThreadId)
    (hthreads : (p.acting thread).Pairs (m.threads.filter (p.acting thread).shows)
      (m'.threads.filter (p.acting thread).shows)) : (p.acting thread).Machines m m' := by
  refine hm.narrow (extends_acting thread) (hm.heap.narrow (extends_acting thread)
    (fun _ hx => hx) hm.heap.tidy hm.heap.tidy' (fun id o hid ho => ?_) (fun id s hid hs => ?_)
    (fun id t hid ht => ⟨ht, rfl⟩) (fun hwhole => ?_) fun hwhole => ?_)
    (within_acting hm.globalScope.within thread) (within_acting hm.rootOwner.within thread)
    (within_acting hm.builtins.within thread) (within_acting hm.early.within thread) hthreads
    (.refl _) (.refl _) hm.compares id fun hwhole => congrArg Machine.threads (hm.same hwhole)
  · obtain ⟨o', ho', -, hw⟩ := hm.heap.object id hid
    obtain rfl := Option.some.inj (ho.symm.trans ho')
    exact ⟨ho, rfl, within_acting hw thread⟩
  · obtain ⟨s', hs', -, hw⟩ := hm.heap.scope id hid
    obtain rfl := Option.some.inj (hs.symm.trans hs')
    exact ⟨hs, rfl, within_acting hw thread⟩
  · obtain ⟨hfixes, hsame⟩ := hm.heap.same hwhole
    exact ⟨⟨hfixes.object, hfixes.scope, hfixes.program⟩, hsame⟩
  · have hcovers := hm.heap.covers hwhole
    exact ⟨hcovers.object, hcovers.scope, hcovers.program⟩

/-- No thread is being stepped any more. -/
theorem Machines.rest_turn {m m' : Machine} (hm : p.Machines m m') :
    (p.acting none).Machines m m' := by
  refine hm.turn none ?_
  have hfilter : ∀ l : List Thread, l.filter (p.acting none).shows =
      (l.filter p.shows).filter (p.acting none).shows := by
    intro l
    rw [List.filter_filter]
    refine List.filter_congr fun t _ => ?_
    unfold shows acting
    cases t.isZombie <;> cases t.keepOutcome <;> rfl
  rw [hfilter, hfilter m'.threads]
  exact (pairs_filter hm.threads fun _ => rfl).acting none

/-- A thread that is shown gets its turn. -/
theorem Machines.take_turn {m m' : Machine} (hm : p.Machines m m') (hrests : p.actor = none)
    {thread : ThreadId} (hshows : ∀ t, m.thread? thread = some t → p.shows t = true)
    (hshows' : ∀ t, m'.thread? thread = some t → p.shows t = true) :
    (p.acting (some thread)).Machines m m' := by
  refine hm.turn (some thread) ?_
  have hfilter : ∀ n : Machine, Machine.Sorted n.threads n.nextThreadId →
      (∀ t, n.thread? thread = some t → p.shows t = true) →
      n.threads.filter (p.acting (some thread)).shows = n.threads.filter p.shows := by
    intro n hsorted hn
    refine List.filter_congr fun t ht => ?_
    by_cases hid : t.id = thread
    · have hshown := hn t (hsorted.find?_eq ht hid)
      rw [hshown]
      simp [shows, acting, hid]
    · simp [shows, acting, hrests, Ne.symm hid]
  rw [hfilter m hm.sorted hshows, hfilter m' hm.sorted' hshows']
  exact hm.threads.acting (some thread)

/-! ## Scheduling -/

instance : Carried Pick := .plain

instance : Carried RunResult := .plain

theorem firstOf_image (threads : List Thread) :
    firstOf (image p threads) = image p (firstOf threads) := by
  induction threads with
  | nil => rfl
  | cons t rest ih =>
    rw [image_cons, firstOf, firstOf, ih]
    cases firstOf rest with
    | none => rfl
    | some u =>
      dsimp only [image_some]
      rw [before_image]
      split <;> rfl

/-- What is picked does not depend on the handles. -/
theorem pick_image (threads : List Thread) : pick (image p threads) = pick threads := by
  have hready : (image p threads).filter (·.status == .ready) =
      image p (threads.filter (·.status == .ready)) := List.filter_map
  have hsleeping : ((image p threads).filter (·.status == .sleeping)).map (·.runAt) =
      (threads.filter (·.status == .sleeping)).map (·.runAt) := by
    rw [show (image p threads).filter (·.status == .sleeping) =
      image p (threads.filter (·.status == .sleeping)) from List.filter_map]
    exact List.map_map
  have hblocked : (image p threads).any (·.status == .blocked) =
      threads.any (·.status == .blocked) := List.any_map
  unfold pick
  rw [hready, hsleeping, hblocked, firstOf_image]
  cases firstOf (threads.filter (·.status == .ready)) <;> rfl

/-- Threads that have ended are not picked. -/
theorem pick_filter (threads : List Thread) {f : Thread → Bool}
    (hf : ∀ t ∈ threads, t.isZombie = false → f t = true) :
    pick (threads.filter f) = pick threads := by
  have hstatus : ∀ s : ThreadStatus, s ≠ .zombie →
      (threads.filter f).filter (·.status == s) = threads.filter (·.status == s) := by
    intro s hs
    rw [List.filter_filter]
    refine List.filter_congr fun t ht => ?_
    by_cases heq : t.status = s
    · simp [heq, hf t ht (by simp [Thread.isZombie, heq, hs])]
    · simp [heq]
  have hblocked : (threads.filter f).any (·.status == .blocked) =
      threads.any (·.status == .blocked) := by
    rw [List.any_filter, Bool.eq_iff_iff, List.any_eq_true, List.any_eq_true]
    refine exists_congr fun t => and_congr_right fun ht => ?_
    by_cases heq : t.status = .blocked
    · simp [heq, hf t ht (by simp [Thread.isZombie, heq])]
    · simp [heq]
  unfold pick
  rw [hstatus .ready (by decide), hstatus .sleeping (by decide), hblocked]

theorem Machines.pick {m m' : Machine} (hm : p.Machines m m') :
    Machine.pick m'.threads = Machine.pick m.threads := by
  have hshows : ∀ t : Thread, t.isZombie = false → p.shows t = true := fun t ht => by
    simp [shows, ht]
  rw [← pick_filter m.threads fun t _ => hshows t, ← pick_filter m'.threads fun t _ => hshows t,
    hm.threads.eq, pick_image]

theorem mirrors_schedule : p.Mirrors schedule schedule := by
  refine mirrors_now.bind fun time _ => ?_
  have hhidden : ∀ t, p.shows t = false → p.shows (t.wake time) = false := by
    intro t ht
    have hzombie : t.isZombie = true := by
      revert ht
      unfold shows
      cases t.isZombie <;> simp
    have hstatus : t.status = .zombie := by simpa [Thread.isZombie] using hzombie
    rw [Thread.wake, hstatus]
    exact ht
  have hid : ∀ t : Thread, (t.wake time).id = t.id := by
    intro t
    unfold Thread.wake
    split <;> rfl
  refine Mirrors.bind (mirrors_modify fun m m' hm => hm.mapThreads hid hid
    (fun _ ht => within_wake ht time) (fun t => wake_image p t time)
    (fun t _ => hhidden t) fun t _ => hhidden t) fun _ _ => ?_
  exact mirrors_get_bind fun m m' hm => mirrors_pure ⟨trivial, hm.pick⟩

/-- A thread that was picked gets its turn. -/
theorem Machines.take_turn_ready {m m' : Machine} (hm : p.Machines m m') (hrests : p.actor = none)
    {thread : ThreadId} {t : Thread} (ht : m.thread? thread = some t) (hready : t.status = .ready) :
    (p.acting (some thread)).Machines m m' := by
  have hshown : ∀ u : Thread, u.status = .ready → p.shows u = true := fun u hu => by
    simp [shows, Thread.isZombie, hu]
  refine hm.take_turn hrests (fun u hu => ?_) fun u hu => ?_
  · rw [ht] at hu
    exact Option.some.inj hu ▸ hshown t hready
  · obtain ⟨-, ht'⟩ := hm.thread?_of_shows ht (hshown t hready)
    rw [ht'] at hu
    exact Option.some.inj hu ▸ hshown _ hready

theorem hostOnly_attend (thread : Option ThreadId) :
    HostOnly fun m => { m with currentThread := thread } :=
  ⟨fun _ _ _ _ _ _ _ _ _ => rfl, fun _ => rfl, fun _ => rfl⟩

theorem mirrors_startRun {thread : ThreadId} (hactor : p.actor = some thread) :
    p.Mirrors (startRun thread) (startRun thread) := by
  refine mirrors_now.bind fun time _ => ?_
  refine Mirrors.bind (mirrors_modifyThread hactor (fun _ => rfl) (fun _ => rfl)
    (fun _ ht => ⟨ht.stack, ht.outcome⟩) fun _ => rfl) fun _ _ => ?_
  exact mirrors_modifyHost ⟨fun _ _ _ _ _ _ _ _ _ => rfl, fun _ => rfl, fun _ => rfl⟩

end Pairing

/-!
## Handles that are traced

The collector follows the handles in objects, scopes and frames. They are all the handles there
are: data is known to a pairing exactly when what the collector sees of it is, and the collector
sees the counterparts of what it sees of the first machine.
-/

/-! ## Lists of handles -/

instance : Carried Roots where
  image p r := ⟨image p r.objects, image p r.scopes, image p r.programs⟩
  Within p r := Within p r.objects ∧ Within p r.scopes ∧ Within p r.programs
  image_of_extends h hr := by
    rw [Carried.image_of_extends h hr.1, Carried.image_of_extends h hr.2.1,
      Carried.image_of_extends h hr.2.2]
  within_mono h hr :=
    ⟨Carried.within_mono h hr.1, Carried.within_mono h hr.2.1, Carried.within_mono h hr.2.2⟩
  image_of_fixes {p r} h := by
    rw [Carried.image_of_fixes (x := r.objects) h, Carried.image_of_fixes (x := r.scopes) h,
      Carried.image_of_fixes (x := r.programs) h]

namespace Pairing

/-- The counterpart of a handle. -/
def handle (p : Pairing) : Handle → Handle
  | .object id => .object (image p id)
  | .scope id => .scope (image p id)
  | .program id => .program (image p id)

variable {p : Pairing}

theorem within_roots_iff {r : Roots} : Within p r ↔ ∀ x, r.Holds x → p.known x := by
  refine ⟨fun h x hx => ?_, fun h => ⟨fun id hid => h (.object id) hid,
    fun id hid => h (.scope id) hid, fun id hid => h (.program id) hid⟩⟩
  cases x with
  | object id => exact h.1 id hx
  | scope id => exact h.2.1 id hx
  | program id => exact h.2.2 id hx

theorem holds_image {r : Roots} {x : Handle} (h : r.Holds x) : (image p r).Holds (p.handle x) := by
  cases x with
  | object id => exact List.mem_map_of_mem h
  | scope id => exact List.mem_map_of_mem h
  | program id => exact List.mem_map_of_mem h

end Pairing

section Lists

variable {α : Type} [Carried α] (p : Pairing)

@[simp] theorem image_roots (objects : List ObjectId) (scopes : List ScopeId)
    (programs : List ProgramId) : image p (Roots.mk objects scopes programs) =
      ⟨image p objects, image p scopes, image p programs⟩ := rfl

@[simp] theorem within_roots (objects : List ObjectId) (scopes : List ScopeId)
    (programs : List ProgramId) : Within p (Roots.mk objects scopes programs) ↔
      Within p objects ∧ Within p scopes ∧ Within p programs := .rfl

@[simp] theorem image_appendRoots (a b : Roots) : image p (a ++ b) = image p a ++ image p b := by
  change Roots.mk (image p (a.objects ++ b.objects)) (image p (a.scopes ++ b.scopes))
    (image p (a.programs ++ b.programs)) = _
  rw [image_append, image_append, image_append]
  rfl

@[simp] theorem within_appendRoots (a b : Roots) :
    Within p (a ++ b) ↔ Within p a ∧ Within p b := by
  simp only [Pairing.within_roots_iff, Roots.holds_append, or_imp, forall_and]

@[simp] theorem toList_imageOption (o : Option α) : (image p o).toList = image p o.toList := by
  cases o <;> rfl

@[simp] theorem within_toList (o : Option α) : Within p o.toList ↔ Within p o := by
  cases o <;> simp

@[simp] theorem values_image (t : Table α) : (image p t).values = image p t.values := by
  unfold Table.values
  rw [toList_image, List.map_map]
  change _ = (t.entries.toList.map (·.2)).map (image p)
  rw [List.map_map]
  rfl

@[simp] theorem within_values (t : Table α) : Within p t.values ↔ Within p t := by
  refine ⟨fun h key v hv => h v ?_, fun h v hv => ?_⟩
  · exact List.mem_map.2 ⟨(key, v), t.get?_eq_some_iff.1 hv, rfl⟩
  · obtain ⟨e, he, rfl⟩ := List.mem_map.1 hv
    exact h e.1 e.2 (t.get?_eq_some_iff.2 he)

/-- The objects among some values. -/
theorem objects_image (f : α → Option ObjectId) (hf : ∀ x, f (image p x) = image p (f x))
    (l : List α) : (image p l).filterMap f = image p (l.filterMap f) := by
  induction l with
  | nil => rfl
  | cons x rest ih =>
    rw [image_cons, List.filterMap_cons, List.filterMap_cons, hf, ih]
    cases f x <;> rfl

theorem within_objects (f : α → Option ObjectId) (hf : ∀ x, Within p (f x) ↔ Within p x)
    (l : List α) : Within p (l.filterMap f) ↔ Within p l := by
  induction l with
  | nil => simp
  | cons x rest ih =>
    rw [List.filterMap_cons, within_cons, ← ih, ← hf x]
    cases f x <;> simp

theorem within_object?_iff (v : Value) : Within p v.object? ↔ Within p v := by
  cases v <;> simp [Value.object?]

@[simp] theorem ofValue_imageRoots (v : Value) :
    Roots.ofValue (image p v) = image p (Roots.ofValue v) := by
  cases v <;> rfl

@[simp] theorem within_ofValue (v : Value) : Within p (Roots.ofValue v) ↔ Within p v := by
  simp [Roots.ofValue, within_object?_iff]

@[simp] theorem ofValues_image (vs : List Value) :
    Roots.ofValues (image p vs) = image p (Roots.ofValues vs) := by
  rw [Roots.ofValues, objects_image p _ (object?_image p)]
  rfl

@[simp] theorem within_ofValues (vs : List Value) :
    Within p (Roots.ofValues vs) ↔ Within p vs := by
  simp [Roots.ofValues, within_objects p _ (within_object?_iff p)]

end Lists

/-! ## Slots -/

section Slots

variable (p : Pairing)

theorem objectEdges_image (o : Object) : (image p o).objectEdges = image p o.objectEdges := by
  unfold Object.objectEdges
  rw [image_owner, image_proto, image_properties, image_function, values_image,
    objects_image p _ fun prop => object?_image p prop.value]
  cases o.function with
  | none => simp
  | some f =>
    cases f with
    | closure node scope => simp
    | native name => simp
    | bound target receiver args =>
      dsimp only [image_some, image_bound]
      rw [← image_cons, objects_image p _ (object?_image p)]
      simp

theorem within_objectEdges (o : Object) : Within p o.objectEdges ↔
    Within p o.owner ∧ Within p o.proto ∧ Within p o.properties ∧
      (∀ target receiver args, o.function = some (.bound target receiver args) →
        Within p target ∧ Within p receiver ∧ Within p args) := by
  unfold Object.objectEdges
  simp only [within_append, within_toList]
  rw [within_objects p _ fun prop => within_object?_iff p prop.value, within_values]
  cases o.function with
  | none => simp [and_assoc]
  | some f =>
    cases f with
    | closure node scope => simp [and_assoc]
    | native name => simp [and_assoc]
    | bound target receiver args =>
      dsimp only
      rw [within_cons, within_objects p _ (within_object?_iff p), within_cons]
      simp [and_assoc]

theorem roots_imageObject (o : Object) : (image p o).roots = image p o.roots := by
  unfold Object.roots
  rw [image_function, objectEdges_image]
  cases o.function with
  | none => rfl
  | some f => cases f <;> rfl

theorem within_rootsObject (o : Object) : Within p o.roots ↔ Within p o := by
  have hedges := within_objectEdges p o
  have hobject : Within p o ↔ Within p o.owner ∧ Within p o.proto ∧ Within p o.properties ∧
      Within p o.function :=
    ⟨fun h => ⟨h.owner, h.proto, h.properties, h.function⟩,
      fun h => ⟨h.1, h.2.1, h.2.2.1, h.2.2.2⟩⟩
  rw [hobject]
  unfold Object.roots
  cases hfunction : o.function with
  | none =>
    rw [hfunction] at hedges
    simp only [within_roots, hedges]
    simp
  | some f =>
    rw [hfunction] at hedges
    cases f with
    | closure node scope =>
      have hclosure : Within p (Callable.closure node scope) ↔
        Within p node.program ∧ Within p scope := .rfl
      simp only [within_roots, hedges, within_some, hclosure]
      simp
      tauto
    | native name =>
      have hnative : Within p (Callable.native name) ↔ True := .rfl
      simp only [within_roots, hedges, within_some, hnative]
      simp
    | bound target receiver args =>
      have hbound : Within p (Callable.bound target receiver args) ↔
        Within p target ∧ Within p receiver ∧ Within p args := .rfl
      simp only [within_roots, hedges, within_some, hbound]
      simp

theorem roots_imageScope (s : Scope) : (image p s).roots = image p s.roots := by
  unfold Scope.roots Scope.objectEdges
  rw [image_scopeOwner, image_scopeReceiver, image_bindings, image_outer, values_image,
    objects_image p _ fun b => object?_image p b.value]
  simp

theorem within_rootsScope (s : Scope) : Within p s.roots ↔ Within p s := by
  have hscope : Within p s ↔ Within p s.owner ∧ Within p s.outer ∧ Within p s.receiver ∧
      Within p s.bindings :=
    ⟨fun h => ⟨h.owner, h.outer, h.receiver, h.bindings⟩,
      fun h => ⟨h.1, h.2.1, h.2.2.1, h.2.2.2⟩⟩
  rw [hscope]
  unfold Scope.roots Scope.objectEdges
  simp only [within_roots, within_append, within_toList, within_object?_iff, within_nil, and_true]
  rw [within_objects p _ fun b => within_object?_iff p b.value, within_values]
  tauto

/-! ## Frames and threads -/

theorem roots_imageReference (r : Reference) : (image p r).roots = image p r.roots := by
  cases r <;> simp [Reference.roots]

theorem within_rootsReference (r : Reference) : Within p r.roots ↔ Within p r := by
  cases r with
  | binding scope name =>
    have hbinding : Within p (Reference.binding scope name) ↔ Within p scope := .rfl
    simp [Reference.roots, hbinding]
  | property base key =>
    have hproperty : Within p (Reference.property base key) ↔ Within p base := .rfl
    simp [Reference.roots, hproperty]

theorem roots_imageInfo (info : FrameInfo) : (image p info).roots = image p info.roots := by
  cases info with
  | call c =>
    simp only [image_call, FrameInfo.roots, image_func, image_callReceiver, image_args,
      image_scratch, image_newObject, image_appendRoots, toList_imageOption]
    rw [← image_append, ← image_cons, ← image_cons, ofValues_image]
    rfl
  | «try» phase completion =>
    cases completion with
    | none => rfl
    | some c => simp [FrameInfo.roots]
  | _ => simp [FrameInfo.roots]

theorem within_rootsCall (c : CallInfo) :
    Within p (FrameInfo.call c).roots ↔ Within p c := by
  have hcall : Within p c ↔ Within p c.func ∧ Within p c.receiver ∧ Within p c.args ∧
      Within p c.scratch ∧ Within p c.newObject :=
    ⟨fun h => ⟨h.func, h.receiver, h.args, h.scratch, h.newObject⟩,
      fun h => ⟨h.1, h.2.1, h.2.2.1, h.2.2.2.1, h.2.2.2.2⟩⟩
  simp only [hcall, FrameInfo.roots, within_appendRoots, within_ofValues, within_cons,
    within_append, within_roots, within_toList, within_nil, and_true]
  tauto

theorem within_rootsInfo (info : FrameInfo) : Within p info.roots ↔ Within p info := by
  cases info with
  | none =>
    have hnone : Within p FrameInfo.none ↔ True := .rfl
    simp [FrameInfo.roots, hnone]
  | operands values =>
    have hoperands : Within p (FrameInfo.operands values) ↔ Within p values := .rfl
    simp [FrameInfo.roots, hoperands]
  | call c => exact within_rootsCall p c
  | «try» phase completion =>
    have htry : Within p (FrameInfo.try phase completion) ↔ Within p completion := .rfl
    rw [htry]
    cases completion with
    | none => simp [FrameInfo.roots]
    | some c =>
      have hcompletion : Within p c ↔ Within p c.value := .rfl
      simp [FrameInfo.roots, hcompletion]
  | switch discriminant clause statement isMatched =>
    have hswitch : Within p (FrameInfo.switch discriminant clause statement isMatched) ↔
      Within p discriminant := .rfl
    simp [FrameInfo.roots, hswitch]
  | forIn keys index subject =>
    have hforIn : Within p (FrameInfo.forIn keys index subject) ↔ Within p subject := .rfl
    simp [FrameInfo.roots, hforIn]
  | object id =>
    have hobject : Within p (FrameInfo.object id) ↔ Within p id := .rfl
    simp [FrameInfo.roots, hobject]
  | program completion =>
    have hprogram : Within p (FrameInfo.program completion) ↔ Within p completion := .rfl
    simp [FrameInfo.roots, hprogram]

/-- The handles of the items of a list, one after another. -/
theorem roots_imageList {α : Type} [Carried α] {r : α → Roots}
    (hr : ∀ x, r (image p x) = image p (r x)) (l : List α) :
    (image p l).foldr (fun x acc => r x ++ acc) ({} : Roots) =
      image p (l.foldr (fun x acc => r x ++ acc) ({} : Roots)) := by
  induction l with
  | nil => rfl
  | cons x rest ih =>
    rw [image_cons, List.foldr_cons, List.foldr_cons, ih, hr, image_appendRoots]

theorem within_rootsList {α : Type} [Carried α] {r : α → Roots}
    (hr : ∀ x, Within p (r x) ↔ Within p x) (l : List α) :
    Within p (l.foldr (fun x acc => r x ++ acc) ({} : Roots)) ↔ Within p l := by
  induction l with
  | nil => simp
  | cons x rest ih => rw [List.foldr_cons, within_appendRoots, hr, ih, within_cons]

theorem roots_imageFrame (f : Frame) : (image p f).roots = image p f.roots := by
  have hnode : (image p f.node).map NodeRef.program = image p (f.node.map NodeRef.program) := by
    cases f.node <;> rfl
  unfold Frame.roots
  rw [image_frameValue, image_frameScope, image_frameReference, image_frameNode, image_info,
    object?_image, toList_imageOption, hnode, toList_imageOption, roots_imageInfo]
  cases f.reference with
  | none => simp
  | some r => simp [roots_imageReference]

theorem within_rootsFrame (f : Frame) : Within p f.roots ↔ Within p f := by
  have hframe : Within p f ↔ Within p f.node ∧ Within p f.scope ∧ Within p f.value ∧
      Within p f.reference ∧ Within p f.info :=
    ⟨fun h => ⟨h.node, h.scope, h.value, h.reference, h.info⟩,
      fun h => ⟨h.1, h.2.1, h.2.2.1, h.2.2.2.1, h.2.2.2.2⟩⟩
  have hnode : Within p (f.node.map NodeRef.program) ↔ Within p f.node := by
    cases f.node with
    | none => simp
    | some node =>
      have hprogram : Within p node ↔ Within p node.program := .rfl
      simp [hprogram]
  rw [hframe]
  unfold Frame.roots
  simp only [within_appendRoots, within_roots, within_toList, within_object?_iff, within_cons,
    within_nil, and_true, hnode, within_rootsInfo]
  cases f.reference with
  | none => simp; tauto
  | some r => simp [within_rootsReference]; tauto

theorem roots_imageFrames (frames : List Frame) :
    (image p frames).foldr (fun f acc => f.roots ++ acc) ({} : Roots) =
      image p (frames.foldr (fun f acc => f.roots ++ acc) ({} : Roots)) :=
  roots_imageList p (roots_imageFrame p) frames

theorem within_rootsFrames (frames : List Frame) :
    Within p (frames.foldr (fun f acc => f.roots ++ acc) ({} : Roots)) ↔ Within p frames :=
  within_rootsList p (within_rootsFrame p) frames

theorem roots_imageThread (t : Thread) : (image p t).roots = image p t.roots := by
  unfold Thread.roots
  rw [image_outcome, image_stack, image_frames, roots_imageFrames]
  cases t.outcome with
  | none => rfl
  | some o =>
    cases o with
    | killed => rfl
    | completed v => exact (congrArg _ (ofValue_imageRoots p v)).trans (image_appendRoots p _ _).symm
    | threw v => exact (congrArg _ (ofValue_imageRoots p v)).trans (image_appendRoots p _ _).symm

theorem within_rootsThread (t : Thread) : Within p t.roots ↔ Within p t := by
  have hthread : Within p t ↔ Within p t.stack.frames ∧ Within p t.outcome :=
    ⟨fun h => ⟨h.stack, h.outcome⟩, fun h => ⟨h.1, h.2⟩⟩
  rw [hthread]
  unfold Thread.roots
  cases t.outcome with
  | none => simp [within_rootsFrames]
  | some o =>
    cases o with
    | killed =>
      have hkilled : Within p Outcome.killed ↔ True := .rfl
      simp [within_rootsFrames, hkilled]
    | completed v =>
      have hcompleted : Within p (Outcome.completed v) ↔ Within p v := .rfl
      simp [within_rootsFrames, hcompleted]
    | threw v =>
      have hthrew : Within p (Outcome.threw v) ↔ Within p v := .rfl
      simp [within_rootsFrames, hthrew]

/-! ## Machines -/

theorem roots_imageMachine {m m' : Machine} (hglobal : m'.globalScope = image p m.globalScope)
    (hroot : m'.rootOwner = image p m.rootOwner) (hbuiltins : m'.builtins = image p m.builtins)
    (hthreads : m'.threads = image p m.threads) : m'.roots = image p m.roots := by
  unfold Machine.roots
  rw [hglobal, hroot, hbuiltins, hthreads, values_image, ofValues_image,
    roots_imageList p (roots_imageThread p)]
  simp

theorem within_rootsMachine (m : Machine) : Within p m.roots ↔ Within p m.rootOwner ∧
    Within p m.globalScope ∧ Within p m.builtins ∧ Within p m.threads := by
  unfold Machine.roots
  simp only [within_appendRoots, within_roots, within_cons, within_nil, and_true,
    within_ofValues, within_values, within_rootsList p (within_rootsThread p)]
  tauto

end Slots

end ScriptMachine
