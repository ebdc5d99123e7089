import ScriptMachine.Proofs.Edits
import ScriptMachine.Proofs.Plain

/-!
# Effects of operations on scopes and objects

Operations that read change nothing; the others make a few changes, each authorized for the actor
or made to an object that is being built.
-/

namespace ScriptMachine.Machine

open Exec

variable {old : ObjectId → Prop} {scope : ScopeId} {actor : Option Owner}

/-! ## Bindings -/

/-- What the owner of the scope is asked for is the actor, and asking changes nothing. -/
theorem doesAt_scopeOwner {m : Machine} (hacts : m.ActsAs scope actor) :
    DoesAt old actor m (fun owner m' => m' = m ∧ owner = actor) (scopeOwner scope) := by
  obtain ⟨s, hs, rfl⟩ := hacts
  have hrun : scopeOwner scope m = .ok s.owner m := by
    unfold scopeOwner heapQuery query
    dsimp only
    rw [Heap.scope_eq_ok_iff.2 hs]
    rfl
  refine ⟨by rw [after_of_ok hrun], fun owner m' h => ?_⟩
  rw [hrun] at h
  cases h
  exact ⟨rfl, rfl⟩

theorem does_scopeOwner : Does scope actor (· = actor) (scopeOwner scope) :=
  fun _ _ _ hacts => (doesAt_scopeOwner hacts).mono fun _ _ h => h.2

/-! ## Parts at one machine -/

theorem doesAt_query {α : Type} {m : Machine} (f : Machine → Except Failure α) :
    DoesAt old actor m (fun a m' => m' = m ∧ f m = .ok a) (query f) := by
  refine ⟨by rw [after_query], fun a m' h => ?_⟩
  obtain ⟨ha, rfl⟩ := query_eq_ok_iff.1 h
  exact ⟨rfl, ha⟩

theorem doesAt_throw {α : Type} {m : Machine} {Q : α → Machine → Prop} (e : Failure) :
    DoesAt old actor m Q (throw e : Exec α) :=
  ⟨.refl, fun _ _ h => by cases h⟩

theorem doesAt_throw_bind {α β : Type} {m : Machine} {Q : β → Machine → Prop} (e : Failure)
    (f : α → Exec β) : DoesAt old actor m Q ((throw e : Exec α) >>= f) :=
  ⟨.refl, fun _ _ h => by cases h⟩

theorem doesAt_pure {α : Type} {m : Machine} {Q : α → Machine → Prop} {a : α} (h : Q a m) :
    DoesAt old actor m Q (pure a : Exec α) := by
  refine ⟨.refl, fun b m' hb => ?_⟩
  cases hb
  exact h

/-! ## Objects -/

/-- What is allocated is new. -/
theorem doesAt_alloc {m : Machine} (hh : m.heap.Holds old) (o : Object) :
    DoesAt old actor m (fun id _ => ¬ old id) (alloc o) := by
  refine ⟨.single (.allocObject o), fun id m' h => ?_⟩
  cases h
  exact hh.not_old_allocObject o

theorem doesAt_createPlainObject {m : Machine} (hh : m.heap.Holds old) (owner : Option Owner) :
    DoesAt old actor m (fun id _ => ¬ old id) (createPlainObject owner) := by
  refine (doesAt_query _).bind fun proto m' _ hm' => ?_
  obtain ⟨rfl, -⟩ := hm'
  exact doesAt_alloc hh _

/-- An object that is being made gets properties. -/
theorem doesAt_build {m : Machine} {id : ObjectId} (hnew : ¬ old id) {f : Object → Object}
    (hf : ∀ o : Object, o.SameShell (f o)) :
    DoesAt old actor m (fun _ _ => True) (modifyObject id f) := by
  refine (doesAt_query _).bind fun _ m' _ _ => ?_
  exact ⟨.single (.build id f hnew hf), fun _ _ _ => trivial⟩

theorem sameShell_put (o : Object) (key : String) (p : Property) :
    o.SameShell (o.put key p) :=
  ⟨rfl, rfl, rfl, rfl, rfl⟩

/-! ## Edits -/

theorem doesAt_setProperty (m : Machine) (base : Value) (key : String) (v : Value) :
    DoesAt old actor m (fun _ _ => True) (setProperty base key v actor) := by
  cases base with
  | object id =>
    exact (edits_setProperty m id key v actor).doesAt rfl fun _ _ h => .once h.edit
  | _ => exact doesAt_throw _

theorem doesAt_defineProperty (m : Machine) (id : ObjectId) (key : String) (d : Descriptor) :
    DoesAt old actor m (fun _ _ => True) (defineProperty id key d actor) :=
  (edits_defineProperty m id key d actor).doesAt rfl fun _ _ h => h.rewritten

theorem doesAt_deleteProperty (m : Machine) (id : ObjectId) (key : String) :
    DoesAt old actor m (fun _ _ => True) (deleteProperty id key actor) :=
  (edits_deleteProperty m id key actor).doesAt rfl fun _ _ h => .once h.edit

theorem doesAt_setPrototype (m : Machine) (id : ObjectId) (proto : Option ObjectId) :
    DoesAt old actor m (fun _ _ => True) (setPrototype id proto actor) :=
  (edits_setPrototype m id proto actor).doesAt rfl fun _ _ h => .once h.edit

theorem doesAt_preventExtensions (m : Machine) (id : ObjectId) :
    DoesAt old actor m (fun _ _ => True) (preventExtensions id actor) :=
  (edits_preventExtensions m id actor).doesAt rfl fun _ _ h => .once h.edit

theorem doesAt_setOwnerOf (m : Machine) (id : ObjectId) (owner : Owner) :
    DoesAt old actor m (fun _ _ => True) (setOwnerOf id owner actor) :=
  (edits_setOwnerOf m id owner actor).doesAt rfl fun _ _ h => .once h.edit

/-! ## Closures -/

theorem effects_createClosure (node : NodeRef) (id : ScopeId) (owner : Option Owner) :
    Effects scope actor (createClosure node id owner) := by
  refine (effects_heapQuery _).bind fun f _ => ?_
  refine (effects_query _).bind fun functionProto _ => ?_
  intro old m hh _
  refine (doesAt_alloc hh _).bind fun func m₁ h₁ hfunc => ?_
  refine (doesAt_createPlainObject (h₁.holds hh) owner).bind fun proto m₂ _ hproto => ?_
  refine (doesAt_build hproto fun o => sameShell_put o _ _).bind fun _ m₃ _ _ => ?_
  refine (doesAt_build hfunc fun o => sameShell_put o _ _).bind fun _ m₄ _ _ => ?_
  exact doesAt_pure trivial

/-! ## Plain operations -/

theorem effects_host {α : Type} {f : Machine → α × Machine}
    (h : ∀ m, (f m).2.heap = m.heap ∧ (f m).2.threads = m.threads ∧ m.SameSettings (f m).2) :
    Effects scope actor (modifyGet f : Exec α) :=
  effects_modifyGet fun _ m => .host _ (h m).1 (h m).2.1 (h m).2.2

theorem effects_load (source : String) : Effects scope actor (load source) := by
  unfold load
  split
  · exact does_throw _
  · rename_i program hparse
    exact effects_modifyGet fun _ m => .load source program hparse

/-- Plain operations make changes of the owner that their scope acts as, if they edit objects for that
owner. -/
theorem effects : Plain (· = actor) (Effects scope actor) where
  pure _ := does_pure trivial
  throw := does_throw
  bind hx hf := hx.bind fun a _ => hf a
  get := effects_get
  query := effects_query
  alloc o := effects_modifyGet fun _ _ => .allocObject o
  allocScope s := effects_modifyGet fun _ _ => .allocScope s
  modifyScope id f hf := effects_modify fun _ _ => .bind id f hf
  load := effects_load
  now := effects_host fun _ => ⟨rfl, rfl, rfl, rfl, rfl, rfl, rfl, rfl, Nat.le_refl _⟩
  write _ _ := effects_host fun _ => ⟨rfl, rfl, rfl, rfl, rfl, rfl, rfl, rfl, Nat.le_refl _⟩
  random _ := effects_host fun _ => ⟨rfl, rfl, rfl, rfl, rfl, rfl, rfl, rfl, Nat.le_refl _⟩
  setProperty base key v actor hactor := by
    subst hactor
    exact fun _ m _ _ => doesAt_setProperty m base key v
  defineProperty id key d actor hactor := by
    subst hactor
    exact fun _ m _ _ => doesAt_defineProperty m id key d
  deleteProperty id key actor hactor := by
    subst hactor
    exact fun _ m _ _ => doesAt_deleteProperty m id key
  setPrototype id proto actor hactor := by
    subst hactor
    exact fun _ m _ _ => doesAt_setPrototype m id proto
  preventExtensions id actor hactor := by
    subst hactor
    exact fun _ m _ _ => doesAt_preventExtensions m id
  setOwnerOf id owner actor hactor := by
    subst hactor
    exact fun _ m _ _ => doesAt_setOwnerOf m id owner
  createClosure := effects_createClosure
  build owner f hf a := fun old m hh _ => by
    refine (doesAt_createPlainObject hh owner).bind fun id m₁ _ hid => ?_
    exact (doesAt_build hid hf).bind fun _ m₂ _ _ => doesAt_pure trivial

/-- The owner that the scope acts as is the actor. -/
theorem effects_acting :
    Acting scope (· = actor) (Effects scope actor) (Effects scope actor) where
  toWriting := effects.writing
  owned hk := does_scopeOwner.bind hk

/-! ## Threads -/

theorem doesAt_modifyThread {m : Machine} (id : ThreadId) {f : Thread → Thread}
    (hf : ∀ t : Thread, m.thread? id = some t → t.KeepsScopes (f t)) :
    DoesAt old actor m (fun _ _ => True) (modifyThread id f) := by
  refine ⟨?_, fun _ _ _ => trivial⟩
  rw [after, modifyThread_run]
  by_cases hall : m.threads.all (·.id != id)
  · rw [if_pos hall]
  · rw [if_neg hall]
    exact .single (.thread id f hf)

theorem effects_modifyThread (id : ThreadId) {f : Thread → Thread}
    (hf : ∀ t : Thread, t.KeepsScopes (f t)) : Effects scope actor (modifyThread id f) :=
  fun _ _ _ _ => doesAt_modifyThread id fun t _ => hf t

theorem keepsScopes_of_stack_eq {t u : Thread} (hid : u.id = t.id) (hstack : u.stack = t.stack) :
    t.KeepsScopes u :=
  ⟨hid, fun f hf => ⟨f, hstack ▸ hf, rfl⟩⟩

theorem keepsScopes_finish (t : Thread) (outcome : Outcome) : t.KeepsScopes (t.finish outcome) :=
  ⟨rfl, fun _ hf => by cases hf⟩

theorem effects_killThread (id : ThreadId) : Effects scope actor (killThread id) := by
  refine effects_get.bind fun m _ => ?_
  split
  · split
    · exact does_pure trivial
    · exact (effects_modifyThread id fun t => keepsScopes_finish t _).bind
        fun _ _ => does_pure trivial
  · exact does_pure trivial

theorem effects_setTimeLimit (id : ThreadId) (limit : Option Float) :
    Effects scope actor (setTimeLimit id limit) :=
  effects_modifyThread id fun _ => keepsScopes_of_stack_eq rfl rfl

theorem effects_checkTimeLimit (thread : ThreadId) :
    Effects scope actor (checkTimeLimit thread) := by
  refine effects.now.bind fun time _ => effects_get.bind fun m _ => ?_
  split
  · exact does_throw _
  · split
    · exact does_pure trivial
    · split
      · refine (effects_modifyThread thread ?_).bind fun _ _ => does_throw _
        exact fun _ => keepsScopes_of_stack_eq rfl rfl
      · exact does_pure trivial

theorem effects_takeQueuePosition : Effects scope actor takeQueuePosition := by
  refine effects_get.bind fun m _ => (effects_query _).bind fun next _ => ?_
  refine Does.bind (P := fun _ => True) ?_ fun _ _ => does_pure trivial
  exact effects_host fun _ => ⟨rfl, rfl, rfl, rfl, rfl, rfl, rfl, rfl, Nat.le_refl _⟩

theorem effects_takeEarly (thread : ThreadId) : Effects scope actor (takeEarly thread) :=
  effects_host fun _ => ⟨rfl, rfl, rfl, rfl, rfl, rfl, rfl, rfl, Nat.le_refl _⟩

/-- A new thread gets the next number and starts on its base frame alone. -/
theorem newThread_cases (base : Frame) (delay : Float) (keepOutcome : Bool) (m : Machine) :
    (∃ e m', newThread base delay keepOutcome m = .error e m' ∧ m'.heap = m.heap ∧
      m'.threads = m.threads ∧ m.SameSettings m') ∨
    ∃ t m', newThread base delay keepOutcome m = .ok t.id m' ∧ t.stack.frames = [base] ∧
      t.id.index = m.nextThreadId ∧ m'.heap = m.heap ∧ m'.threads = insertThread t m.threads ∧
      m'.nextThreadId = m.nextThreadId + 1 ∧ m.SameSettings m' := by
  by_cases hid : m.nextThreadId + 1 < Nat.pow 2 64
  · have hnext : nextCount m.nextThreadId = .ok (m.nextThreadId + 1) := by
      rw [nextCount, if_pos hid]
    by_cases hqueue : m.nextQueued + 1 < Nat.pow 2 64
    · have hqueued : nextCount m.nextQueued = .ok (m.nextQueued + 1) := by
        rw [nextCount, if_pos hqueue]
      right
      let t : Thread :=
        { id := ⟨m.nextThreadId⟩, status := if validDelay delay > 0 then .sleeping else .ready
          stack := .ofList [base], runAt := m.previousElapsed + m.clock.now + validDelay delay
          queued := m.nextQueued, timeLimit := m.config.defaultTimeLimit
          runStarted := m.previousElapsed + m.clock.now + validDelay delay, keepOutcome }
      refine ⟨t, { m with
        nextThreadId := m.nextThreadId + 1, clockStarted := true, clock := m.clock.read.2
        nextQueued := m.nextQueued + 1, threads := insertThread t m.threads }, ?_,
        rfl, rfl, rfl, rfl, rfl, rfl, rfl, rfl, rfl, rfl, rfl, Nat.le_succ _⟩
      simp only [newThread, takeQueuePosition, now, bind_run, get_run, modify_run, modifyGet_run,
        query, hnext, hqueued]
      rfl
    · have hqueued : nextCount m.nextQueued = .error .overflow := by
        rw [nextCount, if_neg hqueue]
      left
      refine ⟨.overflow, { m with
        nextThreadId := m.nextThreadId + 1, clockStarted := true, clock := m.clock.read.2 }, ?_,
        rfl, rfl, rfl, rfl, rfl, rfl, rfl, rfl, Nat.le_succ _⟩
      simp only [newThread, takeQueuePosition, now, bind_run, get_run, modify_run, modifyGet_run,
        query, hnext, hqueued]
  · have hnext : nextCount m.nextThreadId = .error .overflow := by
      rw [nextCount, if_neg hid]
    left
    refine ⟨.overflow, m, ?_, rfl, rfl, .refl m⟩
    simp only [newThread, bind_run, get_run, query, hnext]

/-- A new scope is live and acts as the owner it was made for. -/
theorem doesAt_newScope {m : Machine} (ht : m.heap.Tidy) (kind : ScopeKind)
    (outer : Option ScopeId) (owner : Option Owner) (receiver : Option Value) :
    DoesAt old actor m (fun id m' => m'.ActsAs id owner) (newScope kind outer owner receiver) := by
  have halloc : ∀ v, DoesAt old actor m (fun id m' => m'.ActsAs id owner)
      (allocScope { kind, owner, outer, receiver := v }) := by
    intro v
    refine ⟨.single (.allocScope _), fun id m' h => ?_⟩
    cases h
    exact ⟨_, ht.allocScope_self _, rfl⟩
  unfold newScope
  split
  · exact halloc _
  · refine (doesAt_query _).bind fun s m' _ hm' => ?_
    obtain ⟨rfl, -⟩ := hm'
    exact halloc _
  · exact halloc _

theorem doesAt_newThread {m : Machine} {base : Frame} (hbase : m.ActsAs base.scope actor)
    (delay : Float) (keepOutcome : Bool) :
    DoesAt old actor m (fun _ _ => True) (newThread base delay keepOutcome) := by
  refine ⟨?_, fun _ _ _ => trivial⟩
  rcases newThread_cases base delay keepOutcome m with
    ⟨e, m', hrun, hheap, hthreads, hsettings⟩ |
    ⟨t, m', hrun, hframes, hid, hheap, hthreads, hnext, hsettings⟩
  · rw [after_of_error hrun]
    exact .single (.host m' hheap hthreads hsettings)
  · rw [after_of_ok hrun]
    refine .single (.spawn t m' hid (by omega) hheap ?_ hthreads hsettings)
    intro f hf
    rw [hframes, List.mem_singleton] at hf
    exact hf ▸ hbase

/-- A thread started for an owner acts as that owner. -/
theorem doesAt_spawnCallAs {m : Machine} (ht : m.heap.Tidy) (func receiver : Value)
    (args : List Value) (delay : Float) (owner : Owner) (keepOutcome : Bool) :
    DoesAt old (some owner) m (fun _ _ => True)
      (spawnCallAs func receiver args delay owner keepOutcome) := by
  unfold spawnCallAs
  refine doesAt_get_bind ?_
  dsimp only
  split
  · exact doesAt_get_bind (doesAt_throw_bind _ _)
  · refine doesAt_get_bind ?_
    refine (doesAt_newScope ht _ _ _ _).bind fun id m' _ hid => ?_
    exact doesAt_newThread hid delay keepOutcome

theorem effects_spawnCallAs (func receiver : Value) (args : List Value) (delay : Float)
    (owner : Owner) (keepOutcome : Bool) :
    Effects scope (some owner) (spawnCallAs func receiver args delay owner keepOutcome) :=
  fun _ _ hh _ => doesAt_spawnCallAs hh.toTidy func receiver args delay owner keepOutcome

end ScriptMachine.Machine
