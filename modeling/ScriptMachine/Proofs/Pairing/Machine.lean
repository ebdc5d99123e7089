import ScriptMachine.Proofs.Execution
import ScriptMachine.Proofs.Threads
import ScriptMachine.Proofs.Pairing.Heap

/-!
# Paired machines

Two machines are paired when everything that a program or the host can tell apart is the same up to
handles. An operation mirrors another one when it takes paired machines to paired machines with the
same result, and follows it when both may have allocated something on the way.
-/

namespace ScriptMachine

open Exec

/-- A change of counters and services of the host that depends on nothing else. -/
structure Machine.HostOnly (g : Machine → Machine) : Prop where
  frame : ∀ m heap globalScope rootOwner builtins hostValues threads earlySettlements config,
    g { m with
      heap, globalScope, rootOwner, builtins, hostValues, threads, earlySettlements, config } =
      { g m with
        heap, globalScope, rootOwner, builtins, hostValues, threads, earlySettlements, config }
  nextThreadId : ∀ m, (g m).nextThreadId = m.nextThreadId
  policy : ∀ m, (g m).policy = m.policy

/-! ## Machines -/

namespace Pairing

/-- The state of a thread can still be told: it has not finished, its outcome is kept, or it is
being stepped. -/
def shows (p : Pairing) (t : Thread) : Bool :=
  !t.isZombie || t.keepOutcome || p.actor == some t.id

theorem shows_image (p : Pairing) (t : Thread) : p.shows (image p t) = p.shows t := rfl

theorem shows_of_le {p q : Pairing} (h : p ≤ q) : q.shows = p.shows := by
  unfold shows
  rw [show q.actor = p.actor from h.actor]

/-- Two machines are the same up to handles, garbage, threads that nobody waits for and the state
of the collector. Where the handles differ the policy looks at no more than which are the same. -/
structure Machines (p : Pairing) (m m' : Machine) : Prop where
  same : p.whole → m' = m
  compares : p.whole ∨ m.policy.ComparesOwners
  heap : p.Heaps m.heap m'.heap
  globalScope : p.Pairs m.globalScope m'.globalScope
  rootOwner : p.Pairs m.rootOwner m'.rootOwner
  builtins : p.Pairs m.builtins m'.builtins
  threads : p.Pairs (m.threads.filter p.shows) (m'.threads.filter p.shows)
  sorted : Machine.Sorted m.threads m.nextThreadId
  sorted' : Machine.Sorted m'.threads m'.nextThreadId
  early : p.Pairs m.earlySettlements m'.earlySettlements
  rest : m' = { m with
    heap := m'.heap
    globalScope := m'.globalScope
    rootOwner := m'.rootOwner
    builtins := m'.builtins
    hostValues := m'.hostValues
    threads := m'.threads
    earlySettlements := m'.earlySettlements
    config := { m.config with gcThreshold := m'.config.gcThreshold } }

variable {p q : Pairing} {m m' : Machine}

namespace Machines

section Fields

variable (h : p.Machines m m')

include h

theorem nextThreadId : m'.nextThreadId = m.nextThreadId :=
  (congrArg Machine.nextThreadId h.rest).trans rfl
theorem nextQueued : m'.nextQueued = m.nextQueued :=
  (congrArg Machine.nextQueued h.rest).trans rfl
theorem currentThread : m'.currentThread = m.currentThread :=
  (congrArg Machine.currentThread h.rest).trans rfl
theorem lastStepped : m'.lastStepped = m.lastStepped :=
  (congrArg Machine.lastStepped h.rest).trans rfl
theorem status : m'.status = m.status :=
  (congrArg Machine.status h.rest).trans rfl
theorem pendingResolvers : m'.pendingResolvers = m.pendingResolvers :=
  (congrArg Machine.pendingResolvers h.rest).trans rfl
theorem previousElapsed : m'.previousElapsed = m.previousElapsed :=
  (congrArg Machine.previousElapsed h.rest).trans rfl
theorem clockStarted : m'.clockStarted = m.clockStarted :=
  (congrArg Machine.clockStarted h.rest).trans rfl
theorem clock : m'.clock = m.clock :=
  (congrArg Machine.clock h.rest).trans rfl
theorem random : m'.random = m.random :=
  (congrArg Machine.random h.rest).trans rfl
theorem console : m'.console = m.console :=
  (congrArg Machine.console h.rest).trans rfl
theorem policy : m'.policy = m.policy :=
  (congrArg Machine.policy h.rest).trans rfl
theorem maxStackDepth : m'.config.maxStackDepth = m.config.maxStackDepth :=
  (congrArg (·.config.maxStackDepth) h.rest).trans rfl
theorem defaultTimeLimit : m'.config.defaultTimeLimit = m.config.defaultTimeLimit :=
  (congrArg (·.config.defaultTimeLimit) h.rest).trans rfl

/-! ### Threads -/

/-- A thread that is shown is the same on both sides, and one that is not is shown on neither. -/
theorem shown (id : ThreadId) :
    p.Pairs ((m.thread? id).filter p.shows) ((m'.thread? id).filter p.shows) := by
  unfold Machine.thread?
  rw [Machine.filter_find? id p.shows h.sorted.ascending,
    Machine.filter_find? id p.shows h.sorted'.ascending, h.threads.eq]
  refine ⟨fun t ht => h.threads.within t (List.mem_of_find?_eq_some ht), ?_⟩
  exact List.find?_map

theorem thread?_actor {id : ThreadId} (hid : p.actor = some id) :
    p.Pairs (m.thread? id) (m'.thread? id) := by
  have hshown : ∀ n : Machine, (n.thread? id).filter p.shows = n.thread? id := by
    intro n
    cases ht : n.thread? id with
    | none => rfl
    | some t =>
      have htid : t.id = id := by simpa using List.find?_some ht
      simp [Option.filter, shows, htid, hid]
  have hpairs := h.shown id
  rwa [hshown, hshown] at hpairs

/-- A thread that is shown has the same number and state on the other side. -/
theorem thread?_of_shows {id : ThreadId} {t : Thread} (ht : m.thread? id = some t)
    (hshows : p.shows t = true) : Within p t ∧ m'.thread? id = some (image p t) := by
  have hpairs := h.shown id
  rw [ht, Option.filter_some_pos hshows] at hpairs
  refine ⟨hpairs.within t rfl, ?_⟩
  have heq := hpairs.eq
  rw [image_some] at heq
  exact (Option.filter_eq_some_iff.1 heq).1

/-- A thread that is not shown is not shown on the other side. -/
theorem thread?_of_not_shows {id : ThreadId} (ht : ∀ t, m.thread? id = some t → p.shows t = false)
    {t' : Thread} (ht' : m'.thread? id = some t') : p.shows t' = false := by
  have hpairs := h.shown id
  have hnone : (m.thread? id).filter p.shows = none := by
    cases hget : m.thread? id with
    | none => rfl
    | some t => simp [Option.filter, ht t hget]
  have heq := hpairs.eq
  rw [hnone, image_none, ht'] at heq
  cases hshows : p.shows t' with
  | false => rfl
  | true => simp [Option.filter, hshows] at heq

/-- Every thread is changed the same way on both sides; what is not shown stays so. -/
theorem mapThreads {g g' : Thread → Thread} (hid : ∀ t, (g t).id = t.id)
    (hid' : ∀ t, (g' t).id = t.id) (hwithin : ∀ t, Within p t → Within p (g t))
    (himage : ∀ t, g' (image p t) = image p (g t))
    (hhidden : ∀ t ∈ m.threads, p.shows t = false → p.shows (g t) = false)
    (hhidden' : ∀ t ∈ m'.threads, p.shows t = false → p.shows (g' t) = false) :
    p.Machines { m with threads := m.threads.map g } { m' with threads := m'.threads.map g' } := by
  have hfilter : ∀ (l : List Thread) (k : Thread → Thread),
      (∀ t ∈ l, p.shows t = false → p.shows (k t) = false) →
      (l.map k).filter p.shows = ((l.filter p.shows).map k).filter p.shows := by
    intro l k hk
    induction l with
    | nil => rfl
    | cons t rest ih =>
      have hrest := ih fun u hu => hk u (List.mem_cons_of_mem t hu)
      by_cases ht : p.shows t
      · by_cases hkt : p.shows (k t) <;> simp [ht, hkt, hrest]
      · simp [ht, hk t List.mem_cons_self (by simpa using ht), hrest]
  refine { h with
    same := fun hwhole => ?_
    threads := ?_
    sorted := h.sorted.map hid
    sorted' := h.sorted'.map hid'
    rest := congrArg (fun n : Machine => { n with threads := m'.threads.map g' }) h.rest }
  · obtain rfl := h.same hwhole
    have hfixes := (h.heap.same hwhole).1
    have hg : g' = g := funext fun t => by
      have heq := himage t
      rwa [Carried.image_of_fixes hfixes, Carried.image_of_fixes hfixes] at heq
    rw [hg]
  rw [hfilter _ g hhidden, hfilter _ g' hhidden', h.threads.eq]
  refine ⟨fun t ht => ?_, ?_⟩
  · obtain ⟨u, hu, rfl⟩ := List.mem_map.1 (List.mem_of_mem_filter ht)
    exact hwithin u (h.threads.within u hu)
  · change List.filter p.shows (List.map g' (List.map (image p) _)) =
      List.map (image p) (List.filter p.shows (List.map g _))
    rw [List.map_map, show g' ∘ image p = image p ∘ g from funext himage, ← List.map_map,
      List.filter_map]
    rfl

/-- A thread is changed the same way on both sides. It is shown where it exists, or the change does
not bring it back. -/
theorem updateThread {id : ThreadId} {g g' : Thread → Thread} (hid : ∀ t, (g t).id = t.id)
    (hid' : ∀ t, (g' t).id = t.id) (hwithin : ∀ t, Within p t → Within p (g t))
    (himage : ∀ t, g' (image p t) = image p (g t))
    (hshows : ∀ t, m.thread? id = some t → p.shows t = true)
    (hshows' : ∀ t, m'.thread? id = some t → p.shows t = true) :
    p.Machines { m with threads := Machine.updateThread id g m.threads }
      { m' with threads := Machine.updateThread id g' m'.threads } := by
  rw [Machine.updateThread_eq_map h.sorted.ascending,
    Machine.updateThread_eq_map h.sorted'.ascending]
  refine h.mapThreads (fun t => ?_) (fun t => ?_) (fun t ht => ?_) (fun t => ?_)
    (fun t ht hhidden => ?_) (fun t ht hhidden => ?_)
  · split
    · exact hid t
    · rfl
  · split
    · exact hid' t
    · rfl
  · split
    · exact hwithin t ht
    · exact ht
  · rw [image_id]
    split
    · exact himage t
    · rfl
  · split
    · rename_i heq
      have := hshows t (h.sorted.find?_eq ht (by simpa using heq))
      rw [hhidden] at this
      cases this
    · exact hhidden
  · split
    · rename_i heq
      have := hshows' t (h.sorted'.find?_eq ht (by simpa using heq))
      rw [hhidden] at this
      cases this
    · exact hhidden

/-! ### Other fields -/

/-- Both machines go on with counters and services of the host changed alike. -/
theorem host {g : Machine → Machine} (hg : Machine.HostOnly g) : p.Machines (g m) (g m') := by
  have hself : g m = { g m with
      heap := m.heap, globalScope := m.globalScope, rootOwner := m.rootOwner
      builtins := m.builtins, hostValues := m.hostValues, threads := m.threads
      earlySettlements := m.earlySettlements, config := m.config } := hg.frame m _ _ _ _ _ _ _ _
  have hother := hg.frame m m'.heap m'.globalScope m'.rootOwner m'.builtins m'.hostValues m'.threads
    m'.earlySettlements { m.config with gcThreshold := m'.config.gcThreshold }
  have hnext := hg.nextThreadId m
  have hcompares : p.whole ∨ (g m).policy.ComparesOwners := (hg.policy m).symm ▸ h.compares
  have hsame (hwhole : p.whole) : g m' = g m := congrArg g (h.same hwhole)
  rw [← h.rest] at hother
  rw [hother, hself] at hsame ⊢
  rw [hself] at hcompares
  exact { h with
    same := hsame
    compares := hcompares
    sorted := hnext ▸ h.sorted
    sorted' := hnext ▸ h.nextThreadId ▸ h.sorted'
    rest := rfl }

/-- Other settlements are kept on both sides. -/
theorem setEarly {early early' : List (ThreadId × Settlement)} (hearly : p.Pairs early early') :
    p.Machines { m with earlySettlements := early } { m' with earlySettlements := early' } :=
  { h with
    same := fun hwhole => by
      rw [h.same hwhole, hearly.eq, Carried.image_of_fixes (h.heap.same hwhole).1]
    early := hearly
    rest := congrArg (fun n : Machine => { n with earlySettlements := early' }) h.rest }

/-- A number is issued to a thread. -/
theorem setNextThread {nextThreadId nextThreadId' : Nat} (heq : nextThreadId' = nextThreadId)
    (hle : m.nextThreadId ≤ nextThreadId) (clockStarted : Bool) :
    p.Machines { m with nextThreadId, clockStarted }
      { m' with nextThreadId := nextThreadId', clockStarted } := by
  subst heq
  exact { h with
    same := fun hwhole => by rw [h.same hwhole]
    sorted := ⟨h.sorted.ascending, fun t ht => Nat.lt_of_lt_of_le (h.sorted.issued t ht) hle⟩
    sorted' := ⟨h.sorted'.ascending, fun t ht =>
      Nat.lt_of_lt_of_le (h.sorted'.issued t ht) (Nat.le_trans (Nat.le_of_eq h.nextThreadId) hle)⟩
    rest := congrArg (fun n : Machine => { n with nextThreadId := nextThreadId', clockStarted })
      h.rest }

/-- A thread with a new number is put behind the others. -/
theorem insertThread {t t' : Thread} (ht : p.Pairs t t')
    (hnew : ∀ u ∈ m.threads, u.id.index < t.id.index)
    (hnew' : ∀ u ∈ m'.threads, u.id.index < t.id.index) (hissued : t.id.index < m.nextThreadId) :
    p.Machines { m with threads := Machine.insertThread t m.threads }
      { m' with threads := Machine.insertThread t' m'.threads } := by
  have hid : t'.id = t.id := by rw [ht.eq, image_id]
  rw [Machine.insertThread_eq_append hnew, Machine.insertThread_eq_append (hid.symm ▸ hnew')]
  refine { h with
    same := fun hwhole => by
      rw [h.same hwhole, ht.eq, Carried.image_of_fixes (h.heap.same hwhole).1]
    threads := ?_
    sorted := h.sorted.append hnew hissued
    sorted' := h.sorted'.append (hid.symm ▸ hnew') (hid.symm ▸ h.nextThreadId.symm ▸ hissued)
    rest := congrArg (fun n : Machine => { n with threads := m'.threads ++ [t'] }) h.rest }
  have hkept : p.Pairs ([t].filter p.shows) ([t'].filter p.shows) := by
    obtain ⟨hw, rfl⟩ := ht
    cases hshows : p.shows t with
    | false =>
      rw [List.filter_cons_of_neg (by simp [hshows]),
        List.filter_cons_of_neg (by simp [shows_image, hshows])]
      exact ⟨within_nil p, rfl⟩
    | true =>
      rw [List.filter_cons_of_pos hshows,
        List.filter_cons_of_pos (by rw [shows_image, hshows])]
      exact ⟨(within_cons p t []).2 ⟨hw, within_nil p⟩, rfl⟩
  rw [List.filter_append, List.filter_append]
  exact ⟨(within_append p _ _).2 ⟨h.threads.within, hkept.within⟩,
    by rw [h.threads.eq, hkept.eq, image_append]⟩

/-! ### Heaps -/

/-- Both machines go on with heaps that are paired in a pairing that may have grown. -/
theorem setHeap (hle : p ≤ q) {k k' : Heap} (hheap : q.Heaps k k') :
    q.Machines { m with heap := k } { m' with heap := k' } where
  same hwhole := by rw [h.same (hle.whole.1 hwhole), (hheap.same hwhole).2]
  compares := h.compares.imp_left hle.whole.2
  heap := hheap
  globalScope := h.globalScope.mono hle
  rootOwner := h.rootOwner.mono hle
  builtins := h.builtins.mono hle
  threads := by
    rw [shows_of_le hle]
    exact h.threads.mono hle
  sorted := h.sorted
  sorted' := h.sorted'
  early := h.early.mono hle
  rest := congrArg (fun n : Machine => { n with heap := k' }) h.rest

end Fields

end Machines

/-! ## Operations -/

variable {α β : Type} [Carried α] [Carried β]

/-- Two results are the same up to handles, and so are the machines left behind. -/
def Agree (p : Pairing) : EStateM.Result Failure Machine α → EStateM.Result Failure Machine α → Prop
  | .ok a n, .ok a' n' => p.Machines n n' ∧ p.Pairs a a'
  | .error e n, .error e' n' => p.Machines n n' ∧ p.Pairs e e'
  | _, _ => False

/-- Two results agree once what was allocated meanwhile is known. -/
def Leads (p : Pairing) (r r' : EStateM.Result Failure Machine α) : Prop :=
  ∃ q, p ≤ q ∧ q.Agree r r'

/-- An operation does on the second machine what another one does on the first. -/
def Mirrors (p : Pairing) (x x' : Exec α) : Prop :=
  ∀ m m', p.Machines m m' → p.Agree (x m) (x' m')

/-- An operation does on the second machine what another one does on the first, allocations
included. -/
def Follows (p : Pairing) (x x' : Exec α) : Prop :=
  ∀ m m', p.Machines m m' → p.Leads (x m) (x' m')

variable {x x' : Exec α}

theorem Agree.leads {r r' : EStateM.Result Failure Machine α} (h : p.Agree r r') : p.Leads r r' :=
  ⟨p, le_refl p, h⟩

theorem Leads.of_le {r r' : EStateM.Result Failure Machine α} (h : q.Leads r r') (hle : p ≤ q) :
    p.Leads r r' := by
  obtain ⟨s, hs, hagree⟩ := h
  exact ⟨s, le_trans hle hs, hagree⟩

theorem Mirrors.follows (h : p.Mirrors x x') : p.Follows x x' :=
  fun m m' hm => (h m m' hm).leads

theorem mirrors_pure {a a' : α} (h : p.Pairs a a') : p.Mirrors (pure a) (pure a') :=
  fun _ _ hm => ⟨hm, h⟩

theorem follows_pure {a a' : α} (h : p.Pairs a a') : p.Follows (pure a) (pure a') :=
  (mirrors_pure h).follows

theorem mirrors_throw {e e' : Failure} (h : p.Pairs e e') :
    p.Mirrors (throw e : Exec α) (throw e') :=
  fun _ _ hm => ⟨hm, h⟩

theorem follows_throw {e e' : Failure} (h : p.Pairs e e') :
    p.Follows (throw e : Exec α) (throw e') :=
  (mirrors_throw h).follows

theorem agree_bind {f f' : α → Exec β} (hx : p.Agree (x m) (x' m'))
    (hf : ∀ a n n', Within p a → p.Machines n n' → p.Agree (f a n) (f' (image p a) n')) :
    p.Agree ((x >>= f) m) ((x' >>= f') m') := by
  rw [bind_run, bind_run]
  revert hx
  cases x m with
  | ok a n =>
    cases x' m' with
    | ok a' n' =>
      rintro ⟨hn, ha⟩
      rw [ha.eq]
      exact hf a n n' ha.within hn
    | error e' n' => exact False.elim
  | error e n =>
    cases x' m' with
    | ok a' n' => exact False.elim
    | error e' n' => exact id

theorem leads_bind {f f' : α → Exec β} (hx : p.Leads (x m) (x' m'))
    (hf : ∀ q, p ≤ q → ∀ a a' n n', q.Pairs a a' → q.Machines n n' → q.Leads (f a n) (f' a' n')) :
    p.Leads ((x >>= f) m) ((x' >>= f') m') := by
  obtain ⟨q, hle, hx⟩ := hx
  rw [bind_run, bind_run]
  revert hx
  cases x m with
  | ok a n =>
    cases x' m' with
    | ok a' n' =>
      rintro ⟨hn, ha⟩
      exact (hf q hle a a' n n' ha hn).of_le hle
    | error e' n' => exact False.elim
  | error e n =>
    cases x' m' with
    | ok a' n' => exact False.elim
    | error e' n' => exact fun h => ⟨q, hle, h⟩

theorem Mirrors.bind {f f' : α → Exec β} (hx : p.Mirrors x x')
    (hf : ∀ a, Within p a → p.Mirrors (f a) (f' (image p a))) : p.Mirrors (x >>= f) (x' >>= f') :=
  fun m m' hm => agree_bind (hx m m' hm) fun a n n' ha hn => hf a ha n n' hn

theorem Mirrors.bind_follows {f f' : α → Exec β} (hx : p.Mirrors x x')
    (hf : ∀ a, Within p a → p.Follows (f a) (f' (image p a))) :
    p.Follows (x >>= f) (x' >>= f') := by
  intro m m' hm
  have hagree := hx m m' hm
  rw [bind_run, bind_run]
  revert hagree
  cases x m with
  | ok a n =>
    cases x' m' with
    | ok a' n' =>
      rintro ⟨hn, ha⟩
      rw [ha.eq]
      exact hf a ha.within n n' hn
    | error e' n' => exact False.elim
  | error e n =>
    cases x' m' with
    | ok a' n' => exact False.elim
    | error e' n' => exact fun h => Agree.leads (α := β) h

theorem Follows.bind {f f' : α → Exec β} (hx : p.Follows x x')
    (hf : ∀ q, p ≤ q → ∀ a a', q.Pairs a a' → q.Follows (f a) (f' a')) :
    p.Follows (x >>= f) (x' >>= f') :=
  fun m m' hm => leads_bind (hx m m' hm) fun q hle a a' n n' ha hn => hf q hle a a' ha n n' hn

omit [Carried α] in
theorem mirrors_throw_bind {e e' : Failure} (h : p.Pairs e e') (f f' : α → Exec β) :
    p.Mirrors (throw e >>= f) (throw e' >>= f') :=
  fun _ _ hm => ⟨hm, h⟩

omit [Carried α] in
theorem follows_throw_bind {e e' : Failure} (h : p.Pairs e e') (f f' : α → Exec β) :
    p.Follows (throw e >>= f) (throw e' >>= f') :=
  (mirrors_throw_bind h f f').follows

theorem mirrors_get_bind {f f' : Machine → Exec β}
    (hf : ∀ m m', p.Machines m m' → p.Mirrors (f m) (f' m')) :
    p.Mirrors (get >>= f) (get >>= f') :=
  fun m m' hm => hf m m' hm m m' hm

theorem follows_get_bind {f f' : Machine → Exec β}
    (hf : ∀ m m', p.Machines m m' → p.Follows (f m) (f' m')) :
    p.Follows (get >>= f) (get >>= f') :=
  fun m m' hm => hf m m' hm m m' hm

theorem mirrors_query {f f' : Machine → Except Failure α}
    (h : ∀ m m', p.Machines m m' → p.Pairs (f m) (f' m')) : p.Mirrors (query f) (query f') := by
  intro m m' hm
  have hpairs := h m m' hm
  unfold query
  rw [hpairs.eq]
  have hwithin := hpairs.within
  revert hwithin
  cases f m with
  | ok a => exact fun ha => ⟨hm, ha, rfl⟩
  | error e => exact fun he => ⟨hm, he, rfl⟩

theorem mirrors_heapQuery {f f' : Heap → Except Failure α}
    (h : ∀ k k', p.Heaps k k' → p.Pairs (f k) (f' k')) : p.Mirrors (heapQuery f) (heapQuery f') :=
  mirrors_query fun m m' hm => h m.heap m'.heap hm.heap

theorem mirrors_modify {f f' : Machine → Machine}
    (h : ∀ m m', p.Machines m m' → p.Machines (f m) (f' m')) :
    p.Mirrors (modify f : Exec Unit) (modify f') :=
  fun m m' hm => ⟨h m m' hm, trivial, rfl⟩

theorem mirrors_modifyGet {f f' : Machine → α × Machine}
    (h : ∀ m m', p.Machines m m' → p.Machines (f m).2 (f' m').2 ∧ p.Pairs (f m).1 (f' m').1) :
    p.Mirrors (modifyGet f : Exec α) (modifyGet f') :=
  fun m m' hm => h m m' hm

theorem mirrors_modifyHeap {f f' : Heap → Heap}
    (h : ∀ k k', p.Heaps k k' → p.Heaps (f k) (f' k')) :
    p.Mirrors (modifyHeap f) (modifyHeap f') :=
  mirrors_modify fun m m' hm => hm.setHeap (le_refl p) (h m.heap m'.heap hm.heap)

theorem agree_attempt (h : p.Agree (x m) (x' m')) :
    p.Agree (attempt x m) (attempt x' m') := by
  unfold Exec.attempt
  revert h
  cases x m with
  | ok a n =>
    cases x' m' with
    | ok a' n' => exact fun ⟨hn, ha⟩ => ⟨hn, ha.within, congrArg Except.ok ha.eq⟩
    | error e' n' => exact False.elim
  | error e n =>
    cases x' m' with
    | ok a' n' => exact False.elim
    | error e' n' =>
      rintro ⟨hn, he⟩
      obtain rfl := he.eq
      have hw := he.within
      cases e <;> exact ⟨hn, hw, rfl⟩

theorem Follows.attempt (h : p.Follows x x') : p.Follows (attempt x) (attempt x') := by
  intro m m' hm
  obtain ⟨q, hle, hagree⟩ := h m m' hm
  exact ⟨q, hle, agree_attempt hagree⟩

/-! ## Results that may be failures -/

theorem pairs_ok {a a' : α} (h : p.Pairs a a') :
    p.Pairs (.ok a : Except Failure α) (.ok a') :=
  ⟨h.within, congrArg Except.ok h.eq⟩

theorem pairs_error {e e' : Failure} (h : p.Pairs e e') :
    p.Pairs (.error e : Except Failure α) (.error e') :=
  ⟨h.within, congrArg Except.error h.eq⟩

theorem pairs_bind {r r' : Except Failure α} {f f' : α → Except Failure β} (hr : p.Pairs r r')
    (hf : ∀ a, Within p a → p.Pairs (f a) (f' (image p a))) :
    p.Pairs (r >>= f) (r' >>= f') := by
  obtain rfl := hr.eq
  have hw := hr.within
  cases r with
  | ok a => exact hf a hw
  | error e => exact pairs_error ⟨hw, rfl⟩

/-- A failure without a handle is the same on both sides. -/
theorem pairs_raised (kind : ErrorKind) (message : String) :
    p.Pairs (Failure.raised kind message) (Failure.raised kind message) := ⟨trivial, rfl⟩

theorem pairs_overflow : p.Pairs Failure.overflow Failure.overflow := ⟨trivial, rfl⟩

end Pairing

end ScriptMachine
