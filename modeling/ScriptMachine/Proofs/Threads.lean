import Mathlib.Data.List.Nodup
import ScriptMachine.Machine.Resolver
import ScriptMachine.Proofs.Execution

/-!
# Threads in a list

The threads of a machine stand in the order of their numbers. A thread is then changed where it
stands, and a new one comes last.
-/

namespace ScriptMachine

theorem Stack.frames_modifyTop (s : Stack) (g : Frame → Frame) :
    (s.modifyTop g).frames = s.frames.modifyHead g := by
  obtain ⟨frames, depth, hdepth⟩ := s
  cases frames <;> rfl

namespace Thread

/-- A thread goes before another by the time it is due, then by its place, then by its number. -/
theorem before_iff {a b : Thread} : a.before b = true ↔
    Number.orderKey a.runAt < Number.orderKey b.runAt ∨
      Number.orderKey a.runAt = Number.orderKey b.runAt ∧
        (a.queued < b.queued ∨ a.queued = b.queued ∧ a.id.index < b.id.index) := by
  simp [before]

theorem not_before_of_before {a b : Thread} (h : a.before b = true) : b.before a = false := by
  rw [Bool.eq_false_iff, ne_eq, before_iff]
  rw [before_iff] at h
  omega

/-- What is not before a thread is not before one that goes after that thread. -/
theorem not_before_trans {a b c : Thread} (hab : a.before b = false) (hbc : b.before c = false) :
    a.before c = false := by
  rw [Bool.eq_false_iff, ne_eq, before_iff] at hab hbc ⊢
  omega

end Thread

namespace Machine

open Exec

/-! ## Changes of a list -/

theorem mem_updateThread {id : ThreadId} {f : Thread → Thread} {threads : List Thread}
    {u : Thread} (h : u ∈ updateThread id f threads) :
    u ∈ threads ∨ ∃ t, threads.find? (·.id == id) = some t ∧ u = f t := by
  induction threads with
  | nil => exact .inl h
  | cons t rest ih =>
    unfold updateThread at h
    rw [List.find?_cons]
    cases hid : t.id == id with
    | true =>
      rw [hid, if_pos rfl, List.mem_cons] at h
      rcases h with rfl | h
      · exact .inr ⟨t, rfl, rfl⟩
      · exact .inl (List.mem_cons_of_mem t h)
    | false =>
      rw [hid, if_neg Bool.false_ne_true, List.mem_cons] at h
      rcases h with rfl | h
      · exact .inl List.mem_cons_self
      · exact (ih h).imp_left (List.mem_cons_of_mem t)

theorem mem_insertThread {t u : Thread} {threads : List Thread} (h : u ∈ insertThread t threads) :
    u = t ∨ u ∈ threads := by
  induction threads with
  | nil => exact .inl (List.mem_singleton.1 h)
  | cons v rest ih =>
    unfold insertThread at h
    split at h
    · exact List.mem_cons.1 h
    · split at h
      · rcases List.mem_cons.1 h with rfl | h
        · exact .inl rfl
        · exact .inr (List.mem_cons_of_mem v h)
      · rcases List.mem_cons.1 h with rfl | h
        · exact .inr List.mem_cons_self
        · exact (ih h).imp_right (List.mem_cons_of_mem v)

/-- Threads stand in the order of their numbers, which were all issued. -/
structure Sorted (threads : List Thread) (next : Nat) : Prop where
  ascending : threads.Pairwise fun t u => t.id.index < u.id.index
  issued : ∀ t ∈ threads, t.id.index < next

namespace Sorted

variable {threads : List Thread} {next : Nat}

theorem map (h : Sorted threads next) {g : Thread → Thread} (hg : ∀ t, (g t).id = t.id) :
    Sorted (threads.map g) next := by
  refine ⟨List.pairwise_map.2 ?_, fun t ht => ?_⟩
  · simpa only [hg] using h.ascending
  · obtain ⟨u, hu, rfl⟩ := List.mem_map.1 ht
    rw [hg]
    exact h.issued u hu

theorem sublist (h : Sorted threads next) {kept : List Thread} (hsub : kept.Sublist threads) :
    Sorted kept next :=
  ⟨h.ascending.sublist hsub, fun t ht => h.issued t (hsub.subset ht)⟩

/-- The thread with a number is found by it. -/
theorem find?_eq (h : Sorted threads next) {t : Thread} (ht : t ∈ threads) {id : ThreadId}
    (hid : t.id = id) : threads.find? (·.id == id) = some t := by
  cases hfound : threads.find? (·.id == id) with
  | none => exact absurd (by simpa using hid) (List.find?_eq_none.1 hfound t ht)
  | some u =>
    have hu : u.id = id := by simpa using List.find?_some hfound
    have hmem := List.mem_of_find?_eq_some hfound
    have hinj := h.ascending.imp (S := fun t u : Thread => t.id ≠ u.id) fun hlt heq => by
      rw [heq] at hlt
      omega
    have heq := List.inj_on_of_nodup_map (List.pairwise_map.2 hinj) hmem ht (hu.trans hid.symm)
    rw [heq]

/-- A thread with a new number comes last. -/
theorem append (h : Sorted threads next) {t : Thread}
    (hlast : ∀ u ∈ threads, u.id.index < t.id.index) (hissued : t.id.index < next) : Sorted (threads ++ [t]) next := by
  refine ⟨List.pairwise_append.2 ⟨h.ascending, List.pairwise_singleton _ t, fun u hu v hv => ?_⟩,
    fun u hu => ?_⟩
  · obtain rfl := List.mem_singleton.1 hv
    exact hlast u hu
  · rcases List.mem_append.1 hu with hu | hu
    · exact h.issued u hu
    · obtain rfl := List.mem_singleton.1 hu
      exact hissued

end Sorted

theorem updateThread_eq_map {id : ThreadId} {f : Thread → Thread} {threads : List Thread}
    (h : threads.Pairwise fun t u => t.id.index < u.id.index) :
    updateThread id f threads = threads.map fun t => if t.id == id then f t else t := by
  induction threads with
  | nil => rfl
  | cons t rest ih =>
    obtain ⟨hfirst, hrest⟩ := List.pairwise_cons.1 h
    rw [updateThread, List.map_cons]
    split
    · rename_i hid
      have hid : t.id = id := by simpa using hid
      have hothers : rest.map (fun u => if u.id == id then f u else u) = rest := by
        refine (List.map_congr_left fun u hu => ?_).trans (List.map_id rest)
        have hne : u.id ≠ id := fun heq => by
          have := hfirst u hu
          rw [hid, heq] at this
          omega
        simp [hne]
      rw [hothers]
    · rw [ih hrest]

theorem insertThread_eq_append {t : Thread} {threads : List Thread}
    (h : ∀ u ∈ threads, u.id.index < t.id.index) : insertThread t threads = threads ++ [t] := by
  induction threads with
  | nil => rfl
  | cons u rest ih =>
    have hu := h u List.mem_cons_self
    have hne : t.id ≠ u.id := fun heq => by
      rw [heq] at hu
      omega
    rw [insertThread, if_neg (by omega), if_neg (by simpa using hne),
      ih fun v hv => h v (List.mem_cons_of_mem u hv)]
    rfl

/-- Looking for a number among the threads that satisfy a test. -/
theorem filter_find? {threads : List Thread} (id : ThreadId) (q : Thread → Bool)
    (h : threads.Pairwise fun t u => t.id.index < u.id.index) :
    (threads.find? (·.id == id)).filter q = (threads.filter q).find? (·.id == id) := by
  induction threads with
  | nil => rfl
  | cons t rest ih =>
    obtain ⟨hfirst, hrest⟩ := List.pairwise_cons.1 h
    by_cases hid : t.id = id
    · have hothers : (rest.filter q).find? (·.id == id) = none := by
        rw [List.find?_eq_none]
        intro u hu heq
        have hlt := hfirst u (List.mem_of_mem_filter hu)
        have heq : u.id = id := by simpa using heq
        rw [hid, heq] at hlt
        omega
      by_cases hq : q t
      · simp [hid, hq, Option.filter]
      · simp [hid, hq, Option.filter, hothers]
    · rw [List.find?_cons_of_neg (by simpa using hid), ih hrest]
      by_cases hq : q t
      · simp [hq, hid]
      · simp [hq]

/-- A thread that is changed is found by its number. -/
theorem find?_updateThread {id : ThreadId} {f : Thread → Thread} (hid : ∀ t, (f t).id = t.id)
    (threads : List Thread) :
    (updateThread id f threads).find? (·.id == id) = (threads.find? (·.id == id)).map f := by
  induction threads with
  | nil => rfl
  | cons t rest ih =>
    rw [updateThread]
    by_cases heq : t.id = id
    · simp [heq, hid]
    · simp [heq, ih]

/-- A change of one thread leaves the others alone. -/
theorem find?_updateThread_of_ne {id other : ThreadId} {f : Thread → Thread}
    (hid : ∀ t, (f t).id = t.id) (hne : other ≠ id) (threads : List Thread) :
    (updateThread id f threads).find? (·.id == other) = threads.find? (·.id == other) := by
  induction threads with
  | nil => rfl
  | cons t rest ih =>
    rw [updateThread]
    by_cases heq : t.id = id
    · have hother : ¬ t.id = other := fun h => hne (h.symm.trans heq)
      simp [heq, hid, Ne.symm hne]
    · rw [if_neg (by simpa using heq), List.find?_cons, List.find?_cons, ih]

/-- Threads that are all changed are found as before. -/
theorem find?_map {g : Thread → Thread} (hid : ∀ t, (g t).id = t.id) (id : ThreadId)
    (threads : List Thread) :
    (threads.map g).find? (·.id == id) = (threads.find? (·.id == id)).map g := by
  rw [List.find?_map]
  simp only [Function.comp_def, hid]

/-- Two changes of a thread are one. -/
theorem updateThread_updateThread {id : ThreadId} {f g : Thread → Thread}
    (hid : ∀ t, (f t).id = t.id) (threads : List Thread) :
    updateThread id g (updateThread id f threads) = updateThread id (g ∘ f) threads := by
  induction threads with
  | nil => rfl
  | cons t rest ih =>
    by_cases heq : t.id = id
    · simp [updateThread, heq, hid]
    · simp [updateThread, heq, ih]

/-! ## The threads of a machine -/

theorem mem_threads_of_thread? {m : Machine} {id : ThreadId} {t : Thread}
    (h : m.thread? id = some t) : t ∈ m.threads ∧ t.id = id :=
  ⟨List.mem_of_find?_eq_some h, by simpa using List.find?_some h⟩

/-- A thread that exists is changed where it stands. -/
theorem modifyThread_run_of_some {m : Machine} {id : ThreadId} {t : Thread}
    (h : m.thread? id = some t) (f : Thread → Thread) :
    modifyThread id f m = .ok () { m with threads := updateThread id f m.threads } := by
  obtain ⟨hmem, hid⟩ := mem_threads_of_thread? h
  have hall : m.threads.all (·.id != id) = false := by
    rw [List.all_eq_false]
    exact ⟨t, hmem, by simp [hid]⟩
  rw [modifyThread_run, hall]
  rfl

/-- The top frame is taken off a thread that has one. -/
theorem popFrame_run {m : Machine} {thread : ThreadId} {t : Thread}
    (h : m.thread? thread = some t) : popFrame thread m =
      match t.stack.top? with
      | none => .ok none m
      | some f => .ok (some f) { m with
          threads := updateThread thread (fun t => { t with stack := t.stack.dropTop })
            m.threads } := by
  unfold popFrame
  rw [bind_run, get_run]
  dsimp only
  rw [h]
  cases htop : t.stack.top? with
  | none => simp [htop, pure_run]
  | some f => simp [htop, bind_run, modifyThread_run_of_some h, pure_run]

/-- A thread that was changed is found changed. -/
theorem thread?_updateThread {id : ThreadId} {f : Thread → Thread} (hid : ∀ t, (f t).id = t.id)
    (m : Machine) :
    thread? { m with threads := updateThread id f m.threads } id = (m.thread? id).map f :=
  find?_updateThread hid m.threads

/-- What a run of steps goes on with. -/
theorem threadStatus_of_goes {m : Machine} {thread : ThreadId}
    (h : ¬ (m.status != .running || m.threadStatus thread != some .ready) = true) :
    m.threadStatus thread = some .ready := by
  simp only [Bool.or_eq_true, bne_iff_ne, ne_eq, not_or, Decidable.not_not] at h
  exact h.2

theorem isAlive_iff {m : Machine} {id : ThreadId} :
    m.isAlive id = true ↔ ∃ t, m.thread? id = some t ∧ t.isZombie = false := by
  unfold isAlive
  cases m.thread? id with
  | none => simp
  | some t => simp

/-! ## Resolvers -/

/-- The time that a machine reads next. -/
def reading (m : Machine) : Float := m.previousElapsed + m.clock.read.1

/-- Issuing a resolver notes the thread that it is for. -/
theorem issueResolver_run (thread : ThreadId) (m : Machine) :
    issueResolver thread m =
      match nextCount m.nextResolverId with
      | .error e => .error e m
      | .ok next => .ok m.nextResolverId { m with
          nextResolverId := next
          pendingResolvers := m.pendingResolvers ++ [(m.nextResolverId, thread)] } := by
  unfold issueResolver
  rw [bind_run, get_run]
  dsimp only
  rw [bind_run]
  unfold query
  cases nextCount m.nextResolverId <;> rfl

/-- A parked thread that goes on behind all that wait. -/
def awakened (f : Frame) (time : Float) (queued : Nat) (t : Thread) : Thread :=
  { t with
    stack := t.stack.modifyTop fun _ => f
    status := .ready, runAt := time, runStarted := time, queued }

/-- What settling a resolver does: the number is used up, and the thread that it was issued for
goes on if it is parked. -/
theorem settle_run (id : Nat) (thread : ThreadId) (s : Settlement) (m : Machine) :
    settle id thread s m =
      match m.pendingResolvers.lookup id with
      | none => .error (.fault (.alreadySettled id)) m
      | some holder =>
        let dropped := { m with pendingResolvers := m.pendingResolvers.filter (·.1 != id) }
        if holder != thread then
          .error (.fault (.foreignResolver id holder.index thread.index)) dropped
        else
          let read := { dropped with clock := m.clock.read.2 }
          match nextCount m.nextQueued with
          | .error e => .error e read
          | .ok nextQueued =>
            let used := { read with nextQueued }
            match m.thread? holder with
            | none => .ok () used
            | some t =>
              match t.status with
              | .zombie => .ok () used
              | .blocked =>
                match settledFrame t s with
                | .error e => .error e used
                | .ok f => .ok () { used with
                    threads := updateThread holder
                      (awakened f m.reading m.nextQueued)
                      m.threads }
              | status =>
                if status == .ready && m.currentThread == some holder then
                  .ok () { used with
                    earlySettlements :=
                      (holder, s) :: m.earlySettlements.filter (·.1 != holder) }
                else .error (.fault (.settledWhile id holder.index status.name)) used := by
  unfold settle
  rw [bind_run, get_run]
  dsimp only
  cases hlookup : m.pendingResolvers.lookup id with
  | none => rfl
  | some holder =>
    dsimp only
    rw [bind_run_of_ok (show removeResolver id m = .ok () _ from rfl)]
    by_cases hholder : (holder != thread) = true
    · rw [if_pos hholder, if_pos hholder]
      rfl
    rw [if_neg hholder, if_neg hholder]
    rw [bind_run_of_ok (show now _ = .ok _ _ from rfl), bind_run, takeQueuePosition_run]
    dsimp only
    cases nextCount m.nextQueued with
    | error e => rfl
    | ok nextQueued =>
      dsimp only
      rw [bind_run, get_run]
      dsimp only
      have hsame (m' : Machine) (h : m'.threads = m.threads) :
          m'.thread? holder = m.thread? holder := by
        rw [thread?, thread?, h]
      rw [hsame _ (by rfl)]
      cases ht : m.thread? holder with
      | none => rfl
      | some t =>
        dsimp only
        cases t.status with
        | zombie => rfl
        | blocked =>
          dsimp only
          rw [bind_run]
          unfold query
          cases settledFrame t s with
          | error e => rfl
          | ok f =>
            dsimp only
            exact modifyThread_run_of_some ((hsame _ (by rfl)).trans ht) _
        | ready =>
          dsimp only
          rw [bind_run, get_run]
          dsimp only
          cases m.currentThread == some holder <;> rfl
        | sleeping => rfl

/-! ## Picking a thread -/

theorem mem_of_firstOf {threads : List Thread} {t : Thread} (h : firstOf threads = some t) :
    t ∈ threads := by
  induction threads generalizing t with
  | nil => cases h
  | cons u rest ih =>
    rw [firstOf] at h
    cases hrest : firstOf rest with
    | none =>
      rw [hrest] at h
      exact Option.some.inj h ▸ List.mem_cons_self
    | some v =>
      rw [hrest] at h
      dsimp only at h
      split at h
      · exact Option.some.inj h ▸ List.mem_cons_of_mem u (ih hrest)
      · exact Option.some.inj h ▸ List.mem_cons_self

theorem firstOf_eq_none {threads : List Thread} (h : firstOf threads = none) : threads = [] := by
  cases threads with
  | nil => rfl
  | cons t rest =>
    rw [firstOf] at h
    split at h
    · split at h <;> cases h
    · cases h

/-- No thread goes before the first. -/
theorem not_before_firstOf {threads : List Thread} {t : Thread} (h : firstOf threads = some t) :
    ∀ u ∈ threads, u.before t = false := by
  induction threads generalizing t with
  | nil => cases h
  | cons v rest ih =>
    rw [firstOf] at h
    intro u hu
    cases hrest : firstOf rest with
    | none =>
      rw [hrest] at h
      obtain rfl := Option.some.inj h
      obtain rfl := firstOf_eq_none hrest
      obtain rfl := List.mem_singleton.1 hu
      rw [Bool.eq_false_iff, ne_eq, Thread.before_iff]
      omega
    | some w =>
      rw [hrest] at h
      dsimp only at h
      split at h
      · rename_i hbefore
        obtain rfl := Option.some.inj h
        rcases List.mem_cons.1 hu with rfl | hu
        · exact Thread.not_before_of_before hbefore
        · exact ih hrest u hu
      · rename_i hafter
        obtain rfl := Option.some.inj h
        rw [Bool.not_eq_true] at hafter
        rcases List.mem_cons.1 hu with rfl | hu
        · rw [Bool.eq_false_iff, ne_eq, Thread.before_iff]
          omega
        · exact Thread.not_before_trans (ih hrest u hu) hafter

/-- A thread can run and no other goes before it. -/
def Foremost (m : Machine) (id : ThreadId) : Prop :=
  ∃ t, m.thread? id = some t ∧ t.status = .ready ∧
    ∀ u ∈ m.threads, u.status = .ready → u.before t = false

theorem first_of_pick {threads : List Thread} {thread : ThreadId}
    (h : pick threads = .run thread) :
    ∃ t ∈ threads, t.id = thread ∧ t.status = .ready ∧
      ∀ u ∈ threads, u.status = .ready → u.before t = false := by
  unfold pick at h
  cases hfirst : firstOf (threads.filter (·.status == .ready)) with
  | none =>
    rw [hfirst] at h
    dsimp only at h
    split at h
    · cases h
    · split at h <;> cases h
  | some t =>
    rw [hfirst] at h
    obtain ⟨hmem, hready⟩ := List.mem_filter.1 (mem_of_firstOf hfirst)
    refine ⟨t, hmem, Pick.run.inj h, by simpa using hready, fun u hu huready => ?_⟩
    exact not_before_firstOf hfirst u (List.mem_filter.2 ⟨hu, by simpa using huready⟩)

theorem pick_of_schedule {m n : Machine} {found : Pick} (h : schedule m = .ok found n) :
    found = pick n.threads := by
  unfold schedule at h
  obtain ⟨time, m₁, hnow, h⟩ := bind_eq_ok_iff.1 h
  obtain ⟨_, m₂, hwake, h⟩ := bind_eq_ok_iff.1 h
  obtain ⟨m₃, m₄, hget, h⟩ := bind_eq_ok_iff.1 h
  cases hget
  cases h
  rfl

end Machine

end ScriptMachine
