import ScriptMachine.Main

/-!
# Operations taken apart

An operation that gave a result was put together from operations that gave results; one that failed
has a first part that failed.
-/

namespace ScriptMachine.Exec

variable {α β : Type}

/-- The machine that an operation leaves behind, whether it gave a result or failed. -/
def after (x : Exec α) (m : Machine) : Machine :=
  match x m with
  | .ok _ m' => m'
  | .error _ m' => m'

theorem after_of_ok {x : Exec α} {m m' : Machine} {a : α} (h : x m = .ok a m') :
    after x m = m' := by
  rw [after, h]

theorem after_of_error {x : Exec α} {m m' : Machine} {e : Failure} (h : x m = .error e m') :
    after x m = m' := by
  rw [after, h]

theorem bind_run (x : Exec α) (f : α → Exec β) (m : Machine) :
    (x >>= f) m = (match x m with
      | .ok a m' => f a m'
      | .error e m' => .error e m') := by
  change EStateM.bind x f m = _
  unfold EStateM.bind
  cases x m <;> rfl

theorem bind_run_of_ok {x : Exec α} {f : α → Exec β} {m n : Machine} {a : α}
    (h : x m = .ok a n) : (x >>= f) m = f a n := by
  rw [bind_run, h]

theorem pure_run (a : α) (m : Machine) : (pure a : Exec α) m = .ok a m := rfl

theorem throw_run (e : Failure) (m : Machine) : (throw e : Exec α) m = .error e m := rfl

theorem get_run (m : Machine) : (get : Exec Machine) m = .ok m m := rfl

theorem modify_run (f : Machine → Machine) (m : Machine) :
    (modify f : Exec Unit) m = .ok () (f m) := rfl

theorem modifyGet_run (f : Machine → α × Machine) (m : Machine) :
    (modifyGet f : Exec α) m = .ok (f m).1 (f m).2 := rfl

theorem query_run_ok {f : Machine → Except Failure α} {m : Machine} {a : α} (h : f m = .ok a) :
    query f m = .ok a m := by
  rw [query, h]

theorem query_run_error {f : Machine → Except Failure α} {m : Machine} {e : Failure}
    (h : f m = .error e) : query f m = .error e m := by
  rw [query, h]

theorem bind_eq_ok_iff {x : Exec α} {f : α → Exec β} {m m' : Machine} {b : β} :
    (x >>= f) m = .ok b m' ↔ ∃ a mid, x m = .ok a mid ∧ f a mid = .ok b m' := by
  rw [bind_run]
  cases x m with
  | error e mid => simp
  | ok a mid =>
    constructor
    · intro h
      exact ⟨a, mid, rfl, h⟩
    · rintro ⟨a', mid', heq, h⟩
      cases heq
      exact h

theorem pure_eq_ok_iff {a b : α} {m m' : Machine} :
    (pure a : Exec α) m = .ok b m' ↔ a = b ∧ m = m' := by
  change EStateM.Result.ok a m = .ok b m' ↔ _
  simp

theorem query_eq_ok_iff {f : Machine → Except Failure α} {m m' : Machine} {a : α} :
    query f m = .ok a m' ↔ f m = .ok a ∧ m = m' := by
  unfold query
  cases f m <;> simp

/-- An attempt that gave a result ran to its end. -/
theorem attempt_eq_ok {x : Exec α} {m m' : Machine} {a : α} (h : attempt x m = .ok (.ok a) m') :
    x m = .ok a m' := by
  unfold attempt at h
  cases hx : x m with
  | ok b m₁ =>
    rw [hx] at h
    cases h
    rfl
  | error e m₁ =>
    rw [hx] at h
    cases e <;> cases h

theorem after_bind (x : Exec α) (f : α → Exec β) (m : Machine) :
    after (x >>= f) m = (match x m with
      | .ok a m' => after (f a) m'
      | .error _ m' => m') := by
  rw [after, bind_run]
  cases x m <;> rfl

theorem after_query (f : Machine → Except Failure α) (m : Machine) : after (query f) m = m := by
  unfold after query
  cases f m <;> rfl

theorem after_attempt (x : Exec α) (m : Machine) : after (attempt x) m = after x m := by
  unfold after attempt
  cases x m with
  | ok a m' => rfl
  | error e m' => cases e <;> rfl

/-- What holds of every machine that the first part leaves behind and is kept by the second holds
after both. -/
theorem after_bind_of {x : Exec α} {f : α → Exec β} {m : Machine} {P Q : Machine → Prop}
    (hx : P (after x m)) (hPQ : ∀ m', P m' → Q m')
    (hf : ∀ a m', x m = .ok a m' → P m' → Q (after (f a) m')) : Q (after (x >>= f) m) := by
  rw [after_bind]
  cases hrun : x m with
  | ok a m' => exact hf a m' hrun (after_of_ok hrun ▸ hx)
  | error e m' => exact hPQ m' (after_of_error hrun ▸ hx)

/-- A thread that must exist is changed where it stands. -/
theorem modifyThread_run (id : ThreadId) (f : Thread → Thread) (m : Machine) :
    Machine.modifyThread id f m =
      if m.threads.all (·.id != id) then .error (.fault (.noThread id.index)) m
      else .ok () { m with threads := Machine.updateThread id f m.threads } := by
  unfold Machine.modifyThread
  rw [bind_run, get_run]
  dsimp only
  cases m.threads.all (·.id != id) <;> rfl

end ScriptMachine.Exec

/-! ## Counters -/

namespace ScriptMachine.Machine

open Exec

theorem lt_of_nextCount {n next : Nat} (h : nextCount n = .ok next) : n < next := by
  unfold nextCount at h
  split at h
  · obtain rfl := Except.ok.inj h
    omega
  · cases h

theorem eq_overflow_of_nextCount {n : Nat} {e : Failure} (h : nextCount n = .error e) :
    e = .overflow := by
  unfold nextCount at h
  split at h
  · cases h
  · exact (Except.error.inj h).symm

theorem takeQueuePosition_run (m : Machine) :
    takeQueuePosition m =
      match nextCount m.nextQueued with
      | .error e => .error e m
      | .ok next => .ok m.nextQueued { m with nextQueued := next } := by
  unfold takeQueuePosition
  rw [bind_run, get_run]
  dsimp only
  rw [bind_run]
  unfold query
  cases nextCount m.nextQueued <;> rfl

/-- What starting a thread does: numbers are issued, the clock is read, and the thread is put into
the table. -/
theorem newThread_run (base : Frame) (delay : Float) (keepOutcome : Bool) (m : Machine) :
    newThread base delay keepOutcome m =
      match nextCount m.nextThreadId with
      | .error e => .error e m
      | .ok next =>
        let numbered := { m with nextThreadId := next, clockStarted := true }
        let read := { numbered with clock := m.clock.read.2 }
        match nextCount m.nextQueued with
        | .error e => .error e read
        | .ok nextQueued =>
          let runAt := m.previousElapsed + m.clock.read.1 + validDelay delay
          let t : Thread :=
            { id := ⟨m.nextThreadId⟩
              status := if validDelay delay > 0 then .sleeping else .ready
              stack := .ofList [base], runAt, queued := m.nextQueued
              timeLimit := m.config.defaultTimeLimit, runStarted := runAt, keepOutcome }
          .ok ⟨m.nextThreadId⟩
            { read with nextQueued, threads := insertThread t m.threads } := by
  unfold newThread
  rw [bind_run, get_run]
  dsimp only
  rw [bind_run]
  unfold query
  cases nextCount m.nextThreadId with
  | error e => rfl
  | ok next =>
    dsimp only
    rw [bind_run, modify_run]
    dsimp only
    rw [bind_run, now, modifyGet_run]
    dsimp only
    rw [bind_run, takeQueuePosition, bind_run, get_run]
    dsimp only
    rw [bind_run]
    unfold query
    cases nextCount m.nextQueued <;> rfl

end ScriptMachine.Machine
