import ScriptMachine.Machine.Basic

/-!
# Resolvers

A resolver is a number that wakes one blocked thread, with a value or with a throw. Numbers are
issued in ascending order and each is accepted once.
-/

namespace ScriptMachine.Machine

open Exec

/-- Issues a resolver for a thread that is about to block. -/
def issueResolver (thread : ThreadId) : Exec Nat := do
  let id := (← get).nextResolverId
  let next ← query fun _ => nextCount id
  modify fun m =>
    { m with nextResolverId := next, pendingResolvers := m.pendingResolvers ++ [(id, thread)] }
  return id

def removeResolver (id : Nat) : Exec Unit := modify fun m =>
  { m with pendingResolvers := m.pendingResolvers.filter (·.1 != id) }

/-- Keeps a settlement until the host function that made it has answered. -/
def keepEarly (thread : ThreadId) (s : Settlement) : Exec Unit := modify fun m =>
  { m with earlySettlements := (thread, s) :: m.earlySettlements.filter (·.1 != thread) }

/-- Takes the settlement a host function made before it answered. -/
def takeEarly (thread : ThreadId) : Exec (Option Settlement) := modifyGet fun m =>
  (m.earlySettlements.lookup thread,
    { m with earlySettlements := m.earlySettlements.filter (·.1 != thread) })

/-- The frame a blocked thread is parked in, once it is settled. -/
def settledFrame (t : Thread) (s : Settlement) : Except Failure Frame :=
  match t.stack.frames with
  | [] => .error (.fault .blockedEmpty)
  | f :: _ =>
    match f.info with
    | .call c =>
      if c.phase == .blocked then
        let (phase, value) := s.toPhase
        .ok { f with info := .call { c with phase }, value }
      else .error (.fault .blockedFrameNotBlocked)
    | _ => .error (.fault .blockedNotInCall)

/-- Settles a resolver. The number is used up whatever comes of it. -/
def settle (id : Nat) (thread : ThreadId) (s : Settlement) : Exec Unit := do
  match (← get).pendingResolvers.lookup id with
  | none => throw (.fault (.alreadySettled id))
  | some holder =>
    removeResolver id
    if holder != thread then
      throw (.fault (.foreignResolver id holder.index thread.index))
    let time ← now
    let queued ← takeQueuePosition
    match (← get).thread? holder with
    | none => return
    | some t =>
      match t.status with
      | .zombie => return
      | .blocked =>
        let f ← query fun _ => settledFrame t s
        modifyThread holder fun t =>
          { t with
            stack := t.stack.modifyTop fun _ => f
            status := .ready, runAt := time, runStarted := time, queued }
      | status =>
        if status == .ready && (← get).currentThread == some holder then keepEarly holder s
        else throw (.fault (.settledWhile id holder.index status.name))

end ScriptMachine.Machine
