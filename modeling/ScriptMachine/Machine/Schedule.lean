import ScriptMachine.Machine.Unwind

/-!
# Scheduling

Threads run one at a time and yield only when they finish, sleep or block, or when the host pauses
the machine. Of the threads that can run the one due earliest goes next, then the one queued first,
then the one with the lowest number; a run is therefore determined by the clock.
-/

namespace ScriptMachine.Machine

open Exec

/-! ## One step -/

/-- Puts a child on the stack unless the stack is full. -/
def pushChild (thread : ThreadId) (f child : Frame) : Exec Unit := do
  modifyThread thread fun t => { t with stack := t.stack.push f }
  let depth := (((← get).thread? thread).map (·.stack.depth)).getD 0
  if depth ≥ (← get).config.maxStackDepth then
    raise thread f.scope (.rangeError "Maximum call stack size exceeded")
  else modifyThread thread fun t => { t with stack := t.stack.push child }

/-- Whether a thread has a frame. -/
def hasFrame (m : Machine) (thread : ThreadId) : Bool :=
  match m.thread? thread with
  | some t => !t.stack.isEmpty
  | none => false

/-- Changes the top frame of a thread. -/
def modifyTop (thread : ThreadId) (g : Frame → Frame) : Exec Unit :=
  modifyThread thread fun t => { t with stack := t.stack.modifyTop g }

/-- Carries out what a step asks for. -/
def applyStep (thread : ThreadId) (step : Step) : Exec Unit := do
  match step with
  | .push f child => pushChild thread f child
  | .stay f => modifyThread thread fun t => { t with stack := t.stack.push f }
  | .suspend f => modifyThread thread fun t => { t with stack := t.stack.push f }
  | .done v =>
    if (← get).hasFrame thread then modifyTop thread fun p => { p with value := v }
    else finishThread thread (.completed v)
  | .ref r =>
    if (← get).hasFrame thread then modifyTop thread fun p => { p with reference := some r }
    else fault thread (.fault .referenceAtBase)
  | .unwind c => unwind thread c

/-- Whether a thread is still in the table and not finished. -/
def isAlive (m : Machine) (thread : ThreadId) : Bool :=
  match m.thread? thread with
  | some t => !t.isZombie
  | none => false

/-- Takes the top frame of a thread. -/
def popFrame (thread : ThreadId) : Exec (Option Frame) := do
  match ((← get).thread? thread).map (·.stack.top?) with
  | none => throw (.fault (.noThread thread.index))
  | some top =>
    if top.isSome then modifyThread thread fun t => { t with stack := t.stack.dropTop }
    return top

/-- Advances a thread by one step. A thread that was ended during the step stays ended. -/
def stepThread (natives : Natives) (thread : ThreadId) : Exec Unit := do
  match ← popFrame thread with
  | none => finishThread thread (.completed .undefined)
  | some f =>
    let result ← attempt (dispatch natives thread f)
    if (← get).isAlive thread then
      match result with
      | .ok step => applyStep thread step
      | .error e => raise thread f.scope e

/-! ## Picking a thread -/

/-- The first of some threads in running order. -/
def firstOf : List Thread → Option Thread
  | [] => none
  | t :: rest =>
    match firstOf rest with
    | some u => if u.before t then some u else some t
    | none => some t

/-- What the scheduler found. -/
inductive Pick where
  | run (thread : ThreadId)
  /-- Nothing can run before this time. -/
  | waitUntil (time : Float)
  | blocked
  | idle

/-- The earliest of some times. -/
def earliest : List Float → Option Float
  | [] => none
  | x :: rest =>
    match earliest rest with
    | some y => if Number.orderKey y < Number.orderKey x then some y else some x
    | none => some x

/-- Picks among threads none of which is due to wake. -/
def pick (threads : List Thread) : Pick :=
  match firstOf (threads.filter (·.status == .ready)) with
  | some t => .run t.id
  | none =>
    match earliest ((threads.filter (·.status == .sleeping)).map (·.runAt)) with
    | some time => .waitUntil time
    | none => if threads.any (·.status == .blocked) then .blocked else .idle

/-- Wakes the threads that are due and picks one. -/
def schedule : Exec Pick := do
  let time ← now
  modify fun m => { m with threads := m.threads.map (·.wake time) }
  return pick (← get).threads

/-! ## Running -/

/-- Starts a run of a thread. -/
def startRun (thread : ThreadId) : Exec Unit := do
  let time ← now
  modifyThread thread fun t => { t with runStarted := time }
  modify fun m => { m with lastStepped := some thread }

/-- Advances the next runnable thread by one step. False when nothing was runnable. -/
def stepOnce (natives : Natives) : Exec Bool := do
  if (← get).status != .running then return false
  match ← schedule with
  | .run thread =>
    if (← get).lastStepped != some thread then startRun thread
    modify fun m => { m with currentThread := some thread }
    let result ← attempt (stepThread natives thread)
    modify fun m => { m with currentThread := none }
    maybeCollectGarbage
    query fun _ => result.map fun _ => true
  | _ => return false

/-- Why a run came to an end. -/
inductive RunResult where
  /-- Nothing is runnable; a sleeping thread wakes at this time. -/
  | moreWorkAt (time : Float)
  /-- Only blocked threads are left. -/
  | blockedForever
  | done
  | paused
  /-- The steps allowed were used up. -/
  | unfinished

/-- Steps a thread until it stops being runnable; gives the steps that are left of `fuel`. -/
def runSteps (natives : Natives) (thread : ThreadId) : Nat → Exec Nat
  | 0 => return 0
  | fuel + 1 => do
    let m ← get
    if m.status != .running || m.threadStatus thread != some .ready then return fuel + 1
    stepThread natives thread
    maybeCollectGarbage
    runSteps natives thread fuel

/-- Runs a thread until it stops being runnable; gives the steps that are left of `fuel`. -/
def runThread (natives : Natives) (thread : ThreadId) (fuel : Nat) : Exec Nat := do
  startRun thread
  modify fun m => { m with currentThread := some thread }
  let result ← attempt (runSteps natives thread fuel)
  modify fun m => { m with currentThread := none }
  query fun _ => result

/-- Runs threads until none is runnable now: at most `rounds` runs of `fuel` steps in all. -/
def runRounds (natives : Natives) : Nat → Nat → Exec RunResult
  | 0, _ => return .unfinished
  | rounds + 1, fuel => do
    match (← get).status with
    | .paused => return .paused
    | .stopped => return .done
    | .running =>
      match ← schedule with
      | .run thread =>
        let left ← runThread natives thread fuel
        if left == 0 then return .unfinished
        runRounds natives rounds left
      | .waitUntil time => return .moreWorkAt time
      | .blocked => return .blockedForever
      | .idle => return .done

/-- Runs threads until none is runnable now, in at most `fuel` steps. -/
def runToQuiescence (natives : Natives) (fuel : Nat) : Exec RunResult :=
  runRounds natives (fuel + 1) fuel

end ScriptMachine.Machine
