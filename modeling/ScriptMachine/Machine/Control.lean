import ScriptMachine.Machine.Schedule
import ScriptMachine.Tree.Parser.Program

/-!
# Control by the host

The host loads programs, starts and ends threads, and runs the machine until a thread it waits for
has finished.
-/

namespace ScriptMachine.Machine

open Exec

/-! ## Threads -/

/-- A delay that counts: positive and finite. -/
def validDelay (delay : Float) : Float :=
  if delay.isFinite && delay > 0 then delay else 0

/-- Starts a thread on a base frame after a delay. -/
def newThread (base : Frame) (delay : Float) (keepOutcome : Bool) : Exec ThreadId := do
  let id := (← get).nextThreadId
  let next ← query fun _ => nextCount id
  modify fun m => { m with nextThreadId := next, clockStarted := true }
  let delay := validDelay delay
  let runAt := (← now) + delay
  let queued ← takeQueuePosition
  modify fun m =>
    let t : Thread :=
      { id := ⟨id⟩, status := if delay > 0 then .sleeping else .ready, stack := .ofList [base]
        runAt, queued, timeLimit := m.config.defaultTimeLimit, runStarted := runAt, keepOutcome }
    { m with threads := insertThread t m.threads }
  return ⟨id⟩

/-- Loads a program. -/
def load (source : String) : Exec ProgramId := do
  match Tree.parse source with
  | .error e => throw (.malformed e.cause.message e.line e.column)
  | .ok program => modifyGet fun m =>
    let (id, heap) := m.heap.addProgram program
    (id, { m with heap })

/-- Starts a thread that runs a loaded program in the global scope. -/
def spawnProgram (program : ProgramId) : Exec ThreadId := do
  let root := (← heapQuery (·.program program)).root
  newThread (.ofNode ⟨program, root⟩ (← get).globalScope) 0 true

/-- Loads a program and starts a thread that runs it. -/
def spawn (source : String) : Exec ThreadId := do
  spawnProgram (← load source)

/-- Starts a thread that calls a function on behalf of an owner. -/
def spawnCallAs (func receiver : Value) (args : List Value) (delay : Float) (owner : Owner)
    (keepOutcome : Bool) : Exec ThreadId := do
  if !(← get).isCallable func then
    throw (.typeError ((← get).describe func ++ " is not a function"))
  let scope ← newScope .dummy (some (← get).globalScope) (some owner) (some .undefined)
  newThread (.ofCall scope { func, receiver, args, construct := false }) delay keepOutcome

/-- Starts a thread that calls a function on behalf of the root owner. -/
def spawnCall (func receiver : Value) (args : List Value) (delay : Float) : Exec ThreadId := do
  spawnCallAs func receiver args delay (← get).rootOwner true

/-- Takes the outcome of a finished thread and forgets the thread. An object in the outcome stays
alive until the host lets go of it. -/
def takeResult (thread : ThreadId) : Exec (Option Outcome) := do
  match (← get).thread? thread with
  | none => return none
  | some t =>
    if !t.isZombie then return none
    modify fun m => { m with threads := m.threads.filter (·.id != thread) }
    match t.outcome with
    | some (.completed v) => pinHostValue v
    | some (.threw v) => pinHostValue v
    | _ => pure ()
    return t.outcome

def releaseHostValues : Exec Unit := modify fun m =>
  let (hostValues, heap) := m.heap.clearGuard m.hostValues
  { m with hostValues, heap }

/-- Sets or removes the time limit of a thread; a limit that is negative or not finite is none. -/
def setTimeLimit (thread : ThreadId) (limit : Option Float) : Exec Unit :=
  modifyThread thread fun t =>
    { t with timeLimit := limit.filter fun l => l.isFinite && l ≥ 0 }

def timeLimit (m : Machine) (thread : ThreadId) : Option Float :=
  (m.thread? thread).bind (·.timeLimit)

/-- Sets the number of allocations after which a collection is due. -/
def setGcThreshold (threshold : Nat) : Exec Unit := modify fun m =>
  { m with
    config := { m.config with gcThreshold := threshold }
    heap := { m.heap with gcThreshold := threshold } }

/-! ## Running -/

/-- Stops picking threads after the current step. -/
def pause : Exec Unit := modify fun m =>
  if m.status == .running then { m with status := .paused } else m

def resume : Exec Unit := modify fun m =>
  if m.status == .paused then { m with status := .running } else m

/-- Ends every thread. A stopped machine stays stopped. -/
def stop : Exec Unit := modify fun m =>
  { m with
    threads := m.threads.map fun t => if t.isZombie then t else t.finish .killed
    status := .stopped }

/-- Runs until a thread has finished, waiting for sleepers in between. -/
def runUntilFinished (natives : Natives) (thread : ThreadId) (fuel : Nat) : Nat → Exec Unit
  | 0 => throw (.raised .error ("thread " ++ toString thread.index ++ " did not finish"))
  | rounds + 1 => do
    let result ← runToQuiescence natives fuel
    if (← get).threadStatus thread == some .zombie then return
    match result with
    | .moreWorkAt time =>
      waitUntil time
      runUntilFinished natives thread fuel rounds
    | .blockedForever =>
      throw (.raised .error ("thread " ++ toString thread.index ++ " is blocked forever"))
    | _ => throw (.raised .error ("thread " ++ toString thread.index ++ " did not finish"))

/-- Runs a program to its end and gives its completion. Other threads run as well meanwhile. -/
def eval (natives : Natives) (source : String) (fuel : Nat) : Exec Value := do
  let thread ← spawn source
  runUntilFinished natives thread fuel fuel
  match ← takeResult thread with
  | some (.completed v) => return v
  | some (.threw v) => throw (.thrown v ((← get).renderError v))
  | _ => throw (.raised .error ("thread " ++ toString thread.index ++ " was killed"))

/-- Runs until nothing is left but blocked threads, waiting for sleepers in between. -/
def runAll (natives : Natives) (fuel : Nat) : Nat → Exec RunResult
  | 0 => return .unfinished
  | rounds + 1 => do
    match ← runToQuiescence natives fuel with
    | .moreWorkAt time =>
      waitUntil time
      runAll natives fuel rounds
    | result => return result

end ScriptMachine.Machine
