import ScriptMachine.Config
import ScriptMachine.Heap.Guard
import ScriptMachine.Host.Clock
import ScriptMachine.Host.Console
import ScriptMachine.Host.Random
import ScriptMachine.Machine.Thread

/-!
# The machine

All state of a running system is one value: the heap, the global scope, the table of builtins, the
threads, the resolvers that wake them, and the services of the host. Operations on it keep what
they changed when they fail.
-/

namespace ScriptMachine

/-- Whether threads may be picked to run. -/
inductive RunStatus where
  | running | paused | stopped
  deriving DecidableEq, Repr

namespace RunStatus

def name : RunStatus → String
  | .running => "running"
  | .paused => "paused"
  | .stopped => "stopped"

def ofName? (s : String) : Option RunStatus :=
  [.running, .paused, .stopped].find? (·.name == s)

end RunStatus

/-- How a resolver was settled. -/
inductive Settlement where
  | resolved (value : Value)
  | rejected (reason : Value)
  deriving DecidableEq, Repr

/-- The phase and value of a call that was settled. -/
def Settlement.toPhase : Settlement → CallPhase × Value
  | .resolved v => (.returned, v)
  | .rejected v => (.rejected, v)

structure Machine where
  heap : Heap := {}
  globalScope : ScopeId := ⟨0⟩
  /-- Owns the builtins and acts for the host. -/
  rootOwner : Owner := ⟨0⟩
  builtins : Table Value := .empty
  /-- Results handed to the host. -/
  hostValues : Guard := ⟨0, []⟩
  /-- In the order of their ids. -/
  threads : List Thread := []
  nextThreadId : Nat := 1
  nextQueued : Nat := 1
  /-- The thread being stepped. -/
  currentThread : Option ThreadId := none
  /-- The thread of the previous step. -/
  lastStepped : Option ThreadId := none
  status : RunStatus := .running
  /-- Resolvers and the threads they wake, in the order of their ids. -/
  pendingResolvers : List (Nat × ThreadId) := []
  nextResolverId : Nat := 1
  /-- Settlements made by a host function before it blocked. -/
  earlySettlements : List (ThreadId × Settlement) := []
  /-- The time of the machine is this much ahead of the clock. -/
  previousElapsed : Float := 0
  /-- The time of the machine has been used. -/
  clockStarted : Bool := false
  config : Config := {}
  policy : Policy := .everyone
  clock : Host.Clock := {}
  random : Host.Random := ⟨1⟩
  console : Host.Console := {}

instance : Inhabited Machine := ⟨{}⟩

/-- Operations on the machine. What an operation changed before it failed stays changed. -/
abbrev Exec := EStateM Failure Machine

namespace Exec

/-- Runs an operation and gives its failure as a value. A counter that ran out is not a failure to
be handled and passes through. -/
@[inline] def attempt {α : Type} (x : Exec α) : Exec (Except Failure α) := fun m =>
  match x m with
  | .ok a m => .ok (.ok a) m
  | .error .overflow m => .error .overflow m
  | .error e m => .ok (.error e) m

/-- A reading of the machine that may fail. -/
@[inline] def query {α : Type} (f : Machine → Except Failure α) : Exec α := fun m =>
  match f m with
  | .ok a => .ok a m
  | .error e => .error e m

/-- A reading of the heap that may fail. -/
@[inline] def heapQuery {α : Type} (f : Heap → Except Failure α) : Exec α := query fun m => f m.heap

@[inline] def modifyHeap (f : Heap → Heap) : Exec Unit :=
  modify fun m => { m with heap := f m.heap }

end Exec

namespace Machine

open Exec

/-! ## Time -/

/-- The time of the machine; every reading may move the clock. -/
def now : Exec Float := modifyGet fun m =>
  let (reading, clock) := m.clock.read
  (m.previousElapsed + reading, { m with clock })

/-- Sets the time of the machine. -/
def setClock (time : Float) : Exec Unit := modify fun m =>
  let (reading, clock) := m.clock.read
  { m with clock, previousElapsed := time - reading, clockStarted := true }

/-- Swaps the clock. The time of the machine goes on once it has been used, and starts at zero on
the new clock otherwise. -/
def replaceClock (clock : Host.Clock) : Exec Unit := do
  let time ← if (← get).clockStarted then now else pure 0
  modify fun m => { m with clock }
  let (reading, clock) := clock.read
  modify fun m => { m with clock, previousElapsed := time - reading }

/-- Waits until a time of the machine. -/
def waitUntil (time : Float) : Exec Unit := do
  let delay := time - (← now)
  if delay > 0 then modify fun m => { m with clock := m.clock.wait delay }

def write (level : Host.Level) (text : String) : Exec Unit :=
  modify fun m => { m with console := m.console.write level text }

/-! ## Builtins and threads -/

def builtin? (m : Machine) (name : String) : Option Value := m.builtins.get? name

def builtinObject (name : String) : Exec ObjectId := query fun m =>
  match (m.builtins.get? name).bind Value.object? with
  | some id => .ok id
  | none => .error (.fault (.missingBuiltin name))

def setBuiltin (name : String) (v : Value) : Exec Unit :=
  modify fun m => { m with builtins := m.builtins.insert name v }

def thread? (m : Machine) (id : ThreadId) : Option Thread :=
  m.threads.find? (·.id == id)

/-- Puts a thread into the table, in the place of one with the same number. -/
def insertThread (t : Thread) : List Thread → List Thread
  | [] => [t]
  | u :: rest =>
    if t.id.index < u.id.index then t :: u :: rest
    else if t.id == u.id then t :: rest
    else u :: insertThread t rest

/-- Changes the thread with a number; the numbers of threads differ. -/
def updateThread (id : ThreadId) (f : Thread → Thread) : List Thread → List Thread
  | [] => []
  | t :: rest => if t.id == id then f t :: rest else t :: updateThread id f rest

/-- Changes a thread that must exist. -/
def modifyThread (id : ThreadId) (f : Thread → Thread) : Exec Unit := do
  if (← get).threads.all (·.id != id) then throw (.fault (.noThread id.index))
  modify fun m => { m with threads := updateThread id f m.threads }

def threadStatus (m : Machine) (id : ThreadId) : Option ThreadStatus :=
  (m.thread? id).map (·.status)

/-- The next number of a counter of 64 bits. -/
def nextCount (n : Nat) : Except Failure Nat :=
  if n + 1 < Nat.pow 2 64 then .ok (n + 1) else .error .overflow

/-- The next place in the run queue, behind every thread that waits. -/
def takeQueuePosition : Exec Nat := do
  let position := (← get).nextQueued
  let next ← query fun _ => nextCount position
  modify fun m => { m with nextQueued := next }
  return position

/-! ## Collection -/

/-- Keeps a value alive that is handed to the host. -/
def pinHostValue (v : Value) : Exec Unit := modify fun m =>
  let (_, hostValues, heap) := m.heap.pin m.hostValues v
  { m with hostValues, heap }

/-- Everything the machine itself holds. -/
def roots (m : Machine) : Roots :=
  let own : Roots := { objects := [m.rootOwner], scopes := [m.globalScope] }
  own ++ .ofValues m.builtins.values ++ m.threads.foldr (fun t acc => t.roots ++ acc) {}

/-- Drops finished threads nobody waits for and frees what cannot be reached; gives the number of
slots freed. -/
def collectGarbage : Exec Nat := modifyGet fun m =>
  let m := { m with threads := m.threads.filter fun t => !t.isZombie || t.keepOutcome }
  let roots := m.roots
  let (freed, heap) := m.heap.collect roots
  (freed, { m with heap })

def maybeCollectGarbage : Exec Unit := do
  if (← get).heap.shouldCollect then
    let _ ← collectGarbage

end Machine

end ScriptMachine
