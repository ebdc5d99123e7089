import ScriptMachine.Builtin.Global

/-!
# Builtins of threads, timers and owners

A timer is a thread that starts asleep.
-/

namespace ScriptMachine.Builtin.Threads

open Machine Exec

/-- The thread an argument names. -/
def threadArg? (c : NativeCall) (i : Nat) : Option ThreadId :=
  (Number.toNat? (c.arg i).toNumber).map fun n => ⟨min n (Nat.pow 2 64 - 1)⟩

/-- A time in milliseconds; what is not positive and finite counts as zero. -/
def millisArg (c : NativeCall) (i : Nat) : Float := validDelay (c.arg i).toNumber

def setTimeout (c : NativeCall) : Exec Value := do
  match c.owner with
  | none => throw noOwner
  | some owner =>
    let id ← spawnCallAs (c.arg 0) .undefined (c.args.drop 2) (millisArg c 1) owner false
    return .nat id.index

def clearTimeout (c : NativeCall) : Exec Value := do
  if let some id := threadArg? c 0 then
    let _ ← killThread id
  return .undefined

/-- Lets other threads run, and sleeps. -/
def suspend (c : NativeCall) : Exec NativeReply := do
  return c.reply (.sleep ((← now) + millisArg c 0))

def kill (c : NativeCall) : Exec Value := do
  match threadArg? c 0 with
  | some id => return .bool (← killThread id)
  | none => return .bool false

/-- Limits the runs of the calling thread; undefined, null and infinity remove the limit. -/
def limitThread (c : NativeCall) : Exec Value := do
  let n := (c.arg 0).toNumber
  if (c.arg 0).isNullish then setTimeLimit c.thread none
  else if n.isNaN || n < 0 then throw (.rangeError "Invalid time limit")
  else setTimeLimit c.thread (if n.isFinite then some n else none)
  return .undefined

def getTimeLimit (c : NativeCall) : Exec Value := do
  match (← get).timeLimit c.thread with
  | some n => return .number n
  | none => return .null

def perms (c : NativeCall) : Exec Value :=
  match c.owner with
  | some owner => pure (.object owner)
  | none => pure .null

/-- The calling scope acts as another owner from now on. -/
def setPerms (c : NativeCall) : Exec Value := do
  let target ← objectArg c 0 "setPerms"
  query fun m => m.authorizeOwner c.owner (some target) .become
  setScopeOwner c.scope target
  return .undefined

def globals : List Method :=
  [.direct "setTimeout" 2 setTimeout, .direct "clearTimeout" 1 clearTimeout,
   ⟨"suspend", 1, suspend⟩, .direct "perms" 0 perms, .direct "setPerms" 1 setPerms]

def methods : List Method :=
  [.direct "current" 0 fun c => return .nat c.thread.index, .direct "kill" 1 kill,
   .direct "setTimeLimit" 1 limitThread, .direct "getTimeLimit" 0 getTimeLimit]

def natives : Natives := globalNatives globals ++ methodNatives "Thread" methods

def install : Exec Unit := do
  Globals.installAll globals
  attach (← createNamespace "Thread") "Thread" methods

end ScriptMachine.Builtin.Threads
