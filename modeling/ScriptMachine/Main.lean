import ScriptMachine.Builtin.All
import ScriptMachine.CommandLine
import ScriptMachine.Snapshot.Decode
import ScriptMachine.Snapshot.Encode

/-!
# Running scripts from the command line

The program restores a snapshot if asked, starts one thread for each script, runs until nothing is
left to do, sleeping while threads sleep, and saves a snapshot if asked. It only moves text between
files, the terminal and the machine, and keeps the clock of the machine in step with real time.
-/

namespace ScriptMachine.CommandLine

/-- The machine and the real time at which its clock stood at zero. -/
structure Runner where
  machine : Machine
  epoch : Nat

abbrev Run := StateT Runner IO

/-- Writes the lines that are on the console and takes them off. -/
def flush : Run Unit := do
  for (level, text) in (← get).machine.console.lines do
    match level with
    | .warn | .error => IO.eprintln text
    | _ => IO.println text
  modify fun r => { r with machine := { r.machine with console := {} } }

/-- Carries out an operation at the present time. -/
def perform {α : Type} (x : Exec α) : Run α := do
  let time := (← IO.monoMsNow) - (← get).epoch
  let machine := { (← get).machine with clock := { now := Number.ofNat time } }
  match x machine with
  | .ok a machine =>
    modify fun r => { r with machine }
    flush
    return a
  | .error e machine =>
    modify fun r => { r with machine }
    flush
    throw (IO.userError e.text)

def readFile (path : String) : IO String := do
  try IO.FS.readFile path
  catch e => throw (IO.userError ("Cannot read " ++ path ++ ": " ++ toString e))

/-- The steps taken between two looks at the time. -/
def stride : Nat := 64

/-- Runs a thread until it stops being runnable. -/
partial def runTurn (thread : ThreadId) : Run Unit := do
  if (← perform (Machine.runSteps Builtin.natives thread stride)) == 0 then runTurn thread

/-- Runs threads, and sleeps between them, until nothing is left to do. -/
partial def runAll : Run Unit := do
  if (← get).machine.status == .running then
    match ← perform Machine.schedule with
    | .run thread =>
      perform (Machine.startRun thread)
      runTurn thread
      runAll
    | .waitUntil time =>
      let delay := time - (← perform Machine.now)
      if delay > 0 then IO.sleep delay.ceil.toUInt32
      runAll
    | _ => return

/-- Starts a script on a thread of its own. -/
def start (path : String) : Run ThreadId := do
  let source ← readFile path
  try perform (Machine.spawn source)
  catch e => throw (IO.userError (path ++ ": " ++ toString e))

/-- Whether a script ended with a throw that nothing caught. -/
def threw (thread : ThreadId) : Run Bool := do
  match ← perform (Machine.takeResult thread) with
  | some (.threw _) => return true
  | _ => return false

/-- Runs the scripts; true when none of them threw. -/
def runScripts (o : Options) : Run Bool := do
  if let some path := o.restore then
    let text ← readFile path
    perform (Machine.restoreText Builtin.natives text)
  let threads ← o.files.mapM start
  runAll
  let failed ← threads.mapM threw
  if let some path := o.save then
    let text ← perform Machine.snapshotText
    try IO.FS.writeFile path text
    catch e => throw (IO.userError ("Cannot write " ++ path ++ ": " ++ toString e))
  return !failed.contains true

/-- The configuration from the file that the options name. -/
def configFile (o : Options) : IO Config := do
  match o.config with
  | none => return {}
  | some path =>
    match Config.ofText? (← readFile path) with
    | some c => return c
    | none => throw (IO.userError Failure.json.text)

def runOptions (o : Options) : IO Bool := do
  let threshold := (← IO.getEnv "GC_THRESHOLD").bind String.toNat?
  let config := o.apply threshold (← configFile o)
  match Machine.create config {} with
  | .error e => throw (IO.userError e.text)
  | .ok machine =>
    let random := Host.Random.ofSeed (← IO.monoNanosNow).toUInt64
    let (ok, _) ← (runScripts o).run ⟨{ machine with random }, ← IO.monoMsNow⟩
    return ok

/-- Exit code 0 when all scripts ended well, 1 when something failed, 2 for a bad command line. -/
def execute (arguments : List String) : IO UInt32 := do
  match parse arguments with
  | .error e =>
    IO.eprintln ("error: " ++ e.message)
    IO.eprintln usage
    return 2
  | .ok options =>
    try
      return if ← runOptions options then 0 else 1
    catch e =>
      IO.eprintln ("Error: " ++ toString e)
      return 1

end ScriptMachine.CommandLine

def main (arguments : List String) : IO UInt32 :=
  ScriptMachine.CommandLine.execute arguments
