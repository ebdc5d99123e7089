import ScriptMachine.Machine.Frame

/-!
# Threads

A thread is a stack of frames with what the scheduler needs to know about it.
-/

namespace ScriptMachine

/-- Frames with the top one first, and their number. -/
structure Stack where
  frames : List Frame := []
  depth : Nat := 0
  depth_eq : depth = frames.length := by simp

namespace Stack

/-- The stack without frames. -/
def empty : Stack := {}

def ofList (frames : List Frame) : Stack := ⟨frames, frames.length, rfl⟩

def push (s : Stack) (f : Frame) : Stack :=
  ⟨f :: s.frames, s.depth + 1, by simp [s.depth_eq]⟩

def top? (s : Stack) : Option Frame := s.frames.head?

/-- The stack below the top frame. -/
def dropTop (s : Stack) : Stack :=
  ⟨s.frames.tail, s.depth - 1, by simp [s.depth_eq]⟩

/-- Changes the top frame. -/
def modifyTop (s : Stack) (g : Frame → Frame) : Stack :=
  match h : s.frames with
  | [] => s
  | f :: rest => ⟨g f :: rest, s.depth, by simp [s.depth_eq, h]⟩

def isEmpty (s : Stack) : Bool := s.frames.isEmpty

/-- Stores a value as the completion of the nearest program, unless a call lies in between. -/
def recordIn (v : Value) : List Frame → List Frame
  | [] => []
  | f :: rest =>
    match f.info with
    | .program _ => { f with info := .program v } :: rest
    | .call _ => f :: rest
    | _ => f :: recordIn v rest

theorem length_recordIn (v : Value) (frames : List Frame) :
    (recordIn v frames).length = frames.length := by
  fun_induction recordIn v frames <;> simp_all

/-- The value of an expression statement becomes the completion of the program around it. -/
def recordCompletion (s : Stack) (v : Value) : Stack :=
  ⟨recordIn v s.frames, s.depth, by rw [length_recordIn, s.depth_eq]⟩

@[simp] theorem frames_push (s : Stack) (f : Frame) : (s.push f).frames = f :: s.frames := rfl

end Stack

structure ThreadId where
  index : Nat
  deriving DecidableEq, Repr, Inhabited

inductive ThreadStatus where
  | ready | sleeping | blocked | zombie
  deriving DecidableEq, Repr

namespace ThreadStatus

def name : ThreadStatus → String
  | .ready => "ready"
  | .sleeping => "sleeping"
  | .blocked => "blocked"
  | .zombie => "zombie"

def ofName? (s : String) : Option ThreadStatus :=
  [.ready, .sleeping, .blocked, .zombie].find? (·.name == s)

end ThreadStatus

/-- How a finished thread ended. -/
inductive Outcome where
  | completed (value : Value)
  | threw (value : Value)
  | killed
  deriving DecidableEq, Repr

structure Thread where
  id : ThreadId
  status : ThreadStatus := .ready
  stack : Stack := .empty
  /-- When the thread became or becomes runnable. -/
  runAt : Float
  /-- The place in the run queue, among threads runnable at the same time. -/
  queued : Nat := 0
  /-- The time one run may take, in milliseconds. -/
  timeLimit : Option Float
  /-- When the current run started. -/
  runStarted : Float
  outcome : Option Outcome := none
  /-- Whether a finished thread waits for the host to take its outcome. -/
  keepOutcome : Bool := false

namespace Thread

def isZombie (t : Thread) : Bool := t.status == .zombie

/-- A finished thread has no frames; finalizers that were pending do not run. -/
def finish (t : Thread) (outcome : Outcome) : Thread :=
  { t with status := .zombie, stack := .empty, outcome := some outcome }

/-- Whether a thread goes before another. -/
def before (a b : Thread) : Bool :=
  let x := Number.orderKey a.runAt
  let y := Number.orderKey b.runAt
  x < y || (x == y && (a.queued < b.queued || (a.queued == b.queued && a.id.index < b.id.index)))

/-- A sleeping thread that is due becomes runnable; the time it slept is not charged to it. -/
def wake (t : Thread) (time : Float) : Thread :=
  if t.status == .sleeping && t.runAt ≤ time then
    { t with status := .ready, runStarted := time }
  else t

def roots (t : Thread) : Roots :=
  let frames := t.stack.frames.foldr (fun f acc => f.roots ++ acc) {}
  match t.outcome with
  | some (.completed v) => frames ++ .ofValue v
  | some (.threw v) => frames ++ .ofValue v
  | _ => frames

end Thread

end ScriptMachine
