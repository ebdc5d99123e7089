import ScriptMachine.Machine.Statement

/-!
# Unwinding

A jump, a return or a throw drops frames until one of them claims it: a loop or a label for jumps, a
running call for a return, and a handler or finalizer for whatever passes by.
-/

namespace ScriptMachine.Machine

open Exec

/-- Whether a frame is the target of a jump. -/
def isJumpTarget (f : Frame) (kind : CompletionKind) (label : Option String) : Bool :=
  match kind, label with
  | .break, none => f.isLoop || f.isSwitch
  | .continue, none => f.isLoop
  | .break, some l => f.labels.contains l
  | .continue, some l => f.isLoop && f.labels.contains l
  | _, _ => false

/-- What becomes of a frame that a completion meets. -/
inductive Meeting where
  /-- The frame is dropped and unwinding goes on. -/
  | drop
  /-- The frame is dropped and unwinding ends. -/
  | stop
  /-- The frame is kept, changed, and unwinding ends. -/
  | catch (frame : Frame)

/-- Whether the try statement of a frame has a handler and a finalizer. -/
def tryClauses (h : Heap) (f : Frame) : Except Failure (Bool × Bool) := do
  match f.node with
  | none => throw (.fault .tryWithoutNode)
  | some node =>
    match ← Heap.nodeKind (← h.program node.program) node.node with
    | .tryStatement _ handler finalizer => return (handler.isSome, finalizer.isSome)
    | _ => throw (.fault .tryOnOtherNode)

/-- A completion at a frame that is no try statement. -/
def meetPlain (f : Frame) (c : Completion) : Meeting :=
  match c.kind with
  | .return =>
    match f.info with
    | .call call =>
      if call.phase == .running then
        .catch { f with info := .call { call with phase := .returned }, value := c.value }
      else .drop
    | _ => .drop
  | .break => if isJumpTarget f c.kind c.label then .stop else .drop
  | .continue => if isJumpTarget f c.kind c.label then .catch f else .drop
  | .throw => .drop
  | .normal => .drop

/-- A completion at a frame. -/
def meet (h : Heap) (f : Frame) (c : Completion) : Except Failure Meeting := do
  match f.info with
  | .try phase _ =>
    let (hasHandler, hasFinalizer) ← tryClauses h f
    if phase == .block && hasHandler && c.kind == .throw then
      return .catch { f with step := 2, value := c.value }
    else if phase != .finalizer && hasFinalizer then
      return .catch { f with info := .try phase (some c), step := 4 }
    else return .drop
  | _ => return meetPlain f c

/-- What is left of a stack after unwinding. -/
inductive Unwound where
  | caught (stack : Stack)
  /-- No frame claimed the completion. -/
  | escaped
  /-- A frame could not be judged; it is dropped with those above it. -/
  | broken (stack : Stack) (failure : Failure)

/-- Drops frames, of which there are `depth`, until one claims the completion. -/
def unwindFrames (h : Heap) (c : Completion) :
    (frames : List Frame) → (depth : Nat) → depth = frames.length → Unwound
  | [], _, _ => .escaped
  | f :: rest, depth, depth_eq =>
    let below : Stack := ⟨rest, depth - 1, by simp [depth_eq]⟩
    match meet h f c with
    | .error e => .broken below e
    | .ok .stop => .caught below
    | .ok (.catch g) => .caught (below.push g)
    | .ok .drop => unwindFrames h c rest (depth - 1) below.depth_eq

/-- Drops frames until one claims the completion. -/
def unwindStack (h : Heap) (c : Completion) (s : Stack) : Unwound :=
  unwindFrames h c s.frames s.depth s.depth_eq

/-! ## The end of a thread -/

/-- Ends a live thread from outside. Tells whether there was one. -/
def killThread (thread : ThreadId) : Exec Bool := do
  match (← get).thread? thread with
  | some t =>
    if t.isZombie then return false
    modifyThread thread fun t => t.finish .killed
    return true
  | none => return false

/-- A fault ends its thread and reaches the host. -/
def fault {α : Type} (thread : ThreadId) (e : Failure) : Exec α := do
  let _ ← killThread thread
  throw e

/-- The text of an uncaught value: the calls that led to it where they are known. -/
def uncaughtText (m : Machine) (v : Value) : String :=
  match v.object?.bind fun id => m.textField? id "stack" with
  | some stack => stack
  | none => m.renderError v

/-- Ends a thread; an uncaught throw is reported on the console. -/
def finishThread (thread : ThreadId) (outcome : Outcome) : Exec Unit := do
  if let .threw v := outcome then
    write .error ("Uncaught " ++ (← get).uncaughtText v)
  modifyThread thread fun t => t.finish outcome

/-- Ends a thread whose frames were all dropped by a completion. -/
def escape (thread : ThreadId) (c : Completion) : Exec Unit := do
  modifyThread thread fun t => { t with stack := .empty }
  match c.kind with
  | .throw => finishThread thread (.threw c.value)
  | kind => fault thread (.fault (.escaped kind.name))

/-- Unwinds a thread. -/
def unwind (thread : ThreadId) (c : Completion) : Exec Unit := do
  match (← get).thread? thread with
  | none => throw (.fault (.noThread thread.index))
  | some t =>
    match unwindStack (← get).heap c t.stack with
    | .caught stack => modifyThread thread fun t => { t with stack }
    | .broken stack e =>
      modifyThread thread fun t => { t with stack }
      throw e
    | .escaped => escape thread c

/-- Throws a failure into a thread; a fault ends the thread instead. -/
def raise (thread : ThreadId) (scope : ScopeId) (e : Failure) : Exec Unit := do
  if e.isFault then fault thread e
  else
    match ← attempt (errorToValue e scope thread) with
    | .ok v => unwind thread { kind := .throw, value := v }
    | .error e => fault thread e

end ScriptMachine.Machine
