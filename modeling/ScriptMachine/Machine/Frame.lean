import ScriptMachine.Heap.Collect

/-!
# Frames

A frame records how far the evaluation of one node has got, or the progress of one call. The stack
of frames of a thread is its whole continuation: it is plain data, and nothing about a running
program is kept anywhere else.
-/

namespace ScriptMachine

/-- What a frame evaluates to when its parent wants a place rather than a value. -/
inductive Reference where
  /-- A binding; no scope for a name that is bound nowhere. -/
  | binding (scope : Option ScopeId) (name : String)
  | property (base : Value) (key : String)
  deriving DecidableEq, Repr

inductive CompletionKind where
  | normal | break | continue | return | throw
  deriving DecidableEq, Repr

namespace CompletionKind

def name : CompletionKind → String
  | .normal => "normal"
  | .break => "break"
  | .continue => "continue"
  | .return => "return"
  | .throw => "throw"

def ofName? (s : String) : Option CompletionKind :=
  [.normal, .break, .continue, .return, .throw].find? (·.name == s)

end CompletionKind

/-- How a construct ended when it did not end normally. -/
structure Completion where
  kind : CompletionKind
  value : Value := .undefined
  label : Option String := none
  deriving DecidableEq, Repr

inductive TryPhase where
  | block | handler | finalizer
  deriving DecidableEq, Repr

namespace TryPhase

def name : TryPhase → String
  | .block => "block"
  | .handler => "handler"
  | .finalizer => "finalizer"

def ofName? (s : String) : Option TryPhase :=
  [.block, .handler, .finalizer].find? (·.name == s)

end TryPhase

/-- The progress of a call. -/
inductive CallPhase where
  /-- Nothing has run yet. -/
  | ready
  /-- The body is running. -/
  | running
  /-- The call has finished; the value of the frame is its result. -/
  | returned
  /-- A host function waits for an evaluation it asked for. -/
  | reentered
  /-- Parked until a resolver is settled. -/
  | blocked
  /-- The resolver was rejected; the value of the frame is the reason. -/
  | rejected
  deriving DecidableEq, Repr

namespace CallPhase

def name : CallPhase → String
  | .ready => "ready"
  | .running => "running"
  | .returned => "returned"
  | .reentered => "reentered"
  | .blocked => "blocked"
  | .rejected => "rejected"

def ofName? (s : String) : Option CallPhase :=
  [.ready, .running, .returned, .reentered, .blocked, .rejected].find? (·.name == s)

end CallPhase

structure CallInfo where
  func : Value
  receiver : Value
  args : List Value
  phase : CallPhase := .ready
  construct : Bool
  /-- The progress a host function keeps between its runs. -/
  nativePhase : Nat := 0
  scratch : List Value := []
  /-- The object under construction. -/
  newObject : Option ObjectId := none
  deriving DecidableEq, Repr

/-- What a frame needs beyond its step count. -/
inductive FrameInfo where
  | none
  /-- Values evaluated so far. -/
  | operands (values : List Value)
  | call (info : CallInfo)
  /-- The completion is resumed once the finalizer is done. -/
  | try (phase : TryPhase) (completion : Option Completion)
  | switch (discriminant : Value) (clause statement : Nat) (matched : Bool)
  | forIn (keys : List String) (index : Nat) (object : Value)
  /-- The object or array being built. -/
  | object (id : ObjectId)
  | program (completion : Value)
  deriving DecidableEq, Repr

structure Frame where
  /-- The node under evaluation; none for a call. -/
  node : Option NodeRef
  scope : ScopeId
  step : Nat := 0
  wantRef : Bool := false
  /-- The value of the child that finished last. -/
  value : Value := .undefined
  /-- The reference of the child that finished last. -/
  reference : Option Reference := none
  labels : List String := []
  isLoop : Bool := false
  isSwitch : Bool := false
  info : FrameInfo := .none
  deriving DecidableEq, Repr

namespace Frame

def ofNode (node : NodeRef) (scope : ScopeId) : Frame := { node := some node, scope }

def ofCall (scope : ScopeId) (info : CallInfo) : Frame :=
  { node := none, scope, info := .call info }

/-- Adds an operand; other info is replaced. -/
def pushOperand (f : Frame) (v : Value) : Frame :=
  match f.info with
  | .operands values => { f with info := .operands (values ++ [v]) }
  | _ => { f with info := .operands [v] }

def operands (f : Frame) : List Value :=
  match f.info with
  | .operands values => values
  | _ => []

def operand (f : Frame) (i : Nat) : Value := f.operands.getD i .undefined

/-- Replaces an operand that is present. -/
def setOperand (f : Frame) (i : Nat) (v : Value) : Frame :=
  match f.info with
  | .operands values => { f with info := .operands (values.set i v) }
  | _ => f

/-- Gives up the operands. -/
def dropOperands (f : Frame) : Frame :=
  match f.info with
  | .operands _ => { f with info := .none }
  | _ => f

/-- Gives up the value of the last child. -/
def clearValue (f : Frame) : Frame := { f with value := .undefined }

end Frame

/-- What a step asks for. A frame that is kept is handed back as the step left it. -/
inductive Step where
  /-- Keep the frame and evaluate a child on top of it. -/
  | push (frame child : Frame)
  /-- Keep the frame and step it again. -/
  | stay (frame : Frame)
  /-- Drop the frame and hand a value to the one below. -/
  | done (value : Value)
  /-- Drop the frame and hand a reference to the one below. -/
  | ref (reference : Reference)
  /-- Drop the frame and unwind. -/
  | unwind (completion : Completion)
  /-- Keep the frame; the thread is no longer runnable. -/
  | suspend (frame : Frame)
  deriving DecidableEq, Repr

namespace Step

/-- Evaluates a node of the program of `here` in the scope of the frame. -/
def enter (f : Frame) (here : NodeRef) (node : Tree.NodeId) : Step :=
  .push f (.ofNode { here with node } f.scope)

/-- Evaluates a node for a reference rather than a value. -/
def enterRef (f : Frame) (here : NodeRef) (node : Tree.NodeId) : Step :=
  .push f { Frame.ofNode { here with node } f.scope with wantRef := true }

def throwing (v : Value) : Step := .unwind { kind := .throw, value := v }

end Step

/-! ## Handles held by frames -/

def Reference.roots : Reference → Roots
  | .binding scope _ => { scopes := scope.toList }
  | .property base _ => .ofValue base

def FrameInfo.roots : FrameInfo → Roots
  | .none => {}
  | .operands values => .ofValues values
  | .call c =>
    Roots.ofValues (c.func :: c.receiver :: (c.args ++ c.scratch)) ++
      { objects := c.newObject.toList }
  | .try _ completion =>
    match completion with
    | some c => .ofValue c.value
    | _ => {}
  | .switch discriminant _ _ _ => .ofValue discriminant
  | .forIn _ _ subject => .ofValue subject
  | .object id => { objects := [id] }
  | .program completion => .ofValue completion

def Frame.roots (f : Frame) : Roots :=
  let here : Roots :=
    { objects := f.value.object?.toList
      scopes := [f.scope]
      programs := (f.node.map NodeRef.program).toList }
  let reference :=
    match f.reference with
    | some r => r.roots
    | none => {}
  here ++ reference ++ f.info.roots

end ScriptMachine
