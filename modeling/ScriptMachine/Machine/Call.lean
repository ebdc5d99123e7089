import ScriptMachine.Machine.Closure
import ScriptMachine.Machine.Native
import ScriptMachine.Machine.Resolver

/-!
# Calls

A call is a frame of its own. Bindings of receivers and arguments are unfolded first; a closure
then pushes its body, and a host function runs at once and answers.
-/

namespace ScriptMachine.Machine

open Exec

/-- Raises an error when the current run of a thread took longer than its limit allows. The run
starts anew then, so that a handler gets its time. -/
def checkTimeLimit (thread : ThreadId) : Exec Unit := do
  let time ← now
  match (← get).thread? thread with
  | none => throw (.fault (.noThread thread.index))
  | some t =>
    match t.timeLimit with
    | none => return
    | some limit =>
      if time - t.runStarted > limit then
        modifyThread thread fun t => { t with runStarted := time }
        throw (.rangeError "Thread ran too long")

/-- The function that converts objects to primitives. -/
def toPrimitiveFunction (m : Machine) : Except Failure Value :=
  match m.builtin? "ToPrimitive" with
  | some func => .ok func
  | none => .error (.fault .noToPrimitive)

/-- The frame of a call that converts a value to a primitive. -/
def toPrimitiveFrame (m : Machine) (v : Value) (hint : Hint) (scope : ScopeId) :
    Except Failure Frame := do
  let func ← m.toPrimitiveFunction
  return .ofCall scope
    { func, receiver := .undefined, args := [v, .string hint.name], construct := false }

/-- Enters the body of a closure. -/
def enterFunction (f : Frame) (call : CallInfo) (func : ObjectId) (node : NodeRef)
    (closure : ScopeId) : Exec Step := do
  let literal ← heapQuery fun h => functionNode h node
  let callerOwner ← scopeOwner f.scope
  let owner := (← heapQuery (·.object func)).owner.or callerOwner
  let newObject ←
    if call.construct then do
      let proto ←
        match (← heapQuery (·.lookup func "prototype")).bind fun p => p.value.object? with
        | some proto => pure proto
        | none => builtinObject "Object.prototype"
      pure (some (← createObject (some proto) owner))
    else pure call.newObject
  let receiver :=
    match call.construct, newObject with
    | true, some id => .object id
    | _, _ => call.receiver
  let scope ← newScope .function (some closure) owner (some receiver)
  declareParams scope literal.params call.args
  if !(← bindsLocally scope "arguments") then
    let arguments ← createArguments call.args owner
    declare scope "arguments" (.object arguments) false
  hoist literal.hoisted node.program scope
  return .push { f with info := .call { call with phase := .running, newObject } }
    (.ofNode { node with node := literal.body } scope)

/-- The behaviour of a host function in a call. -/
def nativeCode (natives : Natives) (id : String) (construct : Bool) :
    Except Failure NativeCode :=
  match natives.lookup id with
  | none => .error (.fault (.nativeUnregistered id))
  | some entry =>
    if construct then
      match entry.construct with
      | some code => .ok code
      | none => .error (.typeError (id ++ " is not a constructor"))
    else .ok entry.call

/-- Acts on the answer of a host function. -/
def applyReply (thread : ThreadId) (f : Frame) (call : CallInfo) (owner : Option Owner)
    (early : Option Settlement) (result : NativeResult) : Exec Step := do
  match result with
  | .value v => return .done v
  | .call func receiver args =>
    return .push { f with info := .call { call with phase := .reentered } }
      (.ofCall f.scope { func, receiver, args, construct := false })
  | .eval program =>
    let root := (← heapQuery (·.program program)).root
    let scope ← newScope .eval (some (← get).globalScope) owner (some .undefined)
    return .push { f with info := .call { call with phase := .reentered } }
      (.ofNode ⟨program, root⟩ scope)
  | .block =>
    match early with
    | some s =>
      let (phase, value) := s.toPhase
      return .stay { f with info := .call { call with phase }, value }
    | none =>
      modifyThread thread fun t => { t with status := .blocked }
      return .suspend { f with info := .call { call with phase := .blocked } }
  | .sleep time =>
    let queued ← takeQueuePosition
    modifyThread thread fun t => { t with status := .sleeping, runAt := time, queued }
    return .suspend { f with info := .call { call with phase := .returned }, value := .undefined }

/-- Runs a host function, for the first time or with the result of what it asked for. -/
def invokeNative (natives : Natives) (thread : ThreadId) (f : Frame) (call : CallInfo)
    (resumed : Option Value) : Exec Step := do
  let owner ← scopeOwner f.scope
  match call.func.object? with
  | none => throw (.fault .nativeWithoutFunction)
  | some func =>
    match (← heapQuery (·.object func)).function with
    | some (.native id) =>
      let code ← query fun _ => nativeCode natives id call.construct
      let answer ← attempt (code
        { func, receiver := call.receiver, args := call.args, owner, scope := f.scope, thread
          construct := call.construct, phase := call.nativePhase, scratch := call.scratch
          resumed })
      let early ← takeEarly thread
      let reply ← query fun _ => answer
      if early.isSome && !reply.result.isBlock then
        throw (.fault (.settledWithoutBlocking id))
      applyReply thread f { call with nativePhase := reply.phase, scratch := reply.scratch } owner
        early reply.result
    | _ => throw (.fault .nativeCallsOther)

/-- Starts a call. A chain of bound functions has at most as many links as there are objects. -/
def startCall (natives : Natives) (thread : ThreadId) (f : Frame) :
    Nat → CallInfo → Exec Step
  | 0, _ => throw (.typeError "value is not a function")
  | fuel + 1, call => do
    let m ← get
    match call.func.object? with
    | none => throw (.typeError (m.describe call.func ++ " is not a function"))
    | some func =>
      match (← heapQuery (·.object func)).function with
      | none => throw (.typeError (m.describe call.func ++ " is not a function"))
      | some (.bound target receiver args) =>
        startCall natives thread f fuel
          { call with
            func := .object target
            receiver := if call.construct then call.receiver else receiver
            args := args ++ call.args }
      | some (.closure node scope) => enterFunction f call func node scope
      | some (.native _) => invokeNative natives thread f call none

/-- The result of a call: an object under construction stands in for a result that is none. -/
def callResult (call : CallInfo) (v : Value) : Value :=
  match call.construct, call.newObject with
  | true, some id => if v.isObject then v else .object id
  | _, _ => v

/-- Advances a call. -/
def stepCall (natives : Natives) (thread : ThreadId) (f : Frame) : Exec Step := do
  match f.info with
  | .call call =>
    match call.phase with
    | .ready =>
      checkTimeLimit thread
      startCall natives thread f ((← get).heap.objects.size + 1) call
    | .running => return .done (callResult call .undefined)
    | .returned => return .done (callResult call f.value)
    | .reentered => invokeNative natives thread f.clearValue call (some f.value)
    | .rejected => return .throwing f.value
    | .blocked => return .suspend f
  | _ => throw (.fault .callWithoutInfo)

end ScriptMachine.Machine
