import ScriptMachine.Source.Token
import ScriptMachine.Value.Basic

/-!
# Failures

Three classes of failure leave an operation. Errors of the running program become throws inside
its thread and can be caught there. Host faults are broken invariants: they end the thread and
reach the host. Refusals of stored images concern the host alone.
-/

namespace ScriptMachine

/-- The error classes of the language; each has a constructor and a prototype. -/
inductive ErrorKind where
  | error | type | range | reference | parse | uri | eval | permission
  deriving DecidableEq, Repr

namespace ErrorKind

def all : List ErrorKind :=
  [.error, .type, .range, .reference, .parse, .uri, .eval, .permission]

def name : ErrorKind → String
  | .error => "Error"
  | .type => "TypeError"
  | .range => "RangeError"
  | .reference => "ReferenceError"
  | .parse => "SyntaxError"
  | .uri => "URIError"
  | .eval => "EvalError"
  | .permission => "PermissionError"

/-- The name of the prototype in the table of builtins. -/
def prototypeKey (k : ErrorKind) : String :=
  k.name ++ ".prototype"

end ErrorKind

inductive HostFault where
  | danglingObject (id : ObjectId)
  | danglingScope (id : ScopeId)
  | danglingProgram (id : ProgramId)
  | nodeOutOfRange (node : Nat)
  | missingBuiltin (name : String)
  | noThread (id : Nat)
  | alreadyDeclared (name : String)
  | escaped (completion : String)
  | tryWithoutNode
  | tryOnOtherNode
  | catchWithoutHandler
  | finallyWithoutFinalizer
  | forInWithoutKeys
  | emptyForInDeclaration
  | noReference (construct : String)
  | referenceAtBase
  | heapOperator (name : String)
  | callWithoutInfo
  | notAFunctionNode
  | namelessDeclaration
  | hoistedVanished
  | noToPrimitive
  | nativeWithoutFunction
  | nativeCallsOther
  | nativeUnregistered (id : String)
  | settledWithoutBlocking (id : String)
  | alreadySettled (resolver : Nat)
  | foreignResolver (resolver thread claimed : Nat)
  | settledWhile (resolver thread : Nat) (status : String)
  | blockedEmpty
  | blockedNotInCall
  | blockedFrameNotBlocked
  | custom (message : String)
  deriving DecidableEq, Repr

/-- The wording of a host fault. -/
def HostFault.message : HostFault → String
  | .danglingObject id => "dangling object #" ++ toString id.index
  | .danglingScope id => "dangling scope #" ++ toString id.index
  | .danglingProgram id => "dangling program #" ++ toString id.index
  | .nodeOutOfRange node => "AST node " ++ toString node ++ " out of range"
  | .missingBuiltin name => "missing builtin '" ++ name ++ "'"
  | .noThread id => "no thread " ++ toString id
  | .alreadyDeclared name => "'" ++ name ++ "' is already declared in this scope"
  | .escaped completion => "'" ++ completion ++ "' escaped the thread"
  | .tryWithoutNode => "try state without a node"
  | .tryOnOtherNode => "try state on a non-try node"
  | .catchWithoutHandler => "catch entered without a handler"
  | .finallyWithoutFinalizer => "finally entered without a finalizer"
  | .forInWithoutKeys => "for-in state without keys"
  | .emptyForInDeclaration => "empty for-in declaration"
  | .noReference construct => construct ++ " target produced no reference"
  | .referenceAtBase => "reference produced at the stack base"
  | .heapOperator name => "operator " ++ name ++ " needs heap access"
  | .callWithoutInfo => "call frame without call info"
  | .notAFunctionNode => "closure does not point at a function"
  | .namelessDeclaration => "function declaration without a name"
  | .hoistedVanished => "hoisted binding vanished"
  | .noToPrimitive => "ToPrimitive is not installed"
  | .nativeWithoutFunction => "native frame without a function"
  | .nativeCallsOther => "native frame calls a non-native"
  | .nativeUnregistered id => "native '" ++ id ++ "' is not registered"
  | .settledWithoutBlocking id => "native '" ++ id ++ "' settled its resolver without blocking"
  | .alreadySettled resolver => "resolver " ++ toString resolver ++ " was already settled"
  | .foreignResolver resolver thread claimed =>
    "resolver " ++ toString resolver ++ " belongs to thread " ++ toString thread ++ ", not " ++
      toString claimed
  | .settledWhile resolver thread status =>
    "resolver " ++ toString resolver ++ " settled while thread " ++ toString thread ++ " is " ++
      status
  | .blockedEmpty => "blocked thread has an empty stack"
  | .blockedNotInCall => "blocked thread is not parked in a call"
  | .blockedFrameNotBlocked => "blocked thread's call frame is not blocked"
  | .custom message => message

inductive Failure where
  /-- An error to be raised in the running program. -/
  | raised (kind : ErrorKind) (message : String)
  /-- Text that could not be parsed. -/
  | malformed (message : String) (line column : Source.Count)
  /-- A value thrown by the program; the message is filled in when it reaches the host. -/
  | thrown (value : Value) (message : String)
  | fault (cause : HostFault)
  /-- A stored image that cannot be restored. -/
  | image (message : String)
  /-- Text that is not JSON, or JSON of the wrong shape. -/
  | json
  /-- A counter ran out of its 64 bits. -/
  | overflow
  deriving DecidableEq, Repr

namespace Failure

/-- Whether a failure passes by the handlers of the program. -/
def isFault : Failure → Bool
  | .fault _ => true
  | .image _ => true
  | .json => true
  | .overflow => true
  | _ => false

def typeError (message : String) : Failure := .raised .type message

def rangeError (message : String) : Failure := .raised .range message

def permissionError (message : String) : Failure := .raised .permission message

def referenceError (name : String) : Failure := .raised .reference (name ++ " is not defined")

/-- One line on a failure for the host. -/
def text : Failure → String
  | .raised kind message => kind.name ++ ": " ++ message
  | .malformed message line column =>
    ErrorKind.parse.name ++ ": " ++ message ++ " at " ++ toString line ++ ":" ++ toString column
  | .thrown _ message => "Uncaught " ++ message
  | .fault cause => "Host fault: " ++ cause.message
  | .image message => "Snapshot error: " ++ message
  | .json => "Snapshot JSON error: malformed text or a value of the wrong shape"
  | .overflow => "Host fault: a counter ran out"

end Failure

end ScriptMachine
