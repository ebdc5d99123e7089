import ScriptMachine.Machine.Call
import ScriptMachine.Value.Operator

/-!
# Steps of expressions

Operands are collected in the frame, one child a step. A conversion that may run code is a call
pushed on the stack, so a thread can stop in the middle of any operator.
-/

namespace ScriptMachine.Machine

open Exec
open ScriptMachine.Tree (NodeId NodeKind BinaryOp)

/-! ## References -/

/-- The value at a place. -/
def readReference (r : Reference) (scope : ScopeId) : Exec Value :=
  match r with
  | .binding (some found) name => readBinding found name
  | .binding none name => throw (.referenceError name)
  | .property base key => do
    let actor ← scopeOwner scope
    query fun m => m.getProperty base key actor

/-- Stores a value at a place. -/
def writeReference (r : Reference) (v : Value) (scope : ScopeId) : Exec Unit :=
  match r with
  | .binding (some found) name => writeBinding found name v
  | .binding none name => throw (.referenceError name)
  | .property base key => do
    let actor ← scopeOwner scope
    setProperty base key v actor

/-- The reference a child produced, which a construct needs. -/
def takeReference (f : Frame) (construct : String) : Exec Reference :=
  match f.reference with
  | some r => pure r
  | none => throw (.fault (.noReference construct))

/-! ## Operators -/

/-- What a binary operator comes to: a value, or a conversion to run first. -/
inductive Combined where
  | value (v : Value)
  | convert (frame child : Frame)

/-- Applies an operator to operands that need no conversion any more. -/
def applyOperator (op : BinaryOp) (left right : Value) (scope : ScopeId) : Exec Value := do
  match op with
  | .in =>
    let key := left.toText
    match right.object? with
    | none =>
      throw (.typeError ("Cannot use 'in' operator to search for '" ++ key ++ "' in " ++
        (← get).describe right))
    | some id =>
      let actor ← scopeOwner scope
      return .bool (← query fun m => m.hasProperty id key actor)
  | .instanceof =>
    let actor ← scopeOwner scope
    return .bool (← query fun m => m.instanceOf left right actor)
  | _ =>
    match Value.applyBinary? op left right with
    | some v => return v
    | none => throw (.fault (.heapOperator (Tree.nameOf BinaryOp.table op)))

/-- Converts the right operand if the operator needs it, and applies the operator otherwise. -/
def combineRight (op : BinaryOp) (f : Frame) : Exec Combined := do
  let left := f.operand 0
  let right := f.operand 1
  match conversionHint op right left false with
  | some hint =>
    return .convert { f with step := 5 }
      (← query fun m => m.toPrimitiveFrame right hint f.scope)
  | none => return .value (← applyOperator op left right f.scope)

/-- Finishes a binary operator on collected operands: the left one is converted at step 3 and taken
at step 4, the right one is taken after that. -/
def combine (op : BinaryOp) (f : Frame) : Exec Combined := do
  match f.step with
  | 3 =>
    match conversionHint op (f.operand 0) (f.operand 1) true with
    | some hint =>
      return .convert { f with step := 4 }
        (← query fun m => m.toPrimitiveFrame (f.operand 0) hint f.scope)
    | none => combineRight op f
  | 4 => combineRight op (f.setOperand 0 f.value).clearValue
  | _ =>
    let f := f.setOperand 1 f.value
    return .value (← applyOperator op (f.operand 0) (f.operand 1) f.scope)

/-- Collects the right operand when it has just been evaluated, and goes on. -/
def collectRight (op : BinaryOp) (f : Frame) : Exec Combined :=
  if f.step == 2 then combine op { (f.pushOperand f.value).clearValue with step := 3 }
  else combine op f

def stepBinary (f : Frame) (here : NodeRef) (op : BinaryOp) (left right : NodeId) :
    Exec Step := do
  match f.step with
  | 0 => return .enter { f with step := 1 } here left
  | 1 => return .enter { (f.pushOperand f.value).clearValue with step := 2 } here right
  | _ =>
    match ← collectRight op f with
    | .value v => return .done v
    | .convert f child => return .push f child

def stepLogical (f : Frame) (here : NodeRef) (op : Tree.LogicalOp) (left right : NodeId) : Step :=
  match f.step with
  | 0 => .enter { f with step := 1 } here left
  | 1 =>
    let decided :=
      match op with
      | .and => !f.value.truthy
      | .or => f.value.truthy
    if decided then .done f.value else .enter { f.clearValue with step := 2 } here right
  | _ => .done f.value

def stepAssignment (f : Frame) (here : NodeRef) (op : Tree.AssignmentOp) (target value : NodeId) :
    Exec Step := do
  match f.step with
  | 0 => return .enterRef { f with step := 1 } here target
  | 1 =>
    if op.binary?.isSome then
      let old ← readReference (← takeReference f "assignment") f.scope
      return .enter { f.pushOperand old with step := 2 } here value
    else return .enter { f with step := 2 } here value
  | _ =>
    let store (v : Value) : Exec Step := do
      writeReference (← takeReference f "assignment") v f.scope
      return .done v
    match op.binary? with
    | none => store f.value
    | some op =>
      match ← collectRight op f with
      | .value v => store v
      | .convert f child => return .push f child

def stepUpdate (f : Frame) (here : NodeRef) (op : Tree.UpdateOp) (before : Bool)
    (argument : NodeId) : Exec Step := do
  match f.step with
  | 0 => return .enterRef { f with step := 1 } here argument
  | 1 =>
    let old ← readReference (← takeReference f "update") f.scope
    if old.isObject then
      return .push { f with step := 2 } (← query fun m => m.toPrimitiveFrame old .number f.scope)
    else return .stay { f with step := 2, value := old }
  | _ =>
    let old := f.value.toNumber
    let new :=
      match op with
      | .increment => old + 1
      | .decrement => old - 1
    writeReference (← takeReference f "update") (.number new) f.scope
    return .done (.number (if before then new else old))

/-- Starts a unary operator: `typeof` and `delete` want a place where there is one. -/
def startUnary (f : Frame) (here : NodeRef) (kind : NodeKind) (op : Tree.UnaryOp)
    (argument : NodeId) : Step :=
  let f := { f with step := 1 }
  match op, kind with
  | .delete, .member _ _ => .enterRef f here argument
  | .delete, .identifier _ => .done (.bool false)
  | .typeof, _ => if kind.isReference then .enterRef f here argument else .enter f here argument
  | _, _ => .enter f here argument

def finishTypeof (f : Frame) : Exec Step := do
  match f.reference with
  | some (.binding none _) => return .done (.string "undefined")
  | some r =>
    let v ← readReference r f.scope
    return .done (.string ((← get).typeOf v))
  | none => return .done (.string ((← get).typeOf f.value))

def finishDelete (f : Frame) : Exec Step := do
  match f.reference with
  | some (.property (.object id) key) =>
    let actor ← scopeOwner f.scope
    return .done (.bool (← deleteProperty id key actor))
  | some (.property base key) =>
    if base.isNullish then
      throw (.typeError
        ("Cannot convert undefined or null to object for delete of '" ++ key ++ "'"))
    else return .done (.bool true)
  | _ => return .done (.bool true)

/-- Finishes a unary operator on numbers, after converting an object. -/
def finishNumeric (f : Frame) (apply : Float → Value) : Exec Step := do
  if f.step == 1 && f.value.isObject then
    return .push { f.clearValue with step := 2 }
      (← query fun m => m.toPrimitiveFrame f.value .number f.scope)
  else return .done (apply f.value.toNumber)

def stepUnary (f : Frame) (here : NodeRef) (program : Tree.Program) (op : Tree.UnaryOp)
    (argument : NodeId) : Exec Step := do
  if f.step == 0 then
    let kind ← query fun _ => Heap.nodeKind program argument
    return startUnary f here kind op argument
  else
    match op with
    | .typeof => finishTypeof f
    | .delete => finishDelete f
    | .void => return .done .undefined
    | .not => return .done (.bool (!f.value.truthy))
    | .minus => finishNumeric f fun n => .number (-n)
    | .plus => finishNumeric f fun n => .number n
    | .bitNot => finishNumeric f fun n => Value.ofSigned (~~~ Number.toWord n)

/-! ## Literals -/

/-- The object a literal is building; it is made at the first step. -/
def literalObject (f : Frame) (create : Option Owner → Exec ObjectId) : Exec ObjectId := do
  match f.info with
  | .object id => return id
  | _ => create (← scopeOwner f.scope)

def stepArray (f : Frame) (here : NodeRef) (elements : List (Option NodeId)) : Exec Step := do
  let id ← literalObject f (createArray [])
  let stored :=
    match f.step with
    | 0 => false
    | i + 1 => elements[i]?.join.isSome
  if stored then
    modifyObject id fun o => o.put (Number.natText (f.step - 1)) (.data f.value)
  let f := { (if stored then f.clearValue else f) with info := .object id }
  -- A hole leaves its index absent.
  let next := f.step + ((elements.drop f.step).takeWhile Option.isNone).length
  match elements[next]?.join with
  | some node => return .enter { f with step := next + 1 } here node
  | none =>
    modifyObject id fun o => o.put "length" (.length (.nat (elements.length % 4294967296)))
    return .done (.object id)

def stepObject (f : Frame) (here : NodeRef) (properties : List Tree.PropertyInit) :
    Exec Step := do
  let id ← literalObject f createPlainObject
  let stored :=
    match f.step with
    | 0 => none
    | i + 1 => properties[i]?
  if let some init := stored then
    modifyObject id fun o => o.put init.key (.data f.value)
  let f := { (if stored.isSome then f.clearValue else f) with info := .object id }
  match properties[f.step]? with
  | some init => return .enter { f with step := f.step + 1 } here init.value
  | none => return .done (.object id)

/-- A function expression; one with a name sees itself under that name. -/
def stepFunction (f : Frame) (here : NodeRef) (function : Tree.FunctionNode) : Exec Step := do
  let owner ← scopeOwner f.scope
  match function.name with
  | none => return .done (.object (← createClosure here f.scope owner))
  | some name =>
    let scope ← newScope .functionName (some f.scope) owner none
    let func ← createClosure here scope owner
    declare scope name (.object func) false
    return .done (.object func)

def literalValue : Tree.Literal → Value
  | .null => .null
  | .bool b => .bool b
  | .number n => .number n
  | .string s => .string s

/-! ## Names, members and calls -/

def stepIdentifier (f : Frame) (name : String) : Exec Step := do
  if f.wantRef then return .ref (.binding (← resolveBinding f.scope name) name)
  else return .done (← getBinding f.scope name)

def finishMember (f : Frame) (base : Value) (key : String) : Exec Step := do
  if f.wantRef then return .ref (.property base key)
  else
    let actor ← scopeOwner f.scope
    return .done (← query fun m => m.getProperty base key actor)

def stepMember (f : Frame) (here : NodeRef) (object : NodeId) (property : Tree.MemberProperty) :
    Exec Step := do
  match f.step with
  | 0 => return .enter { f with step := 1 } here object
  | 1 =>
    match property with
    | .named name => finishMember f f.value name
    | .computed key => return .enter { (f.pushOperand f.value).clearValue with step := 2 } here key
  | 2 =>
    if f.value.isObject then
      return .push { f.clearValue with step := 3 }
        (← query fun m => m.toPrimitiveFrame f.value .string f.scope)
    else finishMember f (f.operand 0) f.value.toText
  | _ => finishMember f (f.operand 0) f.value.toText

/-- The step of a call expression whose call has been pushed. -/
def calledStep : Nat := 4294967295

/-- The callee and its receiver, once the callee has been evaluated. -/
def calleeOf (f : Frame) : Exec (Value × Value) := do
  match f.reference with
  | some r =>
    let func ← readReference r f.scope
    match r with
    | .property base _ => return (func, base)
    | .binding _ _ => return (func, .undefined)
  | none => return (f.value, .undefined)

/-- Evaluates the next argument, or makes the call when there are no more. -/
def stepArguments (f : Frame) (here : NodeRef) (program : Tree.Program) (callee : NodeId)
    (arguments : List NodeId) (construct : Bool) : Exec Step := do
  let index := f.step - 2
  let f := if index > 0 then (f.pushOperand f.value).clearValue else f
  match arguments[index]? with
  | some argument => return .enter { f with step := f.step + 1 } here argument
  | none =>
    let func := f.operand 0
    if (← get).isCallable func then
      return .push { f.dropOperands with step := calledStep }
        (.ofCall f.scope { func, receiver := f.operand 1, args := f.operands.drop 2, construct })
    else
      let what := if construct then "a constructor" else "a function"
      throw (.typeError (program.text callee ++ " is not " ++ what))

def stepCallExpression (f : Frame) (here : NodeRef) (program : Tree.Program) (callee : NodeId)
    (arguments : List NodeId) (construct : Bool) : Exec Step := do
  if f.step == calledStep then return .done f.value
  else
    match f.step with
    | 0 =>
      let kind ← query fun _ => Heap.nodeKind program callee
      let f := { f with step := 1 }
      match kind, construct with
      | .member _ _, false => return .enterRef f here callee
      | _, _ => return .enter f here callee
    | 1 =>
      let (func, receiver) ← calleeOf f
      let f := if f.reference.isSome then { f with reference := none } else f.clearValue
      stepArguments { (f.pushOperand func).pushOperand receiver with step := 2 } here program
        callee arguments construct
    | _ => stepArguments f here program callee arguments construct

def stepConditional (f : Frame) (here : NodeRef) (test consequent alternate : NodeId) : Step :=
  match f.step with
  | 0 => .enter { f with step := 1 } here test
  | 1 =>
    .enter { f.clearValue with step := 2 } here (if f.value.truthy then consequent else alternate)
  | _ => .done f.value

def stepSequence (f : Frame) (here : NodeRef) (expressions : List NodeId) : Step :=
  match expressions[f.step]? with
  | some node => .enter { f with step := f.step + 1 } here node
  | none => .done f.value

end ScriptMachine.Machine
