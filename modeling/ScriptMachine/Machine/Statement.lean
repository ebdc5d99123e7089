import ScriptMachine.Machine.Expression

/-!
# Steps of statements

Each kind of statement counts its progress in the frame; a step either finishes the frame or pushes
one child. `dispatch` advances any frame by one step.
-/

namespace ScriptMachine.Machine

open Exec
open ScriptMachine.Tree (NodeId NodeKind)

/-- The next member of a list of statements. -/
def stepList (f : Frame) (here : NodeRef) (list : List NodeId) : Step :=
  match list[f.step]? with
  | some node => .enter { f with step := f.step + 1 } here node
  | none => .done .undefined

def stepProgram (f : Frame) (here : NodeRef) (body : List NodeId) (hoisted : Tree.Hoisted) :
    Exec Step := do
  match f.step with
  | 0 =>
    hoist hoisted here.program f.scope
    return .stay { f with info := .program .undefined, step := 1 }
  | i + 1 =>
    match body[i]? with
    | some node => return .enter { f with step := f.step + 1 } here node
    | none =>
      match f.info with
      | .program completion => return .done completion
      | _ => return .done .undefined

def stepExpressionStatement (thread : ThreadId) (f : Frame) (here : NodeRef)
    (expression : NodeId) : Exec Step := do
  match f.step with
  | 0 => return .enter { f with step := 1 } here expression
  | _ =>
    modifyThread thread fun t => { t with stack := t.stack.recordCompletion f.value }
    return .done f.value

def stepDeclarator (f : Frame) (here : NodeRef) (name : String) (init : Option NodeId) :
    Exec Step := do
  match f.step, init with
  | 0, some init => return .enter { f with step := 1 } here init
  | 0, none => return .done .undefined
  | _, _ =>
    setBinding f.scope name f.value
    return .done .undefined

def stepIf (f : Frame) (here : NodeRef) (test consequent : NodeId) (alternate : Option NodeId) :
    Step :=
  match f.step with
  | 0 => .enter { f with step := 1 } here test
  | 1 =>
    let g := { f.clearValue with step := 2 }
    if f.value.truthy then .enter g here consequent
    else
      match alternate with
      | some node => .enter g here node
      | none => .done .undefined
  | _ => .done .undefined

/-- The body of a labelled statement carries the labels of all statements around it. -/
def stepLabeled (f : Frame) (here : NodeRef) (label : String) (body : NodeId) : Step :=
  match f.step with
  | 0 =>
    .push { f with step := 1 }
      { Frame.ofNode { here with node := body } f.scope with labels := f.labels ++ [label] }
  | _ => .done .undefined

def stepReturn (f : Frame) (here : NodeRef) (argument : Option NodeId) : Step :=
  match f.step, argument with
  | 0, some node => .enter { f with step := 1 } here node
  | _, _ => .unwind { kind := .return, value := f.value }

def stepThrow (f : Frame) (here : NodeRef) (argument : NodeId) : Step :=
  match f.step with
  | 0 => .enter { f with step := 1 } here argument
  | _ => .throwing f.value

/-! ## Loops -/

def stepWhile (thread : ThreadId) (f : Frame) (here : NodeRef) (test body : NodeId) :
    Exec Step := do
  match f.step with
  | 0 =>
    checkTimeLimit thread
    return .enter { f with isLoop := true, step := 1 } here test
  | _ =>
    if f.value.truthy then return .enter { f.clearValue with step := 0 } here body
    else return .done .undefined

def stepDoWhile (thread : ThreadId) (f : Frame) (here : NodeRef) (body test : NodeId) :
    Exec Step := do
  match f.step with
  | 0 => return .enter { f with isLoop := true, step := 1 } here body
  | 1 =>
    checkTimeLimit thread
    return .enter { f with step := 2 } here test
  | _ =>
    if f.value.truthy then return .enter { f.clearValue with step := 1 } here body
    else return .done .undefined

def stepFor (thread : ThreadId) (f : Frame) (here : NodeRef) (init test update : Option NodeId)
    (body : NodeId) : Exec Step := do
  match f.step with
  | 0 =>
    let g := { f with isLoop := true, step := 1 }
    match init with
    | some node => return .enter g here node
    | none => return .stay g
  | 1 =>
    checkTimeLimit thread
    match test with
    | some node => return .enter { f with step := 2 } here node
    | none => return .stay { f with step := 2, value := .bool true }
  | 2 =>
    if f.value.truthy then return .enter { f.clearValue with step := 3 } here body
    else return .done .undefined
  | _ =>
    match update with
    | some node => return .enter { f with step := 1 } here node
    | none => return .stay { f with step := 1 }

/-- The first of the keys that is still present, and how many keys were passed to find it. -/
def nextKey (m : Machine) (subject : Value) (actor : Option Owner) :
    List String → Except Failure (Option (String × Nat))
  | [] => .ok none
  | key :: rest => do
    let present ←
      match subject with
      | .object id => m.hasProperty id key actor
      | _ => pure true
    if present then return some (key, 1)
    else return (← nextKey m subject actor rest).map fun (key, n) => (key, n + 1)

/-- The variable a for-in loop assigns, unless its target is a member. -/
def loopVariable (program : Tree.Program) (left : NodeId) : Except Failure (Option String) := do
  match ← Heap.nodeKind program left with
  | .varDeclaration [] => throw (.fault .emptyForInDeclaration)
  | .varDeclaration (declarator :: _) =>
    match ← Heap.nodeKind program declarator with
    | .varDeclarator name _ => return some name
    | _ => return none
  | .identifier name => return some name
  | _ => return none

/-- Assigns the next key of a for-in loop and enters its body. -/
def stepForInKey (f : Frame) (here : NodeRef) (program : Tree.Program) (left body : NodeId) :
    Exec Step := do
  let actor ← scopeOwner f.scope
  match f.info with
  | .forIn keys index subject =>
    match ← query fun m => nextKey m subject actor (keys.drop index) with
    | none => return .done .undefined
    | some (key, passed) =>
      let g := { f with info := .forIn keys (index + passed) subject }
      match ← query fun _ => loopVariable program left with
      | some name =>
        setBinding f.scope name (.string key)
        return .enter g here body
      | none => return .enterRef { g with value := .string key, step := 3 } here left
  | _ => throw (.fault .forInWithoutKeys)

def stepForIn (thread : ThreadId) (f : Frame) (here : NodeRef) (program : Tree.Program)
    (left right body : NodeId) : Exec Step := do
  match f.step with
  | 0 => return .enter { f with isLoop := true, step := 1 } here right
  | 1 =>
    let actor ← scopeOwner f.scope
    let keys ←
      if f.value.isNullish then pure []
      else query fun m => m.forInKeys f.value actor
    return .stay { f.clearValue with info := .forIn keys 0 f.value, step := 2 }
  | 2 =>
    checkTimeLimit thread
    stepForInKey f here program left body
  | _ =>
    writeReference (← takeReference f "for-in") f.value f.scope
    return .enter { f.clearValue with reference := none, step := 2 } here body

/-! ## Switches -/

/-- Executes from a statement of a clause on, falling through to later clauses. -/
def switchFrom (f : Frame) (here : NodeRef) (discriminant : Value) (matched : Bool) :
    Nat → Nat → List Tree.SwitchCase → Step
  | _, _, [] => .done .undefined
  | clause, statement, c :: rest =>
    match c.consequent[statement]? with
    | some node =>
      .enter { f with info := .switch discriminant clause (statement + 1) matched } here node
    | none => switchFrom f here discriminant matched (clause + 1) 0 rest

/-- The first clause with a test from a clause on. -/
def nextTest? (cases : List Tree.SwitchCase) (clause : Nat) : Option (Nat × NodeId) :=
  ((cases.zipIdx.drop clause).findSome? fun (c, i) => c.test.map fun node => (i, node))

/-- Evaluates the next test; the default clause is taken when there is none left. -/
def switchTest (f : Frame) (here : NodeRef) (cases : List Tree.SwitchCase) (discriminant : Value)
    (clause statement : Nat) (matched : Bool) : Step :=
  match nextTest? cases clause with
  | some (i, test) =>
    .enter { f with info := .switch discriminant i statement matched, step := 3 } here test
  | none =>
    match cases.findIdx? (·.test.isNone) with
    | some i => switchFrom { f with step := 4 } here discriminant true i 0 (cases.drop i)
    | none => .done .undefined

def stepSwitch (f : Frame) (here : NodeRef) (discriminant : NodeId)
    (cases : List Tree.SwitchCase) : Exec Step := do
  match f.step with
  | 0 => return .enter { f with isSwitch := true, step := 1 } here discriminant
  | 1 => return switchTest { f.clearValue with step := 2 } here cases f.value 0 0 false
  | step =>
    match f.info with
    | .switch v clause statement matched =>
      match step with
      | 2 => return switchTest f here cases v clause statement matched
      | 3 =>
        if f.value.strictEquals v then
          return switchFrom { f.clearValue with step := 4 } here v true clause 0
            (cases.drop clause)
        else
          let next ← query fun _ => nextCount clause
          return switchTest { f.clearValue with step := 2 } here cases v next statement matched
      | _ => return switchFrom f here v matched clause statement (cases.drop clause)
    | _ => return .done .undefined

/-! ## Handlers -/

def stepTry (f : Frame) (here : NodeRef) (block : NodeId) (handler : Option Tree.CatchClause)
    (finalizer : Option NodeId) : Exec Step := do
  match f.step with
  | 0 => return .enter { f with info := .try .block none, step := 1 } here block
  | 1 =>
    -- The block or the handler is done.
    match finalizer with
    | some node => return .enter { f with info := .try .finalizer none, step := 3 } here node
    | none => return .done .undefined
  | 2 =>
    match handler with
    | none => throw (.fault .catchWithoutHandler)
    | some clause =>
      let owner ← scopeOwner f.scope
      let scope ← newScope .catch (some f.scope) owner none
      declare scope clause.param f.value true
      let completion :=
        match f.info with
        | .try _ completion => completion
        | _ => none
      return .push { f.clearValue with info := .try .handler completion, step := 1 }
        (.ofNode { here with node := clause.body } scope)
  | 3 =>
    -- The finalizer is done: what it interrupted goes on.
    match f.info with
    | .try _ (some completion) => return .unwind completion
    | _ => return .done .undefined
  | _ =>
    match finalizer with
    | none => throw (.fault .finallyWithoutFinalizer)
    | some node =>
      let info :=
        match f.info with
        | .try _ completion => .try .finalizer completion
        | info => info
      return .enter { f with info, step := 3 } here node

/-! ## All nodes -/

/-- Advances the frame of a node. -/
def stepNode (thread : ThreadId) (f : Frame) (here : NodeRef) (program : Tree.Program)
    (kind : NodeKind) : Exec Step :=
  match kind with
  | .program body hoisted => stepProgram f here body hoisted
  | .expressionStatement expression => stepExpressionStatement thread f here expression
  | .block body => pure (stepList f here body)
  | .varDeclaration declarations => pure (stepList f here declarations)
  | .varDeclarator name init => stepDeclarator f here name init
  | .empty => pure (.done .undefined)
  | .debugger => pure (.done .undefined)
  | .functionDeclaration _ => pure (.done .undefined)
  | .ifStatement test consequent alternate => pure (stepIf f here test consequent alternate)
  | .labeled label body => pure (stepLabeled f here label body)
  | .breakStatement label => pure (.unwind { kind := .break, label })
  | .continueStatement label => pure (.unwind { kind := .continue, label })
  | .returnStatement argument => pure (stepReturn f here argument)
  | .throwStatement argument => pure (stepThrow f here argument)
  | .tryStatement block handler finalizer => stepTry f here block handler finalizer
  | .switchStatement discriminant cases => stepSwitch f here discriminant cases
  | .whileStatement test body => stepWhile thread f here test body
  | .doWhileStatement body test => stepDoWhile thread f here body test
  | .forStatement init test update body => stepFor thread f here init test update body
  | .forInStatement left right body => stepForIn thread f here program left right body
  | .identifier name => stepIdentifier f name
  | .literal value => pure (.done (literalValue value))
  | .this => do return .done (← scopeReceiver f.scope)
  | .array elements => stepArray f here elements
  | .object properties => stepObject f here properties
  | .functionExpression function => stepFunction f here function
  | .unary op argument => stepUnary f here program op argument
  | .update op before argument => stepUpdate f here op before argument
  | .binary op left right => stepBinary f here op left right
  | .logical op left right => pure (stepLogical f here op left right)
  | .assignment op target value => stepAssignment f here op target value
  | .conditional test consequent alternate =>
    pure (stepConditional f here test consequent alternate)
  | .call callee arguments => stepCallExpression f here program callee arguments false
  | .new callee arguments => stepCallExpression f here program callee arguments true
  | .member object property => stepMember f here object property
  | .sequence expressions => pure (stepSequence f here expressions)

/-- Advances a frame by one step. -/
def dispatch (natives : Natives) (thread : ThreadId) (f : Frame) : Exec Step := do
  match f.node with
  | none => stepCall natives thread f
  | some here =>
    let program ← heapQuery (·.program here.program)
    let kind ← query fun _ => Heap.nodeKind program here.node
    stepNode thread f here program kind

end ScriptMachine.Machine
