import ScriptMachine.Tree.Parser.Expression

/-!
# Statements

Jumps are checked while they are read: the scope of labels, loops and switches is an argument, so
it ends with the statement that opened it and never crosses a function.
-/

namespace ScriptMachine.Tree.Parser

open ScriptMachine.Source

def blockStatement (sub : Sub) (scope : JumpScope) : Parsing NodeId := do
  let start := (← current).span
  requirePunct .lBrace
  let body ← many do
    if (← checkPunct .rBrace) || (← atEnd) then return none
    return some (← sub (.statement scope))
  requirePunct .rBrace
  pushFrom start (.block body)

def varDeclaration (sub : Sub) (noIn : Bool) : Parsing NodeId := do
  let start := (← current).span
  requireKeyword .var
  let declarations ← commaSeparated do
    let place := (← current).span
    let name ← bindingName
    hoistVar name
    let init ← (do
      if ← acceptPunct .eq then return some (← sub (.assignment noIn))
      return none : Parsing (Option NodeId))
    pushFrom place (.varDeclarator name init)
  pushFrom start (.varDeclaration declarations)

def functionDeclaration (sub : Sub) : Parsing NodeId := do
  let start := (← current).span
  requireKeyword .function
  let name ← bindingName
  let function ← functionRest sub (some name)
  let id ← pushFrom start (.functionDeclaration function)
  hoistFunction id
  return id

/-- An expression in parentheses. -/
def parenthesized (sub : Sub) : Parsing NodeId := do
  requirePunct .lParen
  let inner ← sub (.expression false)
  requirePunct .rParen
  return inner

def ifStatement (sub : Sub) (scope : JumpScope) : Parsing NodeId := do
  let start := (← current).span
  requireKeyword .if
  let test ← parenthesized sub
  let consequent ← sub (.statement scope)
  let alternate ← (do
    if ← acceptKeyword .else then return some (← sub (.statement scope))
    return none : Parsing (Option NodeId))
  pushFrom start (.ifStatement test consequent alternate)

def loopBody (sub : Sub) (scope : JumpScope) : Parsing NodeId :=
  sub (.statement { scope with inLoop := true })

/-- The left side of a for-in head is a target or a declaration of one name. -/
def checkForInTarget (left : NodeId) : Parsing Unit := do
  let valid :=
    match ← kindOf? left with
    | some (.varDeclaration declarations) => declarations.length == 1
    | some kind => kind.isReference
    | none => false
  unless valid do fail .badForInTarget

/-- An expression, unless the given punctuator comes first. -/
def optionalExpression (sub : Sub) (close : Punctuator) : Parsing (Option NodeId) := do
  if ← checkPunct close then return none
  return some (← sub (.expression false))

def forStatement (sub : Sub) (scope : JumpScope) : Parsing NodeId := do
  let start := (← current).span
  requireKeyword .for
  requirePunct .lParen
  let init ← (do
    if ← checkPunct .semicolon then return none
    if ← checkKeyword .var then return some (← varDeclaration sub true)
    return some (← sub (.expression true)) : Parsing (Option NodeId))
  match init, ← checkKeyword .in with
  | some left, true =>
    advance
    checkForInTarget left
    let right ← sub (.expression false)
    requirePunct .rParen
    let body ← loopBody sub scope
    pushFrom start (.forInStatement left right body)
  | _, _ =>
    requirePunct .semicolon
    let test ← optionalExpression sub .semicolon
    requirePunct .semicolon
    let update ← optionalExpression sub .rParen
    requirePunct .rParen
    let body ← loopBody sub scope
    pushFrom start (.forStatement init test update body)

def whileStatement (sub : Sub) (scope : JumpScope) : Parsing NodeId := do
  let start := (← current).span
  requireKeyword .while
  let test ← parenthesized sub
  let body ← loopBody sub scope
  pushFrom start (.whileStatement test body)

def doWhileStatement (sub : Sub) (scope : JumpScope) : Parsing NodeId := do
  let start := (← current).span
  requireKeyword .do
  let body ← loopBody sub scope
  requireKeyword .while
  let test ← parenthesized sub
  let _ ← acceptPunct .semicolon
  pushFrom start (.doWhileStatement body test)

/-- Whether the current token ends the statements of a switch clause. -/
def atClauseEnd : Parsing Bool := do
  let kind := (← current).kind
  return kind == .keyword .case || kind == .keyword .default || kind == .punct .rBrace ||
    kind == .eof

/-- The clauses of a switch up to its closing brace. -/
def switchCases (sub : Sub) (scope : JumpScope) : Parsing (List SwitchCase) := do
  let cases ← loop [] fun (seen : List SwitchCase) => do
    if ← acceptPunct .rBrace then return none
    let test ← (do
      if ← acceptKeyword .case then return some (← sub (.expression false))
      if ← checkKeyword .default then
        if seen.any (·.test.isNone) then fail .duplicateDefault
        advance
        return none
      unexpected "case, default or \x7d" : Parsing (Option NodeId))
    requirePunct .colon
    let consequent ← many do
      if ← atClauseEnd then return none
      return some (← sub (.statement scope))
    return some (⟨test, consequent⟩ :: seen)
  return cases.reverse

def switchStatement (sub : Sub) (scope : JumpScope) : Parsing NodeId := do
  let start := (← current).span
  requireKeyword .switch
  let discriminant ← parenthesized sub
  requirePunct .lBrace
  let cases ← switchCases sub { scope with inSwitch := true }
  pushFrom start (.switchStatement discriminant cases)

def tryStatement (sub : Sub) (scope : JumpScope) : Parsing NodeId := do
  let start := (← current).span
  requireKeyword .try
  let block ← sub (.block scope)
  let handler ← (do
    if ← acceptKeyword .catch then
      requirePunct .lParen
      let param ← bindingName
      requirePunct .rParen
      return some (CatchClause.mk param (← sub (.block scope)))
    return none : Parsing (Option CatchClause))
  let finalizer ← (do
    if ← acceptKeyword .finally then return some (← sub (.block scope))
    return none : Parsing (Option NodeId))
  if handler.isNone && finalizer.isNone then fail .tryAlone
  pushFrom start (.tryStatement block handler finalizer)

def returnStatement (sub : Sub) (scope : JumpScope) : Parsing NodeId := do
  let start := (← current).span
  unless scope.inFunction do fail .returnOutside
  requireKeyword .return
  let argument ← (do
    if ← atStatementEnd then return none
    return some (← sub (.expression false)) : Parsing (Option NodeId))
  endStatement
  pushFrom start (.returnStatement argument)

/-- A label on the same line as the jump. -/
def jumpLabel : Parsing (Option String) := do
  let t ← current
  match t.newlineBefore, t.kind with
  | false, .identifier name => advance; return some name
  | _, _ => return none

def breakStatement (scope : JumpScope) : Parsing NodeId := do
  let start := (← current).span
  requireKeyword .break
  let label ← jumpLabel
  match label with
  | some name => unless scope.labels.any (·.1 == name) do fail (.undefinedLabel name)
  | none => unless scope.inLoop || scope.inSwitch do fail .breakOutside
  endStatement
  pushFrom start (.breakStatement label)

def continueStatement (scope : JumpScope) : Parsing NodeId := do
  let start := (← current).span
  requireKeyword .continue
  let label ← jumpLabel
  match label with
  | some name => unless scope.labels.contains (name, true) do fail (.notALoop name)
  | none => unless scope.inLoop do fail .continueOutside
  endStatement
  pushFrom start (.continueStatement label)

def throwStatement (sub : Sub) : Parsing NodeId := do
  let start := (← current).span
  requireKeyword .throw
  if (← current).newlineBefore then fail .newlineAfterThrow
  let argument ← sub (.expression false)
  endStatement
  pushFrom start (.throwStatement argument)

/-- Whether the statement behind any labels is a loop. -/
def labelsLoop : List Token → Bool
  | ⟨.identifier _, _, _⟩ :: ⟨.punct .colon, _, _⟩ :: rest => labelsLoop rest
  | ⟨.keyword .while, _, _⟩ :: _ => true
  | ⟨.keyword .do, _, _⟩ :: _ => true
  | ⟨.keyword .for, _, _⟩ :: _ => true
  | _ => false

def labeledStatement (sub : Sub) (scope : JumpScope) : Parsing NodeId := do
  let start := (← current).span
  let label ← bindingName
  requirePunct .colon
  if scope.labels.any (·.1 == label) then failAt start (.duplicateLabel label)
  let isLoop := labelsLoop (← get).rest
  let body ← sub (.statement { scope with labels := scope.labels ++ [(label, isLoop)] })
  pushFrom start (.labeled label body)

def expressionStatement (sub : Sub) : Parsing NodeId := do
  let start := (← current).span
  let inner ← sub (.expression false)
  endStatement
  pushFrom start (.expressionStatement inner)

/-- Whether the current token is a name in front of a colon. -/
def atLabel : Parsing Bool := do
  match (← get).rest with
  | ⟨.identifier _, _, _⟩ :: ⟨.punct .colon, _, _⟩ :: _ => return true
  | _ => return false

def statement (sub : Sub) (scope : JumpScope) : Parsing NodeId := do
  let t ← current
  match t.kind with
  | .punct .lBrace => sub (.block scope)
  | .punct .semicolon => advance; push .empty t.span
  | .keyword .var =>
    let declaration ← varDeclaration sub false
    endStatement
    return declaration
  | .keyword .function => functionDeclaration sub
  | .keyword .if => ifStatement sub scope
  | .keyword .for => forStatement sub scope
  | .keyword .while => whileStatement sub scope
  | .keyword .do => doWhileStatement sub scope
  | .keyword .switch => switchStatement sub scope
  | .keyword .try => tryStatement sub scope
  | .keyword .return => returnStatement sub scope
  | .keyword .break => breakStatement scope
  | .keyword .continue => continueStatement scope
  | .keyword .throw => throwStatement sub
  | .keyword .debugger =>
    advance
    endStatement
    push .debugger t.span
  | .reserved "with" => fail .withStatement
  | _ => if ← atLabel then labeledStatement sub scope else expressionStatement sub

end ScriptMachine.Tree.Parser
