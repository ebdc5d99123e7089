import ScriptMachine.Tree.Parser.Basic

/-!
# Expressions

Binary operators are read by precedence climbing: an operator is taken while it binds at least as
tightly as the least precedence asked for, and its right operand asks for more.
-/

namespace ScriptMachine.Tree.Parser

open ScriptMachine.Source

/-- An operator between two operands. -/
inductive Infixed where
  | binary (op : BinaryOp)
  | logical (op : LogicalOp)
  deriving DecidableEq

/-- The operator a token stands for between two operands, and how tightly it binds. -/
def infixed? (noIn : Bool) : TokenKind → Option (Infixed × Nat)
  | .punct .pipePipe => some (.logical .or, 1)
  | .punct .ampAmp => some (.logical .and, 2)
  | .punct .pipe => some (.binary .bitOr, 3)
  | .punct .caret => some (.binary .bitXor, 4)
  | .punct .amp => some (.binary .bitAnd, 5)
  | .punct .eqEq => some (.binary .eq, 6)
  | .punct .bangEq => some (.binary .notEq, 6)
  | .punct .eqEqEq => some (.binary .strictEq, 6)
  | .punct .bangEqEq => some (.binary .strictNotEq, 6)
  | .punct .lt => some (.binary .lt, 7)
  | .punct .ltEq => some (.binary .ltEq, 7)
  | .punct .gt => some (.binary .gt, 7)
  | .punct .gtEq => some (.binary .gtEq, 7)
  | .keyword .instanceof => some (.binary .instanceof, 7)
  | .keyword .in => if noIn then none else some (.binary .in, 7)
  | .punct .ltLt => some (.binary .lShift, 8)
  | .punct .gtGt => some (.binary .rShift, 8)
  | .punct .gtGtGt => some (.binary .uRShift, 8)
  | .punct .plus => some (.binary .add, 9)
  | .punct .minus => some (.binary .sub, 9)
  | .punct .star => some (.binary .mul, 10)
  | .punct .slash => some (.binary .div, 10)
  | .punct .percent => some (.binary .mod, 10)
  | _ => none

def unaryOp? : TokenKind → Option UnaryOp
  | .punct .minus => some .minus
  | .punct .plus => some .plus
  | .punct .bang => some .not
  | .punct .tilde => some .bitNot
  | .keyword .typeof => some .typeof
  | .keyword .void => some .void
  | .keyword .delete => some .delete
  | _ => none

def updateOp? : TokenKind → Option UpdateOp
  | .punct .plusPlus => some .increment
  | .punct .minusMinus => some .decrement
  | _ => none

def assignmentOp? : TokenKind → Option AssignmentOp
  | .punct .eq => some .assign
  | .punct .plusEq => some .add
  | .punct .minusEq => some .sub
  | .punct .starEq => some .mul
  | .punct .slashEq => some .div
  | .punct .percentEq => some .mod
  | .punct .ltLtEq => some .lShift
  | .punct .gtGtEq => some .rShift
  | .punct .gtGtGtEq => some .uRShift
  | .punct .ampEq => some .bitAnd
  | .punct .pipeEq => some .bitOr
  | .punct .caretEq => some .bitXor
  | _ => none

/-- Only names and members can be assigned to, and not the restricted names. -/
def checkTarget (target : NodeId) (place : Span) (use : TargetUse) : Parsing Unit := do
  match ← kindOf? target with
  | some (.identifier name) => if isRestricted name then failAt place .restrictedName
  | some (.member _ _) => return
  | _ => failAt place (.badTarget use)

/-- Parameters and body of a function, behind its name. -/
def functionRest (sub : Sub) (name : Option String) : Parsing FunctionNode := do
  requirePunct .lParen
  let mut params := []
  unless ← checkPunct .rParen do
    params ← loop [] fun seen => do
      let separated ← (if seen.isEmpty then pure true else acceptPunct .comma)
      if !separated then return none
      let place := (← current).span
      let param ← bindingName
      if seen.contains param then failAt place .duplicateParameter
      return some (seen ++ [param])
  requirePunct .rParen
  let outer := (← get).hoisted
  modify fun s => { s with hoisted := {} }
  let body ← sub (.block { inFunction := true })
  let hoisted := (← get).hoisted
  modify fun s => { s with hoisted := outer }
  return ⟨name, params, body, hoisted⟩

/-- Arguments in parentheses. -/
def arguments (sub : Sub) : Parsing (List NodeId) := do
  requirePunct .lParen
  let args ← (do
    if ← checkPunct .rParen then return []
    commaSeparated (sub (.assignment false)) : Parsing (List NodeId))
  requirePunct .rParen
  return args

def arrayLiteral (sub : Sub) : Parsing NodeId := do
  let start := (← current).span
  requirePunct .lBracket
  let elements ← many do
    if ← acceptPunct .rBracket then return none
    if ← acceptPunct .comma then return some none
    let element ← sub (.assignment false)
    unless ← checkPunct .rBracket do requirePunct .comma
    return some (some element)
  pushFrom start (.array elements)

/-- The key of a property in an object literal. -/
def propertyKey : Parsing String := do
  match (← current).kind with
  | .text s => advance; return s
  | .number n => advance; return Number.toText n
  | _ => propertyName

def objectLiteral (sub : Sub) : Parsing NodeId := do
  let start := (← current).span
  requirePunct .lBrace
  let properties ← loop [] fun (seen : List PropertyInit) => do
    if ← acceptPunct .rBrace then return none
    let place := (← current).span
    let key ← propertyKey
    if (key == "get" || key == "set") && !(← checkPunct .colon) then fail .accessor
    if seen.any (·.key == key) then failAt place (.duplicateKey key)
    requirePunct .colon
    let value ← sub (.assignment false)
    unless ← checkPunct .rBrace do requirePunct .comma
    return some (⟨key, value⟩ :: seen)
  pushFrom start (.object properties.reverse)

def functionExpression (sub : Sub) : Parsing NodeId := do
  let start := (← current).span
  advance
  let name ← (do
    if ← checkPunct .lParen then return none
    return some (← bindingName) : Parsing (Option String))
  pushFrom start (.functionExpression (← functionRest sub name))

/-- A node made of the current token alone. -/
def leaf (kind : NodeKind) : Parsing NodeId := do
  let start := (← current).span
  advance
  pushFrom start kind

def primary (sub : Sub) : Parsing NodeId := do
  match (← current).kind with
  | .keyword .this => leaf .this
  | .identifier name => leaf (.identifier name)
  | .number n => leaf (.literal (.number n))
  | .text s => leaf (.literal (.string s))
  | .keyword .true => leaf (.literal (.bool true))
  | .keyword .false => leaf (.literal (.bool false))
  | .keyword .null => leaf (.literal .null)
  | .punct .lParen =>
    advance
    let inner ← sub (.expression false)
    requirePunct .rParen
    return inner
  | .punct .lBracket => arrayLiteral sub
  | .punct .lBrace => objectLiteral sub
  | .keyword .function => functionExpression sub
  | .punct .slash => fail .regularExpression
  | .punct .slashEq => fail .regularExpression
  | .reserved word => fail (.reservedWord word)
  | _ => unexpected "expression"

/-- One step of member access behind an object, if there is one. -/
def memberStep (sub : Sub) (start : Span) (object : NodeId) : Parsing (Option NodeId) := do
  if ← acceptPunct .dot then
    let name ← propertyName
    return some (← pushFrom start (.member object (.named name)))
  if ← acceptPunct .lBracket then
    let key ← sub (.expression false)
    requirePunct .rBracket
    return some (← pushFrom start (.member object (.computed key)))
  return none

/-- Constructions and member access, without calls. -/
def memberExpression (sub : Sub) : Parsing NodeId := do
  let start := (← current).span
  let base ← (do
    if ← acceptKeyword .new then
      let callee ← sub .member
      let args ← (do
        if ← checkPunct .lParen then arguments sub else return [] : Parsing (List NodeId))
      pushFrom start (.new callee args)
    else primary sub : Parsing NodeId)
  loop base (memberStep sub start)

def callExpression (sub : Sub) : Parsing NodeId := do
  let start := (← current).span
  let base ← sub .member
  loop base fun callee => do
    if ← checkPunct .lParen then
      let args ← arguments sub
      return some (← pushFrom start (.call callee args))
    memberStep sub start callee

def postfixed (sub : Sub) : Parsing NodeId := do
  let start := (← current).span
  let operand ← callExpression sub
  let t ← current
  match updateOp? t.kind with
  | some op =>
    if t.newlineBefore then return operand
    checkTarget operand start .afterOperand
    advance
    pushFrom start (.update op false operand)
  | none => return operand

def unaryExpression (sub : Sub) : Parsing NodeId := do
  let t ← current
  match unaryOp? t.kind with
  | some op =>
    advance
    let argument ← sub .unary
    if op == .delete then
      if let some (.identifier name) ← kindOf? argument then failAt t.span (.deleteName name)
    pushFrom t.span (.unary op argument)
  | none =>
    match updateOp? t.kind with
    | some op =>
      advance
      let argument ← sub .unary
      checkTarget argument t.span .beforeOperand
      pushFrom t.span (.update op true argument)
    | none => postfixed sub

def binaryExpression (sub : Sub) (least : Nat) (noIn : Bool) : Parsing NodeId := do
  let start := (← current).span
  let first ← sub .unary
  loop first fun left => do
    match infixed? noIn (← current).kind with
    | none => return none
    | some (op, level) =>
      if level < least then return none
      advance
      let right ← sub (.binary (level + 1) noIn)
      match op with
      | .logical op => return some (← pushFrom start (.logical op left right))
      | .binary op => return some (← pushFrom start (.binary op left right))

def conditionalExpression (sub : Sub) (noIn : Bool) : Parsing NodeId := do
  let start := (← current).span
  let test ← sub (.binary 1 noIn)
  if ← acceptPunct .question then
    let consequent ← sub (.assignment false)
    requirePunct .colon
    let alternate ← sub (.assignment noIn)
    pushFrom start (.conditional test consequent alternate)
  else return test

def assignmentExpression (sub : Sub) (noIn : Bool) : Parsing NodeId := do
  let start := (← current).span
  let target ← conditionalExpression sub noIn
  match assignmentOp? (← current).kind with
  | none => return target
  | some op =>
    checkTarget target start .assignment
    advance
    let value ← sub (.assignment noIn)
    pushFrom start (.assignment op target value)

def expression (sub : Sub) (noIn : Bool) : Parsing NodeId := do
  let start := (← current).span
  let first ← sub (.assignment noIn)
  if ← checkPunct .comma then
    let rest ← many do
      if ← acceptPunct .comma then return some (← sub (.assignment noIn))
      return none
    pushFrom start (.sequence (first :: rest))
  else return first

end ScriptMachine.Tree.Parser
