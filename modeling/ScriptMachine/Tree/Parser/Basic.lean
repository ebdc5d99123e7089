import ScriptMachine.Source.Lexer
import ScriptMachine.Tree.Node

/-!
# The state of a parse

A parse holds the tokens that are left, the nodes built so far and the names hoisted in the
function being read. The list of tokens always ends with the end of the text, which is never
taken.
-/

namespace ScriptMachine.Tree.Parser

open ScriptMachine.Source

structure State where
  source : String
  rest : List Token
  /-- Where the last token taken ends. -/
  previousEnd : Nat := 0
  nodes : Array Node := #[]
  hoisted : Hoisted := {}

/-- A part of a parse, which may fail. -/
abbrev Parsing := StateT State (Except SyntaxError)

/-- The jumps that are allowed at a place: the labels around it, each with whether it marks a
loop, and what encloses it within the same function. -/
structure JumpScope where
  labels : List (String × Bool) := []
  inLoop : Bool := false
  inSwitch : Bool := false
  inFunction : Bool := false

/-- What can be asked for recursively. `noIn` keeps the operator `in` for the head of a loop. -/
inductive Goal where
  | statement (scope : JumpScope)
  | block (scope : JumpScope)
  | expression (noIn : Bool)
  | assignment (noIn : Bool)
  | binary (least : Nat) (noIn : Bool)
  | unary
  | member

/-- The parser of a smaller part, from which each production is built. -/
abbrev Sub := Goal → Parsing NodeId

/-! ## Tokens -/

def endToken : Token := ⟨.eof, ⟨0, 0, 1, 1⟩, false⟩

def State.current (s : State) : Token := s.rest.headD endToken

def current : Parsing Token := return (← get).current

/-- Takes the current token, unless it is the last one. -/
def advance : Parsing Unit :=
  modify fun s =>
    match s.rest with
    | t :: next :: rest => { s with rest := next :: rest, previousEnd := t.span.stop }
    | _ => s

def checkPunct (p : Punctuator) : Parsing Bool :=
  return (← current).kind == .punct p

def checkKeyword (k : Keyword) : Parsing Bool :=
  return (← current).kind == .keyword k

def atEnd : Parsing Bool :=
  return (← current).kind == .eof

/-- Takes a punctuator if it comes next. -/
def acceptPunct (p : Punctuator) : Parsing Bool := do
  if ← checkPunct p then
    advance
    return true
  return false

/-- Takes a keyword if it comes next. -/
def acceptKeyword (k : Keyword) : Parsing Bool := do
  if ← checkKeyword k then
    advance
    return true
  return false

/-! ## Refusals -/

/-- Refuses at a given place. -/
def failAt {α : Type} (span : Span) (cause : SyntaxCause) : Parsing α :=
  throw ⟨cause, span.line, span.column⟩

/-- Refuses at the current token. -/
def fail {α : Type} (cause : SyntaxCause) : Parsing α := do
  failAt (← current).span cause

/-- Refuses the current token where something else is expected. -/
def unexpected {α : Type} (expected : String) : Parsing α := do
  let s ← get
  let t := s.current
  let found := if t.kind == .eof then none else some (slice s.source t.span.start t.span.stop)
  fail (.unexpected found expected)

def requirePunct (p : Punctuator) : Parsing Unit := do
  unless ← acceptPunct p do unexpected p.label

def requireKeyword (k : Keyword) : Parsing Unit := do
  unless ← acceptKeyword k do unexpected k.label

/-! ## Statement ends -/

/-- A semicolon may be missing here: a line ended, or a block or the text does. -/
def atStatementEnd : Parsing Bool := do
  let t ← current
  return t.newlineBefore || t.kind == .punct .semicolon || t.kind == .punct .rBrace ||
    t.kind == .eof

def endStatement : Parsing Unit := do
  if ← acceptPunct .semicolon then return
  unless ← atStatementEnd do unexpected "';'"

/-! ## Nodes -/

/-- Adds a node and gives its index. -/
def push (kind : NodeKind) (span : Span) : Parsing NodeId :=
  modifyGet fun s => (s.nodes.size, { s with nodes := s.nodes.push ⟨kind, span⟩ })

/-- The stretch from a token to the last one taken. -/
def spanFrom (start : Span) : Parsing Span :=
  return { start with stop := max (← get).previousEnd start.start }

/-- Adds a node that reaches from a token to the last one taken. -/
def pushFrom (start : Span) (kind : NodeKind) : Parsing NodeId := do
  push kind (← spanFrom start)

def kindOf? (id : NodeId) : Parsing (Option NodeKind) :=
  return (← get).nodes[id]?.map (·.kind)

def hoistVar (name : String) : Parsing Unit :=
  modify fun s =>
    if s.hoisted.vars.contains name then s
    else { s with hoisted := { s.hoisted with vars := s.hoisted.vars ++ [name] } }

def hoistFunction (id : NodeId) : Parsing Unit :=
  modify fun s =>
    { s with hoisted := { s.hoisted with functions := s.hoisted.functions ++ [id] } }

/-! ## Repetition -/

/-- Repeats a step that changes `a` until it declines, at most once for each token given. -/
def iterate {α : Type} (step : α → Parsing (Option α)) : List Token → α → Parsing α
  | [], _ => fail .tooDeep
  | _ :: bound, a => do
    match ← step a with
    | none => return a
    | some b => iterate step bound b

/-- Repeats a step that takes a token each time until it declines. -/
def loop {α : Type} (start : α) (step : α → Parsing (Option α)) : Parsing α := do
  iterate step (endToken :: (← get).rest) start

/-- Collects results until a step declines. -/
def many {α : Type} (step : Parsing (Option α)) : Parsing (List α) := do
  let acc ← loop [] fun acc => do
    match ← step with
    | none => return none
    | some a => return some (a :: acc)
  return acc.reverse

/-- One or more items with commas between them. -/
def commaSeparated {α : Type} (item : Parsing α) : Parsing (List α) := do
  let first ← item
  let rest ← many do
    if ← acceptPunct .comma then return some (← item)
    return none
  return first :: rest

/-! ## Names -/

/-- Names that strict code may not bind or assign. -/
def isRestricted (name : String) : Bool :=
  name == "eval" || name == "arguments"

/-- A name that is being bound. -/
def bindingName : Parsing String := do
  match (← current).kind with
  | .identifier name =>
    if isRestricted name then fail .restrictedName
    advance
    return name
  | .reserved word => fail (.reservedWord word)
  | _ => unexpected "identifier"

/-- A name after a dot or in front of a colon, where keywords count as names. -/
def propertyName : Parsing String := do
  match (← current).kind with
  | .identifier name => advance; return name
  | .reserved word => advance; return word
  | .keyword k => advance; return k.text
  | _ => unexpected "identifier name"

end ScriptMachine.Tree.Parser
