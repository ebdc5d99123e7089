import ScriptMachine.Json.Shape
import ScriptMachine.Number.Dyadic
import ScriptMachine.Tree.Node

/-!
# Stored programs

The JSON form of a program, written by `Program.toJson` and read by `Program.ofJson?`. A node is
an object whose `type` names its kind; a number literal that JSON cannot carry is a string.
-/

namespace ScriptMachine.Tree

open ScriptMachine.Json ScriptMachine.Source

def spanToJson (s : Span) : Json :=
  .obj [("start", .nat s.start), ("end", .nat s.stop), ("line", .nat s.line),
    ("column", .nat s.column)]

def spanOfJson? (j : Json) : Option Span := do
  let s ← Shape.ofJson? 4 j
  return ⟨← (← s.get? 0 "start") |> word64?, ← (← s.get? 1 "end") |> word64?,
    .ofNat (← (← s.get? 2 "line") |> word32?), .ofNat (← (← s.get? 3 "column") |> word32?)⟩

def Hoisted.toJson (h : Hoisted) : Json :=
  .obj [("vars", ofList .str h.vars), ("functions", ofList .nat h.functions)]

def Hoisted.ofJson? (j : Json) : Option Hoisted := do
  let s ← Shape.ofJson? 2 j
  return ⟨← (← s.get? 0 "vars") |> list? str?, ← (← s.get? 1 "functions") |> list? word32?⟩

def FunctionNode.fields (f : FunctionNode) : List (String × Json) :=
  [("name", ofOption .str f.name), ("params", ofList .str f.params), ("body", .nat f.body),
   ("hoisted", f.hoisted.toJson)]

def FunctionNode.ofShape? (s : Shape) : Option FunctionNode := do
  s.guardArity 4
  return ⟨← (← s.getOrNull? 0 "name") |> orNull? str?, ← (← s.get? 1 "params") |> list? str?,
    ← (← s.get? 2 "body") |> word32?, ← (← s.get? 3 "hoisted") |> Hoisted.ofJson?⟩

def CatchClause.toJson (c : CatchClause) : Json :=
  .obj [("param", .str c.param), ("body", .nat c.body)]

def CatchClause.ofJson? (j : Json) : Option CatchClause := do
  let s ← Shape.ofJson? 2 j
  return ⟨← (← s.get? 0 "param") |> str?, ← (← s.get? 1 "body") |> word32?⟩

def SwitchCase.toJson (c : SwitchCase) : Json :=
  .obj [("test", ofOption .nat c.test), ("consequent", ofList .nat c.consequent)]

def SwitchCase.ofJson? (j : Json) : Option SwitchCase := do
  let s ← Shape.ofJson? 2 j
  return ⟨← (← s.getOrNull? 0 "test") |> orNull? word32?,
    ← (← s.get? 1 "consequent") |> list? word32?⟩

def PropertyInit.toJson (p : PropertyInit) : Json :=
  .obj [("key", .str p.key), ("value", .nat p.value)]

def PropertyInit.ofJson? (j : Json) : Option PropertyInit := do
  let s ← Shape.ofJson? 2 j
  return ⟨← (← s.get? 0 "key") |> str?, ← (← s.get? 1 "value") |> word32?⟩

def MemberProperty.toJson : MemberProperty → Json
  | .named name => .obj [("Named", .str name)]
  | .computed key => .obj [("Computed", .nat key)]

def MemberProperty.ofJson? (j : Json) : Option MemberProperty :=
  match case? j with
  | some ("Named", some data) => (str? data).map .named
  | some ("Computed", some data) => (word32? data).map .computed
  | _ => none

/-- A number literal; the infinite one is a string. -/
def numberLiteralOfJson? : Json → Option Float
  | .int i => some (Number.ofInt i)
  | .float f => some f
  | .str "Infinity" => some Number.infinity
  | _ => none

def Literal.toJson : Literal → Json
  | .null => .str "Null"
  | .bool b => .obj [("Boolean", .bool b)]
  | .number n => .obj [("Number", if n.isFinite then .float n else .str "Infinity")]
  | .string s => .obj [("String", .str s)]

def Literal.ofJson? (j : Json) : Option Literal :=
  match case? j with
  | some ("Null", data) => if isBare data then some .null else none
  | some ("Boolean", some data) => (bool? data).map .bool
  | some ("Number", some data) => (numberLiteralOfJson? data).map .number
  | some ("String", some data) => (str? data).map .string
  | _ => none

/-- The fields of a kind behind its `type`. -/
def NodeKind.fields : NodeKind → List (String × Json)
  | .program body hoisted => [("body", ofList .nat body), ("hoisted", hoisted.toJson)]
  | .expressionStatement e => [("expression", .nat e)]
  | .block body => [("body", ofList .nat body)]
  | .empty => []
  | .debugger => []
  | .varDeclaration ds => [("declarations", ofList .nat ds)]
  | .varDeclarator name init => [("name", .str name), ("init", ofOption .nat init)]
  | .functionDeclaration f => f.fields
  | .ifStatement test consequent alternate =>
    [("test", .nat test), ("consequent", .nat consequent), ("alternate", ofOption .nat alternate)]
  | .labeled label body => [("label", .str label), ("body", .nat body)]
  | .breakStatement label => [("label", ofOption .str label)]
  | .continueStatement label => [("label", ofOption .str label)]
  | .returnStatement argument => [("argument", ofOption .nat argument)]
  | .throwStatement argument => [("argument", .nat argument)]
  | .tryStatement body handler finalizer =>
    [("block", .nat body), ("handler", ofOption CatchClause.toJson handler),
     ("finalizer", ofOption .nat finalizer)]
  | .switchStatement discriminant cases =>
    [("discriminant", .nat discriminant), ("cases", ofList SwitchCase.toJson cases)]
  | .whileStatement test body => [("test", .nat test), ("body", .nat body)]
  | .doWhileStatement body test => [("body", .nat body), ("test", .nat test)]
  | .forStatement init test next body =>
    [("init", ofOption .nat init), ("test", ofOption .nat test),
     ("update", ofOption .nat next), ("body", .nat body)]
  | .forInStatement left right body =>
    [("left", .nat left), ("right", .nat right), ("body", .nat body)]
  | .identifier name => [("name", .str name)]
  | .literal value => [("value", value.toJson)]
  | .this => []
  | .array elements => [("elements", ofList (ofOption .nat) elements)]
  | .object properties => [("properties", ofList PropertyInit.toJson properties)]
  | .functionExpression f => f.fields
  | .unary op argument => [("operator", .str (nameOf UnaryOp.table op)), ("argument", .nat argument)]
  | .update op before argument =>
    [("operator", .str (nameOf UpdateOp.table op)), ("prefix", .bool before),
     ("argument", .nat argument)]
  | .binary op left right =>
    [("operator", .str (nameOf BinaryOp.table op)), ("left", .nat left), ("right", .nat right)]
  | .logical op left right =>
    [("operator", .str (nameOf LogicalOp.table op)), ("left", .nat left), ("right", .nat right)]
  | .assignment op target value =>
    [("operator", .str (nameOf AssignmentOp.table op)), ("target", .nat target),
     ("value", .nat value)]
  | .conditional test consequent alternate =>
    [("test", .nat test), ("consequent", .nat consequent), ("alternate", .nat alternate)]
  | .call callee args => [("callee", .nat callee), ("arguments", ofList .nat args)]
  | .new callee args => [("callee", .nat callee), ("arguments", ofList .nat args)]
  | .member base property => [("object", .nat base), ("property", property.toJson)]
  | .sequence expressions => [("expressions", ofList .nat expressions)]

def NodeKind.toJson (k : NodeKind) : Json :=
  .obj (("type", .str k.typeName) :: k.fields)

/-- A required node index. -/
def nodeAt? (s : Shape) (place : Nat) (name : String) : Option NodeId :=
  (s.get? place name).bind word32?

/-- A node index that may be missing. -/
def optionalNodeAt? (s : Shape) (place : Nat) (name : String) : Option (Option NodeId) :=
  (s.getOrNull? place name).bind (orNull? word32?)

/-- A list of node indices. -/
def nodesAt? (s : Shape) (place : Nat) (name : String) : Option (List NodeId) :=
  (s.get? place name).bind (list? word32?)

/-- A required name. -/
def nameAt? (s : Shape) (place : Nat) (name : String) : Option String :=
  (s.get? place name).bind str?

/-- A label that may be missing. -/
def labelAt? (s : Shape) : Option (Option String) :=
  (s.getOrNull? 0 "label").bind (orNull? str?)

/-- An operator. -/
def operatorAt? {α : Type} (table : List (α × String)) (s : Shape) : Option α :=
  (s.get? 0 "operator").bind (member? table)

def NodeKind.ofJson? (j : Json) : Option NodeKind := do
  let (tag, s) ← Shape.tagged? j
  match tag with
  | "Program" =>
    s.guardArity 2
    return .program (← nodesAt? s 0 "body") (← (← s.get? 1 "hoisted") |> Hoisted.ofJson?)
  | "ExpressionStatement" =>
    s.guardArity 1
    return .expressionStatement (← nodeAt? s 0 "expression")
  | "BlockStatement" =>
    s.guardArity 1
    return .block (← nodesAt? s 0 "body")
  | "EmptyStatement" =>
    s.guardArity 0
    return .empty
  | "DebuggerStatement" =>
    s.guardArity 0
    return .debugger
  | "VariableDeclaration" =>
    s.guardArity 1
    return .varDeclaration (← nodesAt? s 0 "declarations")
  | "VariableDeclarator" =>
    s.guardArity 2
    return .varDeclarator (← nameAt? s 0 "name") (← optionalNodeAt? s 1 "init")
  | "FunctionDeclaration" => return .functionDeclaration (← FunctionNode.ofShape? s)
  | "IfStatement" =>
    s.guardArity 3
    return .ifStatement (← nodeAt? s 0 "test") (← nodeAt? s 1 "consequent")
      (← optionalNodeAt? s 2 "alternate")
  | "LabeledStatement" =>
    s.guardArity 2
    return .labeled (← nameAt? s 0 "label") (← nodeAt? s 1 "body")
  | "BreakStatement" =>
    s.guardArity 1
    return .breakStatement (← labelAt? s)
  | "ContinueStatement" =>
    s.guardArity 1
    return .continueStatement (← labelAt? s)
  | "ReturnStatement" =>
    s.guardArity 1
    return .returnStatement (← optionalNodeAt? s 0 "argument")
  | "ThrowStatement" =>
    s.guardArity 1
    return .throwStatement (← nodeAt? s 0 "argument")
  | "TryStatement" =>
    s.guardArity 3
    return .tryStatement (← nodeAt? s 0 "block")
      (← (← s.getOrNull? 1 "handler") |> orNull? CatchClause.ofJson?)
      (← optionalNodeAt? s 2 "finalizer")
  | "SwitchStatement" =>
    s.guardArity 2
    return .switchStatement (← nodeAt? s 0 "discriminant")
      (← (← s.get? 1 "cases") |> list? SwitchCase.ofJson?)
  | "WhileStatement" =>
    s.guardArity 2
    return .whileStatement (← nodeAt? s 0 "test") (← nodeAt? s 1 "body")
  | "DoWhileStatement" =>
    s.guardArity 2
    return .doWhileStatement (← nodeAt? s 0 "body") (← nodeAt? s 1 "test")
  | "ForStatement" =>
    s.guardArity 4
    return .forStatement (← optionalNodeAt? s 0 "init") (← optionalNodeAt? s 1 "test")
      (← optionalNodeAt? s 2 "update") (← nodeAt? s 3 "body")
  | "ForInStatement" =>
    s.guardArity 3
    return .forInStatement (← nodeAt? s 0 "left") (← nodeAt? s 1 "right") (← nodeAt? s 2 "body")
  | "Identifier" =>
    s.guardArity 1
    return .identifier (← nameAt? s 0 "name")
  | "Literal" =>
    s.guardArity 1
    return .literal (← (← s.get? 0 "value") |> Literal.ofJson?)
  | "ThisExpression" =>
    s.guardArity 0
    return .this
  | "ArrayExpression" =>
    s.guardArity 1
    return .array (← (← s.get? 0 "elements") |> list? (orNull? word32?))
  | "ObjectExpression" =>
    s.guardArity 1
    return .object (← (← s.get? 0 "properties") |> list? PropertyInit.ofJson?)
  | "FunctionExpression" => return .functionExpression (← FunctionNode.ofShape? s)
  | "UnaryExpression" =>
    s.guardArity 2
    return .unary (← operatorAt? UnaryOp.table s) (← nodeAt? s 1 "argument")
  | "UpdateExpression" =>
    s.guardArity 3
    return .update (← operatorAt? UpdateOp.table s) (← (← s.get? 1 "prefix") |> bool?)
      (← nodeAt? s 2 "argument")
  | "BinaryExpression" =>
    s.guardArity 3
    return .binary (← operatorAt? BinaryOp.table s) (← nodeAt? s 1 "left") (← nodeAt? s 2 "right")
  | "LogicalExpression" =>
    s.guardArity 3
    return .logical (← operatorAt? LogicalOp.table s) (← nodeAt? s 1 "left")
      (← nodeAt? s 2 "right")
  | "AssignmentExpression" =>
    s.guardArity 3
    return .assignment (← operatorAt? AssignmentOp.table s) (← nodeAt? s 1 "target")
      (← nodeAt? s 2 "value")
  | "ConditionalExpression" =>
    s.guardArity 3
    return .conditional (← nodeAt? s 0 "test") (← nodeAt? s 1 "consequent")
      (← nodeAt? s 2 "alternate")
  | "CallExpression" =>
    s.guardArity 2
    return .call (← nodeAt? s 0 "callee") (← nodesAt? s 1 "arguments")
  | "NewExpression" =>
    s.guardArity 2
    return .new (← nodeAt? s 0 "callee") (← nodesAt? s 1 "arguments")
  | "MemberExpression" =>
    s.guardArity 2
    return .member (← nodeAt? s 0 "object") (← (← s.get? 1 "property") |> MemberProperty.ofJson?)
  | "SequenceExpression" =>
    s.guardArity 1
    return .sequence (← nodesAt? s 0 "expressions")
  | _ => none

def Node.toJson (n : Node) : Json :=
  .obj [("kind", n.kind.toJson), ("span", spanToJson n.span)]

def Node.ofJson? (j : Json) : Option Node := do
  let s ← Shape.ofJson? 2 j
  return ⟨← (← s.get? 0 "kind") |> NodeKind.ofJson?, ← (← s.get? 1 "span") |> spanOfJson?⟩

namespace Program

def toJson (p : Program) : Json :=
  .obj [("source", .str p.source), ("nodes", ofList Node.toJson p.nodes.toList),
    ("root", .nat p.root)]

def ofJson? (j : Json) : Option Program := do
  let s ← Shape.ofJson? 3 j
  let source ← (← s.get? 0 "source") |> str?
  let nodes ← (← s.get? 1 "nodes") |> list? Node.ofJson?
  let root ← (← s.get? 2 "root") |> word32?
  return ⟨source, nodes.toArray, root⟩

end Program

end ScriptMachine.Tree
