import ScriptMachine.Source.Token
import ScriptMachine.Tree.Operator

/-!
# Programs as flat trees

All nodes of a program stand in one array, and a node names its children by their index. A parsed
program puts every child before its parent, so the last node is the root. The names that a
function body hoists are recorded with it.
-/

namespace ScriptMachine.Tree

open ScriptMachine.Source

/-- Index of a node within its program. -/
abbrev NodeId := Nat

/-- What moves to the top of a function body or program: the `var` names in order of their first
occurrence, and the function declarations in source order. -/
structure Hoisted where
  vars : List String := []
  functions : List NodeId := []
  deriving DecidableEq, Repr, Inhabited

structure FunctionNode where
  name : Option String
  params : List String
  body : NodeId
  hoisted : Hoisted
  deriving DecidableEq, Repr

structure CatchClause where
  param : String
  body : NodeId
  deriving DecidableEq, Repr

/-- A clause of a switch; the default clause has no test. -/
structure SwitchCase where
  test : Option NodeId
  consequent : List NodeId
  deriving DecidableEq, Repr

structure PropertyInit where
  key : String
  value : NodeId
  deriving DecidableEq, Repr

inductive MemberProperty where
  | named (name : String)
  | computed (key : NodeId)
  deriving DecidableEq, Repr

inductive Literal where
  | null
  | bool (value : Bool)
  | number (value : Float)
  | string (value : String)
  deriving DecidableEq, Repr

inductive NodeKind where
  | program (body : List NodeId) (hoisted : Hoisted)
  | expressionStatement (expression : NodeId)
  | block (body : List NodeId)
  | empty
  | debugger
  | varDeclaration (declarations : List NodeId)
  | varDeclarator (name : String) (init : Option NodeId)
  | functionDeclaration (function : FunctionNode)
  | ifStatement (test consequent : NodeId) (alternate : Option NodeId)
  | labeled (label : String) (body : NodeId)
  | breakStatement (label : Option String)
  | continueStatement (label : Option String)
  | returnStatement (argument : Option NodeId)
  | throwStatement (argument : NodeId)
  | tryStatement (block : NodeId) (handler : Option CatchClause) (finalizer : Option NodeId)
  | switchStatement (discriminant : NodeId) (cases : List SwitchCase)
  | whileStatement (test body : NodeId)
  | doWhileStatement (body test : NodeId)
  | forStatement (init test update : Option NodeId) (body : NodeId)
  | forInStatement (left right body : NodeId)
  | identifier (name : String)
  | literal (value : Literal)
  | this
  | array (elements : List (Option NodeId))
  | object (properties : List PropertyInit)
  | functionExpression (function : FunctionNode)
  | unary (operator : UnaryOp) (argument : NodeId)
  | update (operator : UpdateOp) (before : Bool) (argument : NodeId)
  | binary (operator : BinaryOp) (left right : NodeId)
  | logical (operator : LogicalOp) (left right : NodeId)
  | assignment (operator : AssignmentOp) (target value : NodeId)
  | conditional (test consequent alternate : NodeId)
  | call (callee : NodeId) (arguments : List NodeId)
  | new (callee : NodeId) (arguments : List NodeId)
  | member (object : NodeId) (property : MemberProperty)
  | sequence (expressions : List NodeId)
  deriving DecidableEq, Repr

namespace NodeKind

/-- Whether a node can be assigned to. -/
def isReference : NodeKind → Bool
  | .identifier _ => true
  | .member _ _ => true
  | _ => false

/-- Whether a node is a loop statement. -/
def isLoop : NodeKind → Bool
  | .whileStatement _ _ => true
  | .doWhileStatement _ _ => true
  | .forStatement _ _ _ _ => true
  | .forInStatement _ _ _ => true
  | _ => false

/-- The name of a kind in stored programs. -/
def typeName : NodeKind → String
  | .program _ _ => "Program"
  | .expressionStatement _ => "ExpressionStatement"
  | .block _ => "BlockStatement"
  | .empty => "EmptyStatement"
  | .debugger => "DebuggerStatement"
  | .varDeclaration _ => "VariableDeclaration"
  | .varDeclarator _ _ => "VariableDeclarator"
  | .functionDeclaration _ => "FunctionDeclaration"
  | .ifStatement _ _ _ => "IfStatement"
  | .labeled _ _ => "LabeledStatement"
  | .breakStatement _ => "BreakStatement"
  | .continueStatement _ => "ContinueStatement"
  | .returnStatement _ => "ReturnStatement"
  | .throwStatement _ => "ThrowStatement"
  | .tryStatement _ _ _ => "TryStatement"
  | .switchStatement _ _ => "SwitchStatement"
  | .whileStatement _ _ => "WhileStatement"
  | .doWhileStatement _ _ => "DoWhileStatement"
  | .forStatement _ _ _ _ => "ForStatement"
  | .forInStatement _ _ _ => "ForInStatement"
  | .identifier _ => "Identifier"
  | .literal _ => "Literal"
  | .this => "ThisExpression"
  | .array _ => "ArrayExpression"
  | .object _ => "ObjectExpression"
  | .functionExpression _ => "FunctionExpression"
  | .unary _ _ => "UnaryExpression"
  | .update _ _ _ => "UpdateExpression"
  | .binary _ _ _ => "BinaryExpression"
  | .logical _ _ _ => "LogicalExpression"
  | .assignment _ _ _ => "AssignmentExpression"
  | .conditional _ _ _ => "ConditionalExpression"
  | .call _ _ => "CallExpression"
  | .new _ _ => "NewExpression"
  | .member _ _ => "MemberExpression"
  | .sequence _ => "SequenceExpression"

end NodeKind

structure Node where
  kind : NodeKind
  span : Span
  deriving DecidableEq, Repr

/-- A program: its source text, its nodes and the index of its root. -/
structure Program where
  source : String
  nodes : Array Node
  root : NodeId
  deriving Repr, Inhabited

namespace Program

def kind? (p : Program) (id : NodeId) : Option NodeKind :=
  p.nodes[id]?.map (·.kind)

/-- The source text a node covers. -/
def text (p : Program) (id : NodeId) : String :=
  match p.nodes[id]? with
  | some n => slice p.source n.span.start n.span.stop
  | none => ""

end Program

end ScriptMachine.Tree
