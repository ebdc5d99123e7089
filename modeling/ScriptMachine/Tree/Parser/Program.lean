import ScriptMachine.Tree.Parser.Statement

/-!
# Whole programs

The productions are tied together by one recursion on a depth that the number of tokens bounds:
every chain of productions that takes no token is shorter than eight.
-/

namespace ScriptMachine.Tree

open ScriptMachine.Source ScriptMachine.Tree.Parser

namespace Parser

/-- Parses a goal with at most the given depth of recursion. -/
def parseGoal : Nat → Sub
  | 0, _ => fail .tooDeep
  | depth + 1, goal =>
    let sub := parseGoal depth
    match goal with
    | .statement scope => statement sub scope
    | .block scope => blockStatement sub scope
    | .expression noIn => expression sub noIn
    | .assignment noIn => assignmentExpression sub noIn
    | .binary least noIn => binaryExpression sub least noIn
    | .unary => unaryExpression sub
    | .member => memberExpression sub

/-- Statements up to the end of the text, under a root node. -/
def programRoot (sub : Sub) : Parsing NodeId := do
  let start := (← current).span
  let body ← many do
    if ← atEnd then return none
    return some (← sub (.statement {}))
  pushFrom start (.program body (← get).hoisted)

end Parser

/-- Parses a complete program. -/
def parse (source : String) : Except SyntaxError Program := do
  let tokens ← Source.tokens source
  let start : State := { source, rest := tokens }
  let (root, final) ← (programRoot (parseGoal (8 * tokens.length + 16))).run start
  return ⟨source, final.nodes, root⟩

end ScriptMachine.Tree
