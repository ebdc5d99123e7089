import ScriptMachine.Table
import ScriptMachine.Value.Basic

/-!
# Scopes

A scope binds names and carries the owner that code in it acts as. Scopes form a chain through
`outer` that ends at the global scope.
-/

namespace ScriptMachine

inductive ScopeKind where
  | global | function
  /-- Holds the name of a named function expression. -/
  | functionName
  | eval | catch
  /-- Carries an owner and a receiver; declarations go to the scope around it. -/
  | dummy
  deriving DecidableEq, Repr

namespace ScopeKind

def name : ScopeKind → String
  | .global => "Global"
  | .function => "Function"
  | .functionName => "FunctionExpressionName"
  | .eval => "Eval"
  | .catch => "Catch"
  | .dummy => "Dummy"

def ofName? (s : String) : Option ScopeKind :=
  [.global, .function, .functionName, .eval, .catch, .dummy].find? (·.name == s)

end ScopeKind

structure Binding where
  value : Value
  mutable : Bool
  deriving DecidableEq, Repr, Inhabited

structure Scope where
  kind : ScopeKind
  owner : Option Owner
  outer : Option ScopeId
  receiver : Value
  bindings : Table Binding := .empty

namespace Scope

/-- Binds a name without any check. -/
def bind (s : Scope) (name : String) (value : Value) (mutable : Bool) : Scope :=
  { s with bindings := s.bindings.insert name ⟨value, mutable⟩ }

/-- The handles of objects a scope holds. -/
def objectEdges (s : Scope) : List ObjectId :=
  s.owner.toList ++ s.receiver.object?.toList ++
    s.bindings.values.filterMap fun b => b.value.object?

end Scope

end ScriptMachine
