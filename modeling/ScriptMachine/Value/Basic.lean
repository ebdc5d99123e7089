import ScriptMachine.Number.Integer

/-!
# Values

A value is a primitive or the handle of an object. Handles are indices, so a value holds no part
of the heap.
-/

namespace ScriptMachine

/-- Handle of an object in the heap. -/
structure ObjectId where
  index : Nat
  deriving DecidableEq, Repr, Inhabited

/-- Handle of a scope in the heap. -/
structure ScopeId where
  index : Nat
  deriving DecidableEq, Repr, Inhabited

/-- Handle of a loaded program. -/
structure ProgramId where
  index : Nat
  deriving DecidableEq, Repr, Inhabited

/-- The principal on whose behalf code runs; owners are ordinary objects. -/
abbrev Owner := ObjectId

inductive Value where
  | undefined
  | null
  | bool (b : Bool)
  | number (n : Float)
  | string (s : String)
  | object (id : ObjectId)
  deriving DecidableEq, Repr, Inhabited

namespace Value

def isNullish : Value → Bool
  | .undefined => true
  | .null => true
  | _ => false

def isObject : Value → Bool
  | .object _ => true
  | _ => false

def object? : Value → Option ObjectId
  | .object id => some id
  | _ => none

def string? : Value → Option String
  | .string s => some s
  | _ => none

/-- Whether a value counts as true in a condition. -/
def truthy : Value → Bool
  | .undefined => false
  | .null => false
  | .bool b => b
  | .number n => n != 0 && !n.isNaN
  | .string s => !s.isEmpty
  | .object _ => true

/-- Equality without conversion: what is not a number differs from itself, and the two zeros are
equal. -/
def strictEquals : Value → Value → Bool
  | .undefined, .undefined => true
  | .null, .null => true
  | .bool a, .bool b => a == b
  | .number a, .number b => a == b
  | .string a, .string b => a == b
  | .object a, .object b => a == b
  | _, _ => false

/-- Equality of values as data: it tells the zeros apart and takes what is not a number as equal
to itself. -/
def sameValue : Value → Value → Bool
  | .number a, .number b =>
    (a.isNaN && b.isNaN) || (a == b && Number.isNegative a == Number.isNegative b)
  | a, b => strictEquals a b

/-- The text of a value in listings for a host. -/
def listing : Value → String
  | .undefined => "undefined"
  | .null => "null"
  | .bool true => "true"
  | .bool false => "false"
  | .number _ => ""
  | .string s => "\"" ++ s ++ "\""
  | .object id => "[object #" ++ toString id.index ++ "]"

/-- A natural number as a value. -/
def nat (n : Nat) : Value := .number (Number.ofNat n)

end Value

end ScriptMachine
