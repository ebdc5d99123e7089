/-!
# Operators

The operators of the language as closed lists, each with the name it has in stored programs.
-/

namespace ScriptMachine.Tree

inductive UnaryOp where
  | minus | plus | not | bitNot | typeof | void | delete
  deriving DecidableEq, Repr

inductive UpdateOp where
  | increment | decrement
  deriving DecidableEq, Repr

inductive BinaryOp where
  | add | sub | mul | div | mod
  | eq | notEq | strictEq | strictNotEq | lt | ltEq | gt | gtEq
  | bitAnd | bitOr | bitXor | lShift | rShift | uRShift
  | in | instanceof
  deriving DecidableEq, Repr

inductive LogicalOp where
  | and | or
  deriving DecidableEq, Repr

/-- An assignment, plain or after applying a binary operator to the old value. -/
inductive AssignmentOp where
  | assign | add | sub | mul | div | mod | lShift | rShift | uRShift | bitAnd | bitOr | bitXor
  deriving DecidableEq, Repr

/-- Looks a name up in a table of named members. -/
def ofName? {α : Type} (table : List (α × String)) (name : String) : Option α :=
  (table.find? fun entry => entry.2 == name).map (·.1)

/-- The name of a member in a table of named members. -/
def nameOf {α : Type} [BEq α] (table : List (α × String)) (a : α) : String :=
  ((table.find? fun entry => entry.1 == a).map (·.2)).getD ""

def UnaryOp.table : List (UnaryOp × String) :=
  [(.minus, "Minus"), (.plus, "Plus"), (.not, "Not"), (.bitNot, "BitNot"), (.typeof, "Typeof"),
   (.void, "Void"), (.delete, "Delete")]

def UpdateOp.table : List (UpdateOp × String) :=
  [(.increment, "Increment"), (.decrement, "Decrement")]

def BinaryOp.table : List (BinaryOp × String) :=
  [(.add, "Add"), (.sub, "Sub"), (.mul, "Mul"), (.div, "Div"), (.mod, "Mod"), (.eq, "Eq"),
   (.notEq, "NotEq"), (.strictEq, "StrictEq"), (.strictNotEq, "StrictNotEq"), (.lt, "Lt"),
   (.ltEq, "LtEq"), (.gt, "Gt"), (.gtEq, "GtEq"), (.bitAnd, "BitAnd"), (.bitOr, "BitOr"),
   (.bitXor, "BitXor"), (.lShift, "LShift"), (.rShift, "RShift"), (.uRShift, "URShift"),
   (.in, "In"), (.instanceof, "Instanceof")]

def LogicalOp.table : List (LogicalOp × String) :=
  [(.and, "And"), (.or, "Or")]

def AssignmentOp.table : List (AssignmentOp × String) :=
  [(.assign, "Assign"), (.add, "AddAssign"), (.sub, "SubAssign"), (.mul, "MulAssign"),
   (.div, "DivAssign"), (.mod, "ModAssign"), (.lShift, "LShiftAssign"),
   (.rShift, "RShiftAssign"), (.uRShift, "URShiftAssign"), (.bitAnd, "BitAndAssign"),
   (.bitOr, "BitOrAssign"), (.bitXor, "BitXorAssign")]

/-- The binary operator a compound assignment applies. -/
def AssignmentOp.binary? : AssignmentOp → Option BinaryOp
  | .assign => none
  | .add => some .add
  | .sub => some .sub
  | .mul => some .mul
  | .div => some .div
  | .mod => some .mod
  | .lShift => some .lShift
  | .rShift => some .rShift
  | .uRShift => some .uRShift
  | .bitAnd => some .bitAnd
  | .bitOr => some .bitOr
  | .bitXor => some .bitXor

theorem BinaryOp.ofName?_nameOf (op : BinaryOp) :
    ofName? BinaryOp.table (nameOf BinaryOp.table op) = some op := by
  cases op <;> decide

theorem AssignmentOp.ofName?_nameOf (op : AssignmentOp) :
    ofName? AssignmentOp.table (nameOf AssignmentOp.table op) = some op := by
  cases op <;> decide

end ScriptMachine.Tree
