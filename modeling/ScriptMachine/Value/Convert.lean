import ScriptMachine.Number.Reading
import ScriptMachine.Tree.Operator
import ScriptMachine.Value.Basic

/-!
# Conversions of primitive values

Objects are converted to primitives by running code, which is the machine's work; here an object
has only its generic text and no number.
-/

namespace ScriptMachine

/-- The kind of primitive that a conversion prefers. -/
inductive Hint where
  | default | number | string
  deriving DecidableEq, Repr

namespace Hint

def name : Hint → String
  | .default => "default"
  | .number => "number"
  | .string => "string"

/-- The hint a value names; anything else is the default one. -/
def ofValue : Value → Hint
  | .string "number" => .number
  | .string "string" => .string
  | _ => .default

end Hint

namespace Value

def toText : Value → String
  | .undefined => "undefined"
  | .null => "null"
  | .bool true => "true"
  | .bool false => "false"
  | .number n => Number.toText n
  | .string s => s
  | .object _ => "[object Object]"

def toNumber : Value → Float
  | .undefined => Number.nan
  | .null => 0
  | .bool b => if b then 1 else 0
  | .number n => n
  | .string s => Number.ofText s
  | .object _ => Number.nan

end Value

open ScriptMachine.Tree in
/-- Whether an operand must become a primitive before an operator sees it, and with which hint.
`other` is the opposite operand. -/
def conversionHint (op : BinaryOp) (value other : Value) (isLeft : Bool) : Option Hint :=
  if !value.isObject then none
  else
    match op with
    | .strictEq => none
    | .strictNotEq => none
    | .instanceof => none
    | .in => if isLeft then some .string else none
    | .eq => if other.isObject || other.isNullish then none else some .default
    | .notEq => if other.isObject || other.isNullish then none else some .default
    | .add => some .default
    | _ => some .number

/-- Decimal digits without a leading zero that are below `2 ^ 32 - 1`. -/
def arrayIndex? (key : String) : Option Nat :=
  let cs := key.toList
  if cs.isEmpty || !cs.all Char.isDigit || (cs.length > 1 && cs.head? == some '0') then none
  else
    let n := Number.natOfDigits 10 cs
    if n < 4294967295 then some n else none

end ScriptMachine
