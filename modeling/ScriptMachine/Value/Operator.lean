import ScriptMachine.Text.Units
import ScriptMachine.Value.Convert

/-!
# Operators on primitive values

What remains of an operator once its operands are primitives: arithmetic on doubles, comparison,
and the 32-bit operations on the residues of the operands.
-/

namespace ScriptMachine

open ScriptMachine.Tree

namespace Value

/-- Equality with conversion between primitives. -/
def looseEquals (a b : Value) : Bool :=
  match a.isNullish, b.isNullish with
  | true, true => true
  | true, false => false
  | false, true => false
  | false, false =>
    match a, b with
    | .number _, .string _ => a.toNumber == b.toNumber
    | .string _, .number _ => a.toNumber == b.toNumber
    | .bool _, _ => if b.isObject then false else a.toNumber == b.toNumber
    | _, .bool _ => if a.isObject then false else a.toNumber == b.toNumber
    | _, _ => strictEquals a b

/-- Whether `a` is less than `b`; nothing when one of them is not a number. Two strings compare by
their code units. -/
def less? (a b : Value) : Option Bool :=
  match a, b with
  | .string x, .string y => some (Text.unitsLess (Text.units x) (Text.units y))
  | _, _ =>
    let x := a.toNumber
    let y := b.toNumber
    if x.isNaN || y.isNaN then none else some (x < y)

/-- The residue of an operand as a word. -/
def toWord (v : Value) : UInt32 := Number.toWord v.toNumber

/-- A word read as a signed number. -/
def ofSigned (w : UInt32) : Value := .number (Number.ofInt w.toInt32.toInt)

/-- A word read as an unsigned number. -/
def ofUnsigned (w : UInt32) : Value := .nat w.toNat

/-- A binary operator on primitives. The two operators that need the heap give nothing. -/
def applyBinary? (op : BinaryOp) (left right : Value) : Option Value :=
  let arith (f : Float → Float → Float) : Value := .number (f left.toNumber right.toNumber)
  let shift := right.toWord &&& 0x1f
  match op with
  | .add =>
    match left, right with
    | .string a, _ => some (.string (a ++ right.toText))
    | _, .string b => some (.string (left.toText ++ b))
    | _, _ => some (arith (· + ·))
  | .sub => some (arith (· - ·))
  | .mul => some (arith (· * ·))
  | .div => some (arith (· / ·))
  | .mod => some (arith Number.remainder)
  | .eq => some (.bool (looseEquals left right))
  | .notEq => some (.bool (!looseEquals left right))
  | .strictEq => some (.bool (strictEquals left right))
  | .strictNotEq => some (.bool (!strictEquals left right))
  | .lt => some (.bool ((less? left right).getD false))
  | .gt => some (.bool ((less? right left).getD false))
  | .ltEq => some (.bool (less? right left == some false))
  | .gtEq => some (.bool (less? left right == some false))
  | .bitAnd => some (ofSigned (left.toWord &&& right.toWord))
  | .bitOr => some (ofSigned (left.toWord ||| right.toWord))
  | .bitXor => some (ofSigned (left.toWord ^^^ right.toWord))
  | .lShift => some (ofSigned (left.toWord <<< shift))
  | .rShift => some (.number (Number.ofInt (left.toWord.toInt32 >>> shift.toInt32).toInt))
  | .uRShift => some (ofUnsigned (left.toWord >>> shift))
  | .in => none
  | .instanceof => none

end Value

end ScriptMachine
