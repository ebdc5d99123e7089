import ScriptMachine.Builtin.Basic
import ScriptMachine.Text.Casing
import ScriptMachine.Text.Units

/-!
# Builtins of strings

Positions count code units. A result that cuts a pair of units in two holds the replacement
character in its place.
-/

namespace ScriptMachine.Builtin.Strings

open Machine Exec

/-- The text a method was called on. -/
def receiverText (c : NativeCall) (method : String) : Except Failure String :=
  match c.receiver with
  | .string s => .ok s
  | .bool b => .ok (Value.bool b).toText
  | .number n => .ok (Value.number n).toText
  | _ => .error (.typeError ("String.prototype." ++ method ++ " called on non-string"))

/-- A position within a length. -/
def position? (v : Value) (length : Nat) : Option Nat :=
  let n := integerOf v
  if n ≥ 0 && n < Number.ofNat length then some (Number.clampNat n length) else none

/-- A position cut to a length. -/
def clampedIndex (v : Value) (length default : Nat) : Nat :=
  if v == .undefined then default else Number.clampNat (integerOf v) length

/-- A method that gives a value for the text it was called on. -/
def onText (name : String) (arity : Nat) (f : String → NativeCall → Value) : Method :=
  .direct name arity fun c => do
    let s ← query fun _ => receiverText c name
    return f s c

/-- The unit at the position the first argument names. -/
def unitArg? (s : String) (c : NativeCall) : Option Nat :=
  (position? (c.arg 0) (Text.unitCount s)).bind (Text.unitAt? s)

def charAt (s : String) (c : NativeCall) : Value :=
  match unitArg? s c with
  | some unit => .string (Text.ofUnits [unit])
  | none => .string ""

def charCodeAt (s : String) (c : NativeCall) : Value :=
  match unitArg? s c with
  | some unit => .nat unit
  | none => .number Number.nan

/-- The first position of the needle. The empty needle is where the search starts, which is told as
a word of 32 bits. -/
def indexOf (s : String) (c : NativeCall) : Value :=
  let needle := (c.arg 0).toText
  let start := clampedIndex (c.arg 1) (Text.unitCount s) 0
  if needle.isEmpty then .nat (start % 4294967296)
  else
    match Text.indexOf? s needle start with
    | some i => .nat i
    | none => .number (-1)

def slice (s : String) (c : NativeCall) : Value :=
  let length := Text.unitCount s
  .string (Text.cut s (relativeIndex (c.arg 0) length 0) (relativeIndex (c.arg 1) length length))

def substring (s : String) (c : NativeCall) : Value :=
  let length := Text.unitCount s
  let a := clampedIndex (c.arg 0) length 0
  let b := clampedIndex (c.arg 1) length length
  .string (Text.cut s (min a b) (max a b))

/-- The string itself; nothing but a string has this method. -/
def toText (c : NativeCall) : Exec Value :=
  match c.receiver with
  | .string s => pure (.string s)
  | _ => throw (.typeError "String.prototype.toString requires that 'this' be a String")

/-- The conversion of a value to text. -/
def convert (c : NativeCall) : Exec NativeReply :=
  if c.args.isEmpty then pure (c.reply (.value (.string "")))
  else withPrimitive c (c.arg 0) .string fun v => .string v.toText

def protoMethods : List Method :=
  [onText "charAt" 1 charAt, onText "charCodeAt" 1 charCodeAt, onText "indexOf" 1 indexOf,
   onText "slice" 2 slice, onText "substring" 2 substring,
   onText "toUpperCase" 0 fun s _ => .string (Text.toUpper s),
   onText "toLowerCase" 0 fun s _ => .string (Text.toLower s), .direct "toString" 0 toText,
   .direct "valueOf" 0 toText]

def native : Native := { arity := 1, call := convert }

def natives : Natives :=
  methodNatives "String.prototype" protoMethods ++ [("String", native)]

def install : Exec Unit := do
  attach (← builtinObject "String.prototype") "String.prototype" protoMethods
  let _ ← installConstructor "String" native

end ScriptMachine.Builtin.Strings
