import ScriptMachine.Builtin.Basic

/-!
# Builtins of numbers and truth values

Both are primitives only: their functions convert and construct nothing.
-/

namespace ScriptMachine.Builtin.Numbers

open Machine Exec

/-- The number a method was called on. -/
def receiverNumber (c : NativeCall) (method : String) : Exec Float :=
  match c.receiver with
  | .number n => pure n
  | _ =>
    throw (.typeError ("Number.prototype." ++ method ++ " requires that 'this' be a Number"))

def toText (c : NativeCall) : Exec Value := do
  let n ← receiverNumber c "toString"
  let radix := if c.arg 0 == .undefined then 10 else integerOf (c.arg 0)
  if radix ≥ 2 && radix ≤ 36 then
    return .string (Number.toTextRadix n (Number.clampNat radix 36))
  else throw (.rangeError "toString() radix must be between 2 and 36")

def toFixed (c : NativeCall) : Exec Value := do
  let n ← receiverNumber c "toFixed"
  let digits := integerOf (c.arg 0)
  if digits ≥ 0 && digits ≤ 100 then
    return .string (Number.toFixed n (Number.clampNat digits 100))
  else throw (.rangeError "toFixed() digits argument must be between 0 and 100")

def valueOf (c : NativeCall) : Exec Value := do
  return .number (← receiverNumber c "valueOf")

/-- The conversion of a value to a number. -/
def convert (c : NativeCall) : Exec NativeReply :=
  if c.args.isEmpty then pure (c.reply (.value (.number 0)))
  else withPrimitive c (c.arg 0) .number fun v => .number v.toNumber

/-- The truth value a method was called on. -/
def receiverBool (c : NativeCall) (method : String) : Exec Bool :=
  match c.receiver with
  | .bool b => pure b
  | _ =>
    throw (.typeError ("Boolean.prototype." ++ method ++ " requires that 'this' be a Boolean"))

def protoMethods : List Method :=
  [.direct "toString" 1 toText, .direct "toFixed" 1 toFixed, .direct "valueOf" 0 valueOf]

def boolMethods : List Method :=
  [.direct "toString" 0 fun c => do return .string (Value.bool (← receiverBool c "toString")).toText,
   .direct "valueOf" 0 fun c => do return .bool (← receiverBool c "valueOf")]

def constants : List (String × Float) :=
  [("MAX_VALUE", 1.7976931348623157e308), ("MIN_VALUE", 5e-324), ("NaN", Number.nan),
   ("POSITIVE_INFINITY", Number.infinity), ("NEGATIVE_INFINITY", Number.negInfinity)]

def native : Native := { arity := 1, call := convert }

def boolNative : Native :=
  { arity := 1, call := .ofValue fun c => return .bool (c.arg 0).truthy }

def natives : Natives :=
  methodNatives "Number.prototype" protoMethods ++ ("Number", native) ::
    methodNatives "Boolean.prototype" boolMethods ++ [("Boolean", boolNative)]

def install : Exec Unit := do
  attach (← builtinObject "Number.prototype") "Number.prototype" protoMethods
  attachConstants (← installConstructor "Number" native) constants
  attach (← builtinObject "Boolean.prototype") "Boolean.prototype" boolMethods
  let _ ← installConstructor "Boolean" boolNative

end ScriptMachine.Builtin.Numbers
