import ScriptMachine.Builtin.Basic

/-!
# Conversion of objects to primitives

The machine calls `ToPrimitive` wherever an operator needs an object converted. No program can name
it. It tries the two conversion methods of the object in the order the hint asks for.
-/

namespace ScriptMachine.Builtin

open Machine Exec

/-- The conversion methods in the order a hint asks for. -/
def conversionMethods : Hint → List String
  | .string => ["toString", "valueOf"]
  | _ => ["valueOf", "toString"]

/-- Calls the first method that is a function; the phase counts the methods tried. -/
def tryMethods (c : NativeCall) (v : Value) : Nat → List String → Exec NativeReply
  | _, [] => throw (.typeError "Cannot convert object to primitive value")
  | tried, name :: rest => do
    let method ← query fun m => m.getProperty v name c.owner
    if (← get).isCallable method then return ⟨.call method v [], tried + 1, c.scratch⟩
    else tryMethods c v (tried + 1) rest

def toPrimitive (c : NativeCall) : Exec NativeReply := do
  let v := c.arg 0
  if !v.isObject then return c.reply (.value v)
  else
    let attempt := tryMethods c v c.phase ((conversionMethods (.ofValue (c.arg 1))).drop c.phase)
    match c.resumed with
    | some r => if r.isObject then attempt else return c.reply (.value r)
    | none => attempt

def primitiveMethod : Method := ⟨"ToPrimitive", 2, toPrimitive⟩

def installPrimitive : Exec Unit := do
  let m := primitiveMethod
  let func ← createNativeFunction [(m.name, { arity := m.arity, call := m.code })] m.name m.name
  setBuiltin m.name (.object func)

end ScriptMachine.Builtin
