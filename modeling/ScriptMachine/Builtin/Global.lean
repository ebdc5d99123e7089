import ScriptMachine.Builtin.Basic
import ScriptMachine.Machine.Control

/-!
# Global builtins
-/

namespace ScriptMachine.Builtin.Globals

open Machine Exec

/-- Runs a text as a program of its own and gives its completion; other values are given back. -/
def evaluate (c : NativeCall) : Exec NativeReply := do
  match c.resumed, c.arg 0 with
  | some completion, _ => return c.reply (.value completion)
  | none, .string source => return c.reply (.eval (← load source))
  | none, v => return c.reply (.value v)

/-- The radix an argument asks for; zero is no radix and what is negative is too large. -/
def radixOf (v : Value) : Nat :=
  if v == .undefined then 0
  else
    let w := Number.toSignedWord v.toNumber
    if w < 0 then 4294967295 else w.toInt.toNat

def methods : List Method :=
  [⟨"eval", 1, evaluate⟩,
   .direct "parseInt" 2 fun c => return .number (Number.parseInt (c.arg 0).toText (radixOf (c.arg 1))),
   .direct "parseFloat" 1 fun c => return .number (Number.parseFloat (c.arg 0).toText),
   .direct "isNaN" 1 fun c => return .bool (c.arg 0).toNumber.isNaN,
   .direct "isFinite" 1 fun c => return .bool (c.arg 0).toNumber.isFinite]

def natives : Natives := globalNatives methods

def installAll : List Method → Exec Unit
  | [] => return
  | m :: rest => do
    installGlobal m
    installAll rest

def install : Exec Unit := do
  let scope := (← get).globalScope
  declare scope "undefined" .undefined false
  declare scope "NaN" (.number Number.nan) false
  declare scope "Infinity" (.number Number.infinity) false
  installAll methods

end ScriptMachine.Builtin.Globals
