import ScriptMachine.Machine.Error

/-!
# Host functions

A host function takes part in the machine by what it answers: a value, an evaluation to run before
it is called again, a request to park its thread until a resolver is settled, or one to put it to
sleep. Function objects name host functions by a stable text, which is all an image keeps of them.
-/

namespace ScriptMachine

/-- What a host function sees of its call. -/
structure NativeCall where
  /-- The function object called. -/
  func : ObjectId
  receiver : Value
  args : List Value
  /-- The owner the caller acts as. -/
  owner : Option Owner
  /-- The scope of the caller. -/
  scope : ScopeId
  thread : ThreadId
  construct : Bool
  /-- The progress the function kept when it was last left. -/
  phase : Nat := 0
  /-- The values the function kept when it was last left. -/
  scratch : List Value := []
  /-- The result of the evaluation it asked for. -/
  resumed : Option Value := none

namespace NativeCall

/-- An argument, undefined when it was not given. -/
def arg (c : NativeCall) (i : Nat) : Value := c.args.getD i .undefined

end NativeCall

inductive NativeResult where
  | value (v : Value)
  /-- Call a function, then come back with its result. -/
  | call (func receiver : Value) (args : List Value)
  /-- Run a program in a scope of its own under the global scope, then come back with its
  completion. -/
  | eval (program : ProgramId)
  /-- Park the thread until a resolver issued for it is settled. -/
  | block
  /-- Sleep until a time, then give undefined. -/
  | sleep (time : Float)

/-- Whether an answer parks the thread. -/
def NativeResult.isBlock : NativeResult → Bool
  | .block => true
  | _ => false

/-- An answer with the progress to keep. -/
structure NativeReply where
  result : NativeResult
  phase : Nat
  scratch : List Value

namespace NativeCall

/-- An answer that keeps the progress as it was. -/
def reply (c : NativeCall) (r : NativeResult) : NativeReply := ⟨r, c.phase, c.scratch⟩

end NativeCall

/-- The behaviour of a host function. -/
abbrev NativeCode := NativeCall → Exec NativeReply

/-- A behaviour that gives a value at once. -/
def NativeCode.ofValue (f : NativeCall → Exec Value) : NativeCode := fun c => do
  return c.reply (.value (← f c))

structure Native where
  arity : Nat
  call : NativeCode
  /-- What a call with `new` does; none when the function constructs nothing. -/
  construct : Option NativeCode := none

/-- The host functions a machine can call, by name. -/
abbrev Natives := List (String × Native)

namespace Machine

open Exec

/-- The function object of a host function. -/
def createNativeFunction (natives : Natives) (id name : String) : Exec ObjectId := do
  match natives.lookup id with
  | none => throw (.fault (.nativeUnregistered id))
  | some entry =>
    let proto ← builtinObject "Function.prototype"
    let o : Object :=
      { owner := some (← get).rootOwner, proto := some proto, cls := .function
        function := some (.native id) }
    alloc ((o.put "length" (.frozen (.nat entry.arity))).put "name" (.frozen (.string name)))

/-- Binds a host function to the global name it is registered under. -/
def defineGlobalNative (natives : Natives) (name : String) : Exec Unit := do
  let func ← createNativeFunction natives name name
  setGlobal name (.object func)

end Machine

end ScriptMachine
