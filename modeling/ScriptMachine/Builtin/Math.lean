import ScriptMachine.Builtin.Basic
import ScriptMachine.Number.Power

/-!
# Mathematical builtins

An argument that is an object counts as not a number; none of its code runs.
-/

namespace ScriptMachine.Builtin.Mathematics

open Machine Exec

/-- Rounds to the nearest integer, a half toward the larger one. What lies between minus a half and
zero becomes minus zero. -/
def round (n : Float) : Float :=
  if !n.isFinite || n == 0 then n
  else if n ≥ -0.5 && n < 0 then Number.negZero
  else Number.floor (n + 0.5)

/-- Powers, where one to an infinite or undefined exponent is not a number. -/
def pow (base exponent : Float) : Float :=
  if exponent.isNaN || (Float.abs base == 1 && exponent.isInf) then Number.nan
  else Number.pow base exponent

/-- The first argument that is not a number, or else the last that is better than those before. -/
def best (better : Float → Float → Bool) : Float → List Float → Float
  | result, [] => result
  | result, n :: rest =>
    if n.isNaN then Number.nan else best better (if better n result then n else result) rest

/-- Larger, where zero is larger than minus zero. -/
def larger (n result : Float) : Bool :=
  n > result || (n == 0 && result == 0 && Number.isNegative result)

/-- Smaller, where minus zero is smaller than zero. -/
def smaller (n result : Float) : Bool :=
  n < result || (n == 0 && result == 0 && Number.isNegative n)

/-- A method of one number. -/
def onNumber (name : String) (f : Float → Float) : Method :=
  .direct name 1 fun c => return .number (f (c.arg 0).toNumber)

/-- The next random number of the host. -/
def random (_ : NativeCall) : Exec Value := modifyGet fun m =>
  let (n, random) := m.random.next
  (.number n, { m with random })

def methods : List Method :=
  [onNumber "abs" Float.abs, onNumber "floor" Number.floor, onNumber "ceil" Number.ceil,
   onNumber "round" round, onNumber "sqrt" Float.sqrt,
   .direct "pow" 2 fun c => return .number (pow (c.arg 0).toNumber (c.arg 1).toNumber),
   .direct "max" 2 fun c =>
     return .number (best larger Number.negInfinity (c.args.map Value.toNumber)),
   .direct "min" 2 fun c =>
     return .number (best smaller Number.infinity (c.args.map Value.toNumber)),
   .direct "random" 0 random]

def constants : List (String × Float) :=
  [("PI", 3.14159265358979323846), ("E", 2.71828182845904523536),
   ("LN2", 0.693147180559945309417), ("LN10", 2.30258509299404568402),
   ("LOG2E", 1.44269504088896340736), ("LOG10E", 0.434294481903251827651),
   ("SQRT2", 1.41421356237309504880), ("SQRT1_2", 0.707106781186547524401)]

def natives : Natives := methodNatives "Math" methods

def install : Exec Unit := do
  let id ← createNamespace "Math"
  attachConstants id constants
  attach id "Math" methods

end ScriptMachine.Builtin.Mathematics
