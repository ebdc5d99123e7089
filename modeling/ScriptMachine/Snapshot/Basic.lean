import ScriptMachine.Json.Shape
import ScriptMachine.Number.Dyadic

/-!
# Snapshots

A snapshot is an array of records. Record 0 describes the machine; every other record is an object,
a scope, a program or a thread. Records refer to each other by their place in the array, so sharing
and cycles survive.
-/

namespace ScriptMachine.Snapshot

/-- The version of the record layout. -/
def formatVersion : Nat := 1

/-- A reference to the record at a place. -/
def reference (place : Nat) : Json := .obj [("#", .nat place)]

/-- The place a reference names. -/
def place? : Json → Option Nat
  | .obj [("#", j)] => j.word64?
  | _ => none

/-- The numbers that JSON cannot write. -/
def specialNumbers : List (Float × String) :=
  [(Number.nan, "NaN"), (Number.infinity, "Infinity"), (Number.negInfinity, "-Infinity"),
   (Number.negZero, "-0")]

/-- The name of a number that JSON cannot write. -/
def specialName? (n : Float) : Option String :=
  if n.isNaN then some "NaN"
  else if n == Number.infinity then some "Infinity"
  else if n == Number.negInfinity then some "-Infinity"
  else if n == 0 && Number.isNegative n then some "-0"
  else none

/-- Numbers are plain but for the special ones, which are tagged. -/
def number (n : Float) : Json :=
  match specialName? n with
  | some name => .obj [("Number", .str name)]
  | none => .float n

end ScriptMachine.Snapshot
