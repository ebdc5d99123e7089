import ScriptMachine.Json.Printer
import ScriptMachine.Json.Reader
import ScriptMachine.Json.Shape
import ScriptMachine.Policy

/-!
# Configuration

A configuration is kept as JSON. Missing fields take their defaults, unknown fields are ignored and
a repeated known field is refused; the fields may also be listed in an array.
-/

namespace ScriptMachine

structure Config where
  /-- The time a new thread may run without yielding, in milliseconds. -/
  defaultTimeLimit : Option Float := none
  /-- Allocations between automatic collections; zero turns them off. -/
  gcThreshold : Nat := 10000
  maxStackDepth : Nat := 100000
  ownerPolicy : Bool := false
  deriving DecidableEq, Repr

namespace Config

open Json

def policy (c : Config) : Policy :=
  if c.ownerPolicy then .ownerOnly else .everyone

def fieldNames : List String :=
  ["defaultTimeLimitMs", "gcThreshold", "maxStackDepth", "policy"]

def limit? : Json → Option Float
  | .int i => some (Number.ofInt i)
  | .float f => if f.isFinite then some f else none
  | _ => none

/-- Whether only owners may change objects, by the name of the policy. -/
def policyNamed? : String → Option Bool
  | "open" => some false
  | "owner" => some true
  | _ => none

/-- A policy is its name, alone or as the key of a single null. -/
def policy? : Json → Option Bool
  | .str name => policyNamed? name
  | .obj [(name, .null)] => policyNamed? name
  | _ => none

/-- The configuration with one known field set. -/
def setField? (c : Config) (name : String) (j : Json) : Option Config :=
  match name with
  | "defaultTimeLimitMs" => (orNull? limit? j).map fun v => { c with defaultTimeLimit := v }
  | "gcThreshold" => (word64? j).map fun v => { c with gcThreshold := v }
  | "maxStackDepth" => (word64? j).map fun v => { c with maxStackDepth := v }
  | "policy" => (policy? j).map fun v => { c with ownerPolicy := v }
  | _ => some c

/-- Sets fields one after the other; a known field may not come twice. -/
def setFields? (seen : List String) (c : Config) : List (String × Json) → Option Config
  | [] => some c
  | (name, j) :: rest =>
    if seen.contains name then none
    else
      match setField? c name j with
      | none => none
      | some next =>
        setFields? (if fieldNames.contains name then name :: seen else seen) next rest

def ofJson? : Json → Option Config
  | .obj fields => setFields? [] {} fields
  | .arr items =>
    if items.length ≤ 4 then setFields? [] {} (fieldNames.zip items) else none
  | _ => none

/-- Reads a configuration from text. -/
def ofText? (text : String) : Option Config :=
  match readAs (.record fieldNames) text with
  | .ok j => ofJson? j
  | .error _ => none

def toJson (c : Config) : Json :=
  .obj [("defaultTimeLimitMs", ofOption .float c.defaultTimeLimit),
    ("gcThreshold", .nat c.gcThreshold), ("maxStackDepth", .nat c.maxStackDepth),
    ("policy", .str c.policy.name)]

/-- The text of a configuration, indented by two spaces. -/
def toText (c : Config) : String :=
  c.toJson.pretty "  "

end Config

end ScriptMachine
