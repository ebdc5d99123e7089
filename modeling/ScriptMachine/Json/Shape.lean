import ScriptMachine.Json.Basic

/-!
# Reading records out of JSON

A record is written as an object, and may also be read from an array that lists its fields in
order. Fields that a reader does not know are ignored in an object and refused in an array.
-/

namespace ScriptMachine.Json

/-- The fields of a record, by name or by position. -/
inductive Shape where
  | named (fields : List (String × Json))
  | listed (items : List Json)

namespace Shape

/-- The record in an object or array; an array must have exactly `arity` items. -/
def ofJson? (arity : Nat) : Json → Option Shape
  | .obj fields => some (.named fields)
  | .arr items => if items.length = arity then some (.listed items) else none
  | _ => none

/-- A record with the field `type` in front, which is taken off. -/
def tagged? : Json → Option (String × Shape)
  | .obj fields =>
    match fields.lookup "type" with
    | some (.str tag) => some (tag, .named (fields.filter (·.1 != "type")))
    | _ => none
  | .arr (.str tag :: items) => some (tag, .listed items)
  | _ => none

/-- A listed record must have exactly `arity` items. -/
def guardArity (arity : Nat) : Shape → Option Unit
  | .named _ => some ()
  | .listed items => if items.length = arity then some () else none

/-- A field that must be there. -/
def get? (place : Nat) (name : String) : Shape → Option Json
  | .named fields => fields.lookup name
  | .listed items => items[place]?

/-- A field that is null when it is missing from an object. -/
def getOrNull? (place : Nat) (name : String) : Shape → Option Json
  | .named fields => some ((fields.lookup name).getD .null)
  | .listed items => items[place]?

end Shape

/-- An integer from zero up to a bound, which is not a float. -/
def natBelow? (bound : Nat) : Json → Option Nat
  | .int (.ofNat n) => if n < bound then some n else none
  | _ => none

def word32? : Json → Option Nat := natBelow? (Nat.pow 2 32)

def word64? : Json → Option Nat := natBelow? (Nat.pow 2 64)

def bool? : Json → Option Bool
  | .bool b => some b
  | _ => none

def str? : Json → Option String
  | .str s => some s
  | _ => none

/-- Null for nothing, otherwise what the reader makes of it. -/
def orNull? {α : Type} (read : Json → Option α) : Json → Option (Option α)
  | .null => some none
  | j => (read j).map some

def list? {α : Type} (read : Json → Option α) : Json → Option (List α)
  | .arr items => items.mapM read
  | _ => none

/-- A case of an enumeration: a name alone, or an object with one field. -/
def case? : Json → Option (String × Option Json)
  | .str name => some (name, none)
  | .obj [(name, data)] => some (name, some data)
  | _ => none

/-- Whether a case that carries no data is written as one. -/
def isBare : Option Json → Bool
  | none => true
  | some .null => true
  | some (.obj []) => true
  | some _ => false

/-- A member of an enumeration without data. -/
def member? {α : Type} (table : List (α × String)) (j : Json) : Option α := do
  let (name, data) ← case? j
  if isBare data then (table.find? (·.2 == name)).map (·.1) else none

/-- A list as a JSON array. -/
def ofList {α : Type} (write : α → Json) (xs : List α) : Json :=
  .arr (xs.map write)

/-- A value that may be missing, with null for nothing. -/
def ofOption {α : Type} (write : α → Json) : Option α → Json
  | none => .null
  | some a => write a

end ScriptMachine.Json
