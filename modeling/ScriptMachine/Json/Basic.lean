/-!
# JSON values

Numbers are integers or floats, as their text was, and the fields of an object keep their order.
An object holds each key once: inserting under a key that is present replaces its value in place.
-/

namespace ScriptMachine

inductive Json where
  | null
  | bool (value : Bool)
  | int (value : Int)
  | float (value : Float)
  | str (value : String)
  | arr (items : List Json)
  | obj (fields : List (String × Json))
  deriving Inhabited

namespace Json

/-- Sets a field, in place when the key is present and at the end otherwise. -/
def insertField (key : String) (value : Json) : List (String × Json) → List (String × Json)
  | [] => [(key, value)]
  | (k, v) :: rest => if k == key then (k, value) :: rest else (k, v) :: insertField key value rest

/-- The value of a field of an object. -/
def field? (key : String) : Json → Option Json
  | .obj fields => fields.lookup key
  | _ => none

/-- The value of a field, null when there is none. -/
def field (j : Json) (key : String) : Json := (j.field? key).getD .null

/-- The text of a field, empty when it has none. -/
def fieldText (j : Json) (key : String) : String :=
  match j.field key with
  | .str s => s
  | _ => ""

/-- The items of an array, none for anything else. -/
def itemList : Json → List Json
  | .arr xs => xs
  | _ => []

/-- The fields of an object, none for anything else. -/
def fieldList : Json → List (String × Json)
  | .obj entries => entries
  | _ => []

/-- A natural number as a JSON integer. -/
def nat (n : Nat) : Json := .int n

end Json

end ScriptMachine
