import ScriptMachine.Json.Basic

/-!
# Editing JSON at a path

A path is a list of segments. In an object a segment is a key; in an array it is an index, or a text
from which a given function finds the index. An edit that has no place to go gives nothing.
-/

namespace ScriptMachine.Json

inductive Edit where
  /-- Replaces a value; a key that is missing from an object is added at its end. -/
  | set (value : Json)
  /-- Adds an item at the end of an array. -/
  | push (value : Json)
  /-- Removes a field or an item. -/
  | delete

/-- Changes the field with a key, which must be there. -/
def modifyField (key : String) (f : Json → Option Json) :
    List (String × Json) → Option (List (String × Json))
  | [] => none
  | (k, v) :: rest =>
    if k == key then do return (k, ← f v) :: rest
    else do return (k, v) :: (← modifyField key f rest)

/-- Changes the item at an index, which must be there. -/
def modifyItem (f : Json → Option Json) : Nat → List Json → Option (List Json)
  | _, [] => none
  | 0, j :: rest => do return (← f j) :: rest
  | i + 1, j :: rest => do return j :: (← modifyItem f i rest)

/-- An edit of a value itself. -/
def Edit.here : Edit → Json → Option Json
  | .set v, _ => some v
  | .push v, .arr xs => some (.arr (xs ++ [v]))
  | _, _ => none

/-- An edit of a field. -/
def Edit.field (e : Edit) (key : String) (fields : List (String × Json)) :
    Option (List (String × Json)) :=
  match e with
  | .set v => some (insertField key v fields)
  | .delete => if (fields.lookup key).isSome then some (fields.filter (·.1 != key)) else none
  | e => modifyField key e.here fields

/-- An edit of an item. -/
def Edit.item (e : Edit) (i : Nat) (items : List Json) : Option (List Json) :=
  match e with
  | .delete => if i < items.length then some (items.eraseIdx i) else none
  | e => modifyItem e.here i items

/-- The index a segment means in an array. -/
def indexOf? (find : String → List Json → Option Nat) (items : List Json) : Json → Option Nat
  | .int (.ofNat i) => some i
  | .str s => find s items
  | _ => none

/-- Makes an edit at the end of a path. -/
def edit (find : String → List Json → Option Nat) (e : Edit) : List Json → Json → Option Json
  | [], j => e.here j
  | segment :: rest, .obj fields =>
    match segment with
    | .str key =>
      if rest.isEmpty then (e.field key fields).map .obj
      else (modifyField key (edit find e rest) fields).map .obj
    | _ => none
  | segment :: rest, .arr items => do
    let i ← indexOf? find items segment
    if rest.isEmpty then (e.item i items).map .arr
    else (modifyItem (edit find e rest) i items).map .arr
  | _, _ => none

end ScriptMachine.Json
