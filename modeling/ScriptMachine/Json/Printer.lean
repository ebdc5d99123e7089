import ScriptMachine.Json.Basic
import ScriptMachine.Number.Text

/-!
# JSON as text

The compact form has no blanks; the indented form puts every item and field on a line of its own.
Strings escape the quote, the backslash and the control characters below U+0020, nothing else.
-/

namespace ScriptMachine.Json

open ScriptMachine.Number

/-- The escape of a character inside a string, as text. -/
def escapeChar (c : Char) : String :=
  if c == '"' then "\\\""
  else if c == '\\' then "\\\\"
  else if c == '\x08' then "\\b"
  else if c == '\t' then "\\t"
  else if c == '\n' then "\\n"
  else if c == '\x0c' then "\\f"
  else if c == '\r' then "\\r"
  else if c.toNat < 0x20 then
    String.ofList ['\\', 'u', '0', '0', digitChar (c.toNat / 16), digitChar (c.toNat % 16)]
  else String.singleton c

/-- Whether a character stands for itself inside a string. -/
def isPlain (c : Char) : Bool :=
  !(c == '"' || c == '\\' || c.toNat < 0x20)

/-- A string in quotes, behind the text `out`. -/
def writeString (out : String) (s : String) : String :=
  let body :=
    if s.all isPlain then out.push '"' ++ s
    else s.foldl (fun acc c => if isPlain c then acc.push c else acc ++ escapeChar c)
      (out.push '"')
  body.push '"'

/-- The text of an integer. -/
def intText (i : Int) : String :=
  match i with
  | .ofNat n => natText n
  | .negSucc n => "-" ++ natText (n + 1)

mutual

/-- The compact text of a value, behind the text `out`. -/
def write (out : String) : Json → String
  | .null => out ++ "null"
  | .bool true => out ++ "true"
  | .bool false => out ++ "false"
  | .int i => out ++ intText i
  | .float f => if f.isFinite then out ++ jsonText f else out ++ "null"
  | .str s => writeString out s
  | .arr items => (writeItems (out.push '[') true items).push ']'
  | .obj fields => (writeFields (out.push '\x7b') true fields).push '\x7d'

/-- Items with commas between them. -/
def writeItems (out : String) (first : Bool) : List Json → String
  | [] => out
  | item :: rest => writeItems (write (if first then out else out.push ',') item) false rest

/-- Fields with commas between them. -/
def writeFields (out : String) (first : Bool) : List (String × Json) → String
  | [] => out
  | (key, value) :: rest =>
    let named := (writeString (if first then out else out.push ',') key).push ':'
    writeFields (write named value) false rest

end

/-- The compact text of a value. -/
def compact (j : Json) : String :=
  write "" j

/-- A line break and the indentation of a depth. -/
def breakLine (out indent : String) : Nat → String
  | 0 => out.push '\n'
  | depth + 1 => breakLine out indent depth ++ indent

mutual

/-- The indented text of a value at a depth, behind the text `out`. -/
def writeIndented (indent : String) (depth : Nat) (out : String) : Json → String
  | .arr [] => out ++ "[]"
  | .obj [] => out ++ "\x7b\x7d"
  | .arr (item :: rest) =>
    let inner := writeIndented indent (depth + 1)
      (breakLine (out.push '[') indent (depth + 1)) item
    (breakLine (writeIndentedItems indent (depth + 1) inner rest) indent depth).push ']'
  | .obj ((key, value) :: rest) =>
    let named := writeString (breakLine (out.push '\x7b') indent (depth + 1)) key ++ ": "
    let inner := writeIndented indent (depth + 1) named value
    (breakLine (writeIndentedFields indent (depth + 1) inner rest) indent depth).push '\x7d'
  | .null => out ++ "null"
  | .bool true => out ++ "true"
  | .bool false => out ++ "false"
  | .int i => out ++ intText i
  | .float f => if f.isFinite then out ++ jsonText f else out ++ "null"
  | .str s => writeString out s

/-- Further items, each behind a comma on a line of its own. -/
def writeIndentedItems (indent : String) (depth : Nat) (out : String) : List Json → String
  | [] => out
  | item :: rest =>
    let next := writeIndented indent depth (breakLine (out.push ',') indent depth) item
    writeIndentedItems indent depth next rest

/-- Further fields, each behind a comma on a line of its own. -/
def writeIndentedFields (indent : String) (depth : Nat) (out : String) :
    List (String × Json) → String
  | [] => out
  | (key, value) :: rest =>
    let named := writeString (breakLine (out.push ',') indent depth) key ++ ": "
    writeIndentedFields indent depth (writeIndented indent depth named value) rest

end

/-- The indented text of a value. -/
def pretty (indent : String) (j : Json) : String :=
  writeIndented indent 0 "" j

end ScriptMachine.Json
