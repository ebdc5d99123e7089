/-!
# Classes of characters

Source text and numeric text skip the same blanks. A line terminator is not a blank: it ends a
line and can end a statement. A Unicode property is the list of the lengths of its runs of code
points, so a property is data.
-/

namespace ScriptMachine.Text

/-- The characters that end a line. -/
def isLineTerminator (c : Char) : Bool :=
  c == '\n' || c == '\r' || c == '\u2028' || c == '\u2029'

/-- Blanks within a line: tab, vertical tab, form feed, space, the byte order mark and every
character above U+007F with the property `White_Space` that ends no line. -/
def isBlank (c : Char) : Bool :=
  c == '\t' || c == '\x0b' || c == '\x0c' || c == ' ' || c == '\ufeff' || c == '\u0085' ||
    c == '\u00a0' || c == '\u1680' || ('\u2000' ≤ c && c ≤ '\u200a') || c == '\u202f' ||
    c == '\u205f' || c == '\u3000'

/-- What may surround the text of a number. -/
def isSpace (c : Char) : Bool :=
  isBlank c || isLineTerminator c

/-- A code point belongs to a class that is given by the lengths of its runs: outside and inside
it by turns, from zero on. -/
def inRuns : List Nat → Nat → Bool
  | outside :: inside :: rest, code =>
    outside ≤ code && (code < outside + inside || inRuns rest (code - (outside + inside)))
  | _, _ => false

end ScriptMachine.Text
