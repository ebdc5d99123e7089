import ScriptMachine.Number.Reading
import ScriptMachine.Source.SyntaxError
import ScriptMachine.Text.Letter

/-!
# From characters to tokens

A scanner for one kind of token looks at the characters behind its first one and says how many of
them belong to it. The cursor then moves over exactly that many, so that each token starts where
blanks and comments after the previous one end.
-/

namespace ScriptMachine.Source

open ScriptMachine.Text ScriptMachine.Number

/-- A position in the text: what is left of it, and where that starts. -/
structure Cursor where
  rest : List Char
  offset : Nat
  line : Count
  column : Count

namespace Cursor

def ofText (source : String) : Cursor := ⟨source.toList, 0, 1, 1⟩

/-- Moves over one character. A carriage return before a line feed does not end the line yet. -/
def bump (c : Cursor) : Cursor :=
  match c.rest with
  | [] => c
  | ch :: rest =>
    if isLineTerminator ch && !(ch == '\r' && rest.head? == some '\n') then
      ⟨rest, c.offset + ch.utf8Size, c.line + 1, 1⟩
    else ⟨rest, c.offset + ch.utf8Size, c.line, c.column + 1⟩

/-- Moves over the given number of characters. -/
def skip : Nat → Cursor → Cursor
  | 0, c => c
  | n + 1, c => skip n c.bump

@[simp] theorem rest_bump (c : Cursor) : c.bump.rest = c.rest.drop 1 := by
  unfold bump
  split
  · simp_all
  · split <;> simp_all

@[simp] theorem rest_skip (n : Nat) (c : Cursor) : (skip n c).rest = c.rest.drop n := by
  induction n generalizing c with
  | zero => simp [skip]
  | succ n ih => simp [skip, ih]

end Cursor

/-- A character that can start a name. -/
def isIdStart (c : Char) : Bool :=
  c == '_' || c == '$' || isAlphabetic c

/-- A character that can continue a name; the two joiners count. -/
def isIdContinue (c : Char) : Bool :=
  c == '_' || c == '$' || isAlphanumeric c || c == '\u200c' || c == '\u200d'

/-- How many characters a block comment has behind its opening, its closing included. -/
def commentLength : List Char → Option Nat
  | [] => none
  | '*' :: '/' :: _ => some 2
  | _ :: rest => (commentLength rest).map (· + 1)

/-- How many characters a comment at the head of a text has behind its first one, and whether a
line ends in it. A comment up to the end of its line leaves that end alone. -/
def comment? : List Char → Except SyntaxCause (Option (Nat × Bool))
  | '/' :: '/' :: body =>
    .ok (some (1 + (body.takeWhile fun d => !isLineTerminator d).length, false))
  | '/' :: '*' :: body =>
    match commentLength body with
    | none => .error .unterminatedComment
    | some n => .ok (some (1 + n, (body.take n).any isLineTerminator))
  | _ => .ok none

/-- Moves over blanks, line ends and comments; the flag tells whether a line ended. -/
def skipTrivia (c : Cursor) (newline : Bool) : Except SyntaxError (Cursor × Bool) :=
  match _h : c.rest with
  | [] => .ok (c, newline)
  | ch :: rest =>
    if isLineTerminator ch then skipTrivia (c.skip 1) true
    else if isBlank ch then skipTrivia (c.skip 1) newline
    else
      match comment? (ch :: rest) with
      | .error cause => .error ⟨cause, c.line, c.column⟩
      | .ok none => .ok (c, newline)
      | .ok (some (n, ended)) => skipTrivia (c.skip (n + 1)) (newline || ended)
termination_by c.rest.length
decreasing_by all_goals simp [_h]; try omega

theorem length_rest_skipTrivia {c d : Cursor} {newline flag : Bool}
    (h : skipTrivia c newline = .ok (d, flag)) : d.rest.length ≤ c.rest.length := by
  fun_induction skipTrivia c newline with
  | case1 | case5 => cases h; exact Nat.le_refl _
  | case2 c newline ch rest hc hl ih => have := ih h; simp at this; omega
  | case3 c newline ch rest hc hl hb ih => have := ih h; simp at this; omega
  | case4 => cases h
  | case6 c newline ch rest hc hl hb n ended hn ih => have := ih h; simp at this; omega

/-- The value of a run of hexadecimal digits, if all are. -/
def hexValue? (cs : List Char) : Option Nat :=
  if cs.all (isDigitOf 16) then some (natOfDigits 16 cs) else none

/-- The four hexadecimal digits at the head of a text. -/
def hexQuad? : List Char → Option Nat
  | a :: b :: c :: d :: _ => hexValue? [a, b, c, d]
  | _ => none

/-- The character of a code unit; half of a pair stands for no character. -/
def charOfUnit (code : Nat) : Char :=
  if 0xd800 ≤ code ∧ code < 0xe000 then '\ufffd' else Char.ofNat code

/-- A low half of a surrogate pair written as an escape at the head of a text. -/
def lowSurrogate? : List Char → Option Nat
  | '\\' :: 'u' :: rest =>
    match hexQuad? rest with
    | some low => if 0xdc00 ≤ low ∧ low < 0xe000 then some low else none
    | none => none
  | _ => none

/-- The character of a `\u` escape and the number of characters after it that it also uses: a high
half takes a low half that follows as an escape. -/
def unicodeEscape (code : Nat) (rest : List Char) : Char × Nat :=
  match (if 0xd800 ≤ code ∧ code < 0xdc00 then lowSurrogate? rest else none) with
  | some low => (Char.ofNat (0x10000 + (code - 0xd800) * 0x400 + (low - 0xdc00)), 6)
  | none => (charOfUnit code, 0)

/-- What an escape stands for, given the text behind the backslash: the characters it denotes, and
how many characters it has there. -/
def escape : List Char → Except SyntaxCause (List Char × Nat)
  | [] => .error .unterminatedString
  | 'n' :: _ => .ok (['\n'], 1)
  | 'r' :: _ => .ok (['\r'], 1)
  | 't' :: _ => .ok (['\t'], 1)
  | 'b' :: _ => .ok (['\x08'], 1)
  | 'f' :: _ => .ok (['\x0c'], 1)
  | 'v' :: _ => .ok (['\x0b'], 1)
  | '0' :: rest =>
    if (rest.head?.map Char.isDigit).getD false then .error .octalEscape
    else .ok (['\x00'], 1)
  | 'x' :: a :: b :: _ =>
    match hexValue? [a, b] with
    | some code => .ok ([charOfUnit code], 3)
    | none => .error .badHexEscape
  | 'x' :: _ => .error .badHexEscape
  | 'u' :: rest =>
    match hexQuad? rest with
    | some code =>
      let (c, more) := unicodeEscape code (rest.drop 4)
      .ok ([c], 5 + more)
    | none => .error .badUnicodeEscape
  | '\r' :: '\n' :: _ => .ok ([], 2)
  | c :: _ =>
    if c.isDigit then .error .octalEscape
    else if isLineTerminator c then .ok ([], 1)
    else .ok ([c], 1)

/-- The value of a string literal behind its opening quote, after the characters `acc` in reverse,
with the number of characters up to and including the closing quote. -/
def stringBody (quote : Char) (acc : List Char) (used : Nat) (cs : List Char) :
    Except SyntaxCause (String × Nat) :=
  match cs with
  | [] => .error .unterminatedString
  | c :: rest =>
    if c == quote then .ok (String.ofList acc.reverse, used + 1)
    else if c == '\\' then
      match escape rest with
      | .error cause => .error cause
      | .ok (value, n) => stringBody quote (value.reverse ++ acc) (used + 1 + n) (rest.drop n)
    else if isLineTerminator c then .error .unterminatedString
    else stringBody quote (c :: acc) (used + 1) rest
termination_by cs.length
decreasing_by all_goals simp; try omega

/-- A number may not run into a name or another digit. -/
def endsNumber (rest : List Char) : Bool :=
  !(rest.head?.map fun c => isIdStart c || c.isDigit).getD false

/-- The exponent part of a literal, with the number of its characters. -/
def exponentPart (cs : List Char) : Except SyntaxCause (Bool × List Char × Nat) :=
  match cs with
  | c :: rest =>
    if c == 'e' || c == 'E' then
      let (negative, signed, digits) :=
        match rest with
        | '-' :: r => (true, 1, r)
        | '+' :: r => (false, 1, r)
        | r => (false, 0, r)
      let run := digits.takeWhile Char.isDigit
      if run.isEmpty then .error .badNumber else .ok (negative, run, 1 + signed + run.length)
    else .ok (false, [], 0)
  | [] => .ok (false, [], 0)

/-- A numeric literal with the given first character: its value and how many characters follow the
first. -/
def numberBody (first : Char) (rest : List Char) : Except SyntaxCause (Float × Nat) :=
  match first, rest with
  | '0', 'x' :: body => hexadecimal body
  | '0', 'X' :: body => hexadecimal body
  | '0', c :: body =>
    if c.isDigit then .error .octalLiteral else decimal first (c :: body)
  | _, _ => decimal first rest
where
  hexadecimal (body : List Char) : Except SyntaxCause (Float × Nat) :=
    let run := body.takeWhile (isDigitOf 16)
    if run.isEmpty then .error .badHexLiteral
    else if endsNumber (body.drop run.length) then .ok (ofRadixDigits 16 run, 1 + run.length)
    else .error .numberRunsOn
  decimal (first : Char) (rest : List Char) : Except SyntaxCause (Float × Nat) :=
    let (whole, point, tail) :=
      if first == '.' then ([], 0, rest)
      else
        let run := rest.takeWhile Char.isDigit
        match rest.drop run.length with
        | '.' :: tail => (first :: run, 1, tail)
        | tail => (first :: run, 0, tail)
    let frac := if first == '.' || point == 1 then tail.takeWhile Char.isDigit else []
    let tail := tail.drop frac.length
    match exponentPart tail with
    | .error cause => .error cause
    | .ok (negative, exp, n) =>
      let used := (whole.length - 1) + point + frac.length + n
      if endsNumber (tail.drop n) then .ok (DecimalLiteral.value ⟨whole, frac, negative, exp⟩, used)
      else .error .numberRunsOn

/-- The kind of a word: a keyword, a reserved word or a name. -/
def wordKind (word : String) : TokenKind :=
  match Keyword.ofText? word with
  | some k => .keyword k
  | none => if reservedWords.contains word then .reserved word else .identifier word

/-- The token that starts with `first`, and how many of the following characters belong to it. -/
def scanToken (first : Char) (rest : List Char) : Except SyntaxCause (TokenKind × Nat) :=
  if first == '"' || first == '\'' then
    (stringBody first [] 0 rest).map fun (value, n) => (.text value, n)
  else if first.isDigit || (first == '.' && (rest.head?.map Char.isDigit).getD false) then
    (numberBody first rest).map fun (value, n) => (.number value, n)
  else if isIdStart first then
    let run := rest.takeWhile isIdContinue
    .ok (wordKind (String.ofList (first :: run)), run.length)
  else
    match Punctuator.scan? (first :: rest) with
    | some (p, n) => .ok (.punct p, n - 1)
    | none =>
      .error (if first == '\\' then .escapeInIdentifier else .unexpectedCharacter first)

/-- All tokens from a cursor on, the end of the text last, after the tokens `acc` in reverse. -/
def tokensFrom (acc : List Token) (c : Cursor) : Except SyntaxError (List Token) :=
  match _h : skipTrivia c false with
  | .error e => .error e
  | .ok (here, newline) =>
    match _hr : here.rest with
    | [] =>
      .ok ((⟨.eof, ⟨here.offset, here.offset, here.line, here.column⟩, newline⟩ :: acc).reverse)
    | first :: rest =>
      match scanToken first rest with
      | .error cause => .error ⟨cause, here.line, here.column⟩
      | .ok (kind, n) =>
        let next := here.skip (n + 1)
        tokensFrom (⟨kind, ⟨here.offset, next.offset, here.line, here.column⟩, newline⟩ :: acc) next
termination_by c.rest.length
decreasing_by
  have := length_rest_skipTrivia _h
  simp [_hr] at this ⊢
  omega

/-- The tokens of a source text. -/
def tokens (source : String) : Except SyntaxError (List Token) :=
  tokensFrom [] (Cursor.ofText source)

end ScriptMachine.Source
