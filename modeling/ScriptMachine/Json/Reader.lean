import ScriptMachine.Json.Basic
import ScriptMachine.Number.Reading

/-!
# JSON read from text

The reader keeps the byte index of every refusal, from which line and column are computed. The
digits of a number are gathered in a 64-bit significand; digits that do not fit are dropped, and
the significand is scaled by one power of ten, so a long fraction may miss the nearest double.
-/

namespace ScriptMachine.Json

open ScriptMachine.Number

inductive ReadCause where
  | eofInList | eofInObject | eofInString | eofInValue
  | expectedColon | expectedItemEnd | expectedFieldEnd | expectedIdent | expectedValue
  | invalidEscape | invalidNumber | numberOutOfRange | controlCharacter | keyNotString
  | loneSurrogate | trailingComma | trailingCharacters | hexEscapeEnd | tooDeep
  deriving DecidableEq, Repr

/-- The wording of a cause. -/
def ReadCause.message : ReadCause → String
  | .eofInList => "EOF while parsing a list"
  | .eofInObject => "EOF while parsing an object"
  | .eofInString => "EOF while parsing a string"
  | .eofInValue => "EOF while parsing a value"
  | .expectedColon => "expected `:`"
  | .expectedItemEnd => "expected `,` or `]`"
  | .expectedFieldEnd => "expected `,` or `\x7d`"
  | .expectedIdent => "expected ident"
  | .expectedValue => "expected value"
  | .invalidEscape => "invalid escape"
  | .invalidNumber => "invalid number"
  | .numberOutOfRange => "number out of range"
  | .controlCharacter => "control character (\\u0000-\\u001F) found while parsing a string"
  | .keyNotString => "key must be a string"
  | .loneSurrogate => "lone leading surrogate in hex escape"
  | .trailingComma => "trailing comma"
  | .trailingCharacters => "trailing characters"
  | .hexEscapeEnd => "unexpected end of hex escape"
  | .tooDeep => "recursion limit exceeded"

/-- A refusal: its cause and the byte index it is reported at. -/
structure ReadError where
  cause : ReadCause
  index : Nat
  deriving DecidableEq, Repr

/-- The line of a byte index, and how many bytes it is from the start of that line. -/
def position (text : String) (index : Nat) : Nat × Nat :=
  let (_, line, start) := text.toList.foldl (fun (offset, line, start) c =>
    if c == '\n' && offset < index then (offset + 1, line + 1, offset + 1)
    else (offset + c.utf8Size, line, start)) (0, 1, 0)
  (line, index - start)

/-- What is left of a text, and how many bytes precede it. -/
structure Place where
  rest : List Char
  index : Nat

/-- How much is demanded of a value. -/
inductive Demand where
  /-- The value is built; a repeated key keeps its first position and takes the last value. -/
  | full
  /-- The value is only well formed, which allows any depth, any exponent and unpaired
  surrogates. -/
  | shape
  /-- The value may be a record: its keys are read in full and kept apart even when repeated. The
  fields that are known are read as records without known fields, the others for their shape. -/
  | record (known : List String)
  deriving DecidableEq

namespace Demand

/-- Whether strings, exponents and depth have to be valid. -/
def isStrict : Demand → Bool
  | .shape => false
  | _ => true

/-- What is demanded of the items of an array. -/
def item : Demand → Demand
  | .record _ => .record []
  | d => d

/-- What is demanded of a field of an object. -/
def field (key : String) : Demand → Demand
  | .record known => if known.contains key then .record [] else .shape
  | d => d

end Demand

abbrev Reader := StateT Place (Except ReadError)

namespace Reader

def peek : Reader (Option Char) := return (← get).rest.head?

def bump : Reader Unit :=
  modify fun p =>
    match p.rest with
    | [] => p
    | c :: rest => ⟨rest, p.index + c.utf8Size⟩

/-- Refuses at the place reached. -/
def failHere {α : Type} (cause : ReadCause) : Reader α := do
  throw ⟨cause, (← get).index⟩

/-- Refuses one byte further on, unless the text has ended. -/
def failNext {α : Type} (cause : ReadCause) : Reader α := do
  let p ← get
  throw ⟨cause, if p.rest.isEmpty then p.index else p.index + 1⟩

def isBlank (c : Char) : Bool :=
  c == ' ' || c == '\n' || c == '\t' || c == '\r'

/-- Moves over blanks and shows the character behind them. -/
def skipBlanks : Reader (Option Char) := do
  modify fun p => dropBlanks p.rest p.index
  peek
where
  dropBlanks : List Char → Nat → Place
    | [], n => ⟨[], n⟩
    | c :: rest, n => if isBlank c then dropBlanks rest (n + 1) else ⟨c :: rest, n⟩

/-- Takes the digits at the place reached. -/
def takeDigits : Reader (List Char) := do
  let p ← get
  let run := p.rest.takeWhile Char.isDigit
  set (Place.mk (p.rest.drop run.length) (p.index + run.length))
  return run

/-- The rest of a literal name. -/
def expectName : List Char → Reader Unit
  | [] => return
  | c :: name => do
    match ← peek with
    | none => failHere .eofInValue
    | some d =>
      if c == d then do bump; expectName name else failNext .expectedIdent

/-! ## Strings -/

/-- Four hexadecimal digits. -/
def hexEscape : Reader Nat := do
  let p ← get
  let bytes := (p.rest.take 4).foldl (fun n c => n + c.utf8Size) 0
  if bytes < 4 then throw ⟨.eofInString, p.index + bytes⟩
  match p.rest with
  | a :: b :: c :: d :: rest =>
    if [a, b, c, d].all (isDigitOf 16) then
      set (Place.mk rest (p.index + 4))
      return natOfDigits 16 [a, b, c, d]
    else throw ⟨.invalidEscape, p.index + 4⟩
  | _ => throw ⟨.invalidEscape, p.index + 4⟩

/-- One character that must follow inside a surrogate pair. -/
def expectPairChar (c : Char) : Reader Unit := do
  match ← peek with
  | none => failHere .eofInString
  | some d =>
    if c == d then bump else failNext .hexEscapeEnd

/-- The character of a `\u` escape. -/
def unicodeEscape (demand : Demand) : Reader Char := do
  let n ← hexEscape
  if !demand.isStrict then return '\ufffd'
  if 0xdc00 ≤ n ∧ n ≤ 0xdfff then failHere .loneSurrogate
  if n < 0xd800 ∨ 0xdbff < n then return Char.ofNat n
  expectPairChar '\\'
  expectPairChar 'u'
  let low ← hexEscape
  if low < 0xdc00 ∨ 0xdfff < low then failHere .loneSurrogate
  return Char.ofNat (0x10000 + (n - 0xd800) * 0x400 + (low - 0xdc00))

/-- The character that a one-letter escape stands for. -/
def letterEscape? : Char → Option Char
  | '"' => some '"'
  | '\\' => some '\\'
  | '/' => some '/'
  | 'b' => some '\x08'
  | 'f' => some '\x0c'
  | 'n' => some '\n'
  | 'r' => some '\r'
  | 't' => some '\t'
  | _ => none

/-- The character an escape stands for, behind its backslash. -/
def escaped (demand : Demand) : Reader Char := do
  match ← peek with
  | none => failHere .eofInString
  | some 'u' => bump; unicodeEscape demand
  | some c =>
    match letterEscape? c with
    | some d => bump; return d
    | none => failNext .invalidEscape

/-- The characters up to the next quote, backslash or control character, before which the
characters `acc` were read. -/
def plainRun (acc : List Char) (n : Nat) : List Char → List Char × Place
  | [] => (acc, ⟨[], n⟩)
  | c :: rest =>
    if c == '"' || c == '\\' || c.toNat < 0x20 then (acc, ⟨c :: rest, n⟩)
    else plainRun (c :: acc) (n + c.utf8Size) rest

/-- The rest of a string behind its opening quote, after the characters `acc` in reverse. The first
argument bounds the number of escapes. -/
def string (demand : Demand) : Nat → List Char → Reader String
  | 0, _ => failHere .eofInString
  | fuel + 1, acc => do
    let p ← get
    let (acc, next) := plainRun acc p.index p.rest
    set next
    match next.rest with
    | [] => failHere .eofInString
    | '"' :: _ => do
      bump
      return String.ofList acc.reverse
    | '\\' :: _ => do
      bump
      let c ← escaped demand
      string demand fuel (c :: acc)
    | _ => failNext .controlCharacter

/-! ## Numbers -/

/-- One more digit would not fit the significand. -/
def overflows (significand digit bound : Nat) : Bool :=
  bound < significand * 10 + digit

def maxSignificand : Nat := 18446744073709551615

/-- The powers of ten that are doubles, each the nearest to its value. -/
def tenPowers : Array Float :=
  ((List.range 309).map fun (k : Nat) => ofDecimal 1 k).toArray

/-- `significand · 10 ^ exponent` by one multiplication or division; far below the range of
doubles, steps of `1e308` come first. Nothing when the result is infinite. -/
def scale : Nat → Float → Int → Option Float
  | 0, f, _ => some f
  | fuel + 1, f, exponent =>
    match tenPowers[exponent.natAbs]? with
    | some pow =>
      if exponent ≥ 0 then
        if (f * pow).isInf then none else some (f * pow)
      else some (f / pow)
    | none =>
      if f == 0 then some f
      else if exponent ≥ 0 then none
      else scale fuel (f / 1e308) (exponent + 308)

/-- The float of a sign, a significand and an exponent. -/
def ofParts (demand : Demand) (negative : Bool) (significand : Nat) (exponent : Int) :
    Reader Json := do
  match scale 8 (Number.ofNat significand) exponent with
  | some f => return .float (withSign negative f)
  | none =>
    if demand.isStrict then failHere .numberOutOfRange
    else return .float (withSign negative infinity)

def maxExponent : Nat := 2147483647

/-- Digits of an exponent. Nothing when they exceed 32 bits, and then the digits behind the first
one too many are left. -/
def exponentDigits (acc : Nat) : List Char → Nat → Option Nat × Nat
  | [], used => (some acc, used)
  | c :: rest, used =>
    let d := (digitValue? 10 c).getD 0
    if overflows acc d maxExponent then (none, used + 1)
    else exponentDigits (acc * 10 + d) rest (used + 1)

/-- The digits of an exponent, behind its sign. -/
def exponentDigitsPart (demand : Demand) (negative : Bool) (significand : Nat) (start : Int)
    (expNegative : Bool) : Reader Json := do
  match ← peek with
  | none => failHere .eofInValue
  | some c =>
    if !c.isDigit then failNext .invalidNumber
    let p ← get
    let run := p.rest.takeWhile Char.isDigit
    match exponentDigits 0 run 0 with
    | (some e, used) =>
      set (Place.mk (p.rest.drop used) (p.index + used))
      let final := if expNegative then start - e else start + e
      ofParts demand negative significand (max (-2147483648) (min 2147483647 final))
    | (none, used) =>
      set (Place.mk (p.rest.drop used) (p.index + used))
      let huge := significand ≠ 0 && !expNegative
      if huge && demand.isStrict then failHere .numberOutOfRange
      let _ ← takeDigits
      return .float (withSign negative (if huge then infinity else 0))

/-- The exponent part of a number whose digits have been read. -/
def exponentPart (demand : Demand) (negative : Bool) (significand : Nat) (start : Int) :
    Reader Json := do
  bump
  match ← peek with
  | some '+' =>
    bump
    exponentDigitsPart demand negative significand start false
  | some '-' =>
    bump
    exponentDigitsPart demand negative significand start true
  | _ => exponentDigitsPart demand negative significand start false

/-- Adds digits to a significand while they fit: the significand, how many were added and how many
were not. -/
def gather (significand added : Nat) : List Char → Nat × Nat × Nat
  | [] => (significand, added, 0)
  | c :: rest =>
    let d := (digitValue? 10 c).getD 0
    if overflows significand d maxSignificand then (significand, added, rest.length + 1)
    else gather (significand * 10 + d) (added + 1) rest

/-- The fraction of a number, from its point on. -/
def fractionPart (demand : Demand) (negative : Bool) (significand : Nat) (start : Int) :
    Reader Json := do
  bump
  let run ← takeDigits
  if run.isEmpty then
    if (← peek).isNone then failNext .eofInValue else failNext .invalidNumber
  let (significand, added, _) := gather significand 0 run
  let exponent := start - added
  match ← peek with
  | some 'e' => exponentPart demand negative significand exponent
  | some 'E' => exponentPart demand negative significand exponent
  | _ => ofParts demand negative significand exponent

/-- A number behind its sign. -/
def number (demand : Demand) (negative : Bool) : Reader Json := do
  match ← peek with
  | none => failHere .eofInValue
  | some c =>
    if !c.isDigit then failNext .invalidNumber
    let run ← (if c == '0' then do bump; return ['0'] else takeDigits : Reader (List Char))
    if c == '0' then
      if ((← peek).map Char.isDigit).getD false then failNext .invalidNumber
    let (significand, _, dropped) := gather 0 0 run
    match ← peek with
    | some '.' => fractionPart demand negative significand dropped
    | some 'e' => exponentPart demand negative significand dropped
    | some 'E' => exponentPart demand negative significand dropped
    | _ =>
      if dropped ≠ 0 then ofParts demand negative significand dropped
      else if !negative then return .int significand
      else if significand = 0 || significand > Nat.pow 2 63 then
        return .float (-Number.ofNat significand)
      else return .int (-significand)

/-! ## Values -/

/-- Adds a field to the fields read so far, which are in reverse. -/
def addField (demand : Demand) (key : String) (item : Json) (acc : List (String × Json)) :
    List (String × Json) :=
  if demand = .full && acc.any (·.1 == key) then
    acc.map fun (k, v) => if k == key then (k, item) else (k, v)
  else (key, item) :: acc

mutual

/-- A value. The first argument bounds the work, the second is the depth that is still allowed. -/
def value (demand : Demand) : Nat → Nat → Reader Json
  | 0, _ => failNext .tooDeep
  | fuel + 1, depth => do
    match ← skipBlanks with
    | none => failNext .eofInValue
    | some c =>
      match c with
      | 'n' => bump; expectName ['u', 'l', 'l']; return .null
      | 't' => bump; expectName ['r', 'u', 'e']; return .bool true
      | 'f' => bump; expectName ['a', 'l', 's', 'e']; return .bool false
      | '-' => bump; number demand true
      | '"' => bump; return .str (← string demand fuel [])
      | '[' =>
        if depth ≤ 1 && demand.isStrict then failNext .tooDeep
        bump
        return .arr (← items demand fuel (depth - 1) true [])
      | '\x7b' =>
        if depth ≤ 1 && demand.isStrict then failNext .tooDeep
        bump
        return .obj (← fields demand fuel (depth - 1) true [])
      | _ => if c.isDigit then number demand false else failNext .expectedValue

/-- The items of an array behind its bracket, after the items `acc` in reverse. -/
def items (demand : Demand) : Nat → Nat → Bool → List Json → Reader (List Json)
  | 0, _, _, _ => failNext .tooDeep
  | fuel + 1, depth, first, acc => do
    match ← skipBlanks with
    | none => failNext .eofInList
    | some ']' => bump; return acc.reverse
    | some c =>
      if !first then
        if c == ',' then
          bump
          match ← skipBlanks with
          | none => failNext .eofInValue
          | some ']' => failNext .trailingComma
          | some _ => pure ()
        else failNext .expectedItemEnd
      let item ← value demand.item fuel depth
      items demand fuel depth false (item :: acc)

/-- The fields of an object behind its brace, after the fields `acc` in reverse. -/
def fields (demand : Demand) :
    Nat → Nat → Bool → List (String × Json) → Reader (List (String × Json))
  | 0, _, _, _ => failNext .tooDeep
  | fuel + 1, depth, first, acc => do
    match ← skipBlanks with
    | none => failNext .eofInObject
    | some '\x7d' => bump; return acc.reverse
    | some c =>
      if !first then
        if c == ',' then
          bump
          match ← skipBlanks with
          | none => failNext .eofInValue
          | some '\x7d' => failNext .trailingComma
          | some '"' => pure ()
          | some _ => failNext .keyNotString
        else failNext .expectedFieldEnd
      else if c != '"' then failNext .keyNotString
      bump
      let key ← string demand fuel []
      match ← skipBlanks with
      | none => failNext .eofInObject
      | some ':' => bump
      | some _ => failNext .expectedColon
      let item ← value (demand.field key) fuel depth
      fields demand fuel depth false (addField demand key item acc)

end

end Reader

/-- Reads a whole text as one value. -/
def readAs (demand : Demand) (text : String) : Except ReadError Json :=
  let cs := text.toList
  let reader : Reader Json := do
    let j ← Reader.value demand (2 * cs.length + 4) 128
    if (← Reader.skipBlanks).isSome then Reader.failNext .trailingCharacters
    return j
  (reader.run ⟨cs, 0⟩).map (·.1)

/-- Reads a whole text as one value and builds it. -/
def read (text : String) : Except ReadError Json :=
  readAs .full text

end ScriptMachine.Json
