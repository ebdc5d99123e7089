import ScriptMachine.Number.Text
import ScriptMachine.Text.Class

/-!
# Numbers read from text

The decimal grammar is scanned once, into its digit runs; its value is the nearest double. Whole
texts (`ofText`) must match the grammar to the end, the two prefix readers take the longest match.
-/

namespace ScriptMachine.Number

open ScriptMachine.Text

/-- The value of a digit character in a radix up to 36. -/
def digitValue? (radix : Nat) (c : Char) : Option Nat :=
  let value :=
    if '0' ≤ c ∧ c ≤ '9' then c.toNat - 48
    else if 'a' ≤ c ∧ c ≤ 'z' then c.toNat - 87
    else if 'A' ≤ c ∧ c ≤ 'Z' then c.toNat - 55
    else 36
  if value < radix then some value else none

/-- Whether a character is a digit of a radix. -/
def isDigitOf (radix : Nat) (c : Char) : Bool :=
  (digitValue? radix c).isSome

/-- The exact value of a run of digits. -/
def natOfDigits (radix : Nat) (cs : List Char) : Nat :=
  cs.foldl (fun n c => n * radix + (digitValue? radix c).getD 0) 0

/-- A natural number cut to 53 binary digits, a tie to the even one. -/
def roundSignificant (n : Nat) : Nat :=
  if n < Nat.pow 2 53 then n
  else
    let k := n.log2 - 52
    roundDiv n (Nat.pow 2 k) <<< k

/-- The value of a run of digits when each product and each sum is rounded to a double. -/
def ofRadixDigits (radix : Nat) (cs : List Char) : Float :=
  ofNat (cs.foldl (fun n c =>
    roundSignificant (roundSignificant (n * radix) + (digitValue? radix c).getD 0)) 0)

/-- The parts of an unsigned decimal literal. -/
structure DecimalLiteral where
  whole : List Char
  frac : List Char
  expNegative : Bool
  exp : List Char

/-- The double nearest to the decimal a literal denotes. -/
def DecimalLiteral.value (d : DecimalLiteral) : Float :=
  let digits := natOfDigits 10 (d.whole ++ d.frac)
  let e : Int := natOfDigits 10 d.exp
  ofDecimal digits ((if d.expNegative then -e else e) - d.frac.length)

/-- An exponent part at the head of a text: its sign, its digits and what follows. -/
def scanExponent (cs : List Char) : Option (Bool × List Char × List Char) :=
  match cs with
  | c :: rest =>
    if c == 'e' || c == 'E' then
      let (negative, digits) :=
        match rest with
        | '-' :: r => (true, r)
        | '+' :: r => (false, r)
        | r => (false, r)
      let run := digits.takeWhile Char.isDigit
      if run.isEmpty then none else some (negative, run, digits.drop run.length)
    else none
  | [] => none

/-- Digits with an optional fraction: the two runs and what follows. At least one digit is
needed. -/
def scanMantissa (cs : List Char) : Option (List Char × List Char × List Char) :=
  let whole := cs.takeWhile Char.isDigit
  match cs.drop whole.length with
  | '.' :: rest =>
    let frac := rest.takeWhile Char.isDigit
    if whole.isEmpty && frac.isEmpty then none else some (whole, frac, rest.drop frac.length)
  | rest => if whole.isEmpty then none else some (whole, [], rest)

/-- The longest decimal literal at the head of a text, and what follows it. -/
def scanDecimal (cs : List Char) : Option (DecimalLiteral × List Char) :=
  match scanMantissa cs with
  | none => none
  | some (whole, frac, rest) =>
    match scanExponent rest with
    | some (negative, digits, rest) => some (⟨whole, frac, negative, digits⟩, rest)
    | none => some (⟨whole, frac, false, []⟩, rest)

/-- A sign at the head of a text, and the rest. -/
def takeSign (cs : List Char) : Bool × List Char :=
  match cs with
  | '-' :: rest => (true, rest)
  | '+' :: rest => (false, rest)
  | rest => (false, rest)

/-- A text without the characters of a class at its ends. -/
def trimBoth (p : Char → Bool) (cs : List Char) : List Char :=
  ((cs.dropWhile p).reverse.dropWhile p).reverse

/-- The digits after a hexadecimal marker. -/
def hexTail? (cs : List Char) : Option (List Char) :=
  match cs with
  | '0' :: 'x' :: rest => some rest
  | '0' :: 'X' :: rest => some rest
  | _ => none

/-- The name of the infinite value. -/
def infinityName : List Char := "Infinity".toList

/-- The number a whole text denotes: nothing but space is zero, then an unsigned hexadecimal
literal, a signed infinity or a signed decimal literal; anything else is not a number. -/
def ofText (s : String) : Float :=
  let cs := trimBoth isSpace s.toList
  if cs.isEmpty then 0
  else
    match hexTail? cs with
    | some digits =>
      if digits.isEmpty || !digits.all (isDigitOf 16) then nan else ofRadixDigits 16 digits
    | none =>
      let (negative, unsigned) := takeSign cs
      if unsigned = infinityName then withSign negative infinity
      else
        match scanDecimal unsigned with
        | some (d, []) => withSign negative d.value
        | _ => nan

/-- The integer at the head of a text. A radix of zero means ten, or sixteen behind a hexadecimal
marker; a radix outside 2 to 36 gives no number. -/
def parseInt (s : String) (radix : Nat) : Float :=
  let (negative, cs) := takeSign (s.toList.dropWhile isSpace)
  if radix ≠ 0 ∧ ¬(2 ≤ radix ∧ radix ≤ 36) then nan
  else
    let (radix, cs) :=
      match (if radix = 0 ∨ radix = 16 then hexTail? cs else none) with
      | some rest => (16, rest)
      | none => (if radix = 0 then 10 else radix, cs)
    let run := cs.takeWhile (isDigitOf radix)
    if run.isEmpty then nan
    else if radix = 10 then withSign negative (ofNat (natOfDigits 10 run))
    else withSign negative (ofRadixDigits radix run)

/-- The longest decimal literal or infinity at the head of a text. -/
def parseFloat (s : String) : Float :=
  let (negative, cs) := takeSign (s.toList.dropWhile isSpace)
  if infinityName.isPrefixOf cs then withSign negative infinity
  else
    match scanDecimal cs with
    | some (d, _) => withSign negative d.value
    | none => nan

end ScriptMachine.Number
