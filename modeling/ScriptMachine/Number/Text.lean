import ScriptMachine.Number.Integer
import ScriptMachine.Number.Shortest

/-!
# Numbers as text

Three printers share the digits of `Number.Shortest`: the text of a number in the language, its
text in JSON, and the text in another radix. Where positional notation ends and how whole numbers
are marked is a `Layout`, a value of the format and not of the digits.
-/

namespace ScriptMachine.Number

/-- The digit characters, for radixes up to 36. -/
def digitChar (d : Nat) : Char :=
  if d < 10 then Char.ofNat (48 + d) else if d < 36 then Char.ofNat (87 + d) else '0'

/-- Digits of a natural number, most significant first; zero has one digit. The first argument
bounds their number. -/
def digitsFrom (radix : Nat) : Nat → Nat → List Char → List Char
  | 0, _, acc => acc
  | fuel + 1, n, acc =>
    if n < radix then digitChar n :: acc
    else digitsFrom radix fuel (n / radix) (digitChar (n % radix) :: acc)

/-- Decimal digits of a natural number. -/
def decimalDigits (n : Nat) : List Char :=
  digitsFrom 10 (n.log2 + 1) n []

/-- The decimal text of a natural number. -/
def natText (n : Nat) : String :=
  String.ofList (decimalDigits n)

/-- How chosen digits are laid out. The point stands after `point` digits; positional notation is
used for `minPoint ≤ point ≤ maxPoint`. -/
structure Layout where
  minPoint : Int
  maxPoint : Int
  /-- Whether a whole number in positional notation ends in `.0`. -/
  markWhole : Bool

/-- Digits with a point after `point` of them. -/
def Layout.positional (l : Layout) (digits : List Char) (point : Int) : List Char :=
  match point with
  | .ofNat k =>
    if k = 0 then '0' :: '.' :: digits
    else if digits.length ≤ k then
      digits ++ List.replicate (k - digits.length) '0' ++ if l.markWhole then ['.', '0'] else []
    else digits.take k ++ '.' :: digits.drop k
  | .negSucc k => '0' :: '.' :: List.replicate (k + 1) '0' ++ digits

/-- One digit, the others behind a point, and the exponent with its sign. -/
def Layout.scientific (digits : List Char) (point : Int) : List Char :=
  let mantissa :=
    match digits with
    | d :: e :: rest => d :: '.' :: e :: rest
    | short => short
  let exponent := point - 1
  mantissa ++ 'e' :: (if exponent < 0 then '-' else '+') :: decimalDigits exponent.natAbs

/-- The text of a positive finite double. -/
def Layout.text (l : Layout) (n : Float) : List Char :=
  let d := shortest n
  let digits := decimalDigits d.digits
  let point := (digits.length : Int) + d.exponent
  if l.minPoint ≤ point ∧ point ≤ l.maxPoint then l.positional digits point
  else Layout.scientific digits point

/-- Numbers in the language: positional from `0.000001` up to 21 digits, whole numbers unmarked. -/
def languageLayout : Layout := ⟨-5, 21, false⟩

/-- Floats in JSON: positional from `0.00001` up to 16 digits, whole numbers end in `.0`. -/
def jsonLayout : Layout := ⟨-4, 16, true⟩

/-- The text of a number in the language; both zeros are `0`. -/
def toText (n : Float) : String :=
  if n.isNaN then "NaN"
  else if n == 0 then "0"
  else if n.isInf then if isNegative n then "-Infinity" else "Infinity"
  else
    let body := languageLayout.text n.abs
    String.ofList (if isNegative n then '-' :: body else body)

/-- The text of a finite float in JSON. -/
def jsonText (n : Float) : String :=
  let body := if n == 0 then ['0', '.', '0'] else jsonLayout.text n.abs
  String.ofList (if isNegative n then '-' :: body else body)

/-- Integer digits in a radix. Each step takes the exact last digit and divides with one rounding
to a double, so beyond `2 ^ 53` the digits are those of the rounded quotients. -/
def radixDigits (radix : Nat) : Nat → Nat → List Char → List Char
  | 0, _, acc => acc
  | fuel + 1, n, acc =>
    if n = 0 then acc
    else radixDigits radix fuel (magnitude (nearest n radix)).floor (digitChar (n % radix) :: acc)

/-- Fraction digits in a radix, at most as many as the first argument says. -/
def radixFraction (radix : Float) : Nat → Float → List Char
  | 0, _ => []
  | fuel + 1, f =>
    if f > 0 then
      let scaled := f * radix
      let d := trunc scaled
      digitChar (magnitude d).floor :: radixFraction radix fuel (scaled - d)
    else []

/-- The text of a number in a radix from 2 to 36. -/
def toTextRadix (n : Float) (radix : Nat) : String :=
  if radix = 10 || !n.isFinite || n == 0 then toText n
  else
    let value := n.abs
    let whole := (magnitude value).floor
    let frac := value - trunc value
    let head := if whole = 0 then ['0'] else radixDigits radix 1100 whole []
    let tail := if frac > 0 then '.' :: radixFraction (ofNat radix) 52 frac else []
    String.ofList ((if n < 0 then ['-'] else []) ++ head ++ tail)

/-- Decimal digits with the given number of them behind the point. -/
def placePoint (digits : List Char) (places : Nat) : List Char :=
  if places = 0 then digits
  else
    let padded := List.replicate (places + 1 - digits.length) '0' ++ digits
    padded.take (padded.length - places) ++ '.' :: padded.drop (padded.length - places)

/-- A number with a fixed count of digits behind the point. The exact binary value is rounded, a
tie to the even digit, and a zero result has no sign. -/
def toFixed (n : Float) (places : Nat) : String :=
  if !n.isFinite || n.abs ≥ 1e21 then toText n
  else
    let (num, den) := (magnitude n).ratio
    let scaled := roundDiv (num * Nat.pow 10 places) den
    let body := placePoint (decimalDigits scaled) places
    String.ofList (if isNegative n && scaled ≠ 0 then '-' :: body else body)

end ScriptMachine.Number
