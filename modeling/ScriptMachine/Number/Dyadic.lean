/-!
# Doubles as signed dyadic numbers

A finite double is a sign and a magnitude `mantissa · 2 ^ exponent`. Everything that has to be
exact (truncation, remainders, digits) works on that magnitude with natural numbers. A quotient of
natural numbers is rounded once and exactly: it is cut to at most 53 binary digits, a tie goes to the
even mantissa, and what exceeds the largest double is infinity.
-/

namespace ScriptMachine.Number

def nan : Float := Float.ofBits 0x7ff8000000000000
def infinity : Float := Float.ofBits 0x7ff0000000000000
def negInfinity : Float := Float.ofBits 0xfff0000000000000
def negZero : Float := Float.ofBits 0x8000000000000000

/-- The magnitude `mantissa · 2 ^ exponent`. -/
structure Dyadic where
  mantissa : Nat
  exponent : Int
  deriving DecidableEq, Repr

/-- The integer part of a magnitude. -/
def Dyadic.floor (d : Dyadic) : Nat :=
  match d.exponent with
  | .ofNat e => d.mantissa <<< e
  | .negSucc e => d.mantissa >>> (e + 1)

/-- A magnitude with no fractional part. -/
def Dyadic.isIntegral (d : Dyadic) : Bool :=
  match d.exponent with
  | .ofNat _ => true
  | .negSucc e => d.mantissa % Nat.pow 2 (e + 1) == 0

/-- A magnitude as a quotient of two natural numbers, the second one positive. -/
def Dyadic.ratio (d : Dyadic) : Nat × Nat :=
  match d.exponent with
  | .ofNat e => (d.mantissa <<< e, 1)
  | .negSucc e => (d.mantissa, Nat.pow 2 (e + 1))

/-- The sign bit; it tells the two zeros apart. -/
def isNegative (n : Float) : Bool :=
  n.toBits >>> 63 == 1

/-- The eleven exponent bits. -/
def biasedExponent (n : Float) : Nat :=
  ((n.toBits >>> 52) &&& 0x7ff).toNat

/-- The fifty-two fraction bits. -/
def fraction (n : Float) : Nat :=
  (n.toBits &&& 0xfffffffffffff).toNat

/-- The magnitude of a finite double. -/
def magnitude (n : Float) : Dyadic :=
  if biasedExponent n = 0 then ⟨fraction n, -1074⟩
  else ⟨fraction n + Nat.pow 2 52, (biasedExponent n : Int) - 1075⟩

/-- Gives a magnitude the sign of `negative`. -/
def withSign (negative : Bool) (n : Float) : Float :=
  if negative then -n else n

/-- The power of two `2 ^ e`, for exponents from -1074 to 1023. -/
def twoPow (e : Int) : Float :=
  if e < -1022 then Float.ofBits ((1 : UInt64) <<< (e + 1074).toNat.toUInt64)
  else Float.ofBits ((e + 1023).toNat.toUInt64 <<< 52)

/-- The double `mantissa · 2 ^ exponent`; exact when the mantissa has at most 53 bits. -/
def ofDyadic (d : Dyadic) : Float :=
  Float.ofNat d.mantissa * twoPow d.exponent

/-- Whether a double is finite and has no fractional part. -/
def isIntegral (n : Float) : Bool :=
  n.isFinite && (magnitude n).isIntegral

/-- The order of doubles by sign, exponent and digits: negative zero comes before zero, and what is
not a number comes last or, with a sign, first. -/
def orderKey (x : Float) : Int :=
  let bits := x.toBits.toNat
  if bits < Nat.pow 2 63 then bits else (Nat.pow 2 63 : Int) - 1 - bits

/-! ## The nearest double -/

/-- Quotient rounded to the nearest natural number, a tie to the even one. -/
def roundDiv (num den : Nat) : Nat :=
  let q := num / den
  let twice := 2 * (num % den)
  if twice < den then q
  else if den < twice then q + 1
  else q + q % 2

/-- `den · 2 ^ e ≤ num`, for exponents of either sign. -/
def reaches (num den : Nat) (e : Int) : Bool :=
  match e with
  | .ofNat k => den <<< k ≤ num
  | .negSucc k => den ≤ num <<< (k + 1)

/-- The exponent of the last binary digit kept for `num / den`: 53 digits, but none below the
least subnormal. -/
def lastBinaryPlace (num den : Nat) : Int :=
  let guess := (num.log2 : Int) - (den.log2 : Int) - 53
  max (if reaches num den (guess + 53) then guess + 1 else guess) (-1074)

/-- The double nearest to `num / den`, where `den` is positive. -/
def nearest (num den : Nat) : Float :=
  if num = 0 then 0 else
  let place := lastBinaryPlace num den
  let kept :=
    match place with
    | .ofNat k => roundDiv num (den <<< k)
    | .negSucc k => roundDiv (num <<< (k + 1)) den
  if place > 971 || (place == 971 && kept ≥ Nat.pow 2 53) then infinity
  else ofDyadic ⟨kept, place⟩

/-- The double nearest to a natural number. -/
def ofNat (n : Nat) : Float :=
  if n < Nat.pow 2 53 then Float.ofNat n else nearest n 1

/-- The double nearest to an integer. -/
def ofInt (i : Int) : Float :=
  match i with
  | .ofNat n => ofNat n
  | .negSucc n => -ofNat (n + 1)

/-- The double nearest to `digits · 10 ^ exponent`. Exponents far outside the range of doubles
are settled by the number of digits. -/
def ofDecimal (digits : Nat) (exponent : Int) : Float :=
  if digits = 0 then 0 else
  let magnitudeBits : Int := digits.log2
  if exponent > 400 then infinity
  else if exponent < -400 - magnitudeBits then 0
  else
    match exponent with
    | .ofNat e => nearest (digits * Nat.pow 10 e) 1
    | .negSucc e => nearest digits (Nat.pow 10 (e + 1))

end ScriptMachine.Number
