import ScriptMachine.Number.Dyadic

/-!
# Integer parts and remainders

Truncation and its relatives read the exact integer part off the magnitude, so they are right for
every finite double. The conversions to 32-bit words take the remainder of the truncated double and
move a negative one up, all in doubles.
-/

namespace ScriptMachine.Number

/-- The integer part of a finite double, toward zero. -/
def truncInt (n : Float) : Int :=
  if isNegative n then -((magnitude n).floor : Int) else (magnitude n).floor

/-- The integral double toward zero; a zero keeps the sign of its argument. -/
def trunc (n : Float) : Float :=
  if !n.isFinite || (magnitude n).isIntegral then n
  else withSign (isNegative n) (ofNat (magnitude n).floor)

/-- The largest integral double that is not above the argument. -/
def floor (n : Float) : Float :=
  if !n.isFinite || (magnitude n).isIntegral then n
  else if isNegative n then -ofNat ((magnitude n).floor + 1)
  else ofNat (magnitude n).floor

/-- The least integral double that is not below the argument. -/
def ceil (n : Float) : Float :=
  if !n.isFinite || (magnitude n).isIntegral then n
  else if isNegative n then -ofNat (magnitude n).floor
  else ofNat ((magnitude n).floor + 1)

/-- Truncation that sends what is not a number to zero. -/
def toInteger (n : Float) : Float :=
  if n.isNaN then 0 else if n.isInf then n else trunc n

/-- The remainder of a division that rounds toward zero. It is exact and has the sign of the
dividend. -/
def remainder (a b : Float) : Float :=
  if a.isNaN || b.isNaN || a.isInf || b == 0 then nan
  else if b.isInf || a == 0 then a
  else
    let x := magnitude a
    let y := magnitude b
    let e := min x.exponent y.exponent
    let num := x.mantissa <<< (x.exponent - e).toNat
    let den := y.mantissa <<< (y.exponent - e).toNat
    withSign (isNegative a) (ofDyadic ⟨num % den, e⟩)

/-- A natural number when the double is one, otherwise nothing; minus zero is zero. -/
def toNat? (n : Float) : Option Nat :=
  if isIntegral n && (!isNegative n || n == 0) then some (magnitude n).floor else none

/-- The integer part of a double, kept between zero and a bound. -/
def clampNat (n : Float) (bound : Nat) : Nat :=
  if !(n > 0) then 0
  else if n ≥ ofNat bound then bound
  else (magnitude n).floor

/-- The remainder that is not negative: one below zero is moved up by the divisor. -/
def euclideanRemainder (a b : Float) : Float :=
  let r := remainder a b
  if r < 0 then r + b.abs else r

/-- The residue of the integer part modulo `2 ^ 32`. -/
def toWord (n : Float) : UInt32 :=
  if !n.isFinite || n == 0 then 0
  else UInt32.ofNat (clampNat (euclideanRemainder (trunc n) 4294967296) 4294967295)

/-- The same residue as a signed word. -/
def toSignedWord (n : Float) : Int32 :=
  (toWord n).toInt32

end ScriptMachine.Number
