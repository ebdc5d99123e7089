import ScriptMachine.Number.Dyadic

/-!
# Shortest decimal digits

The real numbers that read back as a given double form an interval around it. The digits chosen
are those of the coarsest decimal grid with a point in that interval, and of such points the one
nearest to the double; a tie goes to the even digit.
-/

namespace ScriptMachine.Number

/-- The decimal `digits · 10 ^ exponent`. -/
structure Decimal where
  digits : Nat
  exponent : Int
  deriving DecidableEq, Repr

/-- The reals that round to `mid / den`: from `low / den` to `high / den`, the ends included when
`closed`. -/
structure RoundingInterval where
  low : Nat
  mid : Nat
  high : Nat
  den : Nat
  closed : Bool

/-- The interval of a positive finite double. The lower gap is half as wide below a power of
two. -/
def roundingInterval (n : Float) : RoundingInterval :=
  let d := magnitude n
  let lowGap := if fraction n = 0 ∧ 1 < biasedExponent n then 1 else 2
  let m := 4 * d.mantissa
  let closed := d.mantissa % 2 == 0
  match d.exponent - 2 with
  | .ofNat k => ⟨(m - lowGap) <<< k, m <<< k, (m + 2) <<< k, 1, closed⟩
  | .negSucc k => ⟨m - lowGap, m, m + 2, Nat.pow 2 (k + 1), closed⟩

/-- The interval measured in units of `10 ^ e`. -/
def RoundingInterval.scale (i : RoundingInterval) (e : Int) : RoundingInterval :=
  match e with
  | .ofNat k => { i with den := i.den * Nat.pow 10 k }
  | .negSucc k =>
    let p := Nat.pow 10 (k + 1)
    { i with low := i.low * p, mid := i.mid * p, high := i.high * p }

/-- A whole number of units lies in the interval. -/
def RoundingInterval.holds (i : RoundingInterval) (d : Nat) : Bool :=
  if i.closed then i.low ≤ d * i.den && d * i.den ≤ i.high
  else i.low < d * i.den && d * i.den < i.high

/-- The whole number in the interval that is nearest to its middle, if one lies there. Only the
two neighbours of the middle need a test. -/
def RoundingInterval.point? (i : RoundingInterval) : Option Nat :=
  let below := i.mid / i.den
  match i.holds below, i.holds (below + 1) with
  | true, true => some (roundDiv i.mid i.den)
  | true, false => some below
  | false, true => some (below + 1)
  | false, false => none

/-- Searches the grids `10 ^ e`, `10 ^ (e - 1)`, … for the first one with a point. -/
def shortestFrom (i : RoundingInterval) : Nat → Int → Decimal
  | 0, e => ⟨i.mid / i.den, e⟩
  | fuel + 1, e =>
    match (i.scale e).point? with
    | some d => ⟨d, e⟩
    | none => shortestFrom i fuel (e - 1)

/-- An upper bound for the exponent of the leading decimal digit of `num / den`. -/
def leadingPlace (num den : Nat) : Int :=
  ((num.log2 : Int) + 1 - den.log2) * 30103 / 100000 + 1

/-- The shortest digits of a positive finite double. Nineteen grids always suffice, since
seventeen digits tell any two doubles apart. -/
def shortest (n : Float) : Decimal :=
  let i := roundingInterval n
  shortestFrom i 22 (leadingPlace i.mid i.den)

end ScriptMachine.Number
