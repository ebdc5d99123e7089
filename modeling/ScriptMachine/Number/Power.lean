import ScriptMachine.Number.Integer

/-!
# Powers of doubles

The power `x ^ y` of finite arguments is `2 ^ (y · log₂ x)`. The logarithm is kept as a sum of two
doubles, of which the first has a short mantissa, so that the product with `y` and the splitting of
it into an integer and a rest lose nothing that the result would show. The polynomial coefficients
and the order of operations are fixed: they decide the last bit.
-/

namespace ScriptMachine.Number

/-- The upper half of the bits of a double. -/
def highWord (x : Float) : Nat := (x.toBits >>> 32).toNat

/-- A double with the upper half of its bits replaced. -/
def withHigh (x : Float) (word : Nat) : Float :=
  Float.ofBits ((x.toBits &&& (0xffffffff : UInt64)) ||| (word.toUInt64 <<< 32))

/-- A double with the lower half of its bits cleared. -/
def short (x : Float) : Float := Float.ofBits (x.toBits &&& 0xffffffff00000000)

/-- The parity of an exponent as far as signs are concerned. -/
inductive Parity where
  | fractional | odd | even
  deriving DecidableEq, Repr

/-- Whether a finite double is an odd or an even integer. -/
def parity (y : Float) : Parity :=
  if !isIntegral y then .fractional
  else if (magnitude y).floor % 2 == 1 then .odd
  else .even

/-- A logarithm as a sum of a short double and a small rest. -/
structure LogParts where
  head : Float
  tail : Float

/-- The base-two logarithm of a double within `2 ^ -20` of one. -/
def logNearOne (ax : Float) : LogParts :=
  let t := ax - 1
  let w := (t * t) * (0.5 - t * (0.3333333333333333333333 - t * 0.25))
  let u := 1.44269502162933349609 * t
  let v := t * 1.92596299112661746887e-08 - w * 1.44269504088896338700
  let head := short (u + v)
  ⟨head, v - (head - u)⟩

/-- The reduction of a magnitude to `2 ^ n` times a number near 1 or near 1.5. -/
structure Reduced where
  /-- The reduced magnitude. -/
  value : Float
  exponent : Int
  /-- Whether it is compared with 1.5 rather than with 1. -/
  upper : Bool

def reduce (ax : Float) : Reduced :=
  let tiny := highWord ax < 0x00100000
  let ax := if tiny then ax * 9007199254740992 else ax
  let word := highWord ax
  let n : Int := (word >>> 20 : Nat) - 1023 + (if tiny then -53 else 0)
  let j := word &&& 0xfffff
  let word := j ||| 0x3ff00000
  if j ≤ 0x3988e then ⟨withHigh ax word, n, false⟩
  else if j < 0xbb67a then ⟨withHigh ax word, n, true⟩
  else ⟨withHigh ax (word - 0x00100000), n + 1, false⟩

/-- The series for the logarithm of a reduced magnitude. -/
def logSeries (s2 : Float) : Float :=
  s2 * s2 * (5.99999999999994648725e-01 + s2 * (4.28571428578550184252e-01 +
    s2 * (3.33333329818377432918e-01 + s2 * (2.72728123808534006489e-01 +
      s2 * (2.30660745775561754067e-01 + s2 * 2.06975017800338417784e-01)))))

/-- The base-two logarithm of a positive finite double. -/
def logParts (ax : Float) : LogParts :=
  let r := reduce ax
  let ax := r.value
  let bp : Float := if r.upper then 1.5 else 1
  let u := ax - bp
  let v := 1 / (ax + bp)
  let ss := u * v
  let sh := short ss
  let th := withHigh 0
    (((highWord ax >>> 1) ||| 0x20000000) + 0x00080000 + (if r.upper then 0x40000 else 0))
  let tl := ax - (th - bp)
  let sl := v * ((u - sh * th) - sh * tl)
  let rest := logSeries (ss * ss) + sl * (sh + ss)
  let s2 := sh * sh
  let th := short (3 + s2 + rest)
  let tl := rest - ((th - 3) - s2)
  let u := sh * th
  let v := sl * th + tl * ss
  let ph := short (u + v)
  let pl := v - (ph - u)
  let dh : Float := if r.upper then 5.84962487220764160156e-01 else 0
  let dl : Float := if r.upper then 1.35003920212974897128e-08 else 0
  let zh := 9.61796700954437255859e-01 * ph
  let zl := -7.02846165095275826516e-09 * ph + pl * 9.61796693925975554329e-01 + dl
  let t := ofInt r.exponent
  let head := short (((zh + zl) + dh) + t)
  ⟨head, zl - (((head - t) - dh) - zh)⟩

/-- A positive double times a power of two, rounded once. -/
def scale2 (z : Float) (n : Int) : Float :=
  let d := magnitude z
  match d.exponent + n with
  | .ofNat k => nearest (d.mantissa <<< k) 1
  | .negSucc k => nearest d.mantissa (Nat.pow 2 (k + 1))

/-- The integer nearest to a double, away from zero at a tie. -/
def wholePart (z : Float) : Int :=
  let n : Int := (magnitude (Float.abs z + 0.5)).floor
  if isNegative z then -n else n

/-- `2 ^ (ph + pl)`, where `z` is the sum of the two. -/
def expParts (z ph pl : Float) : Float :=
  let n := if (highWord z &&& 0x7fffffff) > 0x3fe00000 then wholePart z else 0
  let ph := ph - ofInt n
  let t := short (pl + ph)
  let u := t * 6.93147182464599609375e-01
  let v := (pl - (t - ph)) * 6.93147180559945286227e-01 + t * -1.90465429995776804525e-09
  let z := u + v
  let w := v - (z - u)
  let t := z * z
  let t1 := z - t * (1.66666666666666019037e-01 + t * (-2.77777777770155933842e-03 +
    t * (6.61375632143793436117e-05 + t * (-1.65339022054652515390e-06 +
      t * 4.13813679705723846039e-08))))
  let r := (z * t1) / (t1 - 2) - (w + z * w)
  scale2 (1 - (r - z)) n

/-- `2 ^ (y · log)` for a logarithm in parts: infinite or zero where it leaves the range. -/
def expProduct (y : Float) (log : LogParts) : Float :=
  let y1 := short y
  let pl := (y - y1) * log.head + y * log.tail
  let ph := y1 * log.head
  let z := pl + ph
  if z > 1024 || (z == 1024 && pl + 8.0085662595372944372e-017 > z - ph) then infinity
  else if z < -1075 || (z == -1075 && pl ≤ z - ph) then 0
  else expParts z ph pl

/-- A positive finite base other than one to a finite exponent. -/
def powPositive (ax y : Float) : Float :=
  let ix := highWord ax
  let iy := highWord y &&& 0x7fffffff
  let grows := if isNegative y then 0 else infinity
  let shrinks := if isNegative y then infinity else 0
  if iy > 0x41e00000 then
    if iy > 0x43f00000 && ix ≤ 0x3fefffff then shrinks
    else if iy > 0x43f00000 then grows
    else if ix < 0x3fefffff then shrinks
    else if ix > 0x3ff00000 then grows
    else expProduct y (logNearOne ax)
  else expProduct y (logParts ax)

/-- A power with an infinite exponent. -/
def powInfinite (x y : Float) : Float :=
  let ax := Float.abs x
  if ax == 1 then 1
  else if (ax > 1) == !isNegative y then infinity
  else 0

/-- A power of zero, of one or of an infinity, by the magnitude. -/
def powSpecial (x y : Float) : Float :=
  let ax := Float.abs x
  let z := if isNegative y then 1 / ax else ax
  if isNegative x then
    match parity y with
    | .fractional => if ax == 1 then nan else z
    | .odd => -z
    | .even => z
  else z

/-- `x ^ y`. -/
def pow (x y : Float) : Float :=
  if y == 0 || x == 1 then 1
  else if x.isNaN || y.isNaN then nan
  else if y.isInf then powInfinite x y
  else if y == 1 then x
  else if y == -1 then 1 / x
  else if y == 2 then x * x
  else if y == 0.5 && !isNegative x then Float.sqrt x
  else
    let ax := Float.abs x
    if ax == 0 || ax == 1 || x.isInf then powSpecial x y
    else if isNegative x then
      match parity y with
      | .fractional => nan
      | .odd => -powPositive ax y
      | .even => powPositive ax y
    else powPositive ax y

end ScriptMachine.Number
