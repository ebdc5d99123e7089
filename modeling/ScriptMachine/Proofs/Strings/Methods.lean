import ScriptMachine.Builtin.All
import ScriptMachine.Proofs.JsonText.Building
import ScriptMachine.Proofs.Numbers.Nearest
import ScriptMachine.Proofs.Numbers.Reading
import ScriptMachine.Proofs.Strings.Units

/-!
# Methods of strings

A numeric argument tells a position by its integer part, an infinity lies beyond either end of a
text, and what is not a number tells the first position. The arithmetic on doubles agrees with the
one on integers, so a method does to a text what the same operation does to the list of its units.
-/

namespace ScriptMachine.Number

open Float.Model

variable {x y : Float} {s s' : UnpackedFloat.Sign} {m n k : Nat} {e j : Int}

/-! ## Truncation -/

/-- The integer part of a number, toward zero. -/
def truncated (q : ℚ) : Int := if q < 0 then ⌈q⌉ else ⌊q⌋

theorem truncated_intCast (i : Int) : truncated i = i := by
  unfold truncated
  split
  · exact Int.ceil_intCast i
  · exact Int.floor_intCast i

theorem toRat_trunc (hx : x.isFinite = true) :
    (trunc x).isFinite = true ∧ toRat (trunc x) = truncated (toRat x) := by
  have hpart := (magnitude x).floor_toRat
  have hnonneg : 0 ≤ (magnitude x).toRat := by
    unfold Dyadic.toRat
    positivity
  have hvalue : ((truncated (toRat x) : Int) : ℚ) =
      if isNegative x then -((magnitude x).floor : ℚ) else (magnitude x).floor := by
    rw [toRat_eq_of_sign x, truncated]
    cases isNegative x with
    | false =>
      rw [if_neg Bool.false_ne_true, if_neg Bool.false_ne_true, if_neg (not_lt.2 hnonneg), hpart]
      rfl
    | true =>
      have hceil : (if -(magnitude x).toRat < 0 then ⌈-(magnitude x).toRat⌉
          else ⌊-(magnitude x).toRat⌋) = -((magnitude x).floor : Int) := by
        split
        · rw [Int.ceil_neg, hpart]
        · rename_i h
          obtain hzero : (magnitude x).toRat = 0 := by linarith
          rw [hzero, Int.floor_zero] at hpart
          rw [hzero, ← hpart, neg_zero, Int.floor_zero]
          rfl
      rw [if_pos rfl, if_pos rfl, hceil]
      push_cast
      rfl
  rw [hvalue, trunc]
  cases hintegral : (magnitude x).isIntegral with
  | true =>
    rw [if_pos (by simp), toRat_eq_of_sign x, (magnitude x).toRat_eq_floor_iff.2 hintegral]
    exact ⟨hx, rfl⟩
  | false =>
    have hmost := floor_lt_of_not_isIntegral hx hintegral
    obtain ⟨hfinite, hnat⟩ := toRat_ofNat (n := (magnitude x).floor) (by omega)
    rw [if_neg (by simp [hx]), withSign]
    cases isNegative x with
    | true =>
      obtain ⟨hfinite', hneg, -⟩ := toRat_neg hfinite
      exact ⟨hfinite', hneg.trans (by rw [hnat]; rfl)⟩
    | false => exact ⟨hfinite, hnat⟩

/-! ## Sums below zero -/

theorem fits_of_le (hm : 0 < m) (hk : 0 < k) (hk' : k < 2 ^ 53) (hj : -1074 ≤ j) (hj' : j ≤ 971)
    (h : (m : ℚ) * 2 ^ e ≤ k * 2 ^ j) : Fits m e := by
  have hdigit := leading_digit_le hm hk h
  have hlog : k.log2 ≤ 52 := Nat.lt_succ_iff.1 ((Nat.log2_lt (Nat.ne_of_gt hk)).2 hk')
  have heq := roundingExponent_eq m e
  rcases lt_or_ge (roundingExponent m e) 971 with hlt | hge
  · exact .inl hlt
  refine .inr ⟨by omega, ?_⟩
  -- Rounding does not go past the bound, so the digits that are kept are no more than its own.
  obtain rfl : j = 971 := by omega
  have hexponent : roundingExponent m e = 971 := by omega
  have hle := rounded_le hm hk' hj h
  rw [rounded, hexponent, mul_le_mul_iff_left₀ (by positivity)] at hle
  exact Nat.lt_of_le_of_lt (by exact_mod_cast hle) hk'

/-- The sum of a double with one that is as far below zero is not above zero. -/
theorem toRat_add_nonpos (hx : x.isFinite = true) (hy : y.isFinite = true) (hnonneg : 0 ≤ toRat x)
    (h : toRat x + toRat y ≤ 0) : (x + y).isFinite = true ∧ toRat (x + y) ≤ 0 := by
  by_cases hzero : toRat x + toRat y = 0
  · obtain ⟨hfinite, hsum⟩ := toRat_add_of_exact (k := 0) (j := 0) hx hy (by rw [hzero]; simp)
      (by decide) (by decide) (by decide)
    exact ⟨hfinite, by rw [hsum, hzero]⟩
  rcases cases_of_isFinite hx with hx₀ | ⟨m, e, hm, hx, hcx, -⟩
  · rw [toRat_of_unpack_zero hx₀, zero_add] at h hzero
    rcases cases_of_isFinite hy with hy₀ | ⟨k, j, hk, hy', -, -⟩
    · exact absurd (toRat_of_unpack_zero hy₀) hzero
    · rw [add_eq_of_zero hx₀ hy']
      exact ⟨hy, h⟩
  rcases cases_of_isFinite hy with hy₀ | ⟨k, j, hk, hy, hcy, hj⟩
  · rw [add_eq_of_zero_right hx hy₀]
    rw [toRat_of_unpack_zero hy₀, add_zero] at h
    exact ⟨isFinite_of_unpack hx, h⟩
  have hvalue := value_of_sumDigits hx hy
  have hpower : (0 : ℚ) < 2 ^ min e j := by positivity
  have hne : sumDigits (sign x) (sign y) m k e j ≠ 0 := fun hdigits => by
    rw [hdigits, Int.cast_zero, zero_mul] at hvalue
    exact hzero hvalue.symm
  have hpos := Int.natAbs_pos.2 hne
  -- The sum is no farther from zero than the negative part.
  have hsize : ((sumDigits (sign x) (sign y) m k e j).natAbs : ℚ) * 2 ^ min e j ≤ k * 2 ^ j := by
    calc ((sumDigits (sign x) (sign y) m k e j).natAbs : ℚ) * 2 ^ min e j
        = |(sumDigits (sign x) (sign y) m k e j : ℚ) * 2 ^ min e j| := by
          rw [abs_mul, abs_of_pos hpower, Nat.cast_natAbs, Int.cast_abs]
      _ = -(toRat x + toRat y) := by rw [hvalue, abs_of_nonpos h]
      _ ≤ -toRat y := by linarith
      _ ≤ |toRat y| := neg_le_abs _
      _ = k * 2 ^ j := abs_toRat hy
  obtain ⟨r, hr, hfinite, -, hsum⟩ := toRat_add_of_ne_zero hx hy hcx.low hcy.low hne
    (fits_of_le hpos hk hcy.most hcy.low hj hsize)
  refine ⟨hfinite, ?_⟩
  have hneg : ¬ 0 < sumDigits (sign x) (sign y) m k e j := fun hdigits => by
    have : (0 : ℚ) < toRat x + toRat y := by
      rw [← hvalue]
      exact mul_pos (by exact_mod_cast hdigits) hpower
    linarith
  cases r with
  | positive => exact absurd (hr.1 rfl) hneg
  | negative =>
    rw [hsum, signed, neg_nonpos, rounded]
    positivity

/-! ## Positions -/

/-- The integer part of a double that tells a position in a text of `n` units. An infinity is as far
away as the text is long, and what is not a number tells the first position. -/
def place (x : Float) (n : Nat) : Int :=
  if x.isFinite then truncated (toRat x) else if x.isNaN then 0 else if isNegative x then -n else n

/-- A position kept within a text of `n` units. -/
def clamped (i : Int) (n : Nat) : Nat := (max 0 (min i n)).toNat

theorem clampNat_of_isFinite (hx : x.isFinite = true) (hn : n < 2 ^ 53) :
    clampNat x n = clamped ⌊toRat x⌋ n := by
  have hzero : (0 : Float).isFinite = true := isFinite_of_unpack_zero unpack_zero
  have hpos : x > 0 ↔ 0 < toRat x := by
    rw [gt_iff_lt, lt_iff_toRat hzero hx, toRat_of_unpack_zero unpack_zero]
  obtain ⟨hbound, hvalue⟩ := toRat_ofNat hn
  have hlarge : x ≥ ofNat n ↔ (n : ℚ) ≤ toRat x := by
    rw [ge_iff_le, le_iff_toRat hbound hx, hvalue]
  have hfloor : 0 < toRat x → ((magnitude x).floor : Int) = ⌊toRat x⌋ := fun h => by
    have hsign : isNegative x = false := by
      rw [← Bool.not_eq_true, isNegative_iff_toRat_neg hx (ne_of_gt h)]
      linarith
    rw [toRat_eq_of_sign x, hsign, if_neg Bool.false_ne_true, Dyadic.floor_toRat]
  unfold clampNat clamped
  by_cases h : 0 < toRat x
  · rw [if_neg (by simpa using hpos.2 h)]
    by_cases h' : (n : ℚ) ≤ toRat x
    · rw [if_pos (hlarge.2 h')]
      have : (n : Int) ≤ ⌊toRat x⌋ := Int.le_floor.2 (by exact_mod_cast h')
      omega
    · rw [if_neg (by simpa using mt hlarge.1 h')]
      have : ⌊toRat x⌋ < n := Int.floor_lt.2 (by exact_mod_cast lt_of_not_ge h')
      have := hfloor h
      omega
  · rw [if_pos (by simpa using mt hpos.1 h)]
    have : ⌊toRat x⌋ ≤ 0 := by
      have := Int.floor_le (toRat x)
      have hle : (⌊toRat x⌋ : ℚ) ≤ 0 := by linarith
      exact_mod_cast hle
    omega

theorem lt_iff_unpack : x < y ↔ x.toModel.unpack.lt y.toModel.unpack = true :=
  ⟨fun h => of_decide_eq_true h, fun h => decide_eq_true h⟩

theorem le_iff_unpack : x ≤ y ↔ x.toModel.unpack.le y.toModel.unpack = true :=
  ⟨fun h => of_decide_eq_true h, fun h => decide_eq_true h⟩

theorem lt_infinity (hx : x.toModel.unpack = .infinity .positive) (hy : y.isFinite = true) :
    y < x ∧ y ≤ x ∧ ¬ x < y := by
  rw [lt_iff_unpack, le_iff_unpack, lt_iff_unpack, hx]
  rcases cases_of_isFinite hy with hzero | ⟨m, e, hm, hfinite, -, -⟩
  · rw [hzero]
    exact ⟨rfl, rfl, Bool.false_ne_true⟩
  · rw [hfinite]
    cases sign y <;> exact ⟨rfl, rfl, Bool.false_ne_true⟩

theorem negative_infinity_lt (hx : x.toModel.unpack = .infinity .negative)
    (hy : y.isFinite = true) : x < y ∧ ¬ y < x ∧ ¬ y ≤ x := by
  rw [lt_iff_unpack, lt_iff_unpack, le_iff_unpack, hx]
  rcases cases_of_isFinite hy with hzero | ⟨m, e, hm, hfinite, -, -⟩
  · rw [hzero]
    exact ⟨rfl, Bool.false_ne_true, Bool.false_ne_true⟩
  · rw [hfinite]
    cases sign y <;> exact ⟨rfl, Bool.false_ne_true, Bool.false_ne_true⟩

theorem isFinite_zero : (0 : Float).isFinite = true := isFinite_of_unpack_zero unpack_zero

theorem clampNat_of_negative_infinity (hx : x.toModel.unpack = .infinity .negative) (n : Nat) :
    clampNat x n = 0 := by
  have hpos : ¬ x > 0 := (negative_infinity_lt hx isFinite_zero).2.1
  rw [clampNat, if_pos (by simpa using hpos)]

theorem clampNat_of_infinity (hx : x.toModel.unpack = .infinity .positive) (hn : n < 2 ^ 53) :
    clampNat x n = n := by
  have hpos : x > 0 := (lt_infinity hx isFinite_zero).1
  have hlarge : x ≥ ofNat n := (lt_infinity hx (toRat_ofNat hn).1).2.1
  rw [clampNat, if_neg (by simpa using hpos), if_pos hlarge]

/-- The integer part is a number that tells the same position, or infinite. -/
theorem toInteger_cases (x : Float) (n : Nat) :
    (toInteger x).isFinite = true ∧ toRat (toInteger x) = place x n ∨
      (toInteger x).toModel.unpack = .infinity .positive ∧ place x n = n ∨
      (toInteger x).toModel.unpack = .infinity .negative ∧ place x n = -n := by
  have hfinite : x.isFinite = x.toModel.unpack.isFinite := rfl
  have hnan : x.isNaN = x.toModel.unpack.isNaN := rfl
  have hinf : x.isInf = x.toModel.unpack.isInf := rfl
  unfold toInteger place
  rw [hnan, hinf]
  cases hx : x.toModel.unpack with
  | notANumber =>
    rw [hx] at hfinite
    rw [hfinite]
    exact .inl ⟨isFinite_zero, (toRat_of_unpack_zero unpack_zero).trans Int.cast_zero.symm⟩
  | infinity s =>
    have hsign : sign x = s := by
      rw [unpack_eq] at hx
      split at hx
      · split at hx <;> cases hx
        rfl
      · split at hx
        · split at hx <;> cases hx
        · cases hx
    rw [hx] at hfinite
    rw [hfinite]
    cases s with
    | positive =>
      have hnegative : isNegative x = false := isNegative_eq_of_sign hsign
      rw [hnegative]
      exact .inr (.inl ⟨hx, rfl⟩)
    | negative =>
      have hnegative : isNegative x = true := isNegative_eq_of_sign hsign
      rw [hnegative]
      exact .inr (.inr ⟨hx, rfl⟩)
  | zero s =>
    have hx' := isFinite_of_unpack_zero hx
    rw [hx']
    exact .inl (toRat_trunc hx')
  | finite s m e hm =>
    have hx' := isFinite_of_unpack hx
    rw [hx']
    exact .inl (toRat_trunc hx')

/-- A position counted from the front. -/
theorem clampNat_toInteger (x : Float) (hn : n < 2 ^ 53) :
    clampNat (toInteger x) n = clamped (place x n) n := by
  rcases toInteger_cases x n with ⟨hfinite, hvalue⟩ | ⟨hinf, hplace⟩ | ⟨hinf, hplace⟩
  · rw [clampNat_of_isFinite hfinite hn, hvalue, Int.floor_intCast]
  · rw [clampNat_of_infinity hinf hn, hplace, clamped]
    omega
  · rw [clampNat_of_negative_infinity hinf, hplace, clamped]
    omega

theorem lt_zero_iff (hx : x.isFinite = true) : x < 0 ↔ toRat x < 0 := by
  rw [lt_iff_toRat hx (isFinite_of_unpack_zero unpack_zero), toRat_of_unpack_zero unpack_zero]

/-- A position counted from the end when it is below zero. -/
theorem clampNat_relative (x : Float) (hn : n < 2 ^ 52) :
    clampNat (if toInteger x < 0 then ofNat n + toInteger x else toInteger x) n =
      clamped (if place x n < 0 then n + place x n else place x n) n := by
  obtain ⟨hbound, hlength⟩ := toRat_ofNat (n := n) (by omega)
  rcases toInteger_cases x n with ⟨hfinite, hvalue⟩ | ⟨hinf, hplace⟩ | ⟨hinf, hplace⟩
  · have hneg : toInteger x < 0 ↔ place x n < 0 := by
      rw [lt_zero_iff hfinite, hvalue]
      exact_mod_cast Iff.rfl
    by_cases h : place x n < 0
    · rw [if_pos h, if_pos (hneg.2 h)]
      by_cases hwithin : 0 ≤ n + place x n
      · obtain ⟨hfinite', hsum⟩ := toRat_add_of_exact (k := (n + place x n).toNat) (j := 0) hbound
          hfinite (by
            have hcast : ((n + place x n).toNat : Int) = n + place x n := Int.toNat_of_nonneg hwithin
            rw [hlength, hvalue, zpow_zero, mul_one, abs_of_nonneg (by exact_mod_cast hwithin)]
            exact_mod_cast hcast.symm) (by omega) (by decide) (by decide)
        rw [clampNat_of_isFinite hfinite' (by omega), hsum, hlength, hvalue]
        congr 1
        exact_mod_cast Int.floor_intCast (n + place x n)
      · have hbelow : toRat (ofNat n) + toRat (toInteger x) ≤ 0 := by
          rw [hlength, hvalue]
          exact_mod_cast (not_le.1 hwithin).le
        obtain ⟨hfinite', hsum⟩ := toRat_add_nonpos hbound hfinite (by rw [hlength]; positivity) hbelow
        have hfloor : ⌊toRat (ofNat n + toInteger x)⌋ ≤ 0 := by
          have := (Int.floor_le (toRat (ofNat n + toInteger x))).trans hsum
          exact_mod_cast this
        rw [clampNat_of_isFinite hfinite' (by omega), clamped, clamped]
        omega
    · rw [if_neg h, if_neg (mt hneg.1 h)]
      exact clampNat_toInteger x (by omega)
  · rw [if_neg (lt_infinity hinf isFinite_zero).2.2, if_neg (by omega)]
    exact clampNat_toInteger x (by omega)
  · have hadd : UnpackedFloat.add Format.binary64 (ofNat n).toModel.unpack (.infinity .negative) =
        .infinity .negative := by
      rcases cases_of_isFinite hbound with hzero | ⟨m, e, hm, hunpack, -, -⟩
      · rw [hzero]
        rfl
      · rw [hunpack]
        rfl
    have hsum : (ofNat n + toInteger x).toModel.unpack = .infinity .negative := by
      change (pack (UnpackedFloat.add _ (ofNat n).toModel.unpack
        (toInteger x).toModel.unpack)).unpack = _
      rw [hinf, hadd]
      rfl
    rw [if_pos (negative_infinity_lt hinf isFinite_zero).1, clampNat_of_negative_infinity hsum,
      hplace, clamped]
    split <;> omega

/-- A position that must be within the text. -/
theorem position?_toInteger (x : Float) (hn : n < 2 ^ 53) :
    (if toInteger x ≥ 0 && toInteger x < ofNat n then some (clampNat (toInteger x) n) else none) =
      if 0 ≤ place x n ∧ place x n < n then some (place x n).toNat else none := by
  obtain ⟨hbound, hlength⟩ := toRat_ofNat hn
  rcases toInteger_cases x n with ⟨hfinite, hvalue⟩ | ⟨hinf, hplace⟩ | ⟨hinf, hplace⟩
  · have hnonneg : toInteger x ≥ 0 ↔ 0 ≤ place x n := by
      rw [ge_iff_le, le_iff_toRat isFinite_zero hfinite, toRat_of_unpack_zero unpack_zero, hvalue]
      exact_mod_cast Iff.rfl
    have hwithin : toInteger x < ofNat n ↔ place x n < n := by
      rw [lt_iff_toRat hfinite hbound, hvalue, hlength]
      exact_mod_cast Iff.rfl
    simp only [Bool.and_eq_true, decide_eq_true_eq, hnonneg, hwithin]
    split
    · rename_i h
      rw [clampNat_toInteger x hn, clamped]
      congr 1
      omega
    · rfl
  · have hbeyond : ¬ toInteger x < ofNat n := (lt_infinity hinf hbound).2.2
    rw [if_neg (by simp [hbeyond]), if_neg (by omega)]
  · have hbefore : ¬ toInteger x ≥ 0 := (negative_infinity_lt hinf isFinite_zero).2.2
    rw [if_neg (by simp [hbefore]), if_neg (by omega)]

end ScriptMachine.Number

namespace ScriptMachine.Builtin.Strings

open Machine Exec Text Number

/-! ## Arguments -/

/-- A numeric argument, undefined when it is missing. -/
def argument : Option Float → Value
  | none => .undefined
  | some x => .number x

/-- The position an argument tells in a text of `n` units; the first one when it is missing. -/
def placeOf (a : Option Float) (n : Nat) : Int := a.elim 0 fun x => Number.place x n

/-- The position counted from the front that an argument tells. -/
def fromFront (a : Option Float) (n missing : Nat) : Nat :=
  a.elim missing fun x => clamped (Number.place x n) n

/-- The position an argument tells, counted from the end when it is below zero. -/
def fromEnd (a : Option Float) (n missing : Nat) : Nat :=
  a.elim missing fun x =>
    clamped (if Number.place x n < 0 then n + Number.place x n else Number.place x n) n

variable {n : Nat}

theorem place_nan (n : Nat) : Number.place nan n = 0 := by
  have hnan : nan.isFinite = false ∧ nan.isNaN = true := by decide +kernel
  rw [Number.place, hnan.1, hnan.2]
  rfl

theorem place_number (a : Option Float) (n : Nat) :
    Number.place (argument a).toNumber n = placeOf a n := by
  cases a with
  | none => exact place_nan n
  | some x => rfl

theorem position?_argument (a : Option Float) (hn : n < 2 ^ 53) :
    position? (argument a) n =
      if 0 ≤ placeOf a n ∧ placeOf a n < n then some (placeOf a n).toNat else none := by
  rw [← place_number]
  exact position?_toInteger _ hn

theorem clampedIndex_argument (a : Option Float) (hn : n < 2 ^ 53) (missing : Nat) :
    clampedIndex (argument a) n missing = fromFront a n missing := by
  cases a with
  | none => rfl
  | some x => exact clampNat_toInteger x hn

theorem relativeIndex_argument (a : Option Float) (hn : n < 2 ^ 52) (missing : Nat) :
    relativeIndex (argument a) n missing = fromEnd a n missing := by
  cases a with
  | none => rfl
  | some x => exact clampNat_relative x hn

theorem clamped_le (i : Int) (n : Nat) : clamped i n ≤ n := by
  unfold clamped
  omega

theorem place_ofNat {k : Nat} (hk : k < 2 ^ 53) (n : Nat) : Number.place (ofNat k) n = k := by
  obtain ⟨hfinite, hvalue⟩ := toRat_ofNat hk
  rw [Number.place, if_pos hfinite, hvalue]
  exact_mod_cast truncated_intCast k

theorem fromFront_ofNat (k : Nat) (hk : k < 2 ^ 53) (n missing : Nat) :
    fromFront (some (ofNat k)) n missing = min k n := by
  rw [fromFront, Option.elim_some, place_ofNat hk, clamped]
  omega

theorem fromEnd_ofNat (k : Nat) (hk : k < 2 ^ 53) (n missing : Nat) :
    fromEnd (some (ofNat k)) n missing = min k n := by
  rw [fromEnd, Option.elim_some, place_ofNat hk, if_neg (by omega), clamped]
  omega

theorem fromFront_le (a : Option Float) {missing : Nat} (h : missing ≤ n) :
    fromFront a n missing ≤ n := by
  cases a with
  | none => exact h
  | some x => exact clamped_le _ _

theorem fromEnd_le (a : Option Float) {missing : Nat} (h : missing ≤ n) :
    fromEnd a n missing ≤ n := by
  cases a with
  | none => exact h
  | some x => exact clamped_le _ _

/-! ## Operations on units -/

/-- The unit at a position, which may lie outside. -/
def unitAt (us : List Nat) (i : Int) : Option Nat := if i < 0 then none else us[i.toNat]?

/-- The units from one position up to another. -/
def between (us : List Nat) (i j : Nat) : List Nat := (us.take j).drop i

theorem length_between (us : List Nat) {i j : Nat} (hj : j ≤ us.length) :
    (between us i j).length = j - i := by
  simp [between, Nat.min_eq_left hj]

theorem units_cut_between (s : String) (i j : Nat) :
    units (cut s i j) = repaired (between (units s) i j) := by
  rw [units_cut, between, List.drop_take]

/-- A method of strings answers a call with a value. -/
def Answers (c : NativeCall) (method : String) (v : Value) : Prop :=
  ∃ code, nativeCode Builtin.natives ("String.prototype." ++ method) false = .ok code ∧
    ∀ m, code c m = .ok (c.reply (.value v)) m

variable {s : String} {c : NativeCall}

theorem answers_onText (arity : Nat) {name : String} {f : String → NativeCall → Value}
    (hcode : nativeCode Builtin.natives ("String.prototype." ++ name) false =
      .ok (onText name arity f).code) (hc : c.receiver = .string s) :
    Answers c name (f s c) := by
  refine ⟨_, hcode, fun m => ?_⟩
  obtain ⟨func, receiver, args⟩ := c
  obtain rfl : receiver = .string s := hc
  rfl

theorem answers_charAt (hc : c.receiver = .string s) : Answers c "charAt" (charAt s c) :=
  answers_onText 1 rfl hc

theorem answers_charCodeAt (hc : c.receiver = .string s) :
    Answers c "charCodeAt" (charCodeAt s c) :=
  answers_onText 1 rfl hc

theorem answers_indexOf (hc : c.receiver = .string s) : Answers c "indexOf" (indexOf s c) :=
  answers_onText 1 rfl hc

theorem answers_slice (hc : c.receiver = .string s) : Answers c "slice" (slice s c) :=
  answers_onText 2 rfl hc

theorem answers_substring (hc : c.receiver = .string s) : Answers c "substring" (substring s c) :=
  answers_onText 2 rfl hc

/-- A call is answered with one value. -/
theorem Answers.unique {name : String} {v w : Value} (hv : Answers c name v)
    (hw : Answers c name w) (m : Machine) : v = w := by
  obtain ⟨code, hcode, hv⟩ := hv
  obtain ⟨code', hcode', hw⟩ := hw
  rw [hcode] at hcode'
  obtain rfl := Except.ok.inj hcode'
  have h := (hv m).symm.trans (hw m)
  injection h with h
  injection h with h
  injection h

/-! ## Answers -/

section

variable (h : (units s).length < 2 ^ 52)
include h

/-- The unit a numeric argument names. -/
theorem unitArg?_argument {a : Option Float} (ha : c.arg 0 = argument a) :
    unitArg? s c = unitAt (units s) (placeOf a (units s).length) := by
  rw [unitArg?, ha, unitCount_eq, position?_argument a (by omega), unitAt]
  by_cases hneg : placeOf a (units s).length < 0
  · rw [if_pos hneg, if_neg (by omega)]
    rfl
  rw [if_neg hneg]
  by_cases hlast : placeOf a (units s).length < (units s).length
  · rw [if_pos ⟨by omega, hlast⟩]
    exact unitAt?_eq s _
  · rw [if_neg (by omega), Option.bind_none, List.getElem?_eq_none (by omega)]

theorem units_charAt {a : Option Float} (ha : c.arg 0 = argument a) :
    ∃ t, charAt s c = .string t ∧
      units t = repaired (unitAt (units s) (placeOf a (units s).length)).toList := by
  rw [charAt, unitArg?_argument h ha]
  cases hunit : unitAt (units s) (placeOf a (units s).length) with
  | none => exact ⟨_, rfl, rfl⟩
  | some u =>
    have hmem : u ∈ units s := by
      unfold unitAt at hunit
      split at hunit
      · cases hunit
      · exact List.mem_of_getElem? hunit
    exact ⟨_, rfl, units_ofUnits_singleton (lt_of_mem_units hmem)⟩

theorem charCodeAt_eq {a : Option Float} (ha : c.arg 0 = argument a) :
    charCodeAt s c = (unitAt (units s) (placeOf a (units s).length)).elim (.number nan) .nat := by
  rw [charCodeAt, unitArg?_argument h ha]
  cases unitAt (units s) (placeOf a (units s).length) <;> rfl

theorem indexOf_isFirst {a : Option Float} (ha : c.arg 1 = argument a)
    (hword : (c.arg 0).toText ≠ "" ∨ (units s).length < 2 ^ 32) :
    ∃ r, IsFirst (units s) (units (c.arg 0).toText) (fromFront a (units s).length 0) r ∧
      indexOf s c = r.elim (.number (-1)) .nat := by
  have hle := fromFront_le a (Nat.zero_le (units s).length)
  rw [indexOf, ha, unitCount_eq, clampedIndex_argument a (by omega)]
  split
  · rename_i hempty
    -- The empty text is found at the first position asked.
    refine ⟨some (fromFront a (units s).length 0), ⟨⟨Nat.le_refl _, ?_⟩, fun j hj => hj.1⟩, ?_⟩
    · rw [String.isEmpty_iff.1 hempty]
      exact List.nil_prefix
    · have hshort := hword.resolve_left fun hne => hne (String.isEmpty_iff.1 hempty)
      rw [Nat.mod_eq_of_lt (by omega)]
      rfl
  · rename_i hne
    refine ⟨_, isFirst_indexOf? s _ (Bool.eq_false_iff.2 hne), ?_⟩
    cases indexOf? s (c.arg 0).toText (fromFront a (units s).length 0) <;> rfl

theorem slice_eq {a b : Option Float} (ha : c.arg 0 = argument a) (hb : c.arg 1 = argument b) :
    slice s c = .string (cut s (fromEnd a (units s).length 0)
      (fromEnd b (units s).length (units s).length)) := by
  rw [slice, ha, hb, unitCount_eq, relativeIndex_argument a (by omega),
    relativeIndex_argument b (by omega)]

theorem substring_eq {a b : Option Float} (ha : c.arg 0 = argument a)
    (hb : c.arg 1 = argument b) :
    substring s c = .string (cut s
      (min (fromFront a (units s).length 0) (fromFront b (units s).length (units s).length))
      (max (fromFront a (units s).length 0) (fromFront b (units s).length (units s).length))) := by
  rw [substring, ha, hb, unitCount_eq, clampedIndex_argument a (by omega),
    clampedIndex_argument b (by omega)]

end

theorem units_append (s t : String) : units (s ++ t) = units s ++ units t := by
  simp [units, String.toList_append]

/-- The parts beside a position make up the text, unless a pair lies across it. -/
theorem cut_append_cut {k : Nat} (hk : ¬ CutsPair (units s) k) :
    cut s 0 k ++ cut s k (units s).length = s := by
  apply eq_of_units
  rw [units_append, units_cut_between, units_cut_between, between, between, List.drop_zero,
    List.take_length, repaired_take_append_drop (units s) hk]
  exact repaired_flatMap s.toList

/-- The length of a text is told as a word of 32 bits. -/
theorem getProperty_length (m : Machine) (actor : Option Owner) (s : String) :
    m.getProperty (.string s) "length" actor = .ok (.nat ((units s).length % 2 ^ 32)) := by
  rw [← unitCount_eq]
  rfl

theorem getProperty_index (m : Machine) (actor : Option Owner) {i u : Nat}
    (h : (units s).length < 2 ^ 32) (hu : (units s)[i]? = some u) :
    m.getProperty (.string s) (natText i) actor = .ok (.string (ofUnits [u])) := by
  have hi : i < (units s).length := (List.getElem?_eq_some_iff.1 hu).1
  have hname : (natText i == "length") = false := beq_false_of_ne (Object.natText_ne_length i)
  rw [getProperty, hname, arrayIndex?_natText (by omega), Option.bind_some, unitAt?_eq, hu]
  rfl

theorem getProperty_name (m : Machine) (actor : Option Owner) {key : String} (hkey : key ≠ "length")
    (h : ∀ i, arrayIndex? key = some i → (units s)[i]? = none) :
    m.getProperty (.string s) key actor = m.getOfBox (.string s) key actor := by
  have hnone : (arrayIndex? key).bind (unitAt? s) = none := by
    cases hindex : arrayIndex? key with
    | none => rfl
    | some i => exact (unitAt?_eq s i).trans (h i hindex)
  rw [getProperty, beq_false_of_ne hkey, hnone]
  rfl

/-- What a text of units answers: the length, single units, searches and cuts agree with the same
operations on the list of units, in which halves of pairs left alone are replaced. -/
structure Exact (s : String) : Prop where
  /-- The length is told as a word. -/
  length : ∀ (m : Machine) (actor : Option Owner), (units s).length < 2 ^ 32 →
    m.getProperty (.string s) "length" actor = .ok (.nat (units s).length)
  /-- An index names the unit at its position; -/
  unit : ∀ (m : Machine) (actor : Option Owner) (i u : Nat), (units s).length < 2 ^ 32 →
    (units s)[i]? = some u →
    ∃ t, m.getProperty (.string s) (natText i) actor = .ok (.string t) ∧ units t = repaired [u]
  /-- any other name is one of the prototype. -/
  other : ∀ (m : Machine) (actor : Option Owner) (key : String), key ≠ "length" →
    (∀ i, arrayIndex? key = some i → (units s)[i]? = none) →
    m.getProperty (.string s) key actor = m.getOfBox (.string s) key actor
  charAt : ∀ (c : NativeCall) (a : Option Float), c.receiver = .string s → c.arg 0 = argument a →
    ∃ t, Answers c "charAt" (.string t) ∧
      units t = repaired (unitAt (units s) (placeOf a (units s).length)).toList
  charCodeAt : ∀ (c : NativeCall) (a : Option Float), c.receiver = .string s →
    c.arg 0 = argument a →
    Answers c "charCodeAt"
      ((unitAt (units s) (placeOf a (units s).length)).elim (.number nan) .nat)
  /-- The place of the empty text is told as a word. -/
  indexOf : ∀ (c : NativeCall) (a : Option Float), c.receiver = .string s → c.arg 1 = argument a →
    ((c.arg 0).toText ≠ "" ∨ (units s).length < 2 ^ 32) →
    ∃ r, IsFirst (units s) (units (c.arg 0).toText) (fromFront a (units s).length 0) r ∧
      Answers c "indexOf" (r.elim (.number (-1)) .nat)
  slice : ∀ (c : NativeCall) (a b : Option Float), c.receiver = .string s →
    c.arg 0 = argument a → c.arg 1 = argument b →
    ∃ t, Answers c "slice" (.string t) ∧
      units t = repaired (between (units s) (fromEnd a (units s).length 0)
        (fromEnd b (units s).length (units s).length)) ∧
      (units t).length =
        fromEnd b (units s).length (units s).length - fromEnd a (units s).length 0
  substring : ∀ (c : NativeCall) (a b : Option Float), c.receiver = .string s →
    c.arg 0 = argument a → c.arg 1 = argument b →
    ∃ t, Answers c "substring" (.string t) ∧
      units t = repaired (between (units s)
        (min (fromFront a (units s).length 0) (fromFront b (units s).length (units s).length))
        (max (fromFront a (units s).length 0) (fromFront b (units s).length (units s).length)))
  /-- Two numbers bound the same part in either order. -/
  substring_comm : ∀ (c c' : NativeCall) (x y : Float), c.receiver = .string s →
    c'.receiver = .string s → c.arg 0 = .number x → c.arg 1 = .number y →
    c'.arg 0 = .number y → c'.arg 1 = .number x →
    ∃ t, Answers c "substring" (.string t) ∧ Answers c' "substring" (.string t)
  /-- The two parts beside a position make up the text, unless a pair lies across it. -/
  slice_append : ∀ (c c' : NativeCall) (x : Float), c.receiver = .string s →
    c'.receiver = .string s → c.arg 0 = .nat 0 → c.arg 1 = .number x →
    c'.arg 0 = .number x → c'.arg 1 = .undefined →
    ¬ CutsPair (units s) (fromEnd (some x) (units s).length 0) →
    ∃ t t', Answers c "slice" (.string t) ∧ Answers c' "slice" (.string t') ∧ t ++ t' = s

/-- The methods of strings are exact on code units, as long as the positions are doubles. -/
theorem exact_units (s : String) (h : (units s).length < 2 ^ 52) : Exact s where
  length m actor hword := by rw [getProperty_length, Nat.mod_eq_of_lt hword]
  unit m actor i u hword hu := ⟨_, getProperty_index m actor hword hu,
    units_ofUnits_singleton (lt_of_mem_units (List.mem_of_getElem? hu))⟩
  other m actor key hkey hindex := getProperty_name m actor hkey hindex
  charAt c a hc ha := by
    obtain ⟨t, heq, ht⟩ := units_charAt h ha
    exact ⟨t, heq ▸ answers_charAt hc, ht⟩
  charCodeAt c a hc ha := charCodeAt_eq h ha ▸ answers_charCodeAt hc
  indexOf c a hc ha hword := by
    obtain ⟨r, hr, heq⟩ := indexOf_isFirst h ha hword
    exact ⟨r, hr, heq ▸ answers_indexOf hc⟩
  slice c a b hc ha hb := by
    refine ⟨_, slice_eq h ha hb ▸ answers_slice hc, units_cut_between s _ _, ?_⟩
    rw [units_cut_between, length_repaired, length_between _ (fromEnd_le b (Nat.le_refl _))]
  substring c a b hc ha hb :=
    ⟨_, substring_eq h ha hb ▸ answers_substring hc, units_cut_between s _ _⟩
  substring_comm c c' x y hc hc' ha hb ha' hb' := by
    refine ⟨_, substring_eq h (a := some x) (b := some y) ha hb ▸ answers_substring hc, ?_⟩
    have hanswer := answers_substring hc'
    rw [substring_eq h (a := some y) (b := some x) ha' hb', Nat.min_comm, Nat.max_comm] at hanswer
    exact hanswer
  slice_append c c' x hc hc' ha hb ha' hb' hk := by
    have hfirst := answers_slice hc
    have hsecond := answers_slice hc'
    rw [slice_eq h (a := some (ofNat 0)) (b := some x) ha hb, fromEnd_ofNat 0 (by decide),
      Nat.zero_min] at hfirst
    rw [slice_eq h (a := some x) (b := none) ha' hb'] at hsecond
    exact ⟨_, _, hfirst, hsecond, cut_append_cut hk⟩

theorem exact_units_of_pair : (units "a😀b").length < 2 ^ 52 ∧ Exact "a😀b" :=
  ⟨by decide +kernel, exact_units _ (by decide +kernel)⟩

/-- A call of a method of a text. -/
def calledOn (s : String) (args : List Value) : NativeCall where
  func := ⟨0⟩
  receiver := .string s
  args := args
  owner := some ⟨0⟩
  scope := ⟨0⟩
  thread := ⟨1⟩
  construct := false

theorem length_units_replicate (n : Nat) :
    (units (String.ofList (List.replicate n 'a'))).length = n := by
  have hunits : charUnits 'a' = ['a'.toNat] := rfl
  rw [units, String.toList_ofList, List.flatMap_replicate, hunits]
  simp

/-- A missing argument stands for the first position in one place and for the last in the other, so
a substring is not the one between the same bounds in the other order, and the parts beside a
position that is missing are each the whole text. The length of a text is told as a word. -/
theorem missing_and_long_differ :
    (¬ ∃ t, Answers (calledOn "abc" [.undefined, .nat 1]) "substring" (.string t) ∧
      Answers (calledOn "abc" [.nat 1, .undefined]) "substring" (.string t)) ∧
    (¬ ∃ t t', Answers (calledOn "abc" [.nat 0, .undefined]) "slice" (.string t) ∧
      Answers (calledOn "abc" [.undefined]) "slice" (.string t') ∧ t ++ t' = "abc") ∧
    ¬ ∀ (s : String) (m : Machine) (actor : Option Owner),
      m.getProperty (.string s) "length" actor = .ok (.nat (units s).length) := by
  have hunits : (units "abc").length = 3 := by decide +kernel
  have hshort : (units "abc").length < 2 ^ 52 := by
    rw [hunits]
    decide
  have hanswer : ∀ {args : List Value} {name : String} {t t' : String},
      Answers (calledOn "abc" args) name (.string t) →
      Answers (calledOn "abc" args) name (.string t') → t = t' := fun h h' => by
    injection h.unique h' {}
  refine ⟨?_, ?_, ?_⟩
  · rintro ⟨t, hfirst, hsecond⟩
    have hfirst' := answers_substring (c := calledOn "abc" [.undefined, .nat 1]) rfl
    rw [substring_eq hshort (a := none) (b := some (ofNat 1)) rfl rfl,
      fromFront_ofNat 1 (by decide), hunits] at hfirst'
    have hsecond' := answers_substring (c := calledOn "abc" [.nat 1, .undefined]) rfl
    rw [substring_eq hshort (a := some (ofNat 1)) (b := none) rfl rfl,
      fromFront_ofNat 1 (by decide), hunits] at hsecond'
    have h := (hanswer hfirst' hfirst).trans (hanswer hsecond hsecond')
    exact absurd h (by decide +kernel)
  · rintro ⟨t, t', hfirst, hsecond, h⟩
    have hfirst' := answers_slice (c := calledOn "abc" [.nat 0, .undefined]) rfl
    rw [slice_eq hshort (a := some (ofNat 0)) (b := none) rfl rfl,
      fromEnd_ofNat 0 (by decide), hunits] at hfirst'
    have hsecond' := answers_slice (c := calledOn "abc" [.undefined]) rfl
    rw [slice_eq hshort (a := none) (b := none) rfl rfl, hunits] at hsecond'
    rw [hanswer hfirst hfirst', hanswer hsecond hsecond'] at h
    exact absurd h (by decide +kernel)
  · intro h
    obtain ⟨s, hs⟩ : ∃ s, (units s).length = 2 ^ 32 := ⟨_, length_units_replicate (2 ^ 32)⟩
    have hlong := h s {} none
    rw [getProperty_length, hs, Nat.mod_self] at hlong
    injection hlong with hlong
    injection hlong with hlong
    have hvalue := (toRat_ofNat (n := 0) (by decide)).2
    rw [hlong, (toRat_ofNat (n := 2 ^ 32) (by decide)).2] at hvalue
    norm_num at hvalue

end ScriptMachine.Builtin.Strings
