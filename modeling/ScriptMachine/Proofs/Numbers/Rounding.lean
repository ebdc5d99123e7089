import ScriptMachine.Builtin.Math
import ScriptMachine.Proofs.Arrays.Extent
import ScriptMachine.Proofs.Sums

/-!
# Doubles as rational numbers

A finite double is a rational number, and a sum of doubles is the sum of the numbers, rounded to 53
binary digits. Sums that need no more digits are exact. From that follows to which integers a double
is rounded.
-/

namespace ScriptMachine.Number

open Float.Model

/-! ## Quotients rounded to the nearest number -/

variable {m n d q : Nat} {e : Int}

theorem roundDiv_one (n : Nat) : roundDiv n 1 = n := by
  simp [roundDiv, Nat.mod_one]

/-- A common factor does not count. -/
theorem roundDiv_mul_left (c : Nat) (hc : 0 < c) : roundDiv (c * n) (c * d) = roundDiv n d := by
  have hquotient : c * n / (c * d) = n / d := Nat.mul_div_mul_left n d hc
  have hrest : 2 * (c * n % (c * d)) = c * (2 * (n % d)) := by
    rw [Nat.mul_mod_mul_left]
    ring
  have hless : 2 * (c * n % (c * d)) < c * d ↔ 2 * (n % d) < d := by
    rw [hrest, Nat.mul_lt_mul_left hc]
  have hmore : c * d < 2 * (c * n % (c * d)) ↔ d < 2 * (n % d) := by
    rw [hrest, Nat.mul_lt_mul_left hc]
  unfold roundDiv
  dsimp only
  rw [hquotient, if_congr hless rfl (if_congr hmore rfl rfl)]

theorem roundDiv_mul_right (q : Nat) (hd : 0 < d) : roundDiv (q * d) d = q := by
  have h := roundDiv_mul_left (n := q) (d := 1) d hd
  rw [Nat.mul_one, roundDiv_one] at h
  rw [Nat.mul_comm, h]

/-- The digits that are shifted out: the first of them, and whether there is another one. -/
theorem shiftRight_succ (m k : Nat) :
    UnpackedFloat.ExtendedMantissa.mk m false false >>> (k + 1) =
      ⟨m / 2 ^ (k + 1), m / 2 ^ k % 2 != 0, m % 2 ^ k != 0⟩ := by
  induction k with
  | zero =>
    change UnpackedFloat.ExtendedMantissa.mk (m / 2) (m % 2 != 0) false = _
    simp [Nat.mod_one]
  | succ k ih =>
    change (UnpackedFloat.ExtendedMantissa.mk m false false >>> (k + 1)).shiftRightOne = _
    have hrest : m % 2 ^ (k + 1) = m % 2 ^ k + 2 ^ k * (m / 2 ^ k % 2) := by
      rw [Nat.pow_succ, Nat.mod_mul]
    have hpos : 0 < 2 ^ k := Nat.two_pow_pos k
    have hsticky : (m / 2 ^ k % 2 != 0 || m % 2 ^ k != 0) = (m % 2 ^ (k + 1) != 0) := by
      rw [hrest, Bool.eq_iff_iff]
      simp only [Bool.or_eq_true, bne_iff_ne, ne_eq, Nat.add_eq_zero_iff, Nat.mul_eq_zero,
        Nat.ne_of_gt hpos, false_or]
      tauto
    rw [ih]
    unfold UnpackedFloat.ExtendedMantissa.shiftRightOne
    dsimp only
    rw [hsticky, Nat.div_div_eq_div_mul, ← Nat.pow_succ]

/-- What is left after a shift is rounded to the nearest number, a tie to the even one. -/
theorem roundedMantissa_shiftRight (m k : Nat) :
    (UnpackedFloat.ExtendedMantissa.mk m false false >>> k).roundedMantissa =
      roundDiv m (2 ^ k) := by
  cases k with
  | zero =>
    rw [Nat.pow_zero, roundDiv_one]
    rfl
  | succ k =>
    have hrest : m % 2 ^ (k + 1) = m % 2 ^ k + 2 ^ k * (m / 2 ^ k % 2) := by
      rw [Nat.pow_succ, Nat.mod_mul]
    have hlow : m % 2 ^ k < 2 ^ k := Nat.mod_lt _ (Nat.two_pow_pos k)
    have hpower : 2 ^ (k + 1) = 2 * 2 ^ k := by ring
    rw [shiftRight_succ]
    unfold roundDiv
    dsimp only
    rw [hrest]
    rcases Nat.mod_two_eq_zero_or_one (m / 2 ^ k) with hbit | hbit
    · rw [hbit, if_pos (by omega)]
      cases m % 2 ^ k != 0 <;> rfl
    · rw [hbit, Nat.mul_one, if_neg (by omega)]
      by_cases hzero : m % 2 ^ k = 0
      · rw [hzero, if_neg (by omega)]
        rfl
      · rw [if_pos (by omega), bne_iff_ne.2 hzero]
        rfl

/-! ## Rounding -/

/-- The digits that are kept of a number. -/
def keptDigits (m : Nat) (e : Int) : Nat :=
  roundDiv (m * 2 ^ (e - roundingExponent m e).toNat) (2 ^ (roundingExponent m e - e).toNat)

theorem roundingExponent_mul_two_pow (hm : 0 < m) (k : Nat) :
    roundingExponent (m * 2 ^ k) (e - k) = roundingExponent m e := by
  rw [roundingExponent_eq, roundingExponent_eq, log2_mul_two_pow (Nat.ne_of_gt hm)]
  omega

theorem keptDigits_of_le (h : e ≤ roundingExponent m e) :
    keptDigits m e = roundDiv m (2 ^ (roundingExponent m e - e).toNat) := by
  have hzero : (e - roundingExponent m e).toNat = 0 := by omega
  rw [keptDigits, hzero, Nat.pow_zero, Nat.mul_one]

theorem keptDigits_of_ge (h : roundingExponent m e ≤ e) :
    keptDigits m e = m * 2 ^ (e - roundingExponent m e).toNat := by
  have hzero : (roundingExponent m e - e).toNat = 0 := by omega
  rw [keptDigits, hzero, Nat.pow_zero, roundDiv_one]

theorem roundDiv_bounds (n d : Nat) : n / d ≤ roundDiv n d ∧ roundDiv n d ≤ n / d + 1 := by
  unfold roundDiv
  dsimp only
  split
  · omega
  · split <;> omega

/-- At least 53 digits are kept unless the exponent is the lowest, and no more but for a carry. -/
theorem keptDigits_bounds (hm : 0 < m) (hlow : -1074 ≤ e) :
    0 < keptDigits m e ∧ keptDigits m e ≤ 2 ^ 53 ∧
      (roundingExponent m e ≠ -1074 → 2 ^ 52 ≤ keptDigits m e) := by
  have heq := roundingExponent_eq m e
  have hbounds := (Nat.log2_eq_iff (Nat.ne_of_gt hm)).1 rfl
  rcases Int.le_total e (roundingExponent m e) with hle | hge
  · obtain ⟨k, hk⟩ : ∃ k : Nat, roundingExponent m e - e = k :=
      ⟨(roundingExponent m e - e).toNat, by omega⟩
    rw [keptDigits_of_le hle, hk, Int.toNat_natCast]
    obtain ⟨hbelow, habove⟩ := roundDiv_bounds m (2 ^ k)
    have hmost : m / 2 ^ k < 2 ^ 53 := by
      rw [Nat.div_lt_iff_lt_mul (Nat.two_pow_pos k), ← Nat.pow_add]
      exact Nat.lt_of_lt_of_le hbounds.2 (Nat.pow_le_pow_right (by decide) (by omega))
    have hfull : roundingExponent m e ≠ -1074 → 2 ^ 52 ≤ m / 2 ^ k := fun hne => by
      rw [Nat.le_div_iff_mul_le (Nat.two_pow_pos k), ← Nat.pow_add]
      exact Nat.le_trans (Nat.pow_le_pow_right (by decide) (by omega)) hbounds.1
    have hpos : 0 < m / 2 ^ k := by
      by_cases hleast : roundingExponent m e = -1074
      · obtain rfl : k = 0 := by omega
        rwa [Nat.pow_zero, Nat.div_one]
      · have := hfull hleast
        omega
    exact ⟨by omega, by omega, fun hne => Nat.le_trans (hfull hne) hbelow⟩
  · obtain ⟨k, hk⟩ : ∃ k : Nat, e - roundingExponent m e = k :=
      ⟨(e - roundingExponent m e).toNat, by omega⟩
    rw [keptDigits_of_ge hge, hk, Int.toNat_natCast]
    refine ⟨Nat.mul_pos hm (Nat.two_pow_pos k), ?_, fun hne => ?_⟩
    · calc m * 2 ^ k ≤ 2 ^ (m.log2 + 1) * 2 ^ k := Nat.mul_le_mul_right _ (Nat.le_of_lt hbounds.2)
        _ = 2 ^ (m.log2 + 1 + k) := (Nat.pow_add ..).symm
        _ ≤ 2 ^ 53 := Nat.pow_le_pow_right (by decide) (by omega)
    · calc 2 ^ 52 = 2 ^ (m.log2 + k) := by congr 1; omega
        _ = 2 ^ m.log2 * 2 ^ k := Nat.pow_add ..
        _ ≤ m * 2 ^ k := Nat.mul_le_mul_right _ hbounds.1

/-- A number is rounded to the digits that are kept of it, which may carry. -/
theorem round_eq (s : UnpackedFloat.Sign) (hm : 0 < m) (hlow : -1074 ≤ e) :
    ∃ m' e', ∃ hm' : 0 < m',
      UnpackedFloat.round Format.binary64 s m e = .finite s m' e' hm' ∧ Canonical m' e' ∧
      (m' = keptDigits m e ∧ e' = roundingExponent m e ∨
        keptDigits m e = 2 ^ 53 ∧ m' = 2 ^ 52 ∧ e' = roundingExponent m e + 1) := by
  obtain ⟨hpos, hmost, hfull⟩ := keptDigits_bounds hm hlow
  have heq := roundingExponent_eq m e
  let t := roundingExponent m e
  let moved := m * 2 ^ (e - t).toNat
  let from' : Int := e - ((e - t).toNat : Int)
  have hagain : roundingExponent moved from' = t := roundingExponent_mul_two_pow hm _
  let left := UnpackedFloat.ExtendedMantissa.mk moved false false >>> (t - from').toNat
  have hkept : left.roundedMantissa = keptDigits m e := by
    rw [roundedMantissa_shiftRight, keptDigits]
    congr 2
    omega
  have hfirst : UnpackedFloat.shiftToTargetExponent Format.binary64 moved from' .exact = (left, t) := by
    change (UnpackedFloat.ExtendedMantissa.mk moved false false >>>
      (roundingExponent moved from' - from').toNat,
      from' + ((roundingExponent moved from' - from').toNat : Int)) = _
    rw [hagain]
    exact Prod.ext rfl (by change from' + ((t - from').toNat : Int) = t; omega)
  have hround : UnpackedFloat.round Format.binary64 s m e =
      UnpackedFloat.roundWithAccuracy Format.binary64 s moved from' .exact := by
    change UnpackedFloat.roundWithAccuracy Format.binary64 s (m <<< (e - t).toNat) from' .exact = _
    rw [Nat.shiftLeft_eq]
  let s' := (roundingExponent (keptDigits m e) t - t).toNat
  have hsecond : UnpackedFloat.shiftToTargetExponent Format.binary64 (keptDigits m e) t .exact =
      (UnpackedFloat.ExtendedMantissa.mk (keptDigits m e) false false >>> s', t + (s' : Int)) := rfl
  have hfinal := mantissa_shiftRight (UnpackedFloat.ExtendedMantissa.mk (keptDigits m e) false false) s'
  have hcarry : (s' = 0 ∧ keptDigits m e < 2 ^ 53) ∨ (s' = 1 ∧ keptDigits m e = 2 ^ 53) := by
    have hexponent := roundingExponent_eq (keptDigits m e) t
    by_cases hlt : keptDigits m e < 2 ^ 53
    · have hlog : (keptDigits m e).log2 < 53 := (Nat.log2_lt (Nat.ne_of_gt hpos)).2 hlt
      exact .inl ⟨by omega, hlt⟩
    · have htop : keptDigits m e = 2 ^ 53 := by omega
      refine .inr ⟨?_, htop⟩
      have hlog : (keptDigits m e).log2 = 53 := by rw [htop, Nat.log2_two_pow]
      omega
  have hcanonical : Canonical (keptDigits m e / 2 ^ s') (t + s') := by
    rcases hcarry with ⟨hs, hlt⟩ | ⟨hs, htop⟩
    · rw [hs, Nat.pow_zero, Nat.div_one]
      refine ⟨hpos, hlt, by omega, fun hsmall => ?_⟩
      by_contra hne
      have := hfull (by omega)
      omega
    · rw [hs, htop]
      exact ⟨by decide, by decide, by omega, fun hsmall => absurd hsmall (by decide)⟩
  refine ⟨_, _, hcanonical.pos, ?_, hcanonical, ?_⟩
  · rw [hround]
    unfold UnpackedFloat.roundWithAccuracy
    rw [hfirst]
    dsimp only
    rw [hkept, hsecond]
    dsimp only
    rw [dif_neg (by rw [hfinal]; exact Nat.ne_of_gt hcanonical.pos)]
    congr 1
  · rcases hcarry with ⟨hs, -⟩ | ⟨hs, htop⟩
    · rw [hs, Nat.pow_zero, Nat.div_one]
      exact .inl ⟨rfl, by omega⟩
    · rw [hs, htop]
      exact .inr ⟨rfl, by decide, by omega⟩

/-! ## Values -/

/-- The number a magnitude stands for. -/
def Dyadic.toRat (d : Dyadic) : ℚ := d.mantissa * 2 ^ d.exponent

/-- A number with a sign. -/
def signed (s : UnpackedFloat.Sign) (r : ℚ) : ℚ :=
  match s with
  | .positive => r
  | .negative => -r

/-- The number a finite double stands for. -/
def toRat (x : Float) : ℚ := signed (sign x) (magnitude x).toRat

variable {x y : Float} {s : UnpackedFloat.Sign}

theorem signed_neg (s : UnpackedFloat.Sign) (r : ℚ) : signed (-s) r = -signed s r := by
  cases s
  · exact (neg_neg r).symm
  · rfl

theorem isNegative_eq_of_sign {b : Bool} (h : sign x = if b then .negative else .positive) :
    isNegative x = b := by
  unfold sign at h
  cases hx : isNegative x <;> cases b <;> simp_all

theorem toRat_of_unpack {hm : 0 < m} (h : x.toModel.unpack = .finite s m e hm) :
    toRat x = signed s (m * 2 ^ e) := by
  obtain ⟨hs, hmagnitude⟩ := parts_of_unpack_finite h
  rw [toRat, hs, hmagnitude, Dyadic.toRat]

theorem magnitude_of_unpack_zero (h : x.toModel.unpack = .zero s) :
    sign x = s ∧ magnitude x = ⟨0, -1074⟩ :=
  ⟨(sign_of_unpack_zero h).symm, magnitude_of_zero h⟩

theorem toRat_of_unpack_zero (h : x.toModel.unpack = .zero s) : toRat x = 0 := by
  obtain ⟨hs, hmagnitude⟩ := magnitude_of_unpack_zero h
  rw [toRat, hs, hmagnitude, Dyadic.toRat, Nat.cast_zero, zero_mul]
  cases s
  · exact neg_zero
  · rfl

/-- A finite double is a zero or has a canonical magnitude. -/
theorem cases_of_isFinite (h : x.isFinite = true) : x.toModel.unpack = .zero (sign x) ∨
    ∃ m e, ∃ hm : 0 < m, x.toModel.unpack = .finite (sign x) m e hm ∧ Canonical m e ∧ e ≤ 971 := by
  have hfinite : x.toModel.unpack.isFinite = true := h
  have hfraction : fraction x < 2 ^ 52 := fraction_lt _
  have hexponent : biasedExponent x < 2 ^ 11 := biasedExponent_lt _
  rw [unpack_eq] at hfinite ⊢
  split
  · rename_i htop
    rw [if_pos htop] at hfinite
    split at hfinite <;> cases hfinite
  split
  · split
    · exact .inl rfl
    · rename_i hne
      have hpos := Nat.pos_of_ne_zero hne
      exact .inr ⟨_, _, hpos, rfl, ⟨hpos, by omega, by omega, fun _ => rfl⟩, by omega⟩
  · exact .inr ⟨_, _, by omega, rfl,
      ⟨by omega, by omega, by omega, fun hsmall => absurd hsmall (by omega)⟩, by omega⟩

theorem isFinite_of_unpack {hm : 0 < m} (h : x.toModel.unpack = .finite s m e hm) :
    x.isFinite = true := by
  change x.toModel.unpack.isFinite = true
  rw [h]
  rfl

theorem isFinite_of_unpack_zero (h : x.toModel.unpack = .zero s) : x.isFinite = true := by
  change x.toModel.unpack.isFinite = true
  rw [h]
  rfl

theorem Canonical.normal (h : Canonical m e) (hfull : 2 ^ 52 ≤ m) (he : e ≤ 971) : Normal m e :=
  ⟨hfull, h.most, h.low, he⟩

/-! ## Sums -/

theorem two_zpow_split {e least : Int} (h : least ≤ e) :
    (2 : ℚ) ^ e = 2 ^ (e - least).toNat * 2 ^ least := by
  rw [← zpow_natCast, ← zpow_add₀ two_ne_zero]
  congr 1
  omega

/-- The number to which a magnitude is rounded. -/
def rounded (m : Nat) (e : Int) : ℚ := keptDigits m e * 2 ^ roundingExponent m e

/-- A carry does not change what a number is rounded to. -/
theorem value_of_round {m' : Nat} {e' : Int}
    (h : m' = keptDigits m e ∧ e' = roundingExponent m e ∨
      keptDigits m e = 2 ^ 53 ∧ m' = 2 ^ 52 ∧ e' = roundingExponent m e + 1) :
    (m' : ℚ) * 2 ^ e' = rounded m e := by
  rcases h with ⟨rfl, rfl⟩ | ⟨hkept, rfl, rfl⟩
  · rfl
  · rw [rounded, hkept, zpow_add₀ two_ne_zero]
    push_cast
    ring

/-- The value of a positive number lies between the powers of two at its leading digit. -/
theorem leading_digit_bounds (hm : 0 < m) (e : Int) :
    (2 : ℚ) ^ ((m.log2 : Int) + e) ≤ m * 2 ^ e ∧ (m : ℚ) * 2 ^ e < 2 ^ ((m.log2 : Int) + 1 + e) := by
  have hbounds := (Nat.log2_eq_iff (Nat.ne_of_gt hm)).1 rfl
  constructor
  · rw [zpow_add₀ two_ne_zero, zpow_natCast]
    gcongr
    exact_mod_cast hbounds.1
  · rw [zpow_add₀ two_ne_zero, ← Nat.cast_succ, zpow_natCast]
    gcongr
    exact_mod_cast hbounds.2

theorem leading_digit_le {k : Nat} {j : Int} (hm : 0 < m) (hk : 0 < k)
    (h : (m : ℚ) * 2 ^ e ≤ k * 2 ^ j) : (m.log2 : Int) + e ≤ k.log2 + j := by
  have hlt := lt_of_le_of_lt ((leading_digit_bounds hm e).1.trans h) (leading_digit_bounds hk j).2
  have := (zpow_lt_zpow_iff_right₀ (by norm_num : (1 : ℚ) < 2)).1 hlt
  omega

/-- Equal numbers have their leading digit at one place. -/
theorem leading_digit_eq {k : Nat} {j : Int} (hm : 0 < m) (hk : 0 < k)
    (h : (m : ℚ) * 2 ^ e = k * 2 ^ j) : (m.log2 : Int) + e = k.log2 + j :=
  le_antisymm (leading_digit_le hm hk (le_of_eq h)) (leading_digit_le hk hm (le_of_eq h.symm))

theorem roundDiv_le_of_le (hd : 0 < d) (h : n ≤ q * d) : roundDiv n d ≤ q := by
  have hquotient : n / d ≤ q := Nat.div_le_of_le_mul (by rwa [Nat.mul_comm])
  rcases Nat.lt_or_eq_of_le hquotient with hlt | heq
  · have := (roundDiv_bounds n d).2
    omega
  · have hwhole : n = q * d :=
      Nat.le_antisymm h (heq ▸ Nat.div_mul_le_self n d)
    rw [hwhole, roundDiv_mul_right q hd]

theorem le_roundDiv_of_le (hd : 0 < d) (h : q * d ≤ n) : q ≤ roundDiv n d :=
  Nat.le_trans ((Nat.le_div_iff_mul_le hd).2 h) (roundDiv_bounds n d).1

/-- What has no digits below those that are kept is exact. -/
theorem rounded_of_ge (h : roundingExponent m e ≤ e) : rounded m e = m * 2 ^ e := by
  rw [rounded, keptDigits_of_ge h, two_zpow_split h]
  push_cast
  ring

/-- Digits that are shifted are compared at one exponent. -/
theorem shifted_le_iff {k : Nat} {i j : Int} (hi : e ≤ i) (hj : i ≤ j) :
    (m : ℚ) * 2 ^ e ≤ k * 2 ^ j ↔ m ≤ k * 2 ^ (j - i).toNat * 2 ^ (i - e).toNat := by
  rw [two_zpow_split (hi.trans hj), ← mul_assoc, mul_le_mul_iff_left₀ (by positivity)]
  have hsum : (j - e).toNat = (j - i).toNat + (i - e).toNat := by omega
  rw [hsum, pow_add, ← mul_assoc]
  exact_mod_cast Iff.rfl

theorem le_shifted_iff {k : Nat} {i j : Int} (hi : e ≤ i) (hj : i ≤ j) :
    (k : ℚ) * 2 ^ j ≤ m * 2 ^ e ↔ k * 2 ^ (j - i).toNat * 2 ^ (i - e).toNat ≤ m := by
  rw [two_zpow_split (hi.trans hj), ← mul_assoc, mul_le_mul_iff_left₀ (by positivity)]
  have hsum : (j - e).toNat = (j - i).toNat + (i - e).toNat := by omega
  rw [hsum, pow_add, ← mul_assoc]
  exact_mod_cast Iff.rfl

/-- Rounding does not go past a number of 53 digits that is above. -/
theorem rounded_le {k : Nat} {j : Int} (hm : 0 < m) (hk : k < 2 ^ 53) (hj : -1074 ≤ j)
    (h : (m : ℚ) * 2 ^ e ≤ k * 2 ^ j) : rounded m e ≤ k * 2 ^ j := by
  rcases Int.le_total (roundingExponent m e) e with hge | hle
  · rwa [rounded_of_ge hge]
  have hpos : 0 < k := by
    have : (0 : ℚ) < k * 2 ^ j := lt_of_lt_of_le (by positivity) h
    exact Nat.pos_of_ne_zero fun hzero => by simp [hzero] at this
  have hdigit := leading_digit_le hm hpos h
  have hlog : k.log2 ≤ 52 := Nat.lt_succ_iff.1 ((Nat.log2_lt (Nat.ne_of_gt hpos)).2 hk)
  have heq := roundingExponent_eq m e
  have hbelow : roundingExponent m e ≤ j := by omega
  have hkept := roundDiv_le_of_le (Nat.two_pow_pos _) ((shifted_le_iff hle hbelow).1 h)
  rw [rounded, keptDigits_of_le hle]
  exact (shifted_le_iff (Int.le_refl _) hbelow).2 (by simpa using hkept)

/-- Rounding does not go past a number of 53 digits that is below. -/
theorem le_rounded {k : Nat} {j : Int} (hm : 0 < m) (hlow : -1074 ≤ e) (hk : k < 2 ^ 53)
    (hj : -1074 ≤ j) (h : (k : ℚ) * 2 ^ j ≤ m * 2 ^ e) : k * 2 ^ j ≤ rounded m e := by
  rcases Int.le_total (roundingExponent m e) e with hge | hle
  · rwa [rounded_of_ge hge]
  rcases Int.lt_or_le j (roundingExponent m e) with hlt | hbelow
  · -- What is rounded at a higher exponent has all its digits there.
    have hfull : 2 ^ 52 ≤ keptDigits m e := (keptDigits_bounds hm hlow).2.2 (by omega)
    calc (k : ℚ) * 2 ^ j ≤ 2 ^ 53 * 2 ^ j := by
          gcongr
          exact_mod_cast Nat.le_of_lt hk
      _ = 2 ^ 52 * 2 ^ (j + 1) := by
          rw [zpow_add_one₀ two_ne_zero]
          ring
      _ ≤ keptDigits m e * 2 ^ roundingExponent m e := by
          gcongr
          · exact_mod_cast hfull
          · norm_num
          · omega
  · have hkept := le_roundDiv_of_le (Nat.two_pow_pos _) ((le_shifted_iff hle hbelow).1 h)
    rw [rounded, keptDigits_of_le hle]
    exact (le_shifted_iff (Int.le_refl _) hbelow).2 (by simpa using hkept)

/-- What has a magnitude of 53 digits is kept as it is. -/
theorem rounded_of_exact {k : Nat} {j : Int} (hm : 0 < m) (hlow : -1074 ≤ e) (hk : k < 2 ^ 53)
    (hj : -1074 ≤ j) (h : (m : ℚ) * 2 ^ e = k * 2 ^ j) : rounded m e = m * 2 ^ e := by
  rw [h]
  exact le_antisymm (rounded_le hm hk hj (le_of_eq h)) (le_rounded hm hlow hk hj (le_of_eq h.symm))

/-- A canonical double is taken apart as it was put together. -/
theorem unpack_pack_canonical (h : Canonical m e) (he : e ≤ 971) (s : UnpackedFloat.Sign)
    (hm : 0 < m) : (pack (.finite s m e hm)).unpack = .finite s m e hm := by
  by_cases hfull : 2 ^ 52 ≤ m
  · exact unpack_pack (h.normal hfull he) s hm
  have hsmall : m < 2 ^ 52 := Nat.lt_of_not_le hfull
  obtain rfl := h.full hsmall
  let x : Float := ⟨pack (.finite s m (-1074) hm)⟩
  have hlog : m.log2 < 52 := (Nat.log2_lt (Nat.ne_of_gt hm)).2 hsmall
  have hbits : bitsNat x = s.toBitVec.toNat * 2 ^ 63 + m := by
    change (UnpackedFloat.pack Format.binary64 (.finite s m (-1074) hm)).toNat = _
    unfold UnpackedFloat.pack
    dsimp only
    rw [if_neg (by decide), if_neg (show ¬ m.log2 + 1 = Format.binary64.mantissaBits by
      change ¬ m.log2 + 1 = 1 + 52; omega), toNat_packComponents, BitVec.toNat_ofNat]
    change s.toBitVec.toNat * 2 ^ 63 + 0 * 2 ^ 52 + m % 2 ^ 52 = _
    omega
  have hsign : sign x = s := sign_of_bits hbits (by omega)
  have hbit : s.toBitVec.toNat < 2 := s.toBitVec.isLt
  have hexponent : biasedExponent x = 0 := by
    rw [biasedExponent_eq, hbits]
    omega
  have hfraction : fraction x = m := by
    rw [fraction_eq, hbits]
    omega
  have hunpack := unpack_eq x
  rw [if_neg (by omega), if_pos hexponent, dif_neg (by omega)] at hunpack
  refine hunpack.trans ?_
  congr 1

/-- What is rounded is below infinity. -/
def Fits (m : Nat) (e : Int) : Prop :=
  roundingExponent m e < 971 ∨ roundingExponent m e = 971 ∧ keptDigits m e < 2 ^ 53

/-- A double that is put together from a rounded number. -/
theorem toRat_round (s : UnpackedFloat.Sign) (hm : 0 < m) (hlow : -1074 ≤ e)
    (hfits : Fits m e) (hx : x = ⟨pack (UnpackedFloat.round Format.binary64 s m e)⟩) :
    x.isFinite = true ∧ sign x = s ∧ toRat x = signed s (rounded m e) := by
  obtain ⟨m', e', hm', hround, hcanonical, hkept⟩ := round_eq s hm hlow
  have hunpack : x.toModel.unpack = .finite s m' e' hm' := by
    rw [hx, hround]
    exact unpack_pack_canonical hcanonical (by unfold Fits at hfits; omega) s hm'
  exact ⟨isFinite_of_unpack hunpack, (parts_of_unpack_finite hunpack).1, by
    rw [toRat_of_unpack hunpack, value_of_round hkept]⟩

/-- The digits of a sum, at the lesser of the two exponents. -/
def sumDigits (s s' : UnpackedFloat.Sign) (m n : Nat) (e e' : Int) : Int :=
  s.apply (m * 2 ^ (e - min e e').toNat : Nat) + s'.apply (n * 2 ^ (e' - min e e').toNat : Nat)

theorem signed_eq_apply (s : UnpackedFloat.Sign) (k : Nat) (r : ℚ) :
    signed s (k * r) = (s.apply k : Int) * r := by
  cases s
  · change -((k : ℚ) * r) = ((-(k : Int) : Int) : ℚ) * r
    push_cast
    ring
  · change (k : ℚ) * r = ((k : Int) : ℚ) * r
    push_cast
    ring

variable {s' : UnpackedFloat.Sign} {e' : Int} {hm : 0 < m} {hn : 0 < n}

/-- The digits of a sum stand for the sum. -/
theorem value_of_sumDigits (hx : x.toModel.unpack = .finite s m e hm)
    (hy : y.toModel.unpack = .finite s' n e' hn) :
    (sumDigits s s' m n e e' : ℚ) * 2 ^ min e e' = toRat x + toRat y := by
  rw [toRat_of_unpack hx, toRat_of_unpack hy, signed_eq_apply, signed_eq_apply, sumDigits,
    two_zpow_split (Int.min_le_left e e'), two_zpow_split (Int.min_le_right e e')]
  cases s <;> cases s' <;> simp only [UnpackedFloat.Sign.apply] <;> push_cast <;> ring

theorem add_eq_normalize (hx : x.toModel.unpack = .finite s m e hm)
    (hy : y.toModel.unpack = .finite s' n e' hn) :
    x + y = ⟨pack (UnpackedFloat.normalize Format.binary64 (sumDigits s s' m n e e') (min e e')
      .positive)⟩ := by
  change Float.ofModel (pack (UnpackedFloat.add _ x.toModel.unpack y.toModel.unpack)) = _
  rw [hx, hy, sumDigits, ← Nat.shiftLeft_eq, ← Nat.shiftLeft_eq]
  rfl

theorem normalize_of_pos {t : Int} (ht : 0 < t) :
    UnpackedFloat.normalize Format.binary64 t e .positive =
      UnpackedFloat.round Format.binary64 .positive t.natAbs e := by
  unfold UnpackedFloat.normalize
  rw [compare_gt_iff_gt.2 ht]
  dsimp only
  congr 1
  omega

theorem normalize_of_neg {t : Int} (ht : t < 0) :
    UnpackedFloat.normalize Format.binary64 t e .positive =
      UnpackedFloat.round Format.binary64 .negative t.natAbs e := by
  unfold UnpackedFloat.normalize
  rw [compare_lt_iff_lt.2 ht]
  dsimp only
  congr 1
  omega

/-- The sum of two doubles is the rounded sum of their numbers. -/
theorem toRat_add_of_ne_zero (hx : x.toModel.unpack = .finite s m e hm)
    (hy : y.toModel.unpack = .finite s' n e' hn) (he : -1074 ≤ e) (he' : -1074 ≤ e')
    (hne : sumDigits s s' m n e e' ≠ 0)
    (hfits : Fits (sumDigits s s' m n e e').natAbs (min e e')) :
    ∃ r, (r = .positive ↔ 0 < sumDigits s s' m n e e') ∧
      (x + y).isFinite = true ∧ sign (x + y) = r ∧
      toRat (x + y) = signed r (rounded (sumDigits s s' m n e e').natAbs (min e e')) := by
  have hsum := add_eq_normalize hx hy
  have hlow : -1074 ≤ min e e' := le_min he he'
  have hpos : 0 < (sumDigits s s' m n e e').natAbs := Int.natAbs_pos.2 hne
  rcases lt_or_gt_of_ne hne with hneg | hgt
  · rw [normalize_of_neg hneg] at hsum
    have hsign : UnpackedFloat.Sign.negative = .positive ↔ 0 < sumDigits s s' m n e e' :=
      iff_of_false UnpackedFloat.Sign.noConfusion (not_lt.2 (le_of_lt hneg))
    exact ⟨.negative, hsign, toRat_round .negative hpos hlow hfits hsum⟩
  · rw [normalize_of_pos hgt] at hsum
    exact ⟨.positive, iff_of_true rfl hgt, toRat_round .positive hpos hlow hfits hsum⟩

theorem signed_natAbs {t : Int} {r : UnpackedFloat.Sign} (h : r = .positive ↔ 0 < t) :
    signed r (t.natAbs * 2 ^ e) = t * 2 ^ e := by
  cases r with
  | positive => rw [signed, Nat.cast_natAbs, abs_of_pos (h.1 rfl)]
  | negative =>
    have hle : t ≤ 0 := not_lt.1 fun hlt => by cases h.2 hlt
    rw [signed, Nat.cast_natAbs, abs_of_nonpos hle]
    push_cast
    ring

theorem add_eq_of_zero (hx : x.toModel.unpack = .zero s) (hy : y.toModel.unpack = .finite s' n e' hn)
    : x + y = y := by
  refine eq_of_unpack_eq ?_
  have hfinite := isFinite_of_unpack hy
  rcases cases_of_isFinite hfinite with hzero | ⟨k, j, hk, hcanonical⟩
  · rw [hy] at hzero
    cases hzero
  · change (pack (UnpackedFloat.add _ x.toModel.unpack y.toModel.unpack)).unpack = _
    rw [hx, hcanonical.1]
    exact unpack_pack_canonical hcanonical.2.1 hcanonical.2.2 _ hk

theorem add_eq_of_zero_right (hx : x.toModel.unpack = .finite s m e hm)
    (hy : y.toModel.unpack = .zero s') : x + y = x := by
  refine eq_of_unpack_eq ?_
  have hfinite := isFinite_of_unpack hx
  rcases cases_of_isFinite hfinite with hzero | ⟨k, j, hk, hcanonical⟩
  · rw [hx] at hzero
    cases hzero
  · change (pack (UnpackedFloat.add _ x.toModel.unpack y.toModel.unpack)).unpack = _
    rw [hy, hcanonical.1]
    exact unpack_pack_canonical hcanonical.2.1 hcanonical.2.2 _ hk

theorem unpack_zero_of_eq {r : UnpackedFloat.Sign} (h : x = ⟨pack (.zero r)⟩) :
    x.toModel.unpack = .zero r := by
  rw [h]
  cases r <;> rfl

/-- A sum that needs no more than 53 digits is exact. -/
theorem toRat_add_of_exact {k : Nat} {j : Int} (hx : x.isFinite = true) (hy : y.isFinite = true)
    (h : |toRat x + toRat y| = k * 2 ^ j) (hk : k < 2 ^ 53) (hj : -1074 ≤ j) (hj' : j ≤ 970) :
    (x + y).isFinite = true ∧ toRat (x + y) = toRat x + toRat y := by
  rcases cases_of_isFinite hx with hx₀ | ⟨m, e, hm, hx, hcx, -⟩
  · rcases cases_of_isFinite hy with hy₀ | ⟨n, e', hn, hy, -, -⟩
    · have hsum : ∃ r, x + y = ⟨pack (.zero r)⟩ := by
        change ∃ r, Float.ofModel (pack (UnpackedFloat.add _ x.toModel.unpack y.toModel.unpack)) = _
        rw [hx₀, hy₀]
        cases sign x <;> cases sign y <;> exact ⟨_, rfl⟩
      obtain ⟨r, hr⟩ := hsum
      have hunpack := unpack_zero_of_eq hr
      refine ⟨isFinite_of_unpack_zero hunpack, ?_⟩
      rw [toRat_of_unpack_zero hunpack, toRat_of_unpack_zero hx₀, toRat_of_unpack_zero hy₀, add_zero]
    · rw [add_eq_of_zero hx₀ hy, toRat_of_unpack_zero hx₀, zero_add]
      exact ⟨isFinite_of_unpack hy, rfl⟩
  · rcases cases_of_isFinite hy with hy₀ | ⟨n, e', hn, hy, hcy, -⟩
    · rw [add_eq_of_zero_right hx hy₀, toRat_of_unpack_zero hy₀, add_zero]
      exact ⟨isFinite_of_unpack hx, rfl⟩
    · have hvalue := value_of_sumDigits hx hy
      by_cases hzero : sumDigits (sign x) (sign y) m n e e' = 0
      · have hsum := add_eq_normalize hx hy
        rw [hzero] at hsum
        have hunpack := unpack_zero_of_eq hsum
        rw [← hvalue, hzero, toRat_of_unpack_zero hunpack, Int.cast_zero, zero_mul]
        exact ⟨isFinite_of_unpack_zero hunpack, rfl⟩
      · have hpos : 0 < (sumDigits (sign x) (sign y) m n e e').natAbs := Int.natAbs_pos.2 hzero
        have hexact : ((sumDigits (sign x) (sign y) m n e e').natAbs : ℚ) * 2 ^ min e e' =
            k * 2 ^ j := by
          rw [← h, ← hvalue, abs_mul, Nat.cast_natAbs, Int.cast_abs,
            abs_of_pos (show (0 : ℚ) < 2 ^ min e e' by positivity)]
        have hpos' : 0 < k := by
          have : (0 : ℚ) < k * 2 ^ j := by
            rw [← hexact]
            positivity
          rcases Nat.eq_zero_or_pos k with rfl | hk
          · simp at this
          · exact hk
        have hdigit := leading_digit_eq hpos hpos' hexact
        have hlog : k.log2 ≤ 52 := Nat.lt_succ_iff.1 ((Nat.log2_lt (Nat.ne_of_gt hpos')).2 hk)
        have heq := roundingExponent_eq (sumDigits (sign x) (sign y) m n e e').natAbs (min e e')
        obtain ⟨r, hr, hfinite, -, hsum⟩ :=
          toRat_add_of_ne_zero hx hy hcx.low hcy.low hzero (.inl (by omega))
        refine ⟨hfinite, ?_⟩
        rw [hsum, rounded_of_exact hpos (le_min hcx.low hcy.low) hk hj hexact, signed_natAbs hr, hvalue]

/-- The sign of a double that is not zero. -/
theorem isNegative_iff_toRat_neg (hx : x.isFinite = true) (hne : toRat x ≠ 0) :
    isNegative x = true ↔ toRat x < 0 := by
  rcases cases_of_isFinite hx with hzero | ⟨m, e, hm, hx, -⟩
  · exact absurd (toRat_of_unpack_zero hzero) hne
  · have hpos : (0 : ℚ) < m * 2 ^ e := by positivity
    rw [toRat_of_unpack hx]
    unfold sign
    cases isNegative x with
    | true => exact iff_of_true rfl (neg_neg_of_pos hpos)
    | false => exact iff_of_false Bool.false_ne_true (not_lt.2 (le_of_lt hpos))

/-! ## Natural numbers and integer parts -/

theorem toRat_ofNat {n : Nat} (hn : n < 2 ^ 53) :
    (ofNat n).isFinite = true ∧ toRat (ofNat n) = n := by
  rcases Nat.eq_zero_or_pos n with rfl | hpos
  · rw [toRat_of_unpack_zero unpack_ofNat_zero, Nat.cast_zero]
    exact ⟨isFinite_of_unpack_zero unpack_ofNat_zero, rfl⟩
  · obtain ⟨hm, hunpack⟩ := unpack_ofNat hpos hn
    rw [← ofNat_eq hn] at hunpack
    refine ⟨isFinite_of_unpack hunpack, ?_⟩
    rw [toRat_of_unpack hunpack, signed, zpow_neg, zpow_natCast]
    push_cast
    field_simp

theorem toRat_neg (hx : x.isFinite = true) :
    (-x).isFinite = true ∧ toRat (-x) = -toRat x ∧ isNegative (-x) = !isNegative x := by
  have hsign : sign x = if isNegative x then .negative else .positive := rfl
  rcases cases_of_isFinite hx with hzero | ⟨m, e, hm, hunpack, hcanonical, he⟩
  · have hneg : (-x).toModel.unpack = .zero (-sign x) := by
      apply unpack_zero_of_eq
      change Float.ofModel (pack x.toModel.unpack.neg) = _
      rw [hzero]
      rfl
    refine ⟨isFinite_of_unpack_zero hneg, ?_, ?_⟩
    · rw [toRat_of_unpack_zero hneg, toRat_of_unpack_zero hzero, neg_zero]
    · apply isNegative_eq_of_sign
      rw [← sign_of_unpack_zero hneg, hsign]
      cases isNegative x <;> rfl
  · have hneg : (-x).toModel.unpack = .finite (-sign x) m e hm := by
      change (pack x.toModel.unpack.neg).unpack = _
      rw [hunpack]
      exact unpack_pack_canonical hcanonical he _ hm
    refine ⟨isFinite_of_unpack hneg, ?_, ?_⟩
    · rw [toRat_of_unpack hneg, toRat_of_unpack hunpack, signed_neg]
    · apply isNegative_eq_of_sign
      rw [(parts_of_unpack_finite hneg).1, hsign]
      cases isNegative x <;> rfl

namespace Dyadic

theorem floor_ofNat (m k : Nat) : (mk m (.ofNat k)).floor = m * 2 ^ k := Nat.shiftLeft_eq m k

theorem floor_negSucc (m k : Nat) : (mk m (.negSucc k)).floor = m / 2 ^ (k + 1) :=
  Nat.shiftRight_eq_div_pow m (k + 1)

theorem toRat_ofNat (m k : Nat) : (mk m (.ofNat k)).toRat = (m * 2 ^ k : Nat) := by
  rw [toRat, Int.ofNat_eq_natCast, zpow_natCast]
  push_cast
  rfl

theorem toRat_negSucc (m k : Nat) : (mk m (.negSucc k)).toRat = (m : ℚ) / (2 ^ (k + 1) : Nat) := by
  rw [toRat, zpow_negSucc, div_eq_mul_inv]
  push_cast
  rfl

/-- The integer part of a magnitude. -/
theorem floor_toRat (d : Dyadic) : ⌊d.toRat⌋ = d.floor := by
  obtain ⟨m, e⟩ := d
  cases e with
  | ofNat k => rw [toRat_ofNat, floor_ofNat, Int.floor_natCast]
  | negSucc k => rw [toRat_negSucc, floor_negSucc, Rat.floor_natCast_div_natCast, Int.natCast_div]

theorem toRat_eq_floor_iff (d : Dyadic) : d.toRat = d.floor ↔ d.isIntegral = true := by
  obtain ⟨m, e⟩ := d
  cases e with
  | ofNat k => exact iff_of_true (by rw [toRat_ofNat, floor_ofNat]) rfl
  | negSucc k =>
    have hpos : ((2 ^ (k + 1) : Nat) : ℚ) ≠ 0 := by positivity
    have hsplit := Nat.div_add_mod m (2 ^ (k + 1))
    rw [toRat_negSucc, floor_negSucc, isIntegral, beq_iff_eq, div_eq_iff hpos]
    change _ ↔ m % 2 ^ (k + 1) = 0
    constructor
    · intro h
      have hwhole : m = m / 2 ^ (k + 1) * 2 ^ (k + 1) := by exact_mod_cast h
      rw [Nat.mul_comm] at hwhole
      omega
    · intro h
      rw [h, Nat.add_zero, Nat.mul_comm] at hsplit
      exact_mod_cast hsplit.symm

end Dyadic

theorem magnitude_bounds (hx : x.isFinite = true) : (magnitude x).mantissa < 2 ^ 53 := by
  rcases cases_of_isFinite hx with hzero | ⟨m, e, hm, hunpack, hcanonical, -⟩
  · rw [(magnitude_of_unpack_zero hzero).2]
    decide
  · rw [(parts_of_unpack_finite hunpack).2]
    exact hcanonical.most

/-- What is not an integer has at most 52 digits in front of the point. -/
theorem floor_lt_of_not_isIntegral (hx : x.isFinite = true)
    (h : (magnitude x).isIntegral = false) : (magnitude x).floor < 2 ^ 52 := by
  have hmost := magnitude_bounds hx
  generalize magnitude x = d at h hmost
  obtain ⟨m, e⟩ := d
  cases e with
  | ofNat k => cases h
  | negSucc k =>
    change m >>> (k + 1) < 2 ^ 52
    rw [Nat.shiftRight_eq_div_pow, Nat.div_lt_iff_lt_mul (Nat.two_pow_pos _)]
    calc m < 2 ^ 53 := hmost
      _ = 2 ^ 52 * 2 ^ 1 := rfl
      _ ≤ 2 ^ 52 * 2 ^ (k + 1) :=
        Nat.mul_le_mul_left _ (Nat.pow_le_pow_right (by decide) (by omega))

theorem toRat_eq_of_sign (x : Float) :
    toRat x = if isNegative x then -(magnitude x).toRat else (magnitude x).toRat := by
  unfold toRat sign
  cases isNegative x <;> rfl

/-- The largest integer that is not above a double. -/
theorem toRat_floor (hx : x.isFinite = true) :
    (floor x).isFinite = true ∧ toRat (floor x) = ⌊toRat x⌋ := by
  have hpart := (magnitude x).floor_toRat
  have hwhole := (magnitude x).toRat_eq_floor_iff
  rw [toRat_eq_of_sign x, floor]
  cases hintegral : (magnitude x).isIntegral with
  | true =>
    have heq := hwhole.2 hintegral
    rw [if_pos (by simp), toRat_eq_of_sign x]
    refine ⟨hx, ?_⟩
    rw [heq]
    cases isNegative x with
    | true =>
      rw [if_pos rfl, Int.floor_neg, Int.ceil_natCast]
      push_cast
      rfl
    | false =>
      rw [if_neg Bool.false_ne_true, Int.floor_natCast]
      push_cast
      rfl
  | false =>
    have hmost := floor_lt_of_not_isIntegral hx hintegral
    have hne : (magnitude x).toRat ≠ (magnitude x).floor := fun heq => by
      rw [hwhole.1 heq] at hintegral
      cases hintegral
    rw [if_neg (by simp [hx])]
    cases isNegative x with
    | true =>
      obtain ⟨hfinite, hvalue⟩ := toRat_ofNat (n := (magnitude x).floor + 1) (by omega)
      obtain ⟨hfinite', hvalue', -⟩ := toRat_neg hfinite
      have hceil : ⌈(magnitude x).toRat⌉ = (magnitude x).floor + 1 := by
        rw [Int.ceil_eq_iff]
        have hle := Int.floor_le (magnitude x).toRat
        have hlt := Int.lt_floor_add_one (magnitude x).toRat
        rw [hpart] at hle hlt
        push_cast at hle hlt ⊢
        rw [add_sub_cancel_right]
        exact ⟨lt_of_le_of_ne hle (Ne.symm hne), le_of_lt hlt⟩
      rw [if_pos rfl, if_pos rfl, hvalue', hvalue, Int.floor_neg, hceil]
      push_cast
      exact ⟨hfinite', rfl⟩
    | false =>
      obtain ⟨hfinite, hvalue⟩ := toRat_ofNat (n := (magnitude x).floor) (by omega)
      rw [if_neg Bool.false_ne_true, if_neg Bool.false_ne_true, hvalue, hpart]
      exact ⟨hfinite, rfl⟩

end ScriptMachine.Number
