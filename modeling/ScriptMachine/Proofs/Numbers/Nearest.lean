import ScriptMachine.Proofs.Numbers.Rounding

/-!
# Rounding to the nearest integer

Half is added and the integer part is taken. The sum is a double, and where it is rounded up to an
integer the result is too large by one.
-/

namespace ScriptMachine.Number

open Float.Model

/-! ## Order -/

variable {x y n : Float} {s : UnpackedFloat.Sign} {m k : Nat} {e j : Int}

/-- Canonical numbers are ordered by their exponents first. -/
theorem compare_canonical (h : Canonical m e) (h' : Canonical k j) :
    (compare e j).then (compare m k) = compare ((m : ℚ) * 2 ^ e) (k * 2 ^ j) := by
  have hlt {m k : Nat} {e j : Int} (h : Canonical m e) (h' : Canonical k j) (hej : e < j) :
      (m : ℚ) * 2 ^ e < k * 2 ^ j := by
    have hfull : 2 ^ 52 ≤ k := by
      by_contra hsmall
      have := h'.full (by omega)
      have := h.low
      omega
    calc (m : ℚ) * 2 ^ e < 2 ^ 53 * 2 ^ e := by
          gcongr
          exact_mod_cast h.most
      _ = 2 ^ 52 * 2 ^ (e + 1) := by
          rw [zpow_add_one₀ two_ne_zero]
          ring
      _ ≤ k * 2 ^ j := by
          gcongr
          · exact_mod_cast hfull
          · norm_num
          · omega
  rcases lt_trichotomy e j with hej | rfl | hje
  · rw [compare_lt_iff_lt.2 hej, compare_lt_iff_lt.2 (hlt h h' hej)]
    rfl
  · rw [compare_eq_iff_eq.2 rfl]
    have hpos : (0 : ℚ) < 2 ^ e := by positivity
    rcases lt_trichotomy m k with hmk | rfl | hkm
    · rw [compare_lt_iff_lt.2 hmk, compare_lt_iff_lt.2 ((mul_lt_mul_iff_left₀ hpos).2 (by exact_mod_cast hmk))]
      rfl
    · rw [compare_eq_iff_eq.2 rfl, compare_eq_iff_eq.2 rfl]
      rfl
    · rw [compare_gt_iff_gt.2 hkm, compare_gt_iff_gt.2 ((mul_lt_mul_iff_left₀ hpos).2 (by exact_mod_cast hkm))]
      rfl
  · rw [compare_gt_iff_gt.2 hje, compare_gt_iff_gt.2 (hlt h' h hje)]
    rfl

/-- Finite doubles are compared as numbers. -/
theorem compare_eq_toRat (hx : x.isFinite = true) (hy : y.isFinite = true) :
    x.toModel.unpack.compare y.toModel.unpack = some (compare (toRat x) (toRat y)) := by
  rcases cases_of_isFinite hx with hx₀ | ⟨m, e, hm, hx, hcx, -⟩
  · rcases cases_of_isFinite hy with hy₀ | ⟨k, j, hk, hy, -, -⟩
    · rw [toRat_of_unpack_zero hx₀, toRat_of_unpack_zero hy₀, hx₀, hy₀, compare_eq_iff_eq.2 rfl]
      rfl
    · have hpos : (0 : ℚ) < k * 2 ^ j := by positivity
      rw [toRat_of_unpack_zero hx₀, toRat_of_unpack hy, hx₀, hy]
      cases sign y with
      | positive => exact congrArg some (compare_lt_iff_lt.2 hpos).symm
      | negative => exact congrArg some (compare_gt_iff_gt.2 (neg_neg_of_pos hpos)).symm
  · have hpos : (0 : ℚ) < m * 2 ^ e := by positivity
    rcases cases_of_isFinite hy with hy₀ | ⟨k, j, hk, hy, hcy, -⟩
    · rw [toRat_of_unpack_zero hy₀, toRat_of_unpack hx, hx, hy₀]
      cases sign x with
      | positive => exact congrArg some (compare_gt_iff_gt.2 hpos).symm
      | negative => exact congrArg some (compare_lt_iff_lt.2 (neg_neg_of_pos hpos)).symm
    · have hpos' : (0 : ℚ) < k * 2 ^ j := by positivity
      have hneg := neg_neg_of_pos hpos
      have hneg' := neg_neg_of_pos hpos'
      rw [toRat_of_unpack hx, toRat_of_unpack hy, hx, hy]
      cases sign x <;> cases sign y
      case positive.positive => exact congrArg some (compare_canonical hcx hcy)
      case positive.negative =>
        exact congrArg some (compare_gt_iff_gt.2 (hneg'.trans hpos)).symm
      case negative.positive =>
        exact congrArg some (compare_lt_iff_lt.2 (hneg.trans hpos')).symm
      case negative.negative =>
        change some ((compare e j).then (compare m k)).swap =
          some (compare (-((m : ℚ) * 2 ^ e)) (-(k * 2 ^ j)))
        rw [compare_canonical hcx hcy]
        rcases lt_trichotomy ((m : ℚ) * 2 ^ e) (k * 2 ^ j) with hlt | heq | hgt
        · rw [compare_lt_iff_lt.2 hlt, compare_gt_iff_gt.2 (neg_lt_neg hlt)]
          rfl
        · rw [heq, compare_eq_iff_eq.2 rfl, compare_eq_iff_eq.2 rfl]
          rfl
        · rw [compare_gt_iff_gt.2 hgt, compare_lt_iff_lt.2 (neg_lt_neg hgt)]
          rfl

theorem lt_iff_toRat (hx : x.isFinite = true) (hy : y.isFinite = true) :
    x < y ↔ toRat x < toRat y := by
  have hlt : x < y ↔ x.toModel.unpack.lt y.toModel.unpack = true :=
    ⟨fun h => of_decide_eq_true h, fun h => decide_eq_true h⟩
  rw [hlt, UnpackedFloat.lt, compare_eq_toRat hx hy, beq_iff_eq, Option.some_inj, compare_lt_iff_lt]

theorem le_iff_toRat (hx : x.isFinite = true) (hy : y.isFinite = true) :
    x ≤ y ↔ toRat x ≤ toRat y := by
  have hle : x ≤ y ↔ x.toModel.unpack.le y.toModel.unpack = true :=
    ⟨fun h => of_decide_eq_true h, fun h => decide_eq_true h⟩
  rw [hle, UnpackedFloat.le, compare_eq_toRat hx hy, Option.any_some, Ordering.isLE_iff_ne_gt,
    compare_gt_iff_gt, not_lt]

theorem beq_zero_iff_toRat (hx : x.isFinite = true) : (x == 0) = true ↔ toRat x = 0 := by
  have hbeq : (x == 0) = (x.toModel.unpack.compare (0 : Float).toModel.unpack == some .eq) := rfl
  have hzero : (0 : Float).isFinite = true := isFinite_of_unpack_zero unpack_zero
  rw [hbeq, compare_eq_toRat hx hzero, toRat_of_unpack_zero unpack_zero, beq_iff_eq, Option.some_inj,
    compare_eq_iff_eq]

theorem toRat_of_magnitude (hs : isNegative x = false) (h : magnitude x = ⟨m, e⟩) :
    toRat x = m * 2 ^ e := by
  rw [toRat_eq_of_sign, hs, if_neg Bool.false_ne_true, h]
  rfl

/-! ## A half -/

theorem unpack_half :
    (0.5 : Float).toModel.unpack = .finite .positive (2 ^ 52) (-53) (by decide) := by
  have hexponent : biasedExponent 0.5 = 1022 := by decide +kernel
  have hfraction : fraction 0.5 = 0 := by decide +kernel
  have hsign : isNegative 0.5 = false := by decide +kernel
  rw [unpack_eq, if_neg (by rw [hexponent]; decide), if_neg (by rw [hexponent]; decide)]
  simp only [hexponent, hfraction, sign, hsign]
  rfl

theorem toRat_half : (0.5 : Float).isFinite = true ∧ toRat 0.5 = 1 / 2 := by
  refine ⟨isFinite_of_unpack unpack_half, ?_⟩
  rw [toRat_of_unpack unpack_half, signed]
  norm_num

/-! ## Half of the last digit and less -/

section

variable {q d r t c : Nat} {low : Int}

/-- What is below the last digit decides, and a tie goes to the even number. -/
theorem roundDiv_mul_add (hr : r < d) : roundDiv (q * d + r) d =
    if 2 * r < d then q else if d < 2 * r then q + 1 else q + q % 2 := by
  have hd : 0 < d := by omega
  have hquotient : (q * d + r) / d = q := by
    rw [Nat.mul_comm q d, Nat.mul_add_div hd, Nat.div_eq_of_lt hr, Nat.add_zero]
  have hrest : (q * d + r) % d = r := by
    rw [Nat.mul_comm q d, Nat.mul_add_mod, Nat.mod_eq_of_lt hr]
  unfold roundDiv
  dsimp only
  rw [hquotient, hrest]

/-- A number with 53 digits above the place `c` is rounded at that place. -/
theorem rounded_of_digits {l : Int} (hr : r < 2 ^ c) (hfull : 2 ^ 52 ≤ q) (hq : q < 2 ^ 53)
    (hlow : -1074 ≤ l + c) :
    roundingExponent (q * 2 ^ c + r) l = l + c ∧
      keptDigits (q * 2 ^ c + r) l = roundDiv (q * 2 ^ c + r) (2 ^ c) := by
  have hlog : (q * 2 ^ c + r).log2 = 52 + c := by
    refine (Nat.log2_eq_iff (by positivity)).2 ⟨?_, ?_⟩
    · rw [Nat.pow_add]
      exact Nat.le_add_right_of_le (Nat.mul_le_mul_right _ hfull)
    · calc q * 2 ^ c + r < (q + 1) * 2 ^ c := by rw [Nat.succ_mul]; omega
        _ ≤ 2 ^ 53 * 2 ^ c := Nat.mul_le_mul_right _ hq
        _ = 2 ^ (52 + c + 1) := by rw [← Nat.pow_add]; congr 1; omega
  have hexponent : roundingExponent (q * 2 ^ c + r) l = l + c := by
    rw [roundingExponent_eq, hlog]
    omega
  refine ⟨hexponent, ?_⟩
  rw [keptDigits_of_le (by omega), hexponent]
  congr 2
  omega

end

/-! ## Half added -/

section

variable {k : Nat} {hm : 0 < m}

/-- The digits of an integer with half added. -/
theorem sumDigits_half (s : UnpackedFloat.Sign) (m k : Nat) :
    sumDigits s .positive m (2 ^ 52) k (-53) = s.apply (m * (2 ^ k * 2 ^ 53) : Nat) + 2 ^ 52 := by
  have hplace : ((k : Int) - -53).toNat = k + 53 := by omega
  rw [sumDigits, min_eq_right (by omega), hplace, Nat.pow_add]
  rfl

/-- A positive integer of 53 digits and more with half added. -/
theorem rounded_add_half (hfull : 2 ^ 52 ≤ m) (hmost : m < 2 ^ 53) (hk : k ≤ 971) :
    Fits (m * (2 ^ k * 2 ^ 53) + 2 ^ 52) (-53) ∧
      rounded (m * (2 ^ k * 2 ^ 53) + 2 ^ 52) (-53) =
        (if k = 0 then m + m % 2 else m : Nat) * 2 ^ k := by
  have hpow : 2 ^ (k + 53) = 2 ^ k * 2 ^ 53 := Nat.pow_add ..
  have hpos : 1 ≤ 2 ^ k := Nat.one_le_two_pow
  obtain ⟨hexponent, hkept⟩ := rounded_of_digits (q := m) (r := 2 ^ 52) (c := k + 53) (l := -53)
    (by omega) hfull hmost (by omega)
  have hplace : (-53 + (k + 53 : Nat) : Int) = k := by omega
  rw [hpow, hplace] at hexponent
  have hdigits : roundDiv (m * 2 ^ (k + 53) + 2 ^ 52) (2 ^ (k + 53)) =
      if k = 0 then m + m % 2 else m := by
    rw [roundDiv_mul_add (by omega)]
    cases k with
    | zero => rfl
    | succ k =>
      have hlarge : 1 ≤ 2 ^ k := Nat.one_le_two_pow
      rw [if_pos (by rw [hpow, Nat.pow_succ]; omega), if_neg (Nat.succ_ne_zero k)]
  rw [hdigits, hpow] at hkept
  refine ⟨?_, by rw [rounded, hexponent, hkept, zpow_natCast]⟩
  unfold Fits
  rw [hexponent, hkept]
  split <;> omega

/-- A greater integer of 53 digits and more with half taken away. -/
theorem rounded_sub_half (hfull : 2 ^ 52 < m) (hmost : m < 2 ^ 53) (hk : k ≤ 971) :
    Fits (m * (2 ^ k * 2 ^ 53) - 2 ^ 52) (-53) ∧
      rounded (m * (2 ^ k * 2 ^ 53) - 2 ^ 52) (-53) =
        (if k = 0 then m - m % 2 else m : Nat) * 2 ^ k := by
  obtain ⟨q, rfl⟩ : ∃ q, m = q + 1 := ⟨m - 1, by omega⟩
  have hpow : 2 ^ (k + 53) = 2 ^ k * 2 ^ 53 := Nat.pow_add ..
  have hpos : 1 ≤ 2 ^ k := Nat.one_le_two_pow
  have hsplit : (q + 1) * (2 ^ k * 2 ^ 53) - 2 ^ 52 =
      q * 2 ^ (k + 53) + (2 ^ (k + 53) - 2 ^ 52) := by
    rw [Nat.succ_mul, hpow]
    omega
  obtain ⟨hexponent, hkept⟩ := rounded_of_digits (q := q) (r := 2 ^ (k + 53) - 2 ^ 52)
    (c := k + 53) (l := -53) (by omega) (by omega) (by omega) (by omega)
  have hplace : (-53 + (k + 53 : Nat) : Int) = k := by omega
  have hdigits : roundDiv (q * 2 ^ (k + 53) + (2 ^ (k + 53) - 2 ^ 52)) (2 ^ (k + 53)) =
      if k = 0 then q + 1 - (q + 1) % 2 else q + 1 := by
    rw [roundDiv_mul_add (by omega), if_neg (by omega)]
    cases k with
    | zero =>
      rw [if_neg (by decide), if_pos rfl]
      omega
    | succ k =>
      have hlarge : 1 ≤ 2 ^ k := Nat.one_le_two_pow
      rw [if_pos (by rw [hpow, Nat.pow_succ]; omega), if_neg (Nat.succ_ne_zero k)]
  rw [hplace] at hexponent
  rw [hdigits] at hkept
  rw [hsplit]
  refine ⟨?_, by rw [rounded, hexponent, hkept, zpow_natCast]⟩
  unfold Fits
  rw [hexponent, hkept]
  split <;> omega

/-- Below a power of two the digits are closer together. -/
theorem rounded_sub_half_of_pow (hk : k ≤ 971) :
    Fits (2 ^ 52 * (2 ^ k * 2 ^ 53) - 2 ^ 52) (-53) ∧
      rounded (2 ^ 52 * (2 ^ k * 2 ^ 53) - 2 ^ 52) (-53) =
        if k = 0 then 2 ^ 52 - 1 / 2 else 2 ^ 52 * 2 ^ k := by
  have hpow : 2 ^ (k + 52) = 2 ^ k * 2 ^ 52 := Nat.pow_add ..
  have hpos : 1 ≤ 2 ^ k := Nat.one_le_two_pow
  have hsplit : 2 ^ 52 * (2 ^ k * 2 ^ 53) - 2 ^ 52 =
      (2 ^ 53 - 1) * 2 ^ (k + 52) + (2 ^ (k + 52) - 2 ^ 52) := by
    rw [hpow]
    omega
  obtain ⟨hexponent, hkept⟩ := rounded_of_digits (q := 2 ^ 53 - 1) (r := 2 ^ (k + 52) - 2 ^ 52)
    (c := k + 52) (l := -53) (by omega) (by decide) (by decide) (by omega)
  have hplace : (-53 + (k + 52 : Nat) : Int) = k - 1 := by omega
  have hdigits : roundDiv ((2 ^ 53 - 1) * 2 ^ (k + 52) + (2 ^ (k + 52) - 2 ^ 52)) (2 ^ (k + 52)) =
      if k = 0 then 2 ^ 53 - 1 else 2 ^ 53 := by
    rw [roundDiv_mul_add (by omega)]
    cases k with
    | zero => rfl
    | succ k =>
      have hlarge : 1 ≤ 2 ^ k := Nat.one_le_two_pow
      rw [if_neg (by rw [hpow, Nat.pow_succ]; omega), if_neg (Nat.succ_ne_zero k)]
      split <;> rfl
  rw [hplace] at hexponent
  rw [hdigits] at hkept
  rw [hsplit]
  refine ⟨.inl (by rw [hexponent]; omega), ?_⟩
  rw [rounded, hexponent, hkept, zpow_sub_one₀ two_ne_zero, zpow_natCast]
  split
  · rename_i hzero
    rw [hzero]
    norm_num
  · push_cast
    ring

/-- The integer part of an integer with half added. Of neighbours one apart the sum is rounded to
the even one. -/
theorem floor_add_half_of_nonneg (hn : n.toModel.unpack = .finite s m k hm) (h : Canonical m k)
    (hk : k ≤ 971) : (n + 0.5).isFinite = true ∧
      (⌊toRat (n + 0.5)⌋ : ℚ) = toRat n + if k = 0 ∧ m % 2 = 1 then 1 else 0 := by
  have hfull : 2 ^ 52 ≤ m := by
    by_contra hsmall
    have := h.full (by omega)
    omega
  have hmost := h.most
  have hpos : 1 ≤ 2 ^ k := Nat.one_le_two_pow
  have hadd := toRat_add_of_ne_zero hn unpack_half (by omega) (by decide)
  rw [sumDigits_half, min_eq_right (by omega)] at hadd
  have hlarge : 2 ^ 53 ≤ m * (2 ^ k * 2 ^ 53) :=
    Nat.le_trans (Nat.le_mul_of_pos_left _ hpos) (Nat.le_mul_of_pos_left _ hm)
  rw [toRat_of_unpack hn, zpow_natCast]
  cases s with
  | positive =>
    have hdigits : UnpackedFloat.Sign.positive.apply (m * (2 ^ k * 2 ^ 53) : Nat) + 2 ^ 52 =
        (m * (2 ^ k * 2 ^ 53) + 2 ^ 52 : Nat) := by
      push_cast
      rfl
    rw [hdigits, Int.natAbs_natCast] at hadd
    obtain ⟨hfits, hrounded⟩ := rounded_add_half hfull hmost hk
    obtain ⟨r, hr, hfinite, -, hsum⟩ := hadd (by omega) hfits
    obtain rfl := hr.2 (by omega)
    refine ⟨hfinite, ?_⟩
    have hwhole : toRat (n + 0.5) = ((if k = 0 then m + m % 2 else m) * 2 ^ k : Nat) := by
      rw [hsum, hrounded]
      push_cast
      rfl
    rw [hwhole, Int.floor_natCast, signed]
    rcases Nat.eq_zero_or_pos k with rfl | hpos
    · rcases Nat.mod_two_eq_zero_or_one m with hm | hm <;> simp [hm]
    · simp [Nat.ne_of_gt hpos]
  | negative =>
    have hdigits : UnpackedFloat.Sign.negative.apply (m * (2 ^ k * 2 ^ 53) : Nat) + 2 ^ 52 =
        -(m * (2 ^ k * 2 ^ 53) - 2 ^ 52 : Nat) := by
      change -((_ : Nat) : Int) + _ = _
      omega
    rw [hdigits, Int.natAbs_neg, Int.natAbs_natCast] at hadd
    have hneg {r : UnpackedFloat.Sign}
        (hr : r = .positive ↔ 0 < -((m * (2 ^ k * 2 ^ 53) - 2 ^ 52 : Nat) : Int)) :
        r = .negative := by
      cases r with
      | positive =>
        have := hr.1 rfl
        omega
      | negative => rfl
    rcases Nat.lt_or_eq_of_le hfull with hmore | rfl
    · obtain ⟨hfits, hrounded⟩ := rounded_sub_half hmore hmost hk
      obtain ⟨r, hr, hfinite, -, hsum⟩ := hadd (by omega) hfits
      obtain rfl := hneg hr
      refine ⟨hfinite, ?_⟩
      have hwhole : toRat (n + 0.5) = -((if k = 0 then m - m % 2 else m) * 2 ^ k : Nat) := by
        rw [hsum, hrounded]
        push_cast
        rfl
      rw [hwhole, Int.floor_neg, Int.ceil_natCast, signed]
      rcases Nat.eq_zero_or_pos k with rfl | hpos
      · rcases Nat.mod_two_eq_zero_or_one m with hm | hm
        · simp [hm]
        · simp [hm, Nat.cast_sub (show 1 ≤ m by omega)]
          ring
      · simp [Nat.ne_of_gt hpos]
    · obtain ⟨hfits, hrounded⟩ := rounded_sub_half_of_pow hk
      obtain ⟨r, hr, hfinite, -, hsum⟩ := hadd (by omega) hfits
      obtain rfl := hneg hr
      refine ⟨hfinite, ?_⟩
      rw [hsum, hrounded, signed, signed]
      rcases Nat.eq_zero_or_pos k with rfl | hpos
      · norm_num
      · have hwhole : (-(2 ^ 52 * 2 ^ k) : ℚ) = ((-(2 ^ 52 * 2 ^ k) : Int) : ℚ) := by push_cast; rfl
        rw [if_neg (Nat.ne_of_gt hpos), hwhole, Int.floor_intCast, if_neg (by omega)]
        push_cast
        ring

/-- Between a number of 53 digits with half added and the next integer there is a number of 53
digits, but for the one that is as near to a half as can be. -/
theorem exists_below_next {m p : Nat} (hm : m < 2 ^ 53) (hnear : ¬ (p = 53 ∧ m = 2 ^ 53 - 1)) :
    ∃ k j : Nat, k < 2 ^ 53 ∧ j ≤ p + 1 ∧ (m + 2 ^ p) * 2 ^ j ≤ k * 2 ^ (p + 1) ∧
      k < ((m + 2 ^ p) / 2 ^ (p + 1) + 1) * 2 ^ j := by
  have hpos : 0 < 2 ^ p := Nat.two_pow_pos p
  have hdouble : 2 ^ (p + 1) = 2 * 2 ^ p := by rw [Nat.pow_succ, Nat.mul_comm]
  have hbelow : m + 2 ^ p < ((m + 2 ^ p) / 2 ^ (p + 1) + 1) * 2 ^ (p + 1) := by
    rw [Nat.mul_comm]
    exact Nat.lt_mul_div_succ _ (Nat.two_pow_pos _)
  have habove : (m + 2 ^ p) / 2 ^ (p + 1) * 2 ^ (p + 1) ≤ m + 2 ^ p := Nat.div_mul_le_self _ _
  rcases Nat.lt_or_ge p 53 with hshort | hlong
  · -- The sum needs at most one more digit than there are.
    by_cases hfits : ((m + 2 ^ p) / 2 ^ (p + 1) + 1) * 2 ^ (p + 1) ≤ 2 ^ 53
    · refine ⟨((m + 2 ^ p) / 2 ^ (p + 1) + 1) * 2 ^ (p + 1) - 1, p + 1, by omega, Nat.le_refl _, ?_,
        by omega⟩
      exact Nat.mul_le_mul_right _ (by omega)
    · have hwhole : 2 ^ (52 - p) * 2 ^ (p + 1) = 2 ^ 53 := by
        rw [← Nat.pow_add]
        congr 1
        omega
      have hleast : 2 ^ 53 ≤ (m + 2 ^ p) / 2 ^ (p + 1) * 2 ^ (p + 1) := by
        have : 2 ^ (52 - p) < (m + 2 ^ p) / 2 ^ (p + 1) + 1 := by
          apply Nat.lt_of_mul_lt_mul_right (a := 2 ^ (p + 1))
          omega
        rw [← hwhole]
        exact Nat.mul_le_mul_right _ (by omega)
      generalize (m + 2 ^ p) / 2 ^ (p + 1) = q at *
      rw [hdouble] at habove hleast ⊢
      cases p with
      | zero => exact ⟨2 ^ 52, 0, by decide, by omega, by omega, by omega⟩
      | succ p =>
        have hfour : q * 4 ≤ q * (2 * 2 ^ (p + 1)) := by
          have : 1 ≤ 2 ^ p := Nat.one_le_two_pow
          exact Nat.mul_le_mul_left q (by omega)
        have hmost : 2 ^ (p + 1) ≤ 2 ^ 52 := Nat.pow_le_pow_right (by decide) (by omega)
        refine ⟨2 * q + 1, 1, by omega, by omega, ?_, by omega⟩
        have hexpand : (2 * q + 1) * (2 * 2 ^ (p + 1)) =
            2 * (q * (2 * 2 ^ (p + 1))) + 2 * 2 ^ (p + 1) := by ring
        omega
  · refine ⟨2 ^ 53 - 1, 53, by decide, by omega, ?_,
      Nat.lt_of_lt_of_le (by decide) (Nat.le_mul_of_pos_left _ (Nat.succ_pos _))⟩
    rw [hdouble]
    clear hbelow habove
    rcases Nat.eq_or_lt_of_le hlong with heq | hlonger
    · have hwhole : 2 ^ p = 2 ^ 53 := by rw [heq]
      omega
    · have hleast : 2 ^ 54 ≤ 2 ^ p := Nat.pow_le_pow_right (by decide) hlonger
      omega

theorem fits_of_lt {t : Nat} {low : Int} (ht : 0 < t) (h : (t : ℚ) * 2 ^ low < 2 ^ 53) :
    Fits t low := by
  have hlt := lt_of_le_of_lt (leading_digit_bounds ht low).1 h
  rw [← zpow_natCast] at hlt
  have := (zpow_lt_zpow_iff_right₀ (by norm_num : (1 : ℚ) < 2)).1 hlt
  have heq := roundingExponent_eq t low
  exact .inl (by omega)

/-- What is as near to one as its last digit is rounded up to it. -/
theorem rounded_near_one : rounded (2 ^ 54 - 1) (-54) = 1 := by
  obtain ⟨hexponent, hkept⟩ := rounded_of_digits (q := 2 ^ 53 - 1) (r := 1) (c := 1) (l := -54)
    (by decide) (by decide) (by decide) (by decide)
  rw [roundDiv_mul_add (by decide)] at hkept
  rw [rounded, show 2 ^ 54 - 1 = (2 ^ 53 - 1) * 2 ^ 1 + 1 from rfl, hexponent, hkept]
  norm_num

/-- The integer part of a positive number that has digits after the point, with half added. -/
theorem floor_add_half_of_pos {p : Nat}
    (hn : n.toModel.unpack = .finite .positive m (-((p + 1 : Nat) : Int)) hm)
    (h : Canonical m (-((p + 1 : Nat) : Int))) :
    (n + 0.5).isFinite = true ∧ ⌊toRat (n + 0.5)⌋ =
      ⌊toRat n + 1 / 2⌋ + if p = 53 ∧ m = 2 ^ 53 - 1 then 1 else 0 := by
  have hlow := h.low
  have hmost := h.most
  have hvalue : toRat n + 1 / 2 = ((m + 2 ^ p : Nat) : ℚ) / ((2 ^ (p + 1) : Nat) : ℚ) := by
    rw [toRat_of_unpack hn, signed, zpow_neg, zpow_natCast]
    push_cast
    field_simp
    ring
  obtain ⟨t, ht⟩ : ∃ t : Nat,
      sumDigits .positive .positive m (2 ^ 52) (-((p + 1 : Nat) : Int)) (-53) = t := ⟨_, rfl⟩
  obtain ⟨low, hlow'⟩ : ∃ low, low = min (-((p + 1 : Nat) : Int)) (-53) := ⟨_, rfl⟩
  have hdigits : (t : ℚ) * 2 ^ low = toRat n + 1 / 2 := by
    rw [← toRat_half.2, ← value_of_sumDigits hn unpack_half, ht, hlow']
    rfl
  have hpos : 0 < t := by
    have : (0 : ℚ) < t * 2 ^ low := by
      rw [hdigits, hvalue]
      positivity
    exact Nat.pos_of_ne_zero fun hzero => by simp [hzero] at this
  have hpower : 1 ≤ 2 ^ p := Nat.one_le_two_pow
  have hbound : m + 2 ^ p < 2 ^ 53 * 2 ^ (p + 1) := by
    rw [pow_succ 2 p]
    generalize 2 ^ p = x at hpower ⊢
    omega
  have hfits : Fits t low := fits_of_lt hpos (by
    rw [hdigits, hvalue, div_lt_iff₀ (by positivity)]
    exact_mod_cast hbound)
  obtain ⟨r, hr, hfinite, -, hsum⟩ := toRat_add_of_ne_zero hn unpack_half hlow (by decide)
    (by rw [ht]; omega) (by rw [ht, ← hlow']; exact hfits)
  obtain rfl := hr.2 (by rw [ht]; omega)
  rw [ht, ← hlow', Int.natAbs_natCast, signed] at hsum
  refine ⟨hfinite, ?_⟩
  rw [hsum]
  by_cases hnear : p = 53 ∧ m = 2 ^ 53 - 1
  · obtain ⟨rfl, rfl⟩ := hnear
    obtain rfl : low = -54 := hlow'
    obtain rfl : t = 2 ^ 54 - 1 := (Int.ofNat_inj.1 ht).symm
    rw [if_pos ⟨rfl, rfl⟩, rounded_near_one, hvalue, Rat.floor_natCast_div_natCast]
    norm_num
  · obtain ⟨k, j, hk, hj, habove, hnext⟩ := exists_below_next hmost hnear
    rw [if_neg hnear, add_zero, hvalue, Rat.floor_natCast_div_natCast, Int.floor_eq_iff]
    have hwhole : (m + 2 ^ p) / 2 ^ (p + 1) * 2 ^ (p + 1) ≤ m + 2 ^ p := Nat.div_mul_le_self _ _
    constructor
    · have hle := le_rounded (k := (m + 2 ^ p) / 2 ^ (p + 1)) (e := low) (j := 0) hpos (by omega)
        (Nat.div_lt_of_lt_mul (by rwa [Nat.mul_comm])) (by decide) (by
          rw [hdigits, hvalue, le_div_iff₀ (by positivity), zpow_zero, mul_one]
          exact_mod_cast hwhole)
      rwa [zpow_zero, mul_one] at hle
    · have hle := rounded_le (k := k) (e := low) (j := -(j : Int)) hpos hk (by omega) (by
        rw [hdigits, hvalue, div_le_iff₀ (by positivity), zpow_neg, zpow_natCast]
        field_simp
        exact_mod_cast habove)
      refine lt_of_le_of_lt hle ?_
      rw [zpow_neg, zpow_natCast, ← div_eq_mul_inv, div_lt_iff₀ (by positivity)]
      exact_mod_cast hnext

/-- Half is added to a negative number that has digits after the point without rounding. -/
theorem toRat_add_half_of_neg {p : Nat}
    (hn : n.toModel.unpack = .finite .negative m (-((p + 1 : Nat) : Int)) hm)
    (h : Canonical m (-((p + 1 : Nat) : Int))) (hlt : toRat n < -1 / 2) :
    (n + 0.5).isFinite = true ∧ toRat (n + 0.5) = toRat n + 1 / 2 := by
  have hvalue : toRat n = -(m / 2 ^ (p + 1)) := by
    rw [toRat_of_unpack hn, signed, zpow_neg, zpow_natCast]
    rfl
  have hmore : 2 ^ p ≤ m := by
    rw [hvalue, neg_div, neg_lt_neg_iff, div_lt_div_iff₀ two_pos (by positivity), pow_succ, one_mul,
      mul_lt_mul_iff_left₀ two_pos] at hlt
    exact_mod_cast le_of_lt hlt
  have hdifference : |toRat n + toRat 0.5| =
      ((m - 2 ^ p : Nat) : ℚ) * 2 ^ (-((p + 1 : Nat) : Int)) := by
    have hneg : toRat n + 1 / 2 ≤ 0 := by linarith
    rw [toRat_half.2, abs_of_nonpos hneg, hvalue, zpow_neg, zpow_natCast, Nat.cast_sub hmore]
    push_cast
    field_simp
    ring
  rw [← toRat_half.2]
  exact toRat_add_of_exact (isFinite_of_unpack hn) toRat_half.1 hdifference
    (Nat.lt_of_le_of_lt (Nat.sub_le _ _) h.most) h.low (by omega)

end

/-! ## Where the sum is rounded up to an integer -/

/-- The double next to a half, and the odd integers whose neighbours are one apart. -/
def RoundsOver (n : Float) : Prop :=
  toRat n = 1 / 2 - 1 / 2 ^ 54 ∨ 2 ^ 52 < |toRat n| ∧ |toRat n| < 2 ^ 53 ∧ Odd ⌊toRat n⌋

instance (n : Float) : Decidable (RoundsOver n) :=
  inferInstanceAs (Decidable (_ ∨ _))

section

variable {hm : 0 < m}

theorem abs_toRat (hn : n.toModel.unpack = .finite s m e hm) : |toRat n| = m * 2 ^ e := by
  have hpos : (0 : ℚ) < m * 2 ^ e := by positivity
  rw [toRat_of_unpack hn]
  cases s with
  | positive => exact abs_of_pos hpos
  | negative => exact (abs_neg _).trans (abs_of_pos hpos)

theorem roundsOver_iff_of_nonneg {k : Nat} (hn : n.toModel.unpack = .finite s m k hm)
    (h : Canonical m k) : RoundsOver n ↔ k = 0 ∧ m % 2 = 1 := by
  have hfull : 2 ^ 52 ≤ m := by
    by_contra hsmall
    have := h.full (by omega)
    omega
  have hmost := h.most
  have hvalue : |toRat n| = (m * 2 ^ k : Nat) := by
    rw [abs_toRat hn, zpow_natCast]
    push_cast
    rfl
  have hodd : k = 0 → (Odd ⌊toRat n⌋ ↔ m % 2 = 1) := by
    rintro rfl
    rw [toRat_of_unpack hn, Nat.cast_zero, zpow_zero, mul_one, ← Nat.odd_iff]
    cases s with
    | positive => rw [signed, Int.floor_natCast, Int.odd_coe_nat]
    | negative => rw [signed, Int.floor_neg, Int.ceil_natCast, odd_neg, Int.odd_coe_nat]
  have hpos : 1 ≤ 2 ^ k := Nat.one_le_two_pow
  constructor
  · rintro (hhalf | ⟨-, hless, hfloor⟩)
    · rw [hhalf, abs_of_pos (by norm_num)] at hvalue
      have hone : (1 : ℚ) ≤ (m * 2 ^ k : Nat) := by exact_mod_cast Nat.mul_pos hm hpos
      rw [← hvalue] at hone
      norm_num at hone
    · rw [hvalue] at hless
      have hless : m * 2 ^ k < 2 ^ 53 := by exact_mod_cast hless
      have hzero : k = 0 := by
        rcases Nat.eq_zero_or_pos k with rfl | hk
        · rfl
        · have : m * 2 ^ 1 ≤ m * 2 ^ k :=
            Nat.mul_le_mul_left m (Nat.pow_le_pow_right (by decide) hk)
          omega
      exact ⟨hzero, (hodd hzero).1 hfloor⟩
  · rintro ⟨hzero, hm⟩
    rw [RoundsOver, hvalue, hodd hzero, hzero, Nat.pow_zero, Nat.mul_one]
    exact .inr ⟨by exact_mod_cast (by omega : 2 ^ 52 < m), by exact_mod_cast hmost, hm⟩

theorem roundsOver_iff_of_neg {p : Nat}
    (hn : n.toModel.unpack = .finite s m (-((p + 1 : Nat) : Int)) hm)
    (h : Canonical m (-((p + 1 : Nat) : Int))) :
    RoundsOver n ↔ s = .positive ∧ p = 53 ∧ m = 2 ^ 53 - 1 := by
  have hnear : (1 / 2 - 1 / 2 ^ 54 : ℚ) = (2 ^ 53 - 1 : Nat) * 2 ^ (-54 : Int) := by norm_num
  have hmost := h.most
  constructor
  · rintro (hhalf | ⟨hmore, -, -⟩)
    · have hs : s = .positive := by
        cases s with
        | positive => rfl
        | negative =>
          have hpos : (0 : ℚ) < m * 2 ^ (-((p + 1 : Nat) : Int)) := by positivity
          have hpos' : (0 : ℚ) < 1 / 2 - 1 / 2 ^ 54 := by norm_num
          rw [toRat_of_unpack hn, signed] at hhalf
          linarith
      subst hs
      rw [toRat_of_unpack hn, signed, hnear] at hhalf
      have hdigit := leading_digit_eq hm (by decide) hhalf
      have hlog : (2 ^ 53 - 1).log2 = 52 := by decide +kernel
      have hlog' : m.log2 < 53 := (Nat.log2_lt (Nat.ne_of_gt hm)).2 hmost
      have hfull : 2 ^ 52 ≤ m := by
        by_contra hsmall
        have := h.full (by omega)
        omega
      have hleast : 52 ≤ m.log2 := le_log2 hfull
      obtain rfl : p = 53 := by omega
      exact ⟨rfl, rfl, by exact_mod_cast mul_right_cancel₀ (by positivity) hhalf⟩
    · have hpower : 2 ^ 1 ≤ 2 ^ (p + 1) := Nat.pow_le_pow_right (by decide) (by omega)
      rw [abs_toRat hn, zpow_neg, zpow_natCast, ← div_eq_mul_inv, lt_div_iff₀ (by positivity)] at hmore
      have hmore : 2 ^ 52 * 2 ^ (p + 1) < m := by exact_mod_cast hmore
      omega
  · rintro ⟨rfl, rfl, rfl⟩
    left
    rw [toRat_of_unpack hn, hnear]
    rfl

/-- The integer part of a double with half added. -/
theorem floor_add_half (hn : n.isFinite = true) (h : 0 < toRat n ∨ toRat n < -1 / 2) :
    (n + 0.5).isFinite = true ∧
      ⌊toRat (n + 0.5)⌋ = ⌊toRat n + 1 / 2⌋ + if RoundsOver n then 1 else 0 := by
  rcases cases_of_isFinite hn with hzero | ⟨m, e, hm, hunpack, hcanonical, he⟩
  · rw [toRat_of_unpack_zero hzero] at h
    norm_num at h
  rcases Int.lt_or_le e 0 with hneg | hnonneg
  · obtain ⟨p, rfl⟩ : ∃ p : Nat, e = -((p + 1 : Nat) : Int) := ⟨(-e - 1).toNat, by omega⟩
    have hover := roundsOver_iff_of_neg hunpack hcanonical
    generalize sign n = s at hunpack hover
    cases s with
    | positive =>
      rw [if_congr (hover.trans (and_iff_right rfl)) rfl rfl]
      exact floor_add_half_of_pos hunpack hcanonical
    | negative =>
      have hlt : toRat n < -1 / 2 := h.resolve_left (not_lt.2 (by
        rw [toRat_of_unpack hunpack, signed, neg_nonpos]
        positivity))
      obtain ⟨hfinite, hsum⟩ := toRat_add_half_of_neg hunpack hcanonical hlt
      rw [if_neg fun h => UnpackedFloat.Sign.noConfusion (hover.1 h).1, hsum, add_zero]
      exact ⟨hfinite, rfl⟩
  · obtain ⟨k, rfl⟩ := Int.eq_ofNat_of_zero_le hnonneg
    obtain ⟨hfinite, hsum⟩ := floor_add_half_of_nonneg hunpack hcanonical (by omega)
    refine ⟨hfinite, ?_⟩
    have hwhole : ∃ z : Int, toRat n = z := by
      rw [toRat_of_unpack hunpack]
      refine ⟨(sign n).apply (m * 2 ^ k : Nat), ?_⟩
      rw [← mul_one (((sign n).apply _ : Int) : ℚ), ← signed_eq_apply, mul_one, zpow_natCast]
      push_cast
      rfl
    obtain ⟨z, hz⟩ := hwhole
    have hfloor : ⌊toRat n + 1 / 2⌋ = z := by
      rw [hz, Int.floor_intCast_add]
      norm_num
    rw [hfloor, if_congr (roundsOver_iff_of_nonneg hunpack hcanonical) rfl rfl]
    rw [hz] at hsum
    exact_mod_cast hsum

theorem isNegative_floor (h : isNegative n = false) : isNegative (floor n) = false := by
  unfold floor
  split
  · exact h
  · rw [if_neg (by rw [h]; decide)]
    exact isNegative_ofNat _

end

end ScriptMachine.Number

namespace ScriptMachine.Builtin.Mathematics

open Number

/-- A finite number is rounded to the nearest integer, a half toward the larger one, but for the
numbers whose sum with a half is rounded up to an integer: those become larger by one. -/
theorem round_eq_floor_add_half (n : Float) (hn : n.isFinite = true) :
    (round n).isFinite = true ∧
      toRat (round n) = ⌊toRat n + 1 / 2⌋ + (if RoundsOver n then 1 else 0 : Int) ∧
      (toRat (round n) = 0 → isNegative (round n) = isNegative n) := by
  have hlower : (-0.5 : Float) ≤ n ↔ -1 / 2 ≤ toRat n := by
    obtain ⟨hfinite, hvalue, -⟩ := toRat_neg toRat_half.1
    rw [le_iff_toRat hfinite hn, hvalue, toRat_half.2]
    norm_num
  have hupper : n < 0 ↔ toRat n < 0 := by
    rw [lt_iff_toRat hn (isFinite_of_unpack_zero unpack_zero), toRat_of_unpack_zero unpack_zero]
  have hzero := beq_zero_iff_toRat hn
  unfold round
  split
  · -- Zero is its own result.
    rename_i h
    have hn₀ : toRat n = 0 := by
      rw [hn] at h
      exact hzero.1 (by simpa using h)
    have hover : ¬ RoundsOver n := by
      rw [RoundsOver, hn₀]
      norm_num
    rw [if_neg hover, hn₀]
    exact ⟨hn, by norm_num, fun _ => rfl⟩
  rename_i hne
  split
  · rename_i h
    rw [Bool.and_eq_true, decide_eq_true_iff, decide_eq_true_iff, ge_iff_le, hlower, hupper] at h
    obtain ⟨hleast, hneg⟩ := h
    have hunpack : negZero.toModel.unpack = .zero .negative := unpack_zero_of_eq rfl
    have hover : ¬ RoundsOver n := by
      rintro (hhalf | ⟨hmore, -, -⟩)
      · rw [hhalf] at hneg
        norm_num at hneg
      · rw [abs_of_neg hneg] at hmore
        linarith
    have hfloor : ⌊toRat n + 1 / 2⌋ = 0 := Int.floor_eq_zero_iff.2 ⟨by linarith, by linarith⟩
    rw [if_neg hover, hfloor, toRat_of_unpack_zero hunpack]
    exact ⟨isFinite_of_unpack_zero hunpack, by norm_num,
      fun _ => ((isNegative_iff_toRat_neg hn (ne_of_lt hneg)).2 hneg).symm⟩
  · rename_i h
    rw [Bool.and_eq_true, decide_eq_true_iff, decide_eq_true_iff, ge_iff_le, hlower, hupper] at h
    have hne₀ : toRat n ≠ 0 := fun heq => hne (by rw [hzero.2 heq, Bool.or_true])
    have hapart : 0 < toRat n ∨ toRat n < -1 / 2 := by
      by_contra hnot
      rw [not_or, not_lt, not_lt] at hnot
      exact h ⟨hnot.2, lt_of_le_of_ne hnot.1 hne₀⟩
    obtain ⟨hfinite, hsum⟩ := floor_add_half hn hapart
    obtain ⟨hfinite', hfloor⟩ := toRat_floor hfinite
    refine ⟨hfinite', by rw [hfloor, hsum]; push_cast; rfl, fun hresult => ?_⟩
    rw [hfloor, hsum, Int.cast_eq_zero] at hresult
    rcases hapart with hpos | hless
    · have hsign : isNegative n = false := by
        rw [← Bool.not_eq_true, isNegative_iff_toRat_neg hn hne₀]
        exact not_lt.2 (le_of_lt hpos)
      rw [hsign]
      exact isNegative_floor (isNegative_pack ((nonNeg_unpack hsign).add (nonNeg_unpack (by decide +kernel))))
    · -- The result is negative, also where it is too large.
      exfalso
      have hbelow : ⌊toRat n + 1 / 2⌋ < 0 := Int.floor_lt.2 (by norm_num; linarith)
      split at hresult
      · rename_i hover
        have hmore : 2 ^ 52 < |toRat n| := by
          rcases hover with hhalf | ⟨hmore, -⟩
          · rw [hhalf] at hless
            norm_num at hless
          · exact hmore
        rw [abs_of_neg (by linarith)] at hmore
        have : ⌊toRat n + 1 / 2⌋ < -1 := Int.floor_lt.2 (by norm_num; linarith)
        omega
      · omega

/-- Minus two and a half is rounded to minus two. -/
theorem round_minus_two_and_a_half : (-2.5 : Float).isFinite = true ∧ toRat (round (-2.5)) = -2 := by
  have hfinite : (-2.5 : Float).isFinite = true := by decide +kernel
  have hvalue : toRat (-2.5) = -5 / 2 := by
    have hmagnitude : magnitude (-2.5) = ⟨5 * 2 ^ 50, -51⟩ := by decide +kernel
    rw [toRat_eq_of_sign, if_pos (by decide +kernel), hmagnitude, Number.Dyadic.toRat]
    norm_num
  have hover : ¬ RoundsOver (-2.5) := by
    rw [RoundsOver, hvalue]
    norm_num [abs_of_neg]
  refine ⟨hfinite, ?_⟩
  rw [(round_eq_floor_add_half (-2.5) hfinite).2.1, if_neg hover, hvalue]
  norm_num

/-- A number below a half is rounded to one, and an odd integer to the next one. -/
theorem round_above_nearest :
    toRat 0.49999999999999994 = 1 / 2 - 1 / 2 ^ 54 ∧ toRat (round 0.49999999999999994) = 1 ∧
      toRat 4503599627370497 = 4503599627370497 ∧
      toRat (round 4503599627370497) = 4503599627370498 := by
  refine ⟨?_, ?_, ?_, ?_⟩
  · exact (toRat_of_magnitude (m := 2 ^ 53 - 1) (e := -54) (by decide +kernel)
      (by decide +kernel)).trans (by norm_num)
  · exact (toRat_of_magnitude (m := 2 ^ 52) (e := -52) (by decide +kernel)
      (by decide +kernel)).trans (by norm_num)
  · exact (toRat_of_magnitude (m := 4503599627370497) (e := 0) (by decide +kernel)
      (by decide +kernel)).trans (by norm_num)
  · exact (toRat_of_magnitude (m := 4503599627370498) (e := 0) (by decide +kernel)
      (by decide +kernel)).trans (by norm_num)

end ScriptMachine.Builtin.Mathematics
