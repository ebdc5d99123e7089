import ScriptMachine.Proofs.Strings.Methods

/-!
# Words

What is put together from at most 53 digits and an exponent is exact, so the remainder of an
integer by `2 ^ 32` is, however large the integer; moving a negative remainder up by `2 ^ 32` is
exact too. Main statement: `exact_words`, the residues of doubles and the operators on them.
-/

namespace ScriptMachine.Number

open Float.Model

variable {x y : Float} {s s' : UnpackedFloat.Sign} {m n k : Nat} {e e' j : Int} {hm : 0 < m}
  {hn : 0 < n}

/-! ## Products -/

/-- Rounding moves digits up only when they do not fill the mantissa. -/
theorem round_of_le (s : UnpackedFloat.Sign) (h : e ≤ roundingExponent m e) :
    UnpackedFloat.roundWithAccuracy Format.binary64 s m e .exact =
      UnpackedFloat.round Format.binary64 s m e := by
  have hshift : (e - roundingExponent m e).toNat = 0 := by omega
  change _ = UnpackedFloat.roundWithAccuracy Format.binary64 s
    (m <<< (e - roundingExponent m e).toNat)
    (e - ((e - roundingExponent m e).toNat : Int)) .exact
  rw [hshift, Nat.shiftLeft_zero, Int.natCast_zero, Int.sub_zero]

/-- A product of positive doubles that needs no more than 53 digits is exact. -/
theorem toRat_mul_of_exact (hx : x.toModel.unpack = .finite .positive m e hm)
    (hy : y.toModel.unpack = .finite .positive n e' hn) (hfull : 2 ^ 52 ≤ m * n)
    (hlow : -1074 ≤ e + e') (hk : k < 2 ^ 53) (hj : -1074 ≤ j) (hj' : j ≤ 971)
    (h : (m * n : ℚ) * 2 ^ (e + e') = k * 2 ^ j) :
    (x * y).isFinite = true ∧ toRat (x * y) = k * 2 ^ j := by
  have hpos : 0 < m * n := Nat.mul_pos hm hn
  have hexact : ((m * n : Nat) : ℚ) * 2 ^ (e + e') = k * 2 ^ j := by exact_mod_cast h
  have hk' : 0 < k := by
    have : (0 : ℚ) < k * 2 ^ j := by
      rw [← hexact]
      positivity
    rcases Nat.eq_zero_or_pos k with rfl | hk
    · simp at this
    · exact hk
  have hlog : 52 ≤ (m * n).log2 := le_log2 hfull
  have heq := roundingExponent_eq (m * n) (e + e')
  have hprod : x * y = ⟨pack (UnpackedFloat.round Format.binary64 .positive (m * n) (e + e'))⟩ := by
    rw [← round_of_le .positive (by omega)]
    change Float.ofModel (pack (UnpackedFloat.mul _ x.toModel.unpack y.toModel.unpack)) = _
    rw [hx, hy]
    rfl
  obtain ⟨hfinite, -, hvalue⟩ := toRat_round .positive hpos hlow
    (fits_of_le hpos hk' hk hj (by omega) (le_of_eq hexact)) hprod
  exact ⟨hfinite, by rw [hvalue, signed, rounded_of_exact hpos hlow hk hj hexact, hexact]⟩

/-- A natural number of at most 53 digits, or the one behind them, has a full mantissa. -/
theorem unpack_floatOfNat (hpos : 0 < n) (hmost : n ≤ 2 ^ 53) :
    ∃ m e, ∃ hm : 0 < m, (Float.ofNat n).toModel.unpack = .finite .positive m e hm ∧
      2 ^ 52 ≤ m ∧ -52 ≤ e ∧ (m : ℚ) * 2 ^ e = n := by
  rcases Nat.lt_or_eq_of_le hmost with hn | rfl
  · obtain ⟨hm, hunpack⟩ := unpack_ofNat hpos hn
    refine ⟨_, _, hm, hunpack, (normal_ofNat hpos hn).least, by omega, ?_⟩
    rw [zpow_neg, zpow_natCast]
    push_cast
    field_simp
  · refine ⟨2 ^ 52, 1, by decide, ?_, le_refl _, by decide, by norm_num⟩
    rfl

theorem value_of_unpack_twoPow (hlow : -1022 ≤ e) (hhigh : e ≤ 1023) :
    (twoPow e).toModel.unpack = .finite .positive (2 ^ 52) (e - 52) (by decide) := by
  unfold twoPow
  rw [if_neg (by omega)]
  refine unpack_ofBits ⟨by decide, by decide, by omega, fun hsmall => absurd hsmall (by decide)⟩
    (by omega) (by decide) ?_
  have hexp : (e + 1023).toNat.toUInt64.toNat = (e + 1023).toNat := Nat.mod_eq_of_lt (by omega)
  rw [rank, if_neg (by decide), UInt64.toNat_shiftLeft, hexp, Nat.shiftLeft_eq]
  change (e + 1023).toNat * 2 ^ 52 % 2 ^ 64 = _
  omega

/-- What is put together from at most 53 digits and an exponent that is not too small is exact. -/
theorem toRat_ofDyadic (hmost : m ≤ 2 ^ 53) (hlow : -960 ≤ e) (hhigh : e ≤ 971)
    (hlast : e = 971 → m < 2 ^ 53) :
    (ofDyadic ⟨m, e⟩).isFinite = true ∧ toRat (ofDyadic ⟨m, e⟩) = m * 2 ^ e := by
  have hpower := value_of_unpack_twoPow (e := e) (by omega) (by omega)
  rcases Nat.eq_zero_or_pos m with rfl | hpos
  · have hzero : (ofDyadic ⟨0, e⟩).toModel.unpack = .zero .positive := by
      apply unpack_zero_of_eq
      change Float.ofModel (pack (UnpackedFloat.mul _ (ofNat 0).toModel.unpack
        (twoPow e).toModel.unpack)) = _
      rw [unpack_ofNat_zero, hpower]
      rfl
    rw [toRat_of_unpack_zero hzero, Nat.cast_zero, zero_mul]
    exact ⟨isFinite_of_unpack_zero hzero, rfl⟩
  obtain ⟨n, j, hn, hunpack, hfull, hj, hvalue⟩ := unpack_floatOfNat hpos hmost
  have hpart : 2 ^ 52 ≤ n * 2 ^ 52 := Nat.le_mul_of_pos_left _ hn
  have hproduct : ((n : ℚ) * (2 ^ 52 : Nat)) * 2 ^ (j + (e - 52)) = m * 2 ^ e := by
    rw [zpow_add₀ two_ne_zero, zpow_sub₀ two_ne_zero, ← hvalue]
    push_cast
    field_simp
  rcases Nat.lt_or_eq_of_le hmost with hlt | rfl
  · exact toRat_mul_of_exact hunpack hpower hpart (by omega) hlt (by omega) (by omega) hproduct
  · have hcarry : ((2 ^ 53 : Nat) : ℚ) * 2 ^ e = (2 ^ 52 : Nat) * 2 ^ (e + 1) := by
      rw [zpow_add_one₀ two_ne_zero]
      push_cast
      ring
    rw [hcarry] at hproduct ⊢
    exact toRat_mul_of_exact hunpack hpower hpart (by omega) (by decide) (by omega) (by omega)
      hproduct

/-- Of a number of more than 53 digits the nearest double keeps the first 53. -/
theorem toRat_ofNat_of_log2 (hm : m ≠ 0) (hlog : m.log2 = k + 53)
    (hfinite : (ofNat m).isFinite = true) :
    ∃ n : Nat, 2 ^ 52 ≤ n ∧ toRat (ofNat m) = n * 2 ^ ((k + 1 : Nat) : Int) := by
  obtain ⟨hlow, hhigh⟩ := (Nat.log2_eq_iff hm).1 hlog
  have hlarge : ¬ m < Nat.pow 2 53 := by
    have hpower : 2 ^ 53 ≤ 2 ^ (k + 53) := Nat.pow_le_pow_right (by decide) (Nat.le_add_left 53 k)
    exact Nat.not_lt.2 (hpower.trans hlow)
  have hplace : lastBinaryPlace m 1 = .ofNat (k + 1) := by
    have hreaches : reaches m 1 (.ofNat (k + 53)) = true := by
      apply decide_eq_true
      rw [Nat.shiftLeft_eq, Nat.one_mul]
      exact hlow
    have hguess : ((k + 53 : Nat) : Int) - (Nat.log2 1 : Int) - 53 = k := by
      have : Nat.log2 1 = 0 := by decide
      omega
    unfold lastBinaryPlace
    dsimp only
    rw [hlog, hguess, show (k : Int) + 53 = .ofNat (k + 53) from rfl, hreaches, if_pos rfl]
    exact max_eq_left (by omega)
  have hsplit (j : Nat) : 2 ^ j * (1 <<< (k + 1)) = 2 ^ (k + (j + 1)) := by
    rw [Nat.shiftLeft_eq, Nat.one_mul, ← Nat.pow_add]
    congr 1
    omega
  have hden : 0 < 1 <<< (k + 1) := by
    rw [Nat.shiftLeft_eq, Nat.one_mul]
    exact Nat.two_pow_pos _
  have hleast : 2 ^ 52 ≤ m / (1 <<< (k + 1)) :=
    (Nat.le_div_iff_mul_le hden).2 ((hsplit 52).le.trans hlow)
  have hmost : m / (1 <<< (k + 1)) < 2 ^ 53 :=
    (Nat.div_lt_iff_lt_mul hden).2 (hhigh.trans_le (hsplit 53).ge)
  obtain ⟨hkept, hkept'⟩ := roundDiv_bounds m (1 <<< (k + 1))
  rw [ofNat, if_neg hlarge, nearest, if_neg hm, hplace] at hfinite ⊢
  dsimp only at hfinite ⊢
  split at hfinite
  · exact absurd hfinite (by decide)
  · rename_i hbounded
    rw [if_neg hbounded]
    simp only [Bool.or_eq_true, decide_eq_true_eq, Bool.and_eq_true, beq_iff_eq, not_or,
      not_and] at hbounded
    obtain ⟨-, hexact⟩ := toRat_ofDyadic (hkept'.trans hmost) (e := ((k + 1 : Nat) : Int))
      (by omega) (not_lt.1 hbounded.1) fun hlast => Nat.lt_of_not_le (hbounded.2 hlast)
    exact ⟨_, hleast.trans hkept, hexact⟩

/-- Only a number of at most 53 digits has a double that is read as one. -/
theorem lt_of_toNat?_ofNat (hn : n < 2 ^ 53) (h : toNat? (ofNat m) = some n) : m < 2 ^ 53 := by
  by_contra hlarge
  have hsame : ofNat m = ofNat n :=
    eq_of_float_beq ((toNat?_eq_some_iff hn).1 h)
      ((isNegative_ofNat m).trans (isNegative_ofNat n).symm)
  obtain ⟨hfinite, hvalue⟩ := toRat_ofNat hn
  have hm : m ≠ 0 := by omega
  obtain ⟨k, hk⟩ : ∃ k, m.log2 = k + 53 :=
    Nat.exists_eq_add_of_le' ((Nat.le_log2 hm).2 (Nat.le_of_not_lt hlarge))
  obtain ⟨d, hd, hdigits⟩ := toRat_ofNat_of_log2 hm hk (hsame ▸ hfinite)
  rw [hsame, hvalue, zpow_natCast, pow_succ] at hdigits
  have hdigits : n = d * (2 ^ k * 2) := by exact_mod_cast hdigits
  have hpower : 1 ≤ 2 ^ k := Nat.one_le_two_pow
  have : d * (1 * 2) ≤ n :=
    hdigits ▸ Nat.mul_le_mul_left d (Nat.mul_le_mul_right 2 hpower)
  omega

/-! ## Remainders -/

theorem isNaN_isInf_of_isFinite (hx : x.isFinite = true) : x.isNaN = false ∧ x.isInf = false := by
  change x.toModel.unpack.isNaN = false ∧ x.toModel.unpack.isInf = false
  rcases cases_of_isFinite hx with hzero | ⟨m, e, hm, hunpack, -⟩
  · rw [hzero]
    exact ⟨rfl, rfl⟩
  · rw [hunpack]
    exact ⟨rfl, rfl⟩

/-- The modulus is an ordinary positive double. -/
theorem modulus_ordinary : (4294967296 : Float).isFinite = true ∧
    (4294967296 : Float).isNaN = false ∧ ((4294967296 : Float) == 0) = false ∧
    (4294967296 : Float).isInf = false ∧ isNegative 4294967296 = false ∧
    Float.abs 4294967296 = 4294967296 ∧ magnitude 4294967296 = ⟨2 ^ 52, -20⟩ := by
  decide +kernel

theorem magnitude_modulus : magnitude 4294967296 = ⟨2 ^ 52, -20⟩ :=
  modulus_ordinary.2.2.2.2.2.2

theorem toRat_modulus : (4294967296 : Float).isFinite = true ∧ toRat 4294967296 = 4294967296 := by
  refine ⟨modulus_ordinary.1, ?_⟩
  rw [toRat_of_magnitude modulus_ordinary.2.2.2.2.1 magnitude_modulus]
  norm_num

/-- The digits of an integer when they are moved to an exponent that is not above zero. -/
theorem digits_of_integer {t : Nat} (h : (m : ℚ) * 2 ^ e = t) (hj : j ≤ e) (hj' : j ≤ 0) :
    m * 2 ^ (e - j).toNat = t * 2 ^ (-j).toNat := by
  have hunit := two_zpow_split hj'
  rw [zpow_zero, zero_sub] at hunit
  have hscaled : (m : ℚ) * 2 ^ (e - j).toNat = t * 2 ^ (-j).toNat := by
    calc (m : ℚ) * 2 ^ (e - j).toNat
        = m * (2 ^ (e - j).toNat * 2 ^ j) * 2 ^ (-j).toNat := by
          linear_combination (m : ℚ) * 2 ^ (e - j).toNat * hunit
      _ = t * 2 ^ (-j).toNat := by rw [← two_zpow_split hj, h]
  exact_mod_cast hscaled

/-- The remainder of an integer by the modulus has the sign of the integer. -/
theorem toRat_remainder (hx : x.isFinite = true) {t : Int} (h : toRat x = t) :
    (remainder x 4294967296).isFinite = true ∧
      toRat (remainder x 4294967296) =
        (if t < 0 then -(-t % 4294967296) else t % 4294967296 : Int) := by
  obtain ⟨hnan, hinf⟩ := isNaN_isInf_of_isFinite hx
  obtain ⟨-, hmodulusNaN, hmodulusZero, hmodulusInf, -⟩ := modulus_ordinary
  unfold remainder
  rw [hnan, hinf, hmodulusNaN, hmodulusZero, hmodulusInf, if_neg (by decide), Bool.false_or]
  by_cases hzero : t = 0
  · rw [if_pos ((beq_zero_iff_toRat hx).2 (by rw [h, hzero, Int.cast_zero])), h, hzero]
    exact ⟨hx, rfl⟩
  rw [if_neg (fun hbeq => hzero (by
    have := (beq_zero_iff_toRat hx).1 hbeq
    rw [h] at this
    exact_mod_cast this))]
  have hmost := magnitude_bounds hx
  have hsigned := toRat_eq_of_sign x
  rw [magnitude_modulus]
  generalize magnitude x = d at hmost hsigned
  obtain ⟨m, e⟩ := d
  dsimp only at hmost ⊢
  have hsize : (m : ℚ) * 2 ^ e = t.natAbs := by
    rw [Nat.cast_natAbs, Int.cast_abs, ← h, hsigned]
    have hnonneg : (0 : ℚ) ≤ (Dyadic.mk m e).toRat := by
      unfold Dyadic.toRat
      positivity
    cases isNegative x with
    | true => exact ((abs_neg _).trans (abs_of_nonneg hnonneg)).symm
    | false => exact (abs_of_nonneg hnonneg).symm
  -- An integer other than zero has no digits behind the place of `2 ^ -52`.
  have hlow : -53 < e := by
    have hone : (1 : ℚ) ≤ m * 2 ^ e := by
      rw [hsize]
      exact_mod_cast Int.natAbs_pos.2 hzero
    by_contra hle
    have hsmall : (m : ℚ) * 2 ^ e < 2 ^ 53 * 2 ^ (-53 : Int) :=
      mul_lt_mul (by exact_mod_cast hmost) (zpow_le_zpow_right₀ one_le_two (by omega))
        (by positivity) (by positivity)
    norm_num at hsmall
    linarith
  -- The remainder has no more digits than the divisor, or than the dividend.
  have hmore : m * 2 ^ (e - min e (-20)).toNat % (2 ^ 52 * 2 ^ ((-20 : Int) - min e (-20)).toNat) ≤
      2 ^ 53 := by
    rcases Int.le_total e (-20) with hle | hge
    · rw [min_eq_left hle, Int.sub_self, Int.toNat_zero, Nat.pow_zero, Nat.mul_one]
      exact Nat.le_of_lt (Nat.lt_of_le_of_lt (Nat.mod_le _ _) hmost)
    · rw [min_eq_right hge, Int.sub_self, Int.toNat_zero, Nat.pow_zero, Nat.mul_one]
      exact Nat.le_of_lt (Nat.lt_trans (Nat.mod_lt _ (by decide)) (by decide))
  have hnum := digits_of_integer hsize (min_le_left e (-20)) (by omega)
  have hden : 2 ^ 52 * 2 ^ ((-20 : Int) - min e (-20)).toNat =
      4294967296 * 2 ^ (-min e (-20)).toNat :=
    digits_of_integer (by norm_num) (min_le_right e (-20)) (by omega)
  rw [hnum, hden, Nat.mul_mod_mul_right] at hmore
  rw [Nat.shiftLeft_eq, Nat.shiftLeft_eq, hnum, hden, Nat.mul_mod_mul_right]
  obtain ⟨hfinite, hvalue⟩ := toRat_ofDyadic hmore (e := min e (-20)) (by omega) (by omega)
    (by omega)
  have hunit := two_zpow_split (show min e (-20) ≤ 0 by omega)
  rw [zpow_zero, zero_sub] at hunit
  have hrest : toRat (ofDyadic ⟨t.natAbs % 4294967296 * 2 ^ (-min e (-20)).toNat, min e (-20)⟩) =
      (t.natAbs % 4294967296 : Nat) := by
    rw [hvalue, Nat.cast_mul, mul_assoc, Nat.cast_pow, Nat.cast_ofNat, ← hunit, mul_one]
  have hnegative : isNegative x = true ↔ t < 0 := by
    rw [isNegative_iff_toRat_neg hx (by rw [h]; exact_mod_cast hzero), h]
    exact Int.cast_lt_zero
  by_cases hneg : t < 0
  · obtain ⟨hfinite', hvalue', -⟩ := toRat_neg hfinite
    have hsize' : -t % 4294967296 = (t.natAbs % 4294967296 : Nat) := by omega
    rw [hnegative.2 hneg, withSign, if_pos rfl, hvalue', hrest, if_pos hneg, hsize', Int.cast_neg,
      Int.cast_natCast]
    exact ⟨hfinite', rfl⟩
  · have hsize' : t % 4294967296 = (t.natAbs % 4294967296 : Nat) := by omega
    rw [Bool.eq_false_iff.2 (mt hnegative.1 hneg), withSign, if_neg Bool.false_ne_true, hrest,
      if_neg hneg, hsize', Int.cast_natCast]
    exact ⟨hfinite, rfl⟩

/-- A remainder below zero is moved up by the modulus. -/
theorem toRat_euclideanRemainder (hx : x.isFinite = true) {t : Int} (h : toRat x = t) :
    (euclideanRemainder x 4294967296).isFinite = true ∧
      toRat (euclideanRemainder x 4294967296) = (t % 4294967296 : Int) := by
  obtain ⟨hfinite, hvalue⟩ := toRat_remainder hx h
  generalize hr : (if t < 0 then -(-t % 4294967296) else t % 4294967296) = r at hvalue
  have habs := modulus_ordinary.2.2.2.2.2.1
  have hnegative : remainder x 4294967296 < 0 ↔ r < 0 := by
    rw [lt_iff_toRat hfinite (isFinite_of_unpack_zero unpack_zero), hvalue,
      toRat_of_unpack_zero unpack_zero]
    exact Int.cast_lt_zero
  unfold euclideanRemainder
  dsimp only
  by_cases hneg : r < 0
  · have hmod : r + 4294967296 = t % 4294967296 := by omega
    have hsum : toRat (remainder x 4294967296) + toRat 4294967296 = (t % 4294967296 : Int) := by
      rw [hvalue, toRat_modulus.2, ← hmod]
      push_cast
      rfl
    rw [if_pos (hnegative.2 hneg), habs, ← hsum]
    refine toRat_add_of_exact (k := (t % 4294967296).toNat) (j := 0) hfinite toRat_modulus.1 ?_
      (by omega) (by decide) (by decide)
    rw [hsum, zpow_zero, mul_one, ← Int.cast_abs, abs_of_nonneg (Int.emod_nonneg t (by decide)),
      ← Int.cast_natCast, Int.toNat_of_nonneg (Int.emod_nonneg t (by decide))]
  · have hmod : r = t % 4294967296 := by omega
    rw [if_neg (mt hnegative.1 hneg), hvalue, hmod]
    exact ⟨hfinite, rfl⟩

/-! ## Words -/

/-- The integer part of a double, zero for what is not finite. -/
def integerPart (n : Float) : Int := if n.isFinite then truncated (toRat n) else 0

/-- The residue of the integer part as a word. -/
def residue (n : Float) : BitVec 32 := BitVec.ofInt 32 (integerPart n)

theorem toBitVec_toWord (n : Float) : (toWord n).toBitVec = residue n := by
  unfold toWord residue integerPart
  by_cases hn : n.isFinite = true
  · obtain ⟨hfinite, hvalue⟩ := toRat_trunc hn
    obtain ⟨hfinite', hvalue'⟩ := toRat_euclideanRemainder hfinite hvalue
    rw [if_pos hn]
    by_cases hzero : (n == 0) = true
    · rw [if_pos (by simp [hzero]), (beq_zero_iff_toRat hn).1 hzero, ← Int.cast_zero,
        truncated_intCast]
      rfl
    · rw [if_neg (by simp [hn, hzero]), clampNat_of_isFinite hfinite' (by decide), hvalue',
        Int.floor_intCast]
      generalize truncated (toRat n) = t
      apply BitVec.eq_of_toNat_eq
      rw [BitVec.toNat_ofInt]
      change clamped (t % 4294967296) 4294967295 % 2 ^ 32 = _
      unfold clamped
      omega
  · rw [if_pos (by simp [hn]), if_neg hn]
    rfl

/-- The 32-bit operations on two residues, the second one modulo 32 where it counts places. -/
def wordOperation? (op : Tree.BinaryOp) (a b : BitVec 32) : Option Int :=
  let places := b.toNat % 32
  match op with
  | .bitAnd => some (a &&& b).toInt
  | .bitOr => some (a ||| b).toInt
  | .bitXor => some (a ^^^ b).toInt
  | .lShift => some ((a.toInt * 2 ^ places).bmod (2 ^ 32))
  | .rShift => some (a.toInt / 2 ^ places)
  | .uRShift => some (a.toNat / 2 ^ places : Nat)
  | _ => none

theorem toRat_ofInt {k : Int} (h : k.natAbs < 2 ^ 53) : toRat (ofInt k) = k := by
  cases k with
  | ofNat n => exact (toRat_ofNat h).2
  | negSucc n =>
    obtain ⟨hfinite, hvalue⟩ := toRat_ofNat (n := n + 1) h
    rw [ofInt, (toRat_neg hfinite).2.1, hvalue, Int.cast_negSucc]

theorem natAbs_of_wordOperation? {op : Tree.BinaryOp} {a b : BitVec 32} {k : Int}
    (h : wordOperation? op a b = some k) : k.natAbs < 2 ^ 53 := by
  have hsigned (w : BitVec 32) : w.toInt.natAbs < 2 ^ 53 := by
    have hle := w.le_toInt
    have hlt := w.toInt_lt
    omega
  cases op <;> cases h
  case bitAnd => exact hsigned _
  case bitOr => exact hsigned _
  case bitXor => exact hsigned _
  case lShift =>
    rw [← BitVec.toInt_ofInt]
    exact hsigned _
  case rShift =>
    have hshift : a.toInt / 2 ^ (b.toNat % 32) = (a.sshiftRight (b.toNat % 32)).toInt := by
      rw [BitVec.toInt_sshiftRight, Int.shiftRight_eq_div_pow]
      push_cast
      rfl
    exact hshift ▸ hsigned _
  case uRShift =>
    exact Nat.lt_of_le_of_lt (Nat.div_le_self _ _) (Nat.lt_trans a.isLt (by decide))

theorem toNat_places (w : UInt32) : (w &&& 0x1f).toNat = w.toNat % 32 :=
  Nat.and_two_pow_sub_one_eq_mod w.toNat 5

theorem toInt_shiftLeft (w places : UInt32) (h : places.toNat < 32) :
    (w <<< places).toInt32.toInt = (w.toBitVec.toInt * 2 ^ places.toNat).bmod (2 ^ 32) := by
  have hmod : (places.toBitVec % 32#32).toNat = places.toNat := Nat.mod_eq_of_lt h
  change (w.toBitVec <<< (places.toBitVec % 32#32)).toInt = _
  rw [BitVec.shiftLeft_eq', hmod, BitVec.toInt_shiftLeft, Nat.shiftLeft_eq,
    BitVec.toInt_eq_toNat_bmod, Int.bmod_mul_bmod]
  push_cast
  rfl

theorem toInt_shiftRight (w places : UInt32) (h : places.toNat < 32) :
    (w.toInt32 >>> places.toInt32).toInt = w.toBitVec.toInt / 2 ^ places.toNat := by
  have hsmall : places.toBitVec.toNat < 32 := h
  have hmsb : places.toBitVec.msb = false := BitVec.msb_eq_false_iff_two_mul_lt.2 (by omega)
  have hmod : (places.toBitVec.smod 32#32).toNat = places.toNat := by
    rw [BitVec.smod_eq, hmsb]
    exact Nat.mod_eq_of_lt h
  change (w.toBitVec.sshiftRight (places.toBitVec.smod 32#32).toNat).toInt = _
  rw [BitVec.toInt_sshiftRight, Int.shiftRight_eq_div_pow, hmod]
  push_cast
  rfl

theorem applyBinary?_of_wordOperation? {op : Tree.BinaryOp} {left right : Value} {k : Int}
    (h : wordOperation? op (residue left.toNumber) (residue right.toNumber) = some k) :
    left.applyBinary? op right = some (.number (ofInt k)) := by
  have hleft : left.toWord.toBitVec = residue left.toNumber := toBitVec_toWord _
  have hright : right.toWord.toBitVec = residue right.toNumber := toBitVec_toWord _
  have hplaces : (right.toWord &&& 0x1f).toNat = right.toWord.toBitVec.toNat % 32 :=
    toNat_places right.toWord
  have hfew : (right.toWord &&& 0x1f).toNat < 32 := hplaces ▸ Nat.mod_lt _ (by decide)
  rw [← hleft, ← hright] at h
  cases op <;> cases h
  case bitAnd => rfl
  case bitOr => rfl
  case bitXor => rfl
  case lShift =>
    rw [← hplaces, ← toInt_shiftLeft _ _ hfew]
    rfl
  case rShift =>
    rw [← hplaces, ← toInt_shiftRight _ _ hfew]
    rfl
  case uRShift =>
    have hvalue : (left.toWord >>> (right.toWord &&& 0x1f)).toNat =
        left.toWord.toNat / 2 ^ (right.toWord &&& 0x1f).toNat := by
      rw [UInt32.toNat_shiftRight, Nat.mod_eq_of_lt hfew, Nat.shiftRight_eq_div_pow]
    rw [← hplaces]
    exact congrArg (fun n => some (Value.number (ofNat n))) hvalue

/-- The residue of a double is the one word that is congruent to its integer part, and zero when
there is none; the 32-bit operators are those of the residues. -/
theorem exact_words :
    (∀ n : Float, n.isFinite = true →
      (∀ k : Nat, k < 2 ^ 32 →
        ((toWord n).toNat = k ↔ (k : Int) ≡ truncated (toRat n) [ZMOD 2 ^ 32])) ∧
      ∀ k : Int, -2 ^ 31 ≤ k → k < 2 ^ 31 →
        ((toSignedWord n).toInt = k ↔ k ≡ truncated (toRat n) [ZMOD 2 ^ 32])) ∧
    (∀ n : Float, n.isFinite = false → toWord n = 0 ∧ toSignedWord n = 0) ∧
    ∀ (op : Tree.BinaryOp) (left right : Value) (k : Int),
      wordOperation? op (residue left.toNumber) (residue right.toNumber) = some k →
        left.applyBinary? op right = some (.number (ofInt k)) ∧ toRat (ofInt k) = k := by
  refine ⟨fun n hn => ?_, fun n hn => ?_, fun op left right k h =>
    ⟨applyBinary?_of_wordOperation? h, toRat_ofInt (natAbs_of_wordOperation? h)⟩⟩
  · have hpart : integerPart n = truncated (toRat n) := if_pos hn
    have hword : ((toWord n).toNat : Int) = truncated (toRat n) % 2 ^ 32 := by
      change ((toWord n).toBitVec.toNat : Int) = _
      rw [toBitVec_toWord, residue, hpart, BitVec.toNat_ofInt]
      omega
    have hsigned : (toSignedWord n).toInt = (truncated (toRat n)).bmod (2 ^ 32) := by
      change (toWord n).toBitVec.toInt = _
      rw [toBitVec_toWord, residue, hpart, BitVec.toInt_ofInt]
    constructor
    · intro k hk
      unfold Int.ModEq
      omega
    · intro k hlow hhigh
      rw [hsigned, Int.bmod_def]
      unfold Int.ModEq
      omega
  · have hword : toWord n = 0 := by
      unfold toWord
      rw [hn]
      rfl
    exact ⟨hword, by rw [toSignedWord, hword]; rfl⟩

/-- A double far beyond the words, an infinity, and a shift by 33 places, which is one by 1. -/
theorem exact_words_negative :
    ((-1e20 : Float).isFinite = true ∧
      (2632974336 : Int) ≡ truncated (toRat (-1e20)) [ZMOD 2 ^ 32]) ∧
    (infinity.isFinite = false ∧ toSignedWord infinity = 0) ∧
    (Value.number (-1e20)).applyBinary? .rShift (.number 33) = some (.number (ofInt (-830996480))) := by
  obtain ⟨hfinite, hinfinite, hoperators⟩ := exact_words
  have hnumber : (-1e20 : Float).isFinite = true := by decide +kernel
  have hinfinity : infinity.isFinite = false := by decide +kernel
  have hword : (toWord (-1e20)).toNat = 2632974336 := by decide +kernel
  have hshift : wordOperation? .rShift (residue (Value.number (-1e20)).toNumber)
      (residue (Value.number 33).toNumber) = some (-830996480) := by
    rw [← toBitVec_toWord, ← toBitVec_toWord]
    decide +kernel
  exact ⟨⟨hnumber, ((hfinite _ hnumber).1 _ (by decide)).1 hword⟩,
    ⟨hinfinity, (hinfinite _ hinfinity).2⟩, (hoperators _ _ _ _ hshift).1⟩

end ScriptMachine.Number
