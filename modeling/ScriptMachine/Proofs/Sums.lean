import ScriptMachine.Proofs.Doubles

/-!
# Sums of doubles that are not negative

A sum is rounded, but never below a double that one of its terms is. Times therefore come in the
order in which they were computed.
-/

namespace ScriptMachine.Number

open Float.Model

/-! ## Rounding -/

/-- A mantissa and an exponent as they stand in a double: all digits are used unless the exponent is
the lowest. -/
structure Canonical (m : Nat) (e : Int) : Prop where
  pos : 0 < m
  most : m < 2 ^ 53
  low : -1074 ≤ e
  full : m < 2 ^ 52 → e = -1074

/-- The exponent at which a number is rounded. -/
def roundingExponent (m : Nat) (e : Int) : Int :=
  Format.binary64.targetExponent (totalExponent m e)

theorem roundingExponent_eq (m : Nat) (e : Int) :
    roundingExponent m e = max ((m.log2 : Int) - 52 + e) (-1074) := by
  unfold roundingExponent totalExponent Format.targetExponent
  change max ((m.log2 : Int) + 1 + e - (1 + 52 : Nat)) (3 - 2 ^ 10 - (1 + 52 : Nat) : Int) = _
  omega

theorem mantissa_shiftRight (m : UnpackedFloat.ExtendedMantissa) (k : Nat) :
    (m >>> k).mantissa = m.mantissa / 2 ^ k := by
  change (Nat.repeat _ k m).mantissa = _
  induction k with
  | zero => simp [Nat.repeat]
  | succ k ih =>
    change (Nat.repeat _ k m).mantissa / 2 = _
    rw [ih, Nat.div_div_eq_div_mul, Nat.pow_succ]

/-- Rounding goes up by one at most. -/
theorem roundedMantissa_bounds (m : UnpackedFloat.ExtendedMantissa) :
    m.mantissa ≤ m.roundedMantissa ∧ m.roundedMantissa ≤ m.mantissa + 1 := by
  unfold UnpackedFloat.ExtendedMantissa.roundedMantissa
    UnpackedFloat.Accuracy.roundToNearestEven
  split
  · omega
  · omega
  · omega
  · omega

theorem le_log2 {m k : Nat} (h : 2 ^ k ≤ m) : k ≤ m.log2 :=
  (Nat.le_log2 (by have := Nat.two_pow_pos k; omega)).2 h

/-- A number is rounded to a canonical one: what is left of its digits, or more. -/
theorem round_canonical {m : Nat} {e : Int} (hm : 0 < m) (hlow : -1074 ≤ e)
    (he : e ≤ roundingExponent m e) :
    ∃ m' e', ∃ hm' : 0 < m',
      UnpackedFloat.round Format.binary64 .positive m e = .finite .positive m' e' hm' ∧
      Canonical m' e' ∧ roundingExponent m e ≤ e' ∧
      (e' = roundingExponent m e → m / 2 ^ (roundingExponent m e - e).toNat ≤ m') := by
  have heq := roundingExponent_eq m e
  obtain ⟨k, hk⟩ : ∃ k : Nat, roundingExponent m e - e = k :=
    ⟨(roundingExponent m e - e).toNat, by omega⟩
  let left := UnpackedFloat.ExtendedMantissa.mk m false false >>> k
  have hleft : left.mantissa = m / 2 ^ k := mantissa_shiftRight _ k
  obtain ⟨hlow', hhigh⟩ := roundedMantissa_bounds left
  have hbounds := (Nat.log2_eq_iff (Nat.ne_of_gt hm)).1 rfl
  -- What is left has 53 digits at most, and 53 unless the exponent is the lowest.
  have hmost : left.mantissa < 2 ^ 53 := by
    rw [hleft, Nat.div_lt_iff_lt_mul (Nat.two_pow_pos k), ← Nat.pow_add]
    exact Nat.lt_of_lt_of_le hbounds.2 (Nat.pow_le_pow_right (by decide) (by omega))
  have hfull : roundingExponent m e ≠ -1074 → 2 ^ 52 ≤ left.mantissa := fun hne => by
    rw [hleft, Nat.le_div_iff_mul_le (Nat.two_pow_pos k), ← Nat.pow_add]
    exact Nat.le_trans (Nat.pow_le_pow_right (by decide) (by omega)) hbounds.1
  have hpos : 0 < left.mantissa := by
    by_cases hleast : roundingExponent m e = -1074
    · obtain rfl : k = 0 := by omega
      rwa [hleft, Nat.pow_zero, Nat.div_one]
    · have := hfull hleast
      omega
  have hfirst : UnpackedFloat.shiftToTargetExponent Format.binary64 m e .exact =
      (left, roundingExponent m e) := by
    change (UnpackedFloat.ExtendedMantissa.mk m false false >>> (roundingExponent m e - e).toNat,
      e + ((roundingExponent m e - e).toNat : Int)) = _
    rw [hk, Int.toNat_natCast]
    exact Prod.ext rfl (by change e + (k : Int) = _; omega)
  have hround : UnpackedFloat.round Format.binary64 .positive m e =
      UnpackedFloat.roundWithAccuracy Format.binary64 .positive m e .exact := by
    change UnpackedFloat.roundWithAccuracy Format.binary64 .positive
      (m <<< (e - roundingExponent m e).toNat) (e - ((e - roundingExponent m e).toNat : Int)) _ = _
    have hzero : (e - roundingExponent m e).toNat = 0 := by omega
    rw [hzero, Nat.shiftLeft_zero, Int.natCast_zero, Int.sub_zero]
  let s := (roundingExponent left.roundedMantissa (roundingExponent m e) -
    roundingExponent m e).toNat
  have hsecond : UnpackedFloat.shiftToTargetExponent Format.binary64 left.roundedMantissa
      (roundingExponent m e) .exact =
        (UnpackedFloat.ExtendedMantissa.mk left.roundedMantissa false false >>> s,
          roundingExponent m e + (s : Int)) := rfl
  have hfinal : (UnpackedFloat.ExtendedMantissa.mk left.roundedMantissa false false >>> s).mantissa =
      left.roundedMantissa / 2 ^ s := mantissa_shiftRight _ s
  have hexponent := roundingExponent_eq left.roundedMantissa (roundingExponent m e)
  have hcanonical : Canonical (left.roundedMantissa / 2 ^ s) (roundingExponent m e + s) := by
    by_cases hcarry : left.roundedMantissa < 2 ^ 53
    · have hlog : left.roundedMantissa.log2 < 53 := (Nat.log2_lt (by omega)).2 hcarry
      have hs : s = 0 := by
        change (roundingExponent left.roundedMantissa (roundingExponent m e) -
          roundingExponent m e).toNat = 0
        omega
      rw [hs, Nat.pow_zero, Nat.div_one]
      refine ⟨by omega, hcarry, by omega, fun hsmall => ?_⟩
      by_contra hne
      have := hfull (by omega)
      omega
    · have htop : left.roundedMantissa = 2 ^ 53 := by omega
      have hs : s = 1 := by
        change (roundingExponent left.roundedMantissa (roundingExponent m e) -
          roundingExponent m e).toNat = 1
        rw [hexponent, htop, Nat.log2_two_pow]
        omega
      rw [hs, htop]
      exact ⟨by decide, by decide, by omega, fun hsmall => absurd hsmall (by decide)⟩
  refine ⟨left.roundedMantissa / 2 ^ s, roundingExponent m e + s, hcanonical.pos, ?_,
    hcanonical, by omega, fun hsame => ?_⟩
  · rw [hround]
    unfold UnpackedFloat.roundWithAccuracy
    rw [hfirst]
    dsimp only
    rw [hsecond]
    dsimp only
    rw [dif_neg (by rw [hfinal]; exact Nat.ne_of_gt hcanonical.pos)]
    congr 1
  · have hs : s = 0 := by omega
    rw [hs, Nat.pow_zero, Nat.div_one, hk, Int.toNat_natCast, ← hleft]
    exact hlow'

/-! ## Sums -/

/-- A number that is not below a canonical one is rounded at no lower exponent. -/
theorem Canonical.le_roundingExponent {m n : Nat} {e e' : Int} (h : Canonical m e) (he : e' ≤ e)
    (hle : m * 2 ^ (e - e').toNat ≤ n) : e ≤ roundingExponent n e' := by
  have heq := roundingExponent_eq n e'
  by_cases hfull : m < 2 ^ 52
  · have := h.full hfull
    omega
  · have hdigits : 2 ^ (52 + (e - e').toNat) ≤ n := by
      rw [Nat.pow_add]
      exact Nat.le_trans (Nat.mul_le_mul_right _ (by omega)) hle
    have := le_log2 hdigits
    omega

/-- The order of canonical numbers. -/
def AtMost (m : Nat) (e : Int) (m' : Nat) (e' : Int) : Prop := e < e' ∨ e = e' ∧ m ≤ m'

/-- Terms are brought to the smaller exponent, added and rounded. -/
theorem add_positive {m n : Nat} {e e' : Int} (hm : 0 < m) (hn : 0 < n) :
    UnpackedFloat.add Format.binary64 (.finite .positive m e hm) (.finite .positive n e' hn) =
      UnpackedFloat.round Format.binary64 .positive
        (m <<< (e - min e e').toNat + n <<< (e' - min e e').toNat) (min e e') := by
  have hpos : 0 < m <<< (e - min e e').toNat := by
    rw [Nat.shiftLeft_eq]
    exact Nat.mul_pos hm (Nat.two_pow_pos _)
  change UnpackedFloat.normalize _
    ((m <<< (e - min e e').toNat : Nat) + (n <<< (e' - min e e').toNat : Nat)) (min e e') _ = _
  rw [← Int.natCast_add]
  unfold UnpackedFloat.normalize
  rw [compare_gt_iff_gt.2 (Int.natCast_pos.2 (Nat.add_pos_left hpos _))]
  rfl

/-- A sum is not below its first term. -/
theorem add_finite {m n : Nat} {e e' : Int} (h : Canonical m e) (h' : Canonical n e')
    (hm : 0 < m) (hn : 0 < n) : ∃ k j, ∃ hk : 0 < k,
      UnpackedFloat.add Format.binary64 (.finite .positive m e hm) (.finite .positive n e' hn) =
        .finite .positive k j hk ∧ Canonical k j ∧ AtMost m e k j := by
  let least := min e e'
  let total := m <<< (e - least).toNat + n <<< (e' - least).toNat
  have htotal : m * 2 ^ (e - least).toNat ≤ total := by
    change _ ≤ m <<< (e - least).toNat + _
    rw [Nat.shiftLeft_eq]
    exact Nat.le_add_right _ _
  have hpos : 0 < total :=
    Nat.lt_of_lt_of_le (Nat.mul_pos hm (Nat.two_pow_pos _)) htotal
  have hleast : e ≤ roundingExponent total least :=
    h.le_roundingExponent (Int.min_le_left e e') htotal
  have hlow : -1074 ≤ least := le_min h.low h'.low
  obtain ⟨k, j, hk, hround, hcanonical, hj, hdigits⟩ :=
    round_canonical hpos hlow (Int.le_trans (Int.min_le_left e e') hleast)
  refine ⟨k, j, hk, (add_positive hm hn).trans hround, hcanonical, ?_⟩
  rcases Int.lt_or_eq_of_le (Int.le_trans hleast hj) with hlt | heq
  · exact .inl hlt
  · refine .inr ⟨heq, Nat.le_trans ?_ (hdigits (by omega))⟩
    have hsame : roundingExponent total least = e := by omega
    rw [hsame, Nat.le_div_iff_mul_le (Nat.two_pow_pos _)]
    exact htotal

theorem NonNeg.add {u v : UnpackedFloat} (hu : NonNeg u) (hv : NonNeg v) :
    NonNeg (UnpackedFloat.add Format.binary64 u v) := by
  rcases hu.cases with rfl | rfl | rfl | ⟨m, e, hm, rfl⟩ <;>
    rcases hv.cases with rfl | rfl | rfl | ⟨n, j, hn, rfl⟩ <;>
    first
    | rfl
    | assumption
    | exact add_positive hm hn ▸ nonNeg_roundWithAccuracy _ _ _

/-! ## Bits -/

/-- The bits of a canonical number without a sign. -/
def rank (m : Nat) (e : Int) : Nat :=
  if m < 2 ^ 52 then m else (e + 1075).toNat * 2 ^ 52 + (m - 2 ^ 52)

theorem rank_le {m n : Nat} {e e' : Int} (h : Canonical m e) (h' : Canonical n e')
    (hle : AtMost m e n e') : rank m e ≤ rank n e' := by
  have hfull := h.full
  have hfull' := h'.full
  have hmost := h.most
  have hlow := h.low
  unfold AtMost at hle
  unfold rank
  split <;> split <;> omega

/-- What is not too large stays below infinity. -/
theorem rank_lt {m : Nat} {e : Int} (h : Canonical m e) (he : e ≤ 971) :
    rank m e < 2047 * 2 ^ 52 := by
  have hmost := h.most
  have hlow := h.low
  unfold rank
  split <;> omega

/-- A canonical number is put together from its digits and its exponent, unless it is too large. -/
theorem bitsNat_pack {m : Nat} {e : Int} (h : Canonical m e) (hm : 0 < m) :
    bitsNat ⟨pack (.finite .positive m e hm)⟩ =
      if 971 < e then 2047 * 2 ^ 52 else rank m e := by
  have hmost := h.most
  have hlow := h.low
  obtain ⟨b, hb⟩ : ∃ b : Nat, (b : Int) = e + 1075 := ⟨(e + 1075).toNat, by omega⟩
  have hbiased : (e + (Format.binary64.exponentBias : Int) +
      (Format.binary64.mantissaBitsWithoutImplicit : Int)).toNat = b := by
    change (e + (1023 : Nat) + (52 : Nat)).toNat = b
    omega
  change (UnpackedFloat.pack Format.binary64 (.finite .positive m e hm)).toNat = _
  unfold UnpackedFloat.pack
  dsimp only
  rw [hbiased]
  by_cases hlarge : 971 < e
  · rw [if_pos hlarge, if_pos (show 2 ^ 11 ≤ b + 1 by omega)]
    rfl
  rw [if_neg hlarge, if_neg (show ¬ 2 ^ 11 ≤ b + 1 by omega)]
  unfold rank
  by_cases hsmall : m < 2 ^ 52
  · have hlog : m.log2 < 52 := (Nat.log2_lt (Nat.ne_of_gt hm)).2 hsmall
    rw [if_pos hsmall, if_neg (show ¬ m.log2 + 1 = Format.binary64.mantissaBits by
      change ¬ m.log2 + 1 = 1 + 52; omega), toNat_packComponents,
      BitVec.toNat_ofNat]
    change 0 * 2 ^ 63 + 0 * 2 ^ 52 + m % 2 ^ 52 = m
    omega
  · have hlog : m.log2 = 52 := (Nat.log2_eq_iff (Nat.ne_of_gt hm)).2 ⟨by omega, hmost⟩
    rw [if_neg hsmall, if_pos (show m.log2 + 1 = Format.binary64.mantissaBits by
      change m.log2 + 1 = 1 + 52; omega), toNat_packComponents,
      BitVec.toNat_ofNat, BitVec.toNat_ofNat]
    change 0 * 2 ^ 63 + b % 2 ^ 11 * 2 ^ 52 + m % 2 ^ 52 = _
    omega

theorem bitsNat_of_positive {x : Float} (h : isNegative x = false) :
    bitsNat x = biasedExponent x * 2 ^ 52 + fraction x := by
  have hbits := bitsNat_lt x
  have hsign : ¬ bitsNat x / 2 ^ 63 = 1 := by
    rw [← isNegative_iff, h]
    exact Bool.false_ne_true
  rw [fraction_eq, biasedExponent_eq]
  omega

/-- A finite double without a sign is taken apart into a canonical number. -/
theorem canonical_unpack {x : Float} (hsign : isNegative x = false) {s : UnpackedFloat.Sign}
    {m : Nat} {e : Int} {hm : 0 < m} (h : x.toModel.unpack = .finite s m e hm) :
    Canonical m e ∧ e ≤ 971 ∧ bitsNat x = rank m e := by
  have hbits := bitsNat_of_positive hsign
  have hfraction : fraction x < 2 ^ 52 := fraction_lt _
  have hexponent : biasedExponent x < 2 ^ 11 := biasedExponent_lt _
  rw [unpack_eq] at h
  unfold rank
  split at h
  · split at h <;> cases h
  split at h
  · split at h
    · cases h
    · obtain ⟨-, rfl, rfl⟩ := (UnpackedFloat.finite.injEq ..).mp h
      exact ⟨⟨hm, by omega, by omega, fun _ => rfl⟩, by omega, by rw [if_pos hfraction]; omega⟩
  · obtain ⟨-, hm', he'⟩ := (UnpackedFloat.finite.injEq ..).mp h
    refine ⟨⟨hm, by omega, by omega, fun hsmall => by omega⟩, by omega, ?_⟩
    have hbiased : (e + 1075).toNat = biasedExponent x := by omega
    have hdigits : m - 2 ^ 52 = fraction x := by omega
    rw [if_neg (by omega), hbiased, hdigits, hbits]

/-! ## The order of doubles -/

theorem orderKey_of_positive {x : Float} (h : isNegative x = false) :
    orderKey x = bitsNat x := by
  have hsign : ¬ bitsNat x / 2 ^ 63 = 1 := by
    rw [← isNegative_iff, h]
    exact Bool.false_ne_true
  have hbits := bitsNat_lt x
  unfold orderKey
  exact if_pos (show bitsNat x < 2 ^ 63 by omega)

theorem orderKey_of_negative {x : Float} (h : isNegative x = true) : orderKey x < 0 := by
  have hsign := (isNegative_iff x).1 h
  have hlarge : ¬ bitsNat x < 2 ^ 63 := by omega
  have hkey : orderKey x = (Nat.pow 2 63 : Int) - 1 - bitsNat x := by
    unfold orderKey
    exact if_neg hlarge
  rw [hkey]
  change (2 ^ 63 : Int) - 1 - bitsNat x < 0
  omega

/-- A time: finite, and without a sign. -/
structure IsTime (x : Float) : Prop where
  finite : x.isFinite = true
  positive : isNegative x = false

theorem IsTime.cases {x : Float} (h : IsTime x) : x.toModel.unpack = .zero .positive ∨
    ∃ m e, ∃ hm : 0 < m, x.toModel.unpack = .finite .positive m e hm := by
  have hfinite : x.toModel.unpack.isFinite = true := h.finite
  rcases (nonNeg_unpack h.positive).cases with hu | hu | hu | ⟨m, e, hm, hu⟩
  · rw [hu] at hfinite
    cases hfinite
  · rw [hu] at hfinite
    cases hfinite
  · exact .inl hu
  · exact .inr ⟨m, e, hm, hu⟩

theorem bitsNat_of_zero {x : Float} (hsign : isNegative x = false) {s : UnpackedFloat.Sign}
    (h : x.toModel.unpack = .zero s) : bitsNat x = 0 := by
  have hbits := bitsNat_of_positive hsign
  rw [unpack_eq] at h
  split at h
  · split at h <;> cases h
  split at h
  · split at h
    · omega
    · cases h
  · cases h

/-- What is added to a time does not make it earlier. -/
theorem orderKey_le_add {x y : Float} (hx : IsTime x) (hy : IsTime y) :
    orderKey x ≤ orderKey (x + y) := by
  have hsum : x + y = ⟨pack (UnpackedFloat.add Format.binary64 x.toModel.unpack y.toModel.unpack)⟩ :=
    rfl
  have hnonneg : isNegative (x + y) = false :=
    isNegative_pack ((nonNeg_unpack hx.positive).add (nonNeg_unpack hy.positive))
  rw [orderKey_of_positive hx.positive, orderKey_of_positive hnonneg]
  rcases hx.cases with hzero | ⟨m, e, hm, hu⟩
  · rw [bitsNat_of_zero hx.positive hzero]
    omega
  obtain ⟨hcanonical, he, hbits⟩ := canonical_unpack hx.positive hu
  have hpacked {n : Nat} {j : Int} {hn : 0 < n} (h : Canonical n j) (hle : AtMost m e n j) :
      rank m e ≤ bitsNat ⟨pack (.finite .positive n j hn)⟩ := by
    rw [bitsNat_pack h hn]
    split
    · exact Nat.le_of_lt (rank_lt hcanonical he)
    · exact rank_le hcanonical h hle
  rw [hbits, hsum, hu, Int.ofNat_le]
  rcases hy.cases with hzero | ⟨n, j, hn, hv⟩
  · have hsame : UnpackedFloat.add Format.binary64 (.finite .positive m e hm) (.zero .positive) =
        .finite .positive m e hm := rfl
    rw [hzero, hsame]
    exact hpacked hcanonical (.inr ⟨rfl, Nat.le_refl m⟩)
  · rw [hv]
    obtain ⟨k, i, hk, hadd, hk', hle⟩ := add_finite hcanonical (canonical_unpack hy.positive hv).1 hm hn
    rw [hadd]
    exact hpacked hk' hle

theorem unpack_zero : (0 : Float).toModel.unpack = .zero .positive := by
  rw [unpack_eq, if_neg (by decide), if_pos (by decide), dif_pos (by decide)]
  exact congrArg _ (if_neg (by decide))

theorem isTime_zero : IsTime 0 := ⟨by decide +kernel, by decide +kernel⟩

/-- A finite double above zero is a time. -/
theorem isTime_of_pos {x : Float} (hfinite : x.isFinite = true) (h : 0 < x) : IsTime x := by
  refine ⟨hfinite, ?_⟩
  have hlt : (0 : Float).toModel.unpack.lt x.toModel.unpack = true :=
    of_decide_eq_true (show (0 : Float).lt x = true from h)
  by_contra hnegative
  have hsign : sign x = .negative := if_pos (by simpa using hnegative)
  rw [unpack_zero, unpack_eq, hsign] at hlt
  split at hlt
  · split at hlt <;> cases hlt
  split at hlt
  · split at hlt <;> cases hlt
  · cases hlt

/-- Nothing is added. -/
theorem orderKey_add_zero {x : Float} (hx : IsTime x) : orderKey (x + 0) = orderKey x := by
  have hsum : x + 0 = ⟨pack (UnpackedFloat.add Format.binary64 x.toModel.unpack (.zero .positive))⟩ := by
    rw [← unpack_zero]
    rfl
  have hnonneg : isNegative (x + 0) = false := by
    rw [hsum]
    exact isNegative_pack ((nonNeg_unpack hx.positive).add rfl)
  rw [orderKey_of_positive hx.positive, orderKey_of_positive hnonneg, hsum, Int.natCast_inj]
  rcases hx.cases with hzero | ⟨m, e, hm, hu⟩
  · rw [bitsNat_of_zero hx.positive hzero, hzero]
    decide +kernel
  · obtain ⟨hcanonical, he, hbits⟩ := canonical_unpack hx.positive hu
    rw [hu, hbits]
    exact (bitsNat_pack hcanonical hm).trans (if_neg (by omega))

/-- What does not come after a time is not ordered after it. -/
theorem orderKey_le_of_le {x y : Float} (hy : IsTime y) (h : x ≤ y) : orderKey x ≤ orderKey y := by
  rw [orderKey_of_positive hy.positive]
  cases hsign : isNegative x with
  | true =>
    have := orderKey_of_negative hsign
    omega
  | false =>
    rw [orderKey_of_positive hsign, Int.ofNat_le]
    have hle : x.toModel.unpack.le y.toModel.unpack = true :=
      of_decide_eq_true (show x.le y = true from h)
    rcases (nonNeg_unpack hsign).cases with hx | hx | hx | ⟨m, e, hm, hx⟩
    · rw [hx] at hle
      cases hle
    · rw [hx] at hle
      rcases hy.cases with hv | ⟨n, j, hn, hv⟩ <;> rw [hv] at hle <;> cases hle
    · rw [bitsNat_of_zero hsign hx]
      exact Nat.zero_le _
    · rcases hy.cases with hv | ⟨n, j, hn, hv⟩
      · rw [hx, hv] at hle
        cases hle
      · obtain ⟨hcanonical, -, hbits⟩ := canonical_unpack hsign hx
        obtain ⟨hcanonical', -, hbits'⟩ := canonical_unpack hy.positive hv
        rw [hbits, hbits']
        refine rank_le hcanonical hcanonical' ?_
        rw [hx, hv] at hle
        change ((compare e j).then (compare m n)).isLE = true at hle
        rw [Ordering.isLE_then_iff_or] at hle
        rcases hle with hlt | ⟨heq, hle⟩
        · exact .inl (compare_lt_iff_lt.1 hlt)
        · exact .inr ⟨compare_eq_iff_eq.1 heq, Nat.isLE_compare.1 hle⟩

end ScriptMachine.Number
