import Mathlib
import ScriptMachine.Number.Integer
import ScriptMachine.Value.Basic

/-!
# Doubles taken apart

A double is determined by its sign, its exponent and its fraction. From that follow two facts about
values: those that are the same as data are equal, and a double that reads as a natural number of at
most 53 digits is the double of that number.
-/

namespace ScriptMachine.Number

open Float.Model

/-! ## The parts of a double -/

/-- The bits of a double as a natural number. -/
def bitsNat (x : Float) : Nat := x.toBits.toNat

theorem fraction_eq (x : Float) : fraction x = bitsNat x % 2 ^ 52 := by
  unfold fraction bitsNat
  rw [UInt64.toNat_and]
  exact Nat.and_two_pow_sub_one_eq_mod _ 52

theorem biasedExponent_eq (x : Float) : biasedExponent x = bitsNat x / 2 ^ 52 % 2 ^ 11 := by
  unfold biasedExponent bitsNat
  rw [UInt64.toNat_and, UInt64.toNat_shiftRight]
  rw [Nat.shiftRight_eq_div_pow]
  exact Nat.and_two_pow_sub_one_eq_mod _ 11

theorem fraction_lt (x : Float) : fraction x < 2 ^ 52 := by
  rw [fraction_eq]
  exact Nat.mod_lt _ (by decide)

theorem biasedExponent_lt (x : Float) : biasedExponent x < 2 ^ 11 := by
  rw [biasedExponent_eq]
  exact Nat.mod_lt _ (by decide)

theorem isNegative_iff (x : Float) : isNegative x = true ↔ bitsNat x / 2 ^ 63 = 1 := by
  unfold isNegative bitsNat
  rw [beq_iff_eq, ← UInt64.toNat_inj, UInt64.toNat_shiftRight, Nat.shiftRight_eq_div_pow]
  rfl

theorem bitsNat_lt (x : Float) : bitsNat x < 2 ^ 64 := UInt64.toNat_lt x.toBits

theorem toNat_unpackMantissa (b : BitVec Format.binary64.numBits) :
    (UnpackedFloat.unpackMantissa b).toNat = b.toNat % 2 ^ 52 := by
  unfold UnpackedFloat.unpackMantissa
  simp [BitVec.extractLsb]

theorem toNat_unpackExponent (b : BitVec Format.binary64.numBits) :
    (UnpackedFloat.unpackExponent b).toNat = b.toNat / 2 ^ 52 % 2 ^ 11 := by
  unfold UnpackedFloat.unpackExponent
  simp [BitVec.extractLsb, Nat.shiftRight_eq_div_pow]

theorem toNat_unpackSign (b : BitVec Format.binary64.numBits) :
    (UnpackedFloat.unpackSign b).toNat = b.toNat / 2 ^ 63 := by
  unfold UnpackedFloat.unpackSign
  have hlt : b.toNat < 2 ^ 64 := b.isLt
  rw [BitVec.toNat_cast, BitVec.extractLsb, BitVec.extractLsb'_toNat, Nat.shiftRight_eq_div_pow]
  exact Nat.mod_eq_of_lt (by simp; omega)

/-- The sign of a double. -/
def sign (x : Float) : UnpackedFloat.Sign :=
  if isNegative x then .negative else .positive

/-- A double taken apart. -/
theorem unpack_eq (x : Float) : x.toModel.unpack =
    if biasedExponent x = 2047 then if fraction x = 0 then .infinity (sign x) else .notANumber
    else if biasedExponent x = 0 then
      if h : fraction x = 0 then .zero (sign x)
      else .finite (sign x) (fraction x) (-1074) (Nat.pos_of_ne_zero h)
    else .finite (sign x) (fraction x + 2 ^ 52) (biasedExponent x - 1075) (by omega) := by
  let b : BitVec Format.binary64.numBits := x.toBits.toBitVec
  have hm : (UnpackedFloat.unpackMantissa b).toNat = fraction x := by
    rw [toNat_unpackMantissa, fraction_eq]
    rfl
  have he : (UnpackedFloat.unpackExponent b).toNat = biasedExponent x := by
    rw [toNat_unpackExponent, biasedExponent_eq]
    rfl
  have hs : UnpackedFloat.Sign.ofBitVec (UnpackedFloat.unpackSign b) = sign x := by
    have hbit : UnpackedFloat.unpackSign b = 0#1 ↔ isNegative x = false := by
      rw [← Bool.not_eq_true, isNegative_iff, ← BitVec.toNat_inj, toNat_unpackSign]
      have hlt := bitsNat_lt x
      change bitsNat x / 2 ^ 63 = 0 ↔ _
      omega
    unfold UnpackedFloat.Sign.ofBitVec sign
    cases hneg : isNegative x with
    | false => rw [if_pos (hbit.2 hneg)]; rfl
    | true =>
      rw [if_neg (fun h => by simp [hbit.1 h] at hneg)]; rfl
  change UnpackedFloat.unpack Format.binary64 b = _
  unfold UnpackedFloat.unpack
  have hall : ∀ e : BitVec 11, e = -1#11 ↔ e.toNat = 2047 := by
    intro e
    rw [← BitVec.toNat_inj]
    rfl
  have hzero : ∀ e : BitVec 11, e = 0#11 ↔ e.toNat = 0 := by
    intro e
    rw [← BitVec.toNat_inj]
    rfl
  have hzero' : ∀ e : BitVec 52, e = 0#52 ↔ e.toNat = 0 := by
    intro e
    rw [← BitVec.toNat_inj]
    rfl
  dsimp only
  rw [hs]
  refine if_congr ((hall _).trans (by rw [he])) (if_congr ((hzero' _).trans (by rw [hm])) rfl rfl)
    (if_ctx_congr ((hzero _).trans (by rw [he])) (fun hexp => ?_) fun _ => ?_)
  · refine dite_congr (propext ((hzero' _).trans (by rw [hm]))) (fun _ => rfl) fun _ => ?_
    congr 1
    rw [he, hexp]
    rfl
  · congr 1
    · rw [BitVec.toNat_append, hm]
      have hlt : fraction x < 2 ^ 52 := fraction_lt _
      change 1 <<< 52 ||| fraction x = _
      rw [← Nat.shiftLeft_add_eq_or_of_lt hlt]
      omega
    · rw [he]
      rfl

/-- The parts of a double determine its bits. -/
theorem ext_bits {x y : Float} (hs : isNegative x = isNegative y)
    (he : biasedExponent x = biasedExponent y) (hm : fraction x = fraction y) : x = y := by
  have hbits : bitsNat x = bitsNat y := by
    have hsign : bitsNat x / 2 ^ 63 = 1 ↔ bitsNat y / 2 ^ 63 = 1 := by
      rw [← isNegative_iff, ← isNegative_iff, hs]
    rw [biasedExponent_eq, biasedExponent_eq] at he
    rw [fraction_eq, fraction_eq] at hm
    have hx := bitsNat_lt x
    have hy := bitsNat_lt y
    omega
  cases x with
  | ofModel x =>
    cases y with
    | ofModel y =>
      cases x
      cases y
      congr 2
      exact UInt64.toNat_inj.1 hbits

theorem sign_eq_iff {x y : Float} : sign x = sign y ↔ isNegative x = isNegative y := by
  unfold sign
  cases isNegative x <;> cases isNegative y <;> simp

/-- There is one double that is not a number. -/
theorem toBits_of_notANumber {x : Float} (h : x.toModel.unpack = .notANumber) :
    x.toBits.toBitVec = UnpackedFloat.packedNaN Format.binary64 := by
  rw [unpack_eq] at h
  have hparts : biasedExponent x = 2047 ∧ fraction x ≠ 0 := by
    split at h
    · split at h
      · cases h
      · exact ⟨‹_›, ‹_›⟩
    · split at h
      · split at h
        · cases h
        · cases h
      · cases h
  obtain ⟨he, hm⟩ := hparts
  let b : BitVec Format.binary64.numBits := x.toBits.toBitVec
  refine x.toModel.valid.eq_packedNaN ?_ ?_
  · refine BitVec.toNat_inj.1 ((toNat_unpackExponent b).trans ?_)
    rw [biasedExponent_eq] at he
    exact he
  · intro hzero
    have hmant := toNat_unpackMantissa b
    rw [fraction_eq] at hm
    exact hm (hmant.symm.trans (congrArg BitVec.toNat hzero))

/-- The sign, the exponent and the fraction that a double has, unless it is not a number. -/
def partsOf : UnpackedFloat → UnpackedFloat.Sign × Int × Nat
  | .notANumber => (.positive, 2047, 0)
  | .infinity s => (s, 2047, 0)
  | .zero s => (s, 0, 0)
  | .finite s m e _ => if m < 2 ^ 52 then (s, 0, m) else (s, e + 1075, m - 2 ^ 52)

theorem partsOf_unpack {x : Float} (h : x.toModel.unpack ≠ .notANumber) :
    partsOf x.toModel.unpack = (sign x, (biasedExponent x : Int), fraction x) := by
  have hlt : fraction x < 2 ^ 52 := fraction_lt _
  rw [unpack_eq] at h ⊢
  split
  · rename_i he
    split
    · rename_i hm
      rw [partsOf, he, hm]
      rfl
    · rename_i hm
      rw [if_pos he, if_neg hm] at h
      exact absurd rfl h
  · split
    · rename_i he
      split
      · rename_i hm
        rw [partsOf, he, hm]
        rfl
      · rw [partsOf, if_pos hlt, he]
        rfl
    · rw [partsOf, if_neg (by omega), Int.sub_add_cancel, Nat.add_sub_cancel]

/-- The parts of a double that is taken apart. -/
theorem parts_of_unpack_finite {x : Float} {s : UnpackedFloat.Sign} {m : Nat} {e : Int} {hm : 0 < m}
    (h : x.toModel.unpack = .finite s m e hm) : sign x = s ∧ magnitude x = ⟨m, e⟩ := by
  rw [unpack_eq] at h
  unfold magnitude
  split at h
  · split at h <;> cases h
  split at h
  · rename_i hzero
    split at h
    · cases h
    · obtain ⟨rfl, rfl, rfl⟩ := (UnpackedFloat.finite.injEq ..).mp h
      exact ⟨rfl, if_pos hzero⟩
  · rename_i hexponent
    obtain ⟨rfl, rfl, rfl⟩ := (UnpackedFloat.finite.injEq ..).mp h
    exact ⟨rfl, if_neg hexponent⟩

theorem eq_of_unpack_eq {x y : Float} (h : x.toModel.unpack = y.toModel.unpack) : x = y := by
  by_cases hnan : y.toModel.unpack = .notANumber
  · have hbits := (toBits_of_notANumber (h.trans hnan)).trans (toBits_of_notANumber hnan).symm
    cases x with
    | ofModel x =>
      cases y with
      | ofModel y =>
        cases x
        cases y
        congr 2
        exact UInt64.toBitVec_inj.1 hbits
  · have hparts := partsOf_unpack (h ▸ hnan)
    rw [h, partsOf_unpack hnan] at hparts
    simp only [Prod.mk.injEq, Int.ofNat_inj] at hparts
    exact ext_bits (sign_eq_iff.1 hparts.1.symm) hparts.2.1.symm hparts.2.2.symm

theorem unpack_eq_of_compare {u v : UnpackedFloat} (h : u.compare v = some .eq) :
    (∃ s t, u = .zero s ∧ v = .zero t) ∨ u = v := by
  cases u with
  | notANumber => cases h
  | infinity s =>
    cases v with
    | infinity t => cases s <;> cases t <;> first | exact .inr rfl | cases h
    | _ => cases s <;> cases h
  | zero s =>
    cases v with
    | zero t => exact .inl ⟨s, t, rfl, rfl⟩
    | infinity t => cases t <;> cases h
    | finite t _ _ _ => cases t <;> cases h
    | notANumber => cases h
  | finite s m e _ =>
    cases v with
    | infinity t => cases s <;> cases t <;> cases h
    | zero t => cases s <;> cases h
    | notANumber => cases s <;> cases h
    | finite t m' e' _ =>
      right
      have hsame : s = t ∧ compare e e' = .eq ∧ compare m m' = .eq := by
        cases s <;> cases t <;>
          simp_all [UnpackedFloat.compare, Ordering.then_eq_eq, Ordering.swap_eq_eq]
      obtain ⟨rfl, he, hm⟩ := hsame
      obtain rfl := compare_eq_iff_eq.1 he
      obtain rfl := compare_eq_iff_eq.1 hm
      rfl

theorem sign_of_unpack_zero {x : Float} {s : UnpackedFloat.Sign} (h : x.toModel.unpack = .zero s) :
    s = sign x := by
  have hparts := partsOf_unpack (x := x) (by rw [h]; exact UnpackedFloat.noConfusion)
  rw [h] at hparts
  exact congrArg Prod.fst hparts

/-- Doubles that compare as equal and have one sign are one double. -/
theorem eq_of_float_beq {x y : Float} (h : (x == y) = true) (hsign : isNegative x = isNegative y) :
    x = y := by
  refine eq_of_unpack_eq ?_
  have hcompare : x.toModel.unpack.compare y.toModel.unpack = some .eq := beq_iff_eq.1 h
  rcases unpack_eq_of_compare hcompare with ⟨s, t, hx, hy⟩ | heq
  · rw [hx, hy, sign_of_unpack_zero hx, sign_of_unpack_zero hy, sign_eq_iff.2 hsign]
  · exact heq

theorem unpack_of_isNaN {x : Float} (h : x.isNaN = true) : x.toModel.unpack = .notANumber := by
  change x.toModel.unpack.isNaN = true at h
  cases hx : x.toModel.unpack with
  | notANumber => rfl
  | _ => rw [hx] at h; cases h

/-- Values that are the same as data are equal. -/
theorem eq_of_sameValue {v w : Value} (h : v.sameValue w = true) : v = w := by
  unfold Value.sameValue at h
  split at h
  · rename_i a b
    simp only [Bool.or_eq_true, Bool.and_eq_true] at h
    rcases h with ⟨ha, hb⟩ | ⟨heq, hsign⟩
    · rw [eq_of_unpack_eq ((unpack_of_isNaN ha).trans (unpack_of_isNaN hb).symm)]
    · rw [eq_of_float_beq heq (beq_iff_eq.1 hsign)]
  · unfold Value.strictEquals at h
    split at h <;> simp_all

/-! ## Doubles of natural numbers -/

theorem log2_mul_two_pow {n : Nat} (hn : n ≠ 0) (k : Nat) : (n * 2 ^ k).log2 = n.log2 + k := by
  have hpos : 0 < 2 ^ k := Nat.two_pow_pos k
  have hbounds := (Nat.log2_eq_iff hn).1 rfl
  refine (Nat.log2_eq_iff (Nat.mul_ne_zero hn (Nat.ne_of_gt hpos))).2 ⟨?_, ?_⟩
  · rw [Nat.pow_add]
    exact Nat.mul_le_mul_right _ hbounds.1
  · rw [Nat.add_right_comm, Nat.pow_add]
    exact Nat.mul_lt_mul_of_pos_right hbounds.2 hpos

/-- A mantissa with all its digits, and an exponent in range. -/
structure Normal (m : Nat) (e : Int) : Prop where
  least : 2 ^ 52 ≤ m
  most : m < 2 ^ 53
  low : -1074 ≤ e
  high : e ≤ 971

theorem Normal.log2 {m : Nat} {e : Int} (h : Normal m e) : m.log2 = 52 := by
  have hm : m ≠ 0 := by
    have := h.least
    omega
  exact (Nat.log2_eq_iff hm).2 ⟨h.least, h.most⟩

/-- Zeros that are shifted out leave nothing behind. -/
theorem shiftRight_exact (m k : Nat) :
    (UnpackedFloat.ExtendedMantissa.mk (m * 2 ^ k) false false) >>> k = ⟨m, false, false⟩ := by
  change Nat.repeat _ k _ = _
  induction k generalizing m with
  | zero => simp [Nat.repeat]
  | succ k ih =>
    have hdouble : m * 2 ^ (k + 1) = (2 * m) * 2 ^ k := by ring
    rw [Nat.repeat, hdouble, ih]
    simp [UnpackedFloat.ExtendedMantissa.shiftRightOne]

theorem shiftToTargetExponent_exact {m : Nat} {e : Int} (h : Normal m e) (k : Nat) :
    UnpackedFloat.shiftToTargetExponent Format.binary64 (m * 2 ^ k) (e - k) .exact =
      (⟨m, false, false⟩, e) := by
  have hm : m ≠ 0 := by
    have := h.least
    omega
  have hlog : (m * 2 ^ k).log2 = 52 + k := by
    rw [log2_mul_two_pow hm, h.log2]
  have htotal : totalExponent (m * 2 ^ k) (e - k) = e + 53 := by
    rw [totalExponent, hlog]
    omega
  have htarget : Format.binary64.targetExponent (e + 53) = e := by
    have hlow := h.low
    change max (e + 53 - (1 + 52 : Nat)) (3 - 2 ^ 10 - (1 + 52 : Nat) : Int) = e
    omega
  have hshift : (e - (e - (k : Int))).toNat = k := by omega
  unfold UnpackedFloat.shiftToTargetExponent UnpackedFloat.shiftToExponent
  dsimp only
  rw [htotal, htarget, hshift, UnpackedFloat.ExtendedMantissa.ofMantissaAndAccuracy,
    shiftRight_exact]
  simp

theorem roundWithAccuracy_exact {m : Nat} {e : Int} (h : Normal m e) (s : UnpackedFloat.Sign)
    (k : Nat) (hm : 0 < m) :
    UnpackedFloat.roundWithAccuracy Format.binary64 s (m * 2 ^ k) (e - k) .exact =
      .finite s m e hm := by
  have hagain := shiftToTargetExponent_exact h 0
  rw [Nat.pow_zero, Nat.mul_one, Int.natCast_zero, Int.sub_zero] at hagain
  unfold UnpackedFloat.roundWithAccuracy
  rw [shiftToTargetExponent_exact h k]
  simp only [UnpackedFloat.ExtendedMantissa.roundedMantissa,
    UnpackedFloat.ExtendedMantissa.accuracy, UnpackedFloat.Accuracy.roundToNearestEven, hagain]
  rw [dif_neg (Nat.ne_of_gt hm)]

theorem toNat_packComponents (s : UnpackedFloat.Sign) (e : BitVec 11) (m : BitVec 52) :
    (UnpackedFloat.packComponents Format.binary64 s e m).toNat =
      s.toBitVec.toNat * 2 ^ 63 + e.toNat * 2 ^ 52 + m.toNat := by
  unfold UnpackedFloat.packComponents
  have he := e.isLt
  have hm := m.isLt
  rw [BitVec.toNat_append, BitVec.toNat_append, ← Nat.shiftLeft_add_eq_or_of_lt hm,
    ← Nat.shiftLeft_add_eq_or_of_lt he, Nat.shiftLeft_eq, Nat.shiftLeft_eq]
  ring

theorem toNat_toBitVec_eq_one_iff (s : UnpackedFloat.Sign) :
    s.toBitVec.toNat = 1 ↔ s = .negative := by
  cases s
  · exact iff_of_true rfl rfl
  · exact iff_of_false (by decide) UnpackedFloat.Sign.noConfusion

theorem sign_of_bits {x : Float} {s : UnpackedFloat.Sign} {rest : Nat}
    (h : bitsNat x = s.toBitVec.toNat * 2 ^ 63 + rest) (hrest : rest < 2 ^ 63) : sign x = s := by
  have hbit : isNegative x = true ↔ s = .negative := by
    rw [isNegative_iff, h, ← toNat_toBitVec_eq_one_iff]
    omega
  unfold sign
  cases s with
  | positive =>
    rw [if_neg (fun hneg => by cases hbit.1 hneg)]
  | negative => rw [if_pos (hbit.2 rfl)]

/-- A normal double is taken apart as it was put together. -/
theorem unpack_pack {m : Nat} {e : Int} (h : Normal m e) (s : UnpackedFloat.Sign) (hm : 0 < m) :
    (pack (.finite s m e hm)).unpack = .finite s m e hm := by
  let x : Float := ⟨pack (.finite s m e hm)⟩
  have hleast := h.least
  have hmost := h.most
  have hlow := h.low
  have hhigh := h.high
  obtain ⟨b, hb⟩ : ∃ b : Nat, (b : Int) = e + 1075 := ⟨(e + 1075).toNat, by omega⟩
  have hbits : bitsNat x = s.toBitVec.toNat * 2 ^ 63 + (b * 2 ^ 52 + (m - 2 ^ 52)) := by
    have hbiased : (e + (Format.binary64.exponentBias : Int) +
        (Format.binary64.mantissaBitsWithoutImplicit : Int)).toNat = b := by
      change (e + (1023 : Nat) + (52 : Nat)).toNat = b
      omega
    change (UnpackedFloat.pack Format.binary64 (.finite s m e hm)).toNat = _
    unfold UnpackedFloat.pack
    dsimp only
    rw [hbiased, h.log2, if_neg (by omega), if_pos (by rfl),
      toNat_packComponents, BitVec.toNat_ofNat, BitVec.toNat_ofNat,
      Nat.mod_eq_of_lt (show b < 2 ^ 11 by omega)]
    have hfraction : m % 2 ^ 52 = m - 2 ^ 52 := by omega
    rw [hfraction]
    omega
  have hsign : sign x = s := sign_of_bits hbits (by omega)
  have hbit : s.toBitVec.toNat < 2 := s.toBitVec.isLt
  have hexp : biasedExponent x = b := by
    rw [biasedExponent_eq, hbits]
    omega
  have hfraction : fraction x = m - 2 ^ 52 := by
    rw [fraction_eq, hbits]
    omega
  have hunpack := unpack_eq x
  rw [if_neg (by omega), if_neg (by omega)] at hunpack
  refine hunpack.trans ?_
  congr 1
  · omega
  · omega

/-- The digits of a natural number of at most 53 digits, moved up to the full width. -/
theorem normal_ofNat {n : Nat} (hpos : 0 < n) (hn : n < 2 ^ 53) :
    Normal (n * 2 ^ (52 - n.log2)) (-((52 - n.log2 : Nat) : Int)) := by
  have hlog : n.log2 ≤ 52 := Nat.lt_succ_iff.1 ((Nat.log2_lt (Nat.ne_of_gt hpos)).2 hn)
  have hbounds := (Nat.log2_eq_iff (Nat.ne_of_gt hpos)).1 rfl
  constructor
  · calc 2 ^ 52 = 2 ^ n.log2 * 2 ^ (52 - n.log2) := by rw [← Nat.pow_add]; congr 1; omega
      _ ≤ n * 2 ^ (52 - n.log2) := Nat.mul_le_mul_right _ hbounds.1
  · calc n * 2 ^ (52 - n.log2) < 2 ^ (n.log2 + 1) * 2 ^ (52 - n.log2) :=
          Nat.mul_lt_mul_of_pos_right hbounds.2 (Nat.two_pow_pos _)
      _ = 2 ^ 53 := by rw [← Nat.pow_add]; congr 1; omega
  · omega
  · omega

/-- A natural number of at most 53 digits as a double. -/
theorem unpack_ofNat {n : Nat} (hpos : 0 < n) (hn : n < 2 ^ 53) :
    ∃ h, (Float.ofNat n).toModel.unpack =
      .finite .positive (n * 2 ^ (52 - n.log2)) (-((52 - n.log2 : Nat) : Int)) h := by
  have hlog : n.log2 ≤ 52 := Nat.lt_succ_iff.1 ((Nat.log2_lt (Nat.ne_of_gt hpos)).2 hn)
  have hnormal := normal_ofNat hpos hn
  have hm := Nat.lt_of_lt_of_le (Nat.two_pow_pos 52) hnormal.least
  have hround : UnpackedFloat.round Format.binary64 .positive n 0 =
      .finite .positive (n * 2 ^ (52 - n.log2)) (-((52 - n.log2 : Nat) : Int)) hm := by
    have htarget : Format.binary64.targetExponent (totalExponent n 0) =
        -((52 - n.log2 : Nat) : Int) := by
      change max ((n.log2 : Int) + 1 + 0 - (1 + 52 : Nat)) (3 - 2 ^ 10 - (1 + 52 : Nat) : Int) = _
      omega
    have hshift : ((0 : Int) - -((52 - n.log2 : Nat) : Int)).toNat = 52 - n.log2 := by omega
    have hexact := roundWithAccuracy_exact hnormal .positive 0 hm
    rw [Nat.pow_zero, Nat.mul_one, Int.natCast_zero, Int.sub_zero] at hexact
    unfold UnpackedFloat.round UnpackedFloat.decreaseExponent
    dsimp only
    rw [htarget, hshift, Nat.shiftLeft_eq, Int.zero_sub]
    exact hexact
  have hword : UnpackedFloat.ofUInt64 Format.binary64 n.toUInt64 =
      .finite .positive (n * 2 ^ (52 - n.log2)) (-((52 - n.log2 : Nat) : Int)) hm := by
    have hvalue : n.toUInt64.toNat = n := Nat.mod_eq_of_lt (Nat.lt_trans hn (by decide))
    have hcompare : compare (n : Int) 0 = .gt := compare_gt_iff_gt.2 (by omega)
    unfold UnpackedFloat.ofUInt64 UnpackedFloat.ofNat UnpackedFloat.ofInt UnpackedFloat.normalize
    rw [hvalue, hcompare]
    exact hround
  have hone : (Float.ofBits 4607182418800017408).toModel.unpack =
      .finite .positive (2 ^ 52) (-52) (by decide) := by
    rfl
  have hprod : Float.ofNat n = ⟨pack (.finite .positive (n * 2 ^ (52 - n.log2))
      (-((52 - n.log2 : Nat) : Int)) hm)⟩ := by
    change Float.ofScientific n false 0 = _
    unfold Float.ofScientific
    rw [dif_pos ⟨hn, by decide⟩]
    change Float.mul n.toUInt64.toFloat (Float.ofBits 4607182418800017408) = _
    unfold Float.mul
    change Float.ofModel (pack (UnpackedFloat.mul _ (pack _).unpack _)) = _
    rw [hone, hword, unpack_pack hnormal]
    have hexact := roundWithAccuracy_exact hnormal .positive 52 hm
    congr 2
  refine ⟨hm, ?_⟩
  rw [hprod]
  exact unpack_pack hnormal _ hm

/-- The mantissa and the exponent of a natural number are determined by it. -/
theorem Normal.eq_of_floor {m n : Nat} {e : Int} (h : Normal m e)
    (hintegral : (Dyadic.mk m e).isIntegral = true) (hfloor : (Dyadic.mk m e).floor = n)
    (hn : n < 2 ^ 53) :
    0 < n ∧ n * 2 ^ (52 - n.log2) = m ∧ -((52 - n.log2 : Nat) : Int) = e := by
  have hlog := h.log2
  have hleast := h.least
  cases e with
  | ofNat k =>
    change m <<< k = n at hfloor
    rw [Nat.shiftLeft_eq] at hfloor
    have hk : k = 0 := by
      by_contra hk
      have htwo : 2 ≤ 2 ^ k := Nat.le_self_pow hk 2
      have : 2 ^ 52 * 2 ≤ m * 2 ^ k := Nat.mul_le_mul hleast htwo
      omega
    subst hk
    rw [Nat.pow_zero, Nat.mul_one] at hfloor
    subst hfloor
    rw [hlog]
    exact ⟨by omega, by omega, rfl⟩
  | negSucc k =>
    change (m % 2 ^ (k + 1) == 0) = true at hintegral
    change m >>> (k + 1) = n at hfloor
    rw [Nat.shiftRight_eq_div_pow] at hfloor
    have hm : m = n * 2 ^ (k + 1) := by
      rw [← hfloor]
      exact (Nat.div_mul_cancel (Nat.dvd_of_mod_eq_zero (beq_iff_eq.1 hintegral))).symm
    have hpos : 0 < n := by
      rcases Nat.eq_zero_or_pos n with rfl | hpos
      · omega
      · exact hpos
    have hlogn : n.log2 + (k + 1) = 52 := by
      rw [← hlog, hm, log2_mul_two_pow (Nat.ne_of_gt hpos)]
    refine ⟨hpos, ?_, ?_⟩
    · rw [hm]
      congr 2
      omega
    · omega

/-- A number below one has no integral part but zero. -/
theorem eq_zero_of_isIntegral {m k : Nat} (h : (Dyadic.mk m (.negSucc k)).isIntegral = true)
    (hk : 52 ≤ k) (hm : m < 2 ^ 52) : m = 0 := by
  change (m % 2 ^ (k + 1) == 0) = true at h
  rw [← beq_iff_eq.1 h]
  refine (Nat.mod_eq_of_lt (Nat.lt_of_lt_of_le hm ?_)).symm
  exact Nat.pow_le_pow_right (by decide) (by omega)

/-- A double that is a natural number of at most 53 digits, and not minus zero, is the double of that
number. -/
theorem ofNat_of_toNat? {x : Float} {n : Nat} (hsign : isNegative x = false)
    (h : toNat? x = some n) (hn : n < 2 ^ 53) : ofNat n = x := by
  unfold toNat? isIntegral at h
  rw [hsign] at h
  simp only [Bool.not_false, Bool.true_or, Bool.and_true, Option.ite_none_right_eq_some,
    Option.some.injEq, Bool.and_eq_true] at h
  obtain ⟨⟨hfinite, hintegral⟩, hfloor⟩ := h
  have hs : sign x = .positive := by
    unfold sign
    rw [hsign]
    rfl
  have hlt : fraction x < 2 ^ 52 := fraction_lt _
  rw [ofNat, if_pos (show n < Nat.pow 2 53 from hn)]
  refine eq_of_unpack_eq ?_
  have hexp : biasedExponent x ≠ 2047 := by
    intro hexp
    change x.toModel.unpack.isFinite = true at hfinite
    rw [unpack_eq, if_pos hexp] at hfinite
    split at hfinite <;> cases hfinite
  have hrange : biasedExponent x < 2048 := by
    rw [biasedExponent_eq]
    exact Nat.mod_lt _ (by decide)
  rw [unpack_eq x, if_neg hexp, hs]
  unfold magnitude at hintegral hfloor
  by_cases hzero : biasedExponent x = 0
  · rw [if_pos hzero] at hintegral hfloor ⊢
    have hfraction : fraction x = 0 := eq_zero_of_isIntegral (k := 1073) hintegral (by decide) hlt
    rw [dif_pos hfraction]
    rw [hfraction] at hfloor
    have hn0 : n = 0 := by
      rw [← hfloor]
      exact Nat.zero_shiftRight 1074
    subst hn0
    rfl
  · rw [if_neg hzero] at hintegral hfloor ⊢
    have hnormal : Normal (fraction x + 2 ^ 52) ((biasedExponent x : Int) - 1075) :=
      ⟨by omega, by omega, by omega, by omega⟩
    obtain ⟨hpos, hm, he⟩ := hnormal.eq_of_floor hintegral hfloor hn
    obtain ⟨hpos', hunpack⟩ := unpack_ofNat hpos hn
    rw [hunpack]
    congr 1

/-! ## Doubles without a sign -/

/-- A double that is not negative, or is no number. -/
def NonNeg (u : UnpackedFloat) : Prop := (partsOf u).1 = .positive

theorem nonNeg_roundWithAccuracy (m : Nat) (e : Int) (a : UnpackedFloat.Accuracy) :
    NonNeg (UnpackedFloat.roundWithAccuracy Format.binary64 .positive m e a) := by
  unfold UnpackedFloat.roundWithAccuracy
  dsimp only
  split
  · rfl
  · unfold NonNeg partsOf
    dsimp only
    split
    · rfl
    · rfl

theorem NonNeg.cases {u : UnpackedFloat} (h : NonNeg u) : u = .notANumber ∨ u = .infinity .positive ∨
    u = .zero .positive ∨ ∃ m e hm, u = .finite .positive m e hm := by
  cases u with
  | notANumber => exact .inl rfl
  | infinity s => exact .inr (.inl (congrArg _ h))
  | zero s => exact .inr (.inr (.inl (congrArg _ h)))
  | finite s m e hm =>
    obtain rfl : s = .positive := by
      unfold NonNeg partsOf at h
      dsimp only at h
      split at h
      · exact h
      · exact h
    exact .inr (.inr (.inr ⟨m, e, hm, rfl⟩))

theorem NonNeg.mul {u v : UnpackedFloat} (hu : NonNeg u) (hv : NonNeg v) :
    NonNeg (UnpackedFloat.mul Format.binary64 u v) := by
  rcases hu.cases with rfl | rfl | rfl | ⟨m, e, hm, rfl⟩ <;>
    rcases hv.cases with rfl | rfl | rfl | ⟨m', e', hm', rfl⟩ <;>
    first | rfl | exact nonNeg_roundWithAccuracy _ _ _

theorem isNegative_pack {u : UnpackedFloat} (h : NonNeg u) : isNegative ⟨pack u⟩ = false := by
  have hpositive : ∀ (e : BitVec 11) (m : BitVec 52),
      UnpackedFloat.pack Format.binary64 u =
        UnpackedFloat.packComponents Format.binary64 .positive e m →
      isNegative ⟨pack u⟩ = false := by
    intro e m hu
    rw [← Bool.not_eq_true, isNegative_iff]
    change ¬ (UnpackedFloat.pack Format.binary64 u).toNat / 2 ^ 63 = 1
    rw [hu, toNat_packComponents]
    have he := e.isLt
    have hm := m.isLt
    change ¬ (0 * 2 ^ 63 + _ + _) / 2 ^ 63 = 1
    omega
  rcases h.cases with rfl | rfl | rfl | ⟨m, e, hm, rfl⟩
  · exact hpositive _ _ rfl
  · exact hpositive _ _ rfl
  · exact hpositive _ _ rfl
  · have hpack : ∃ e' m', UnpackedFloat.pack Format.binary64 (.finite .positive m e hm) =
        UnpackedFloat.packComponents Format.binary64 .positive e' m' := by
      unfold UnpackedFloat.pack
      dsimp only
      split
      · exact ⟨_, _, rfl⟩
      · split
        · exact ⟨_, _, rfl⟩
        · exact ⟨_, _, rfl⟩
    obtain ⟨e', m', heq⟩ := hpack
    exact hpositive e' m' heq

theorem nonNeg_unpack {x : Float} (h : isNegative x = false) : NonNeg x.toModel.unpack := by
  by_cases hnan : x.toModel.unpack = .notANumber
  · rw [hnan]
    rfl
  · unfold NonNeg
    rw [partsOf_unpack hnan]
    change sign x = .positive
    unfold sign
    rw [h]
    rfl

theorem isNegative_mul {x y : Float} (hx : isNegative x = false) (hy : isNegative y = false) :
    isNegative (x * y) = false :=
  isNegative_pack ((nonNeg_unpack hx).mul (nonNeg_unpack hy))

theorem nonNeg_ofScientific (m : Nat) (e : Int) :
    NonNeg (UnpackedFloat.ofScientific Format.binary64 m e) := by
  unfold UnpackedFloat.ofScientific
  split
  · rfl
  · split
    · rfl
    · split
      · rfl
      · split
        · exact nonNeg_roundWithAccuracy _ _ _
        · exact nonNeg_roundWithAccuracy _ _ _

theorem isNegative_one : isNegative (Float.ofBits 4607182418800017408) = false := by
  decide

theorem isNegative_infinity : isNegative infinity = false := by
  decide

theorem isNegative_floatOfNat (n : Nat) : isNegative (Float.ofNat n) = false := by
  change isNegative (Float.ofScientific n false 0) = false
  unfold Float.ofScientific
  split
  · refine isNegative_mul (isNegative_pack ?_) isNegative_one
    unfold UnpackedFloat.ofUInt64 UnpackedFloat.ofNat UnpackedFloat.ofInt UnpackedFloat.normalize
    split
    · rename_i hcompare
      exact absurd (compare_lt_iff_lt.1 hcompare) (by omega)
    · rfl
    · exact nonNeg_roundWithAccuracy _ _ _
  · exact isNegative_pack (nonNeg_ofScientific _ _)

theorem isNegative_ofBits {b : UInt64} (h : b.toNat < 2 ^ 63) :
    isNegative (Float.ofBits b) = false := by
  refine isNegative_pack ?_
  let c : BitVec Format.binary64.numBits := b.toBitVec
  have hs : UnpackedFloat.Sign.ofBitVec (UnpackedFloat.unpackSign c) = .positive := by
    have hbit : UnpackedFloat.unpackSign c = 0#1 := by
      refine BitVec.toNat_inj.1 ?_
      rw [toNat_unpackSign]
      exact Nat.div_eq_of_lt h
    rw [hbit]
    rfl
  change NonNeg (UnpackedFloat.unpack Format.binary64 c)
  unfold UnpackedFloat.unpack
  dsimp only
  rw [hs]
  split
  · split
    · rfl
    · rfl
  · split
    · split
      · rfl
      · unfold NonNeg partsOf
        dsimp only
        split
        · rfl
        · rfl
    · unfold NonNeg partsOf
      dsimp only
      split
      · rfl
      · rfl

theorem isNegative_twoPow {e : Int} (hlow : -1022 ≤ e) (hhigh : e ≤ 1023) :
    isNegative (twoPow e) = false := by
  unfold twoPow
  rw [if_neg (by omega)]
  refine isNegative_ofBits ?_
  rw [UInt64.toNat_shiftLeft]
  have hexp : (e + 1023).toNat.toUInt64.toNat = (e + 1023).toNat := Nat.mod_eq_of_lt (by omega)
  rw [hexp, Nat.shiftLeft_eq]
  change (e + 1023).toNat * 2 ^ 52 % 2 ^ 64 < 2 ^ 63
  omega

/-- No natural number is the double minus zero. -/
theorem isNegative_ofNat (n : Nat) : isNegative (ofNat n) = false := by
  unfold ofNat
  split
  · exact isNegative_floatOfNat n
  · rename_i hn
    have hn : 2 ^ 53 ≤ n := Nat.le_of_not_lt hn
    have hlog : 53 ≤ n.log2 := (Nat.le_log2 (by omega)).2 hn
    have hlow : 0 ≤ lastBinaryPlace n 1 := by
      have hone : Nat.log2 1 = 0 := by decide
      unfold lastBinaryPlace
      dsimp only
      rw [hone]
      split <;> omega
    have hite : ∀ (c : Bool) (x : Float), (c = false → isNegative x = false) →
        isNegative (if c = true then infinity else x) = false := by
      intro c x hx
      cases c with
      | true => exact isNegative_infinity
      | false => exact hx rfl
    unfold nearest
    rw [if_neg (by omega)]
    refine hite _ _ fun hplace => ?_
    simp only [Bool.or_eq_false_iff, decide_eq_false_iff_not] at hplace
    have hpower : isNegative (twoPow (lastBinaryPlace n 1)) = false :=
      isNegative_twoPow (by omega) (by omega)
    exact isNegative_mul (isNegative_floatOfNat _) hpower

end ScriptMachine.Number
