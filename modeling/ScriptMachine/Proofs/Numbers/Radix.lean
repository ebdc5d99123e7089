import Mathlib.Data.Nat.Digits.Defs
import ScriptMachine.Number.Text
import ScriptMachine.Proofs.JsonRoundTrip
import ScriptMachine.Proofs.Numbers.Words

/-!
# Integers in a radix

The digits of an integer below `2 ^ 53` come from quotients that are rounded to doubles. A quotient is
never rounded up to the next integer, so the digits are exact, and reading them gives the integer
again. Main statement: `radix_text_read_back`.
-/

namespace ScriptMachine.Number

open Float.Model ScriptMachine.Text

variable {x y : Float} {n d k radix : Nat} {e : Int}

/-! ## Doubles of integers -/

/-- Finite doubles of one value and one sign are the same. -/
theorem eq_of_toRat (hx : x.isFinite = true) (hy : y.isFinite = true) (h : toRat x = toRat y)
    (hsign : isNegative x = isNegative y) : x = y := by
  refine eq_of_float_beq ?_ hsign
  change (x.toModel.unpack.compare y.toModel.unpack == some .eq) = true
  rw [compare_eq_toRat hx hy, h, compare_eq_iff_eq.2 rfl]
  rfl

theorem toRat_abs (hx : x.isFinite = true) :
    x.abs.isFinite = true ∧ toRat x.abs = |toRat x| ∧ isNegative x.abs = false := by
  have habs (u : UnpackedFloat) (hu : x.toModel.unpack = u) :
      x.abs = ⟨pack (UnpackedFloat.abs u)⟩ := by
    rw [← hu]
    rfl
  rcases cases_of_isFinite hx with hzero | ⟨m, e, hm, hunpack, hcanonical, he⟩
  · have hpacked := unpack_zero_of_eq (habs _ hzero)
    refine ⟨isFinite_of_unpack_zero hpacked, ?_, ?_⟩
    · rw [toRat_of_unpack_zero hpacked, toRat_of_unpack_zero hzero, abs_zero]
    · exact isNegative_eq_of_sign (b := false) (sign_of_unpack_zero hpacked).symm
  · have hpacked : x.abs.toModel.unpack = .finite .positive m e hm := by
      rw [habs _ hunpack]
      exact unpack_pack_canonical hcanonical he .positive hm
    refine ⟨isFinite_of_unpack hpacked, ?_, ?_⟩
    · rw [toRat_of_unpack hpacked, abs_toRat hunpack]
      rfl
    · exact isNegative_eq_of_sign (b := false) (parts_of_unpack_finite hpacked).1

/-- The magnitude of an integer. -/
theorem abs_eq_ofNat {i : Int} (hx : x.isFinite = true) (h : toRat x = i)
    (hi : i.natAbs < 2 ^ 53) : x.abs = ofNat i.natAbs := by
  obtain ⟨hfinite, hvalue, hsign⟩ := toRat_abs hx
  obtain ⟨hfinite', hvalue'⟩ := toRat_ofNat hi
  refine eq_of_toRat hfinite hfinite' ?_ (hsign.trans (isNegative_ofNat _).symm)
  rw [hvalue, hvalue', h, Nat.cast_natAbs, Int.cast_abs]

theorem floor_magnitude (hsign : isNegative x = false) :
    ((magnitude x).floor : Int) = ⌊toRat x⌋ := by
  rw [toRat_eq_of_sign x, hsign, if_neg Bool.false_ne_true, Dyadic.floor_toRat]

theorem trunc_ofNat (hn : n < 2 ^ 53) : trunc (ofNat n) = ofNat n := by
  have hvalue := (toRat_ofNat hn).2
  have hintegral : (magnitude (ofNat n)).isIntegral = true := by
    rw [← Dyadic.toRat_eq_floor_iff, floor_ofNat hn]
    rwa [toRat_eq_of_sign, isNegative_ofNat, if_neg Bool.false_ne_true] at hvalue
  unfold trunc
  rw [hintegral, Bool.or_true, if_pos rfl]

/-- A finite double less itself is zero. -/
theorem sub_self_of_isFinite (hx : x.isFinite = true) : (x - x).toModel.unpack = .zero .positive := by
  have hsub (u : UnpackedFloat) (hu : x.toModel.unpack = u) :
      x - x = ⟨pack (UnpackedFloat.sub Format.binary64 u u)⟩ := by
    rw [← hu]
    rfl
  apply unpack_zero_of_eq
  rcases cases_of_isFinite hx with hzero | ⟨m, e, hm, hunpack, -, -⟩
  · rw [hsub _ hzero]
    cases sign x <;> rfl
  · rw [hsub _ hunpack]
    unfold UnpackedFloat.sub UnpackedFloat.normalize
    dsimp only
    rw [Int.sub_self]
    rfl

/-! ## Quotients -/

/-- Less than half a unit above a natural number is rounded down to it. -/
theorem roundDiv_le_of_near {q : Nat} (h : 2 * n < (2 * q + 1) * d) : roundDiv n d ≤ q := by
  rcases Nat.eq_zero_or_pos d with rfl | hd
  · omega
  have hlt : n / d ≤ q := by
    rw [← Nat.lt_succ_iff, Nat.div_lt_iff_lt_mul hd, Nat.succ_mul]
    nlinarith
  have hsplit := Nat.div_add_mod n d
  rcases Nat.lt_or_eq_of_le hlt with hlt | heq
  · exact Nat.le_trans (roundDiv_bounds n d).2 hlt
  · have hrest : 2 * (n % d) < d := by
      rw [heq] at hsplit
      nlinarith
    unfold roundDiv
    rw [if_pos hrest, heq]

theorem lt_of_not_reaches {num den : Nat} (h : reaches num den (53 - (k : Int)) = false) :
    num * 2 ^ k < den * 2 ^ 53 := by
  unfold reaches at h
  split at h
  · rename_i j hj
    rw [Int.ofNat_eq_natCast] at hj
    rw [decide_eq_false_iff_not, Nat.not_le, Nat.shiftLeft_eq] at h
    have hsum : j + k = 53 := by omega
    calc num * 2 ^ k < den * 2 ^ j * 2 ^ k := Nat.mul_lt_mul_of_pos_right h (Nat.two_pow_pos k)
      _ = den * 2 ^ 53 := by rw [Nat.mul_assoc, ← Nat.pow_add, hsum]
  · rename_i j hj
    rw [decide_eq_false_iff_not, Nat.not_le, Nat.shiftLeft_eq] at h
    have hsum : k = j + 1 + 53 := by omega
    calc num * 2 ^ k = num * 2 ^ (j + 1) * 2 ^ 53 := by rw [hsum, Nat.pow_add, Nat.mul_assoc]
      _ < den * 2 ^ 53 := Nat.mul_lt_mul_of_pos_right h (by decide)

/-- The places that are kept of a quotient: it has at most 53 binary digits there, and the last of
them is worth less than the divisor can tell apart. -/
theorem exists_lastBinaryPlace (hn : 0 < n) (hlt : n < 2 ^ 53) (hd : 2 ≤ d) (hd' : d ≤ 36) :
    ∃ k : Nat, lastBinaryPlace n d = -(k : Int) ∧ 0 < k ∧ k < 64 ∧ d < 2 ^ (k + 1) ∧
      n * 2 ^ k < d * 2 ^ 53 := by
  have hlogn : n.log2 ≤ 52 := Nat.lt_succ_iff.1 ((Nat.log2_lt (by omega)).2 hlt)
  have hlogd : d.log2 ≤ 5 := Nat.lt_succ_iff.1 ((Nat.log2_lt (by omega)).2 (by omega))
  have hlogd' : 1 ≤ d.log2 := le_log2 (by omega)
  have hupper : d < 2 ^ (d.log2 + 1) := ((Nat.log2_eq_iff (by omega)).1 rfl).2
  have hbits : n < 2 ^ (n.log2 + 1) := ((Nat.log2_eq_iff (by omega)).1 rfl).2
  have hlower : 2 ^ d.log2 ≤ d := ((Nat.log2_eq_iff (by omega)).1 rfl).1
  have hsmall {k : Nat} (hk : d.log2 ≤ k) : d < 2 ^ (k + 1) :=
    Nat.lt_of_lt_of_le hupper (Nat.pow_le_pow_right (by decide) (by omega))
  cases hreach : reaches n d ((n.log2 : Int) - d.log2 - 53 + 53) with
  | true =>
    have hplace : lastBinaryPlace n d = -((52 - n.log2 + d.log2 : Nat) : Int) := by
      unfold lastBinaryPlace
      dsimp only
      rw [hreach, if_pos rfl]
      omega
    refine ⟨_, hplace, by omega, by omega, hsmall (by omega), ?_⟩
    calc n * 2 ^ (52 - n.log2 + d.log2) < 2 ^ (n.log2 + 1) * 2 ^ (52 - n.log2 + d.log2) :=
          Nat.mul_lt_mul_of_pos_right hbits (Nat.two_pow_pos _)
      _ = 2 ^ d.log2 * 2 ^ 53 := by
          rw [← Nat.pow_add, ← Nat.pow_add]
          congr 1
          omega
      _ ≤ d * 2 ^ 53 := Nat.mul_le_mul_right _ hlower
  | false =>
    have hplace : lastBinaryPlace n d = -((53 - n.log2 + d.log2 : Nat) : Int) := by
      unfold lastBinaryPlace
      dsimp only
      rw [hreach, if_neg Bool.false_ne_true]
      omega
    refine ⟨_, hplace, by omega, by omega, hsmall (by omega), lt_of_not_reaches ?_⟩
    rw [← hreach]
    congr 1
    omega

/-- The double nearest to a quotient has the integer part of the quotient. -/
theorem floor_nearest (hn : 0 < n) (hlt : n < 2 ^ 53) (hd : 2 ≤ d) (hd' : d ≤ 36) :
    (magnitude (nearest n d)).floor = n / d := by
  obtain ⟨k, hplace, hk, hk', hdk, hbits⟩ := exists_lastBinaryPlace hn hlt hd hd'
  obtain ⟨j, rfl⟩ : ∃ j, k = j + 1 := ⟨k - 1, by omega⟩
  have hsplit := Nat.div_add_mod n d
  have hrest := Nat.mod_lt n (by omega : 0 < d)
  have hpow := Nat.two_pow_pos (j + 1)
  generalize hkept : roundDiv (n * 2 ^ (j + 1)) d = kept
  have hleast : n / d * 2 ^ (j + 1) ≤ kept := by
    rw [← hkept]
    refine le_roundDiv_of_le (by omega) ?_
    rw [Nat.mul_right_comm]
    exact Nat.mul_le_mul_right _ (Nat.div_mul_le_self n d)
  -- The quotient is at least one part in the divisor below the next integer.
  have hmost : kept ≤ (n / d + 1) * 2 ^ (j + 1) - 1 := by
    rw [← hkept]
    refine roundDiv_le_of_near ?_
    obtain ⟨t, ht⟩ : ∃ t, (n / d + 1) * 2 ^ (j + 1) = t + 1 :=
      ⟨_, (Nat.sub_add_cancel (Nat.mul_pos (Nat.succ_pos _) hpow)).symm⟩
    have hnext : n + 1 ≤ (n / d + 1) * d := by
      rw [Nat.add_mul, Nat.mul_comm (n / d)]
      omega
    have hscaled : (n + 1) * 2 ^ (j + 1) ≤ (t + 1) * d := by
      rw [← ht, Nat.mul_right_comm]
      exact Nat.mul_le_mul_right _ hnext
    rw [ht, Nat.add_sub_cancel]
    have hpower : 2 ^ (j + 1 + 1) = 2 * 2 ^ (j + 1) := Nat.pow_succ'
    nlinarith
  have hfits : kept ≤ 2 ^ 53 := by
    rw [← hkept]
    refine roundDiv_le_of_le (by omega) ?_
    rw [Nat.mul_comm (2 ^ 53)]
    exact Nat.le_of_lt hbits
  have hnearest : nearest n d = ofDyadic ⟨kept, -((j + 1 : Nat) : Int)⟩ := by
    unfold nearest
    rw [if_neg (by omega), hplace]
    change (if _ then infinity else ofDyadic ⟨roundDiv (n <<< (j + 1)) d, _⟩) = _
    rw [Nat.shiftLeft_eq, hkept, if_neg]
    simp
    omega
  obtain ⟨hfinite, hvalue⟩ := toRat_ofDyadic (m := kept) (e := -((j + 1 : Nat) : Int)) hfits
    (by omega) (by omega) (by omega)
  have hsign : isNegative (ofDyadic ⟨kept, -((j + 1 : Nat) : Int)⟩) = false :=
    isNegative_mul (isNegative_floatOfNat _)
      (isNegative_twoPow (e := -((j + 1 : Nat) : Int)) (by omega) (by omega))
  have hfloor := floor_magnitude hsign
  rw [hvalue, zpow_neg, zpow_natCast, ← div_eq_mul_inv] at hfloor
  rw [hnearest]
  have hquotient : ⌊(kept : ℚ) / 2 ^ (j + 1)⌋ = (n / d : Nat) := by
    have hpos : (0 : ℚ) < 2 ^ (j + 1) := by positivity
    rw [Int.floor_eq_iff, le_div_iff₀ hpos, div_lt_iff₀ hpos]
    constructor
    · exact_mod_cast hleast
    · have hlt' : kept < (n / d + 1) * 2 ^ (j + 1) :=
        Nat.lt_of_le_of_lt hmost (Nat.sub_lt (Nat.mul_pos (Nat.succ_pos _) hpow) Nat.one_pos)
      exact_mod_cast hlt'
  rw [hquotient] at hfloor
  exact_mod_cast hfloor

/-! ## Digits -/

/-- The digits of a natural number in a radix, the most significant one first. -/
def digitsOf (radix n : Nat) : List Nat :=
  if n = 0 then [0] else (Nat.digits radix n).reverse

/-- How the digits of a natural number are written. -/
def digitText (radix n : Nat) : List Char := (digitsOf radix n).map digitChar

theorem map_digits_step (hradix : 2 ≤ radix) (hn : 0 < n) (acc : List Char) :
    ((Nat.digits radix n).reverse.map digitChar) ++ acc =
      ((Nat.digits radix (n / radix)).reverse.map digitChar) ++ digitChar (n % radix) :: acc := by
  rw [Nat.digits_def' hradix hn]
  simp

/-- Rounded quotients give the digits of an integer. -/
theorem radixDigits_eq (hradix : 2 ≤ radix) (hradix' : radix ≤ 36) (hn : n < 2 ^ 53) {fuel : Nat}
    (hfuel : n < 2 ^ fuel) (acc : List Char) :
    radixDigits radix fuel n acc = (Nat.digits radix n).reverse.map digitChar ++ acc := by
  induction fuel generalizing n acc with
  | zero =>
    obtain rfl : n = 0 := by omega
    rw [radixDigits, Nat.digits_zero]
    rfl
  | succ fuel ih =>
    rw [radixDigits]
    split
    · rename_i hzero
      rw [hzero, Nat.digits_zero]
      rfl
    · rename_i hpos
      have hpos := Nat.pos_of_ne_zero hpos
      have hle := Nat.div_le_self n radix
      have hhalf : n / radix < 2 ^ fuel := by
        rw [Nat.pow_succ'] at hfuel
        rw [Nat.div_lt_iff_lt_mul (by omega)]
        calc n < 2 * 2 ^ fuel := hfuel
          _ ≤ 2 ^ fuel * radix := by rw [Nat.mul_comm]; exact Nat.mul_le_mul_left _ hradix
      rw [floor_nearest hpos hn hradix hradix', ih (by omega) hhalf,
        map_digits_step hradix hpos]

theorem digitsFrom_eq (hradix : 2 ≤ radix) (hpos : 0 < n) {fuel : Nat} (hfuel : n < radix ^ fuel)
    (acc : List Char) :
    digitsFrom radix fuel n acc = (Nat.digits radix n).reverse.map digitChar ++ acc := by
  induction fuel generalizing n acc with
  | zero =>
    rw [Nat.pow_zero] at hfuel
    omega
  | succ fuel ih =>
    rw [digitsFrom]
    split
    · rename_i hlt
      rw [Nat.digits_of_lt radix n (by omega) hlt]
      rfl
    · rename_i hle
      have hquotient : 0 < n / radix := Nat.div_pos (by omega) (by omega)
      have hlt : n / radix < radix ^ fuel := by
        rw [Nat.div_lt_iff_lt_mul (by omega), ← Nat.pow_succ]
        exact hfuel
      rw [ih hquotient hlt, map_digits_step hradix hpos]

theorem digitChar_spec (h : d < 36) :
    digitValue? 36 (digitChar d) = some d ∧ 33 ≤ (digitChar d).toNat ∧ (digitChar d).toNat < 127 ∧
      isSign (digitChar d) = false ∧ (digitChar d = '0' → d = 0) := by
  revert d
  decide

theorem digitValue?_of_lt (hd : d < radix) (hradix : radix ≤ 36) :
    digitValue? radix (digitChar d) = some d := by
  obtain ⟨hvalue, -⟩ := digitChar_spec (Nat.lt_of_lt_of_le hd hradix)
  have hmin (c : Char) : digitValue? 36 c = some d → d < radix → digitValue? radix c = some d := by
    intro hc hd
    unfold digitValue? at hc ⊢
    dsimp only at hc ⊢
    generalize (if '0' ≤ c ∧ c ≤ '9' then c.toNat - 48
      else if 'a' ≤ c ∧ c ≤ 'z' then c.toNat - 87
      else if 'A' ≤ c ∧ c ≤ 'Z' then c.toNat - 55 else 36) = value at hc ⊢
    rw [Option.some.inj (Option.ite_none_right_eq_some.1 hc).2, if_pos hd]
  exact hmin _ hvalue hd

theorem lt_of_mem_digitsOf (hradix : 2 ≤ radix) (h : d ∈ digitsOf radix n) : d < radix := by
  unfold digitsOf at h
  split at h
  · rw [List.mem_singleton] at h
    omega
  · exact Nat.digits_lt_base hradix (List.mem_reverse.1 h)

/-- Digits do not begin with zero, unless they are the digit zero. -/
theorem exists_digitsOf (radix n : Nat) :
    ∃ d ds, digitsOf radix n = d :: ds ∧ (d = 0 → n = 0 ∧ ds = []) := by
  unfold digitsOf
  split
  · rename_i hzero
    exact ⟨0, [], rfl, fun _ => ⟨hzero, rfl⟩⟩
  · rename_i hpos
    have hne : Nat.digits radix n ≠ [] := Nat.digits_ne_nil_iff_ne_zero.2 hpos
    refine ⟨_, _, (congrArg List.reverse (List.dropLast_append_getLast hne)).symm.trans
      List.reverse_concat, fun hzero => ?_⟩
    exact absurd hzero (Nat.getLast_digit_ne_zero radix hpos)

/-- The value of digits. -/
theorem foldl_digitsOf (radix n : Nat) : (digitsOf radix n).foldl (fun k d => k * radix + d) 0 = n := by
  unfold digitsOf
  split
  · rename_i hzero
    simp [hzero]
  · rw [List.foldl_reverse]
    have hvalue := Nat.ofDigits_digits radix n
    rw [Nat.ofDigits_eq_foldr] at hvalue
    refine Eq.trans (congrArg (fun f => List.foldr f 0 _) ?_) hvalue
    funext d k
    rw [Nat.mul_comm, Nat.add_comm]
    rfl

/-! ## Reading digits -/

theorem roundSignificant_of_lt (hn : n < 2 ^ 53) : roundSignificant n = n := if_pos hn

theorem le_foldl_digits (hradix : 2 ≤ radix) (ds : List Nat) (k : Nat) :
    k ≤ ds.foldl (fun k d => k * radix + d) k := by
  induction ds generalizing k with
  | nil => exact Nat.le_refl k
  | cons d ds ih =>
    refine Nat.le_trans ?_ (ih _)
    nlinarith

/-- Digits whose value is below `2 ^ 53` are read without rounding. -/
theorem foldl_roundSignificant (hradix : 2 ≤ radix) (hradix' : radix ≤ 36) {ds : List Nat}
    (hds : ∀ d ∈ ds, d < radix) {k : Nat}
    (h : ds.foldl (fun k d => k * radix + d) k < 2 ^ 53) :
    (ds.map digitChar).foldl (fun n c =>
      roundSignificant (roundSignificant (n * radix) + (digitValue? radix c).getD 0)) k =
        ds.foldl (fun k d => k * radix + d) k := by
  induction ds generalizing k with
  | nil => rfl
  | cons d ds ih =>
    rw [List.foldl_cons] at h
    have hle := le_foldl_digits hradix ds (k * radix + d)
    rw [List.map_cons, List.foldl_cons, List.foldl_cons, digitValue?_of_lt (hds d (by simp)) hradix',
      Option.getD_some, roundSignificant_of_lt (by omega : k * radix < 2 ^ 53),
      roundSignificant_of_lt (by omega : k * radix + d < 2 ^ 53)]
    exact ih (fun d hd => hds d (by simp [hd])) h

theorem foldl_digitValue (hradix' : radix ≤ 36) {ds : List Nat} (hds : ∀ d ∈ ds, d < radix) (k : Nat) :
    (ds.map digitChar).foldl (fun n c => n * radix + (digitValue? radix c).getD 0) k =
      ds.foldl (fun k d => k * radix + d) k := by
  induction ds generalizing k with
  | nil => rfl
  | cons d ds ih =>
    rw [List.map_cons, List.foldl_cons, List.foldl_cons, digitValue?_of_lt (hds d (by simp)) hradix',
      Option.getD_some]
    exact ih (fun d hd => hds d (by simp [hd])) _

theorem ofInt_eq_withSign (i : Int) : ofInt i = withSign (decide (i < 0)) (ofNat i.natAbs) := by
  cases i with
  | ofNat n => rfl
  | negSucc n =>
    rw [decide_eq_true (Int.negSucc_lt_zero n)]
    rfl

/-- The text of an integer in a radix: a minus sign for a negative one, and its digits. -/
def intDigits (radix : Nat) (i : Int) : List Char :=
  (if i < 0 then ['-'] else []) ++ digitText radix i.natAbs

/-- Reading the text of an integer gives the integer. -/
theorem parseInt_intDigits (hradix : 2 ≤ radix) (hradix' : radix ≤ 36) {i : Int}
    (hi : i.natAbs < 2 ^ 53) : parseInt (String.ofList (intDigits radix i)) radix = ofInt i := by
  obtain ⟨d, ds, hdigits, hzero⟩ := exists_digitsOf radix i.natAbs
  have hmem : ∀ c ∈ digitsOf radix i.natAbs, c < radix := fun c hc => lt_of_mem_digitsOf hradix hc
  have hd : d < radix := hmem d (by rw [hdigits]; simp)
  obtain ⟨-, hlow, hhigh, hsign, hchar⟩ := digitChar_spec (Nat.lt_of_lt_of_le hd hradix')
  have hspace := isSpace_of_printable hlow hhigh
  have htext : digitText radix i.natAbs = digitChar d :: ds.map digitChar := by
    rw [digitText, hdigits, List.map_cons]
  have htake : takeSign ((String.ofList (intDigits radix i)).toList.dropWhile isSpace) =
      (decide (i < 0), digitText radix i.natAbs) := by
    rw [String.toList_ofList, intDigits]
    split
    · rename_i hneg
      rw [decide_eq_true hneg]
      rfl
    · rename_i hpos
      rw [decide_eq_false hpos, List.nil_append, htext, List.dropWhile_cons_of_neg (by simp [hspace])]
      refine takeSign_append .absent fun _ => ?_
      exact ends_cons hsign _
  have hhex : hexTail? (digitText radix i.natAbs) = none := by
    rw [htext]
    unfold hexTail?
    split
    · rename_i heq
      obtain ⟨hd0, hrest⟩ := List.cons.inj heq
      rw [(hzero (hchar hd0)).2] at hrest
      cases hrest
    · rename_i heq
      obtain ⟨hd0, hrest⟩ := List.cons.inj heq
      rw [(hzero (hchar hd0)).2] at hrest
      cases hrest
    · rfl
  have hrun : (digitText radix i.natAbs).takeWhile (isDigitOf radix) = digitText radix i.natAbs := by
    rw [List.takeWhile_eq_self_iff]
    intro c hc
    obtain ⟨d, hd, rfl⟩ := List.mem_map.1 hc
    unfold isDigitOf
    rw [digitValue?_of_lt (hmem d hd) hradix']
    rfl
  have hvalue := foldl_digitsOf radix i.natAbs
  unfold parseInt
  rw [htake]
  dsimp only
  rw [if_neg (by omega), if_neg (by omega : ¬ radix = 0)]
  have hnone : (if radix = 0 ∨ radix = 16 then hexTail? (digitText radix i.natAbs) else none) = none := by
    rw [hhex, ite_self]
  rw [hnone]
  dsimp only
  rw [hrun, if_neg (by rw [htext]; simp), ofInt_eq_withSign]
  split
  · rename_i hten
    subst hten
    rw [natOfDigits, digitText, foldl_digitValue hradix' hmem, hvalue]
  · rw [ofRadixDigits, digitText, foldl_roundSignificant hradix hradix' hmem (by rw [hvalue]; exact hi),
      hvalue]

/-! ## Writing integers -/

/-- In a radix other than ten an integer is written by its rounded quotients. -/
theorem toTextRadix_eq {i : Int} (hradix : 2 ≤ radix) (hradix' : radix ≤ 36)
    (hx : x.isFinite = true) (hvalue : toRat x = i) (hi : i.natAbs < 2 ^ 53) (hten : radix ≠ 10)
    (hne : i ≠ 0) : toTextRadix x radix = String.ofList (intDigits radix i) := by
  have hzero : (x == 0) = false := by
    rw [Bool.eq_false_iff, Ne, beq_zero_iff_toRat hx, hvalue]
    exact_mod_cast hne
  have hneg : x < 0 ↔ i < 0 := by
    rw [lt_zero_iff hx, hvalue]
    exact_mod_cast Iff.rfl
  have hrest : ¬ ofNat i.natAbs - ofNat i.natAbs > 0 := by
    rw [eq_of_unpack_eq ((sub_self_of_isFinite (toRat_ofNat hi).1).trans unpack_zero.symm)]
    decide
  unfold toTextRadix
  rw [if_neg (by simp [hten, hx, hzero])]
  dsimp only
  rw [abs_eq_ofNat hx hvalue hi, trunc_ofNat hi, floor_ofNat hi, if_neg hrest,
    if_neg (by omega : ¬ i.natAbs = 0),
    radixDigits_eq hradix hradix' hi (Nat.lt_trans hi (Nat.pow_lt_pow_right (by decide) (by decide))),
    List.append_nil, List.append_nil, intDigits, digitText, digitsOf,
    if_neg (by omega : ¬ i.natAbs = 0)]
  exact congrArg (fun s => String.ofList (s ++ _)) (if_congr hneg rfl rfl)

/-! ## The shortest digits of an integer -/

/-- The reals that are read as an integer are less than one away from it. -/
theorem exists_roundingInterval (hpos : 0 < k) (hk : k < 2 ^ 53) :
    ∃ gap s closed, 1 ≤ gap ∧ gap ≤ 2 ∧ roundingInterval (ofNat k) =
      ⟨k * 2 ^ (s + 2) - gap, k * 2 ^ (s + 2), k * 2 ^ (s + 2) + 2, 2 ^ (s + 2), closed⟩ := by
  obtain ⟨hm, hunpack⟩ := unpack_ofNat hpos hk
  have hmagnitude := (parts_of_unpack_finite hunpack).2
  have hofNat : ofNat k = Float.ofNat k := if_pos hk
  let gap (x : Float) := if fraction x = 0 ∧ 1 < biasedExponent x then 1 else 2
  refine ⟨gap (ofNat k), 52 - k.log2, k * 2 ^ (52 - k.log2) % 2 == 0, ?_, ?_, ?_⟩
  · unfold gap
    split <;> decide
  · unfold gap
    split <;> decide
  · have hexponent : -((52 - k.log2 : Nat) : Int) - 2 = .negSucc (52 - k.log2 + 1) := by omega
    have hscaled : 4 * (k * 2 ^ (52 - k.log2)) = k * 2 ^ (52 - k.log2 + 2) := by ring
    rw [roundingInterval, hofNat, hmagnitude]
    dsimp only
    rw [hexponent, hscaled]
    rfl

/-- A grid of whole powers of ten has a point there exactly where the integer is on it. -/
theorem point?_roundingInterval (hpos : 0 < k) (hk : k < 2 ^ 53) (j : Nat) :
    ((roundingInterval (ofNat k)).scale j).point? =
      if 10 ^ j ∣ k then some (k / 10 ^ j) else none := by
  obtain ⟨gap, s, closed, hgap, hgap', hinterval⟩ := exists_roundingInterval hpos hk
  have hden : 4 ≤ 2 ^ (s + 2) := Nat.pow_le_pow_right (by decide : 0 < 2) (by omega : 2 ≤ s + 2)
  have hten : 0 < 10 ^ j := Nat.pow_pos (by decide)
  generalize hunit : 2 ^ (s + 2) = unit at hinterval hden
  have hscale : (roundingInterval (ofNat k)).scale j =
      ⟨k * unit - gap, k * unit, k * unit + 2, unit * 10 ^ j, closed⟩ := by
    rw [hinterval]
    rfl
  have hholds (d : Nat) :
      ((roundingInterval (ofNat k)).scale j).holds d = decide (d * 10 ^ j = k) := by
    have hpart : unit ≤ k * unit := Nat.le_mul_of_pos_left _ hpos
    have hshape : d * (unit * 10 ^ j) = d * 10 ^ j * unit := by ring
    rw [hscale]
    unfold RoundingInterval.holds
    dsimp only
    rw [hshape]
    rcases Nat.lt_trichotomy (d * 10 ^ j) k with hlt | heq | hgt
    · have hfar : d * 10 ^ j * unit + unit ≤ k * unit := by nlinarith
      rw [decide_eq_false (Nat.ne_of_lt hlt)]
      split
      · simp
        omega
      · simp
        omega
    · rw [heq, decide_eq_true rfl]
      split
      · simp
      · simp
        omega
    · have hfar : k * unit + unit ≤ d * 10 ^ j * unit := by nlinarith
      rw [decide_eq_false (Nat.ne_of_gt hgt)]
      split
      · simp
        omega
      · simp
        omega
  have hbelow : ((roundingInterval (ofNat k)).scale j).mid /
      ((roundingInterval (ofNat k)).scale j).den = k / 10 ^ j := by
    rw [hscale]
    change k * unit / (unit * 10 ^ j) = _
    rw [Nat.mul_comm k, Nat.mul_div_mul_left _ _ (by omega : 0 < unit)]
  unfold RoundingInterval.point?
  rw [hbelow]
  dsimp only
  rw [hholds, hholds]
  have hnext : (k / 10 ^ j + 1) * 10 ^ j ≠ k := by
    have hlt := Nat.lt_div_mul_add (a := k) hten
    rw [Nat.add_mul, Nat.one_mul]
    omega
  rw [decide_eq_false hnext]
  by_cases hdvd : 10 ^ j ∣ k
  · rw [if_pos hdvd, decide_eq_true (Nat.div_mul_cancel hdvd)]
  · rw [if_neg hdvd, decide_eq_false]
    exact fun heq => hdvd ⟨_, heq.symm.trans (Nat.mul_comm _ _)⟩

/-- The search stops at the coarsest grid that has the integer. -/
theorem shortestFrom_eq (hpos : 0 < k) (hk : k < 2 ^ 53) {q t : Nat} (hq : k = 10 ^ t * q)
    (hlast : ¬ 10 ∣ q) {r fuel : Nat} (hr : r < fuel) :
    shortestFrom (roundingInterval (ofNat k)) fuel ((t + r : Nat) : Int) = ⟨q, t⟩ := by
  have hten : 0 < 10 ^ t := Nat.pow_pos (by decide)
  induction r generalizing fuel with
  | zero =>
    obtain ⟨fuel, rfl⟩ := Nat.exists_eq_succ_of_ne_zero (Nat.ne_of_gt hr)
    rw [shortestFrom, Nat.add_zero, point?_roundingInterval hpos hk, if_pos ⟨q, hq⟩, hq,
      Nat.mul_div_cancel_left _ hten]
  | succ r ih =>
    obtain ⟨fuel, rfl⟩ := Nat.exists_eq_succ_of_ne_zero (Nat.ne_of_gt (Nat.zero_lt_of_lt hr))
    have hnone : ¬ 10 ^ (t + (r + 1)) ∣ k := by
      intro hdvd
      rw [hq, Nat.pow_add, Nat.pow_succ', ← Nat.mul_assoc] at hdvd
      have hcancel := Nat.dvd_of_mul_dvd_mul_left hten
        ((Nat.mul_assoc _ _ _ ▸ hdvd : 10 ^ t * (10 * 10 ^ r) ∣ 10 ^ t * q))
      exact hlast (Nat.dvd_trans (Nat.dvd_mul_right _ _) hcancel)
    have hstep : ((t + (r + 1) : Nat) : Int) - 1 = ((t + r : Nat) : Int) := by omega
    rw [shortestFrom, point?_roundingInterval hpos hk, if_neg hnone]
    dsimp only
    rw [hstep, ih (by omega)]

theorem log2_le_of_lt (hk : k < 2 ^ 53) : k.log2 ≤ 52 := by
  rcases Nat.eq_zero_or_pos k with rfl | hpos
  · decide
  · exact Nat.lt_succ_iff.1 ((Nat.log2_lt (Nat.ne_of_gt hpos)).2 hk)

/-- The shortest digits of an integer are its own, without the zeros at their end. -/
theorem exists_shortest (hpos : 0 < k) (hk : k < 2 ^ 53) :
    ∃ q t : Nat, k = 10 ^ t * q ∧ 0 < q ∧ shortest (ofNat k) = ⟨q, t⟩ := by
  obtain ⟨t, q, hlast, hq⟩ := Nat.exists_eq_pow_mul_and_not_dvd (Nat.ne_of_gt hpos) 10 (by decide)
  have hqpos : 0 < q := Nat.pos_of_ne_zero fun hzero => hlast (hzero ▸ Nat.dvd_zero 10)
  refine ⟨q, t, hq, hqpos, ?_⟩
  obtain ⟨gap, s, closed, -, -, hinterval⟩ := exists_roundingInterval hpos hk
  have hlog := log2_le_of_lt hk
  have hplace : leadingPlace (roundingInterval (ofNat k)).mid (roundingInterval (ofNat k)).den =
      (((k.log2 + 1) * 30103 / 100000 + 1 : Nat) : Int) := by
    rw [hinterval, leadingPlace]
    dsimp only
    rw [log2_mul_two_pow (Nat.ne_of_gt hpos), Nat.log2_two_pow]
    push_cast
    congr 2
    ring
  -- The search starts no lower than the leading digit, hence above the zeros at the end.
  have hzeros : t ≤ (k.log2 + 1) * 30103 / 100000 + 1 := by
    have hlt : 10 ^ t < 2 ^ (k.log2 + 1) :=
      calc 10 ^ t ≤ k := by rw [hq]; exact Nat.le_mul_of_pos_right _ hqpos
        _ < 2 ^ (k.log2 + 1) := ((Nat.log2_eq_iff (Nat.ne_of_gt hpos)).1 rfl).2
    have hall : ∀ l < 53, ∀ u < 17, 10 ^ u < 2 ^ (l + 1) → u ≤ (l + 1) * 30103 / 100000 + 1 := by
      decide
    refine hall _ (by omega) t ?_ hlt
    by_contra hge
    have h16 : 10 ^ 17 ≤ 10 ^ t := Nat.pow_le_pow_right (by decide) (by omega)
    have h53 : 2 ^ (k.log2 + 1) ≤ 2 ^ 53 := Nat.pow_le_pow_right (by decide) (by omega)
    have : (2 : Nat) ^ 53 < 10 ^ 17 := by decide
    omega
  unfold shortest
  dsimp only
  rw [hplace]
  obtain ⟨r, hr⟩ := Nat.exists_eq_add_of_le hzeros
  rw [hr]
  exact shortestFrom_eq hpos hk hq hlast (by omega)

theorem decimalDigits_eq (hpos : 0 < n) : decimalDigits n = digitText 10 n := by
  rw [decimalDigits, digitsFrom_eq (by decide) hpos (Json.lt_ten_pow_log2_succ n), List.append_nil, digitText,
    digitsOf, if_neg (Nat.ne_of_gt hpos)]

/-- In the language an integer is written with its decimal digits. -/
theorem text_ofNat (hpos : 0 < k) (hk : k < 2 ^ 53) :
    languageLayout.text (ofNat k) = digitText 10 k := by
  obtain ⟨q, t, hq, hqpos, hshortest⟩ := exists_shortest hpos hk
  have hsplit : digitText 10 k = digitText 10 q ++ List.replicate t '0' := by
    have hdigits : Nat.digits 10 (10 ^ t * q) = List.replicate t 0 ++ Nat.digits 10 q :=
      Nat.digits_base_pow_mul (by decide) hqpos
    rw [digitText, digitText, digitsOf, digitsOf, if_neg (Nat.ne_of_gt hpos),
      if_neg (Nat.ne_of_gt hqpos), hq, hdigits, List.reverse_append, List.reverse_replicate,
      List.map_append, List.map_replicate]
    rfl
  have hlength : (digitText 10 k).length ≤ 16 := by
    rw [digitText, List.length_map, digitsOf, if_neg (Nat.ne_of_gt hpos), List.length_reverse]
    exact (Nat.digits_length_le_iff (by decide) k).2 (Nat.lt_trans hk (by decide))
  have hsome : 0 < (digitText 10 q).length := by
    obtain ⟨d, ds, hds, -⟩ := exists_digitsOf 10 q
    rw [digitText, hds]
    simp
  have htotal : (digitText 10 k).length = (digitText 10 q).length + t := by
    rw [hsplit, List.length_append, List.length_replicate]
  unfold Layout.text
  rw [hshortest]
  dsimp only
  rw [decimalDigits_eq hqpos, if_pos (by constructor <;> simp [languageLayout] <;> omega)]
  have hpoint : ((digitText 10 q).length : Int) + t = .ofNat ((digitText 10 q).length + t) := by
    simp
  rw [hpoint, Layout.positional, if_neg (by omega), if_pos (by omega), hsplit,
    Nat.add_sub_cancel_left]
  simp [languageLayout]

theorem toText_eq_intDigits {i : Int} (hx : x.isFinite = true) (hvalue : toRat x = i)
    (hi : i.natAbs < 2 ^ 53) (hne : i ≠ 0) : toText x = String.ofList (intDigits 10 i) := by
  obtain ⟨hnan, hinf⟩ := isNaN_isInf_of_isFinite hx
  have hne' : toRat x ≠ 0 := by
    rw [hvalue]
    exact_mod_cast hne
  have hzero : ¬ (x == 0) = true := by
    rwa [beq_zero_iff_toRat hx]
  have hneg : isNegative x = true ↔ i < 0 := by
    rw [isNegative_iff_toRat_neg hx hne', hvalue]
    exact_mod_cast Iff.rfl
  unfold toText
  rw [hnan, hinf, if_neg Bool.false_ne_true, if_neg hzero, if_neg Bool.false_ne_true]
  dsimp only
  rw [abs_eq_ofNat hx hvalue hi, text_ofNat (by omega) hi, intDigits]
  congr 1
  by_cases h : i < 0
  · rw [if_pos (hneg.2 h), if_pos h]
    rfl
  · rw [if_neg (mt hneg.1 h), if_neg h]
    rfl

/-- An integer of at most 53 binary digits is written in a radix as a minus sign, when it is negative,
and its digits; they do not begin with zero unless it is zero, and reading them in that radix gives
the integer. -/
theorem radix_text_read_back (radix : Nat) (hradix : 2 ≤ radix ∧ radix ≤ 36) (i : Int)
    (hi : i.natAbs < 2 ^ 53) (x : Float) (hx : x.isFinite = true) (hvalue : toRat x = i) :
    toTextRadix x radix =
        String.ofList ((if i < 0 then ['-'] else []) ++ digitText radix i.natAbs) ∧
      (∀ c ∈ (digitText radix i.natAbs).head?, c = '0' → i = 0) ∧
      parseInt (toTextRadix x radix) radix = ofInt i ∧ toRat (ofInt i) = i := by
  have htext : toTextRadix x radix = String.ofList (intDigits radix i) := by
    by_cases hne : i = 0
    · subst hne
      have hzero : (x == 0) = true := by
        rw [beq_zero_iff_toRat hx, hvalue, Int.cast_zero]
      have hnan := (isNaN_isInf_of_isFinite hx).1
      unfold toTextRadix toText
      rw [hzero, if_pos (by simp), hnan]
      rfl
    · by_cases hten : radix = 10
      · subst hten
        exact toText_eq_intDigits hx hvalue hi hne
      · exact toTextRadix_eq hradix.1 hradix.2 hx hvalue hi hten hne
  refine ⟨htext, ?_, ?_, toRat_ofInt hi⟩
  · intro c hc hzero
    obtain ⟨d, ds, hdigits, hd⟩ := exists_digitsOf radix i.natAbs
    rw [digitText, hdigits] at hc
    obtain rfl := Option.some.inj hc
    have hlt : d < radix := lt_of_mem_digitsOf (n := i.natAbs) hradix.1 (by rw [hdigits]; simp)
    have hd0 := (digitChar_spec (Nat.lt_of_lt_of_le hlt hradix.2)).2.2.2.2 hzero
    exact Int.natAbs_eq_zero.1 (hd hd0).1
  · rw [htext]
    exact parseInt_intDigits hradix.1 hradix.2 hi

/-- The least integer of 53 binary digits, in the largest radix. -/
theorem radix_text_read_back_least : (2 ≤ 36 ∧ 36 ≤ 36) ∧
    (-9007199254740991 : Int).natAbs < 2 ^ 53 ∧
    ∃ x : Float, x.isFinite = true ∧ toRat x = (-9007199254740991 : Int) ∧
      toTextRadix x 36 = "-2gosa7pa2gv" ∧ parseInt "-2gosa7pa2gv" 36 = x := by
  have hfinite : (ofInt (-9007199254740991)).isFinite = true :=
    (toRat_neg (toRat_ofNat (by decide)).1).1
  have hvalue : toRat (ofInt (-9007199254740991)) = (-9007199254740991 : Int) :=
    toRat_ofInt (by decide)
  obtain ⟨htext, -, hread, -⟩ := radix_text_read_back 36 (by decide) (-9007199254740991) (by decide)
    (ofInt (-9007199254740991)) hfinite hvalue
  have hdigits : (if (-9007199254740991 : Int) < 0 then ['-'] else []) ++
      digitText 36 (-9007199254740991 : Int).natAbs = "-2gosa7pa2gv".toList := by
    decide +kernel
  have hwritten : toTextRadix (ofInt (-9007199254740991)) 36 = "-2gosa7pa2gv" := by
    rw [htext, hdigits, String.ofList_toList]
  exact ⟨by decide, by decide, _, hfinite, hvalue, hwritten, hwritten ▸ hread⟩

end ScriptMachine.Number
