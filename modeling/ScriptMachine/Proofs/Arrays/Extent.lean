import ScriptMachine.Machine.Property
import ScriptMachine.Proofs.Change
import ScriptMachine.Proofs.Doubles
import ScriptMachine.Proofs.JsonRoundTrip

/-!
# Counts

The length of an array is a natural number that is kept as a double. A number of at most 53 digits is
read back as it was written, and the order of two such doubles is the order of the numbers.
-/

namespace ScriptMachine

namespace Number

open Float.Model

theorem ofNat_eq {n : Nat} (hn : n < 2 ^ 53) : ofNat n = Float.ofNat n := by
  rw [ofNat]
  exact if_pos hn

theorem unpack_ofNat_zero : (ofNat 0).toModel.unpack = .zero .positive := by
  rfl

theorem magnitude_of_zero {x : Float} {s : UnpackedFloat.Sign} (h : x.toModel.unpack = .zero s) :
    magnitude x = ⟨0, -1074⟩ := by
  rw [unpack_eq] at h
  split at h
  · split at h <;> cases h
  · split at h
    · rename_i hexponent
      split at h
      · rename_i hfraction
        rw [magnitude, if_pos hexponent, hfraction]
      · cases h
    · cases h

theorem magnitude_ofNat_zero : magnitude (ofNat 0) = ⟨0, -1074⟩ :=
  magnitude_of_zero unpack_ofNat_zero

/-- The magnitude of a natural number has its digits, moved up to the full width. -/
theorem magnitude_ofNat {n : Nat} (hpos : 0 < n) (hn : n < 2 ^ 53) :
    magnitude (ofNat n) = ⟨n * 2 ^ (52 - n.log2), -((52 - n.log2 : Nat) : Int)⟩ := by
  obtain ⟨hm, hunpack⟩ := unpack_ofNat hpos hn
  rw [← ofNat_eq hn] at hunpack
  exact (parts_of_unpack_finite hunpack).2

theorem floor_ofNat {n : Nat} (hn : n < 2 ^ 53) : (magnitude (ofNat n)).floor = n := by
  rcases Nat.eq_zero_or_pos n with rfl | hpos
  · rw [magnitude_ofNat_zero]
    exact Nat.zero_shiftRight 1074
  · rw [magnitude_ofNat hpos hn]
    cases 52 - n.log2 with
    | zero => exact Nat.mul_one n
    | succ k =>
      change (n * 2 ^ (k + 1)) >>> (k + 1) = n
      rw [Nat.shiftRight_eq_div_pow]
      exact Nat.mul_div_cancel n (Nat.two_pow_pos _)

theorem isIntegral_zero (e : Int) : (Dyadic.mk 0 e).isIntegral = true := by
  cases e with
  | ofNat k => rfl
  | negSucc k =>
    change (0 % Nat.pow 2 (k + 1) == 0) = true
    rw [Nat.zero_mod]
    rfl

theorem isIntegral_ofNat {n : Nat} (hn : n < 2 ^ 53) : isIntegral (ofNat n) = true := by
  rcases Nat.eq_zero_or_pos n with rfl | hpos
  · rw [isIntegral, magnitude_ofNat_zero, isIntegral_zero]
    rfl
  · obtain ⟨hm, hunpack⟩ := unpack_ofNat hpos hn
    have hfinite : (ofNat n).isFinite = true := by
      change (ofNat n).toModel.unpack.isFinite = true
      rw [ofNat_eq hn, hunpack]
      rfl
    rw [isIntegral, hfinite, magnitude_ofNat hpos hn]
    cases 52 - n.log2 with
    | zero => rfl
    | succ k =>
      change (true && n * 2 ^ (k + 1) % 2 ^ (k + 1) == 0) = true
      rw [Nat.mul_mod_left]
      rfl

/-- A natural number is read back from its double. -/
theorem toNat?_ofNat {n : Nat} (hn : n < 2 ^ 53) : toNat? (ofNat n) = some n := by
  rw [toNat?, isIntegral_ofNat hn, isNegative_ofNat, floor_ofNat hn]
  rfl

theorem toNat?_of_zero {x : Float} {s : UnpackedFloat.Sign} (h : x.toModel.unpack = .zero s) :
    toNat? x = some 0 := by
  have hfinite : x.isFinite = true := by
    change x.toModel.unpack.isFinite = true
    rw [h]
    rfl
  have hzero : (x == 0) = true := by
    change (x.toModel.unpack.compare (ofNat 0).toModel.unpack == some .eq) = true
    rw [h, unpack_ofNat_zero]
    rfl
  rw [toNat?, isIntegral, hfinite, magnitude_of_zero h, isIntegral_zero, hzero, Bool.or_true]
  exact congrArg some (Nat.zero_shiftRight 1074)

theorem beq_ofNat_self {n : Nat} (hn : n < 2 ^ 53) : (ofNat n == ofNat n) = true := by
  change ((ofNat n).toModel.unpack.compare (ofNat n).toModel.unpack == some .eq) = true
  rcases Nat.eq_zero_or_pos n with rfl | hpos
  · rw [unpack_ofNat_zero]
    rfl
  · obtain ⟨hm, hunpack⟩ := unpack_ofNat hpos hn
    rw [ofNat_eq hn, hunpack]
    change (some ((compare _ _).then (compare _ _)) == some .eq) = true
    rw [compare_eq_iff_eq.2 rfl, compare_eq_iff_eq.2 rfl]
    rfl

/-- What reads as a natural number is equal to its double; that includes minus zero. -/
theorem toNat?_eq_some_iff {x : Float} {n : Nat} (hn : n < 2 ^ 53) :
    toNat? x = some n ↔ (x == ofNat n) = true := by
  cases hsign : isNegative x with
  | false =>
    constructor
    · intro h
      rw [← ofNat_of_toNat? hsign h hn]
      exact beq_ofNat_self hn
    · intro h
      rw [eq_of_float_beq h (hsign.trans (isNegative_ofNat n).symm)]
      exact toNat?_ofNat hn
  | true =>
    -- A number with a sign is minus zero on either side.
    constructor
    · intro h
      have hzero : (x == 0) = true := by
        unfold toNat? at h
        rw [hsign] at h
        split at h
        · rename_i hparts
          exact (Bool.and_eq_true_iff.1 hparts).2
        · cases h
      have hcompare : x.toModel.unpack.compare (ofNat 0).toModel.unpack = some .eq :=
        beq_iff_eq.1 hzero
      rcases unpack_eq_of_compare hcompare with ⟨s, t, hx, -⟩ | heq
      · rw [toNat?_of_zero hx] at h
        cases h
        exact hzero
      · rw [eq_of_unpack_eq heq, isNegative_ofNat] at hsign
        cases hsign
    · intro h
      have hcompare : x.toModel.unpack.compare (ofNat n).toModel.unpack = some .eq :=
        beq_iff_eq.1 h
      rcases unpack_eq_of_compare hcompare with ⟨s, t, hx, hy⟩ | heq
      · rcases Nat.eq_zero_or_pos n with rfl | hpos
        · exact toNat?_of_zero hx
        · obtain ⟨hm, hunpack⟩ := unpack_ofNat hpos hn
          rw [ofNat_eq hn, hunpack] at hy
          cases hy
      · rw [eq_of_unpack_eq heq, isNegative_ofNat] at hsign
        cases hsign

/-- The double of a greater number is the greater one. -/
theorem ofNat_le_ofNat {m n : Nat} (h : m ≤ n) (hn : n < 2 ^ 53) : ofNat m ≤ ofNat n := by
  have hle : ∀ {x y : Float}, x.toModel.unpack.le y.toModel.unpack = true → x ≤ y := by
    intro x y hxy
    exact decide_eq_true hxy
  apply hle
  rcases Nat.eq_zero_or_pos n with rfl | hn0
  · obtain rfl : m = 0 := by omega
    rfl
  obtain ⟨hpos, hunpack⟩ := unpack_ofNat hn0 hn
  rw [ofNat_eq hn, hunpack]
  rcases Nat.eq_zero_or_pos m with rfl | hm0
  · rw [unpack_ofNat_zero]
    rfl
  obtain ⟨hpos', hunpack'⟩ := unpack_ofNat hm0 (Nat.lt_of_le_of_lt h hn)
  rw [ofNat_eq (Nat.lt_of_le_of_lt h hn), hunpack']
  -- More binary digits decide, and with equally many the digits themselves.
  have hdigits : m.log2 ≤ n.log2 :=
    (Nat.le_log2 (Nat.ne_of_gt hn0)).2 (Nat.le_trans (Nat.log2_self_le (Nat.ne_of_gt hm0)) h)
  have hlog : n.log2 ≤ 52 := Nat.lt_succ_iff.1 ((Nat.log2_lt (Nat.ne_of_gt hn0)).2 hn)
  change ((compare (-((52 - m.log2 : Nat) : Int)) (-((52 - n.log2 : Nat) : Int))).then
    (compare (m * 2 ^ (52 - m.log2)) (n * 2 ^ (52 - n.log2)))).isLE = true
  rcases Nat.lt_or_eq_of_le hdigits with hfewer | hsame
  · have hcompare : compare (-((52 - m.log2 : Nat) : Int)) (-((52 - n.log2 : Nat) : Int)) = .lt :=
      compare_lt_iff_lt.2 (by omega)
    rw [hcompare]
    rfl
  · have hcompare : compare (-((52 - m.log2 : Nat) : Int)) (-((52 - n.log2 : Nat) : Int)) = .eq :=
      compare_eq_iff_eq.2 (by omega)
    rw [hcompare, hsame]
    change (compare (m * 2 ^ (52 - n.log2)) (n * 2 ^ (52 - n.log2))).isLE = true
    rw [Ordering.isLE_iff_ne_gt]
    intro hgreater
    have := compare_gt_iff_gt.1 hgreater
    have := Nat.mul_le_mul_right (2 ^ (52 - n.log2)) h
    omega

end Number

/-! ## Indices and lengths of arrays -/

theorem Number.natOfDigits_decimalDigits (n : Nat) : natOfDigits 10 (decimalDigits n) = n :=
  Json.foldl_digitsFrom (Json.lt_ten_pow_log2_succ n) (Nat.succ_pos _) []

/-- The text of a number names no other index. -/
theorem eq_of_arrayIndex?_natText {n i : Nat} (h : arrayIndex? (Number.natText n) = some i) :
    i = n := by
  unfold arrayIndex? at h
  rw [Number.natText, String.toList_ofList] at h
  dsimp only at h
  rw [Number.natOfDigits_decimalDigits] at h
  split at h
  · cases h
  · split at h
    · exact (Option.some.inj h).symm
    · cases h

theorem lt_of_arrayIndex? {key : String} {i : Nat} (h : arrayIndex? key = some i) :
    i < 4294967295 := by
  unfold arrayIndex? at h
  dsimp only at h
  split at h
  · cases h
  · split at h
    · cases h
      assumption
    · cases h

namespace Machine

/-- A value asks for a length if its number is equal to one. -/
theorem arrayLength?_eq_some_iff {v : Value} {n : Nat} :
    arrayLength? v = some n ↔ n < 4294967296 ∧ (v.toNumber == Number.ofNat n) = true := by
  constructor
  · intro h
    unfold arrayLength? at h
    split at h
    · rename_i k hk
      split at h
      · rename_i hlt
        cases h
        exact ⟨hlt, (Number.toNat?_eq_some_iff (by omega)).1 hk⟩
      · cases h
    · cases h
  · rintro ⟨hn, h⟩
    unfold arrayLength?
    rw [(Number.toNat?_eq_some_iff (by omega)).2 h]
    exact if_pos hn

theorem lt_of_arrayLength? {v : Value} {n : Nat} (h : arrayLength? v = some n) :
    n < 4294967296 :=
  (arrayLength?_eq_some_iff.1 h).1

end Machine

/-- The length of an array is read as it is written. -/
theorem Object.length_eq {o : Object} {p : Property} {n : Nat}
    (hp : o.properties.get? "length" = some p) (hvalue : p.value = .nat n)
    (hn : n < 4294967296) : o.length = n := by
  obtain ⟨v, writable, enumerable, configurable⟩ := p
  obtain rfl : v = .nat n := hvalue
  have hbound : ∀ k : Nat, k < 2 ^ 53 → Number.ofNat k = OfNat.ofNat k := fun k hk =>
    Number.ofNat_eq hk
  have hlow : Number.ofNat n ≥ 0 := by
    rw [ge_iff_le, ← hbound 0 (by decide)]
    exact Number.ofNat_le_ofNat (Nat.zero_le n) (by omega)
  have hhigh : Number.ofNat n ≤ 4294967295 := by
    rw [← hbound 4294967295 (by decide)]
    exact Number.ofNat_le_ofNat (by omega) (by decide)
  unfold length
  rw [hp]
  change (if (decide (Number.ofNat n ≥ 0) && decide (Number.ofNat n ≤ 4294967295)) = true
    then (Number.magnitude (Number.ofNat n)).floor else 0) = n
  rw [decide_eq_true hlow, decide_eq_true hhigh]
  exact Number.floor_ofNat (by omega)

/-!
## The extent of an array

The length and the items of an array are entries of one table. An array has an extent when its length
is a count and every item lies below it. Each way in which an operation changes an array leaves it
with an extent that the change determines.
-/

namespace Object

/-- An array of a length that is a count, with every item below it. Its length is not shown by
enumeration and cannot be deleted. -/
structure Extent (o : Object) (n : Nat) : Prop where
  isArray : o.isArray = true
  bounded : n < 4294967296
  length : ∃ writable, o.properties.get? "length" = some ⟨.nat n, writable, false, false⟩
  above : ∀ key i, key ∈ o.properties.keys → arrayIndex? key = some i → i < n

/-- Whether a name stays when an array is cut to a length. -/
def staysBelow (n : Nat) (key : String) : Bool :=
  match arrayIndex? key with
  | some i => i < n
  | none => true

/-- How long an array is when it holds one more item. -/
def reach (n : Nat) (key : String) : Nat :=
  match arrayIndex? key with
  | some i => max n (i + 1)
  | none => n

/-- An object with its length cut to `n`: the items from there on are gone, and every other property
keeps its value, its flags and its place. -/
structure Cut (o : Object) (n : Nat) (o' : Object) : Prop where
  keys : o'.properties.keys = o.properties.keys.filter (staysBelow n)
  others : ∀ key ∈ o'.properties.keys, key ≠ "length" →
    o'.properties.get? key = o.properties.get? key
  shell : o.SameShell o'

variable {o o' : Object} {n : Nat} {key : String}

theorem arrayIndex?_length : arrayIndex? "length" = none := by
  decide

/-! ## Properties of changed objects -/

theorem get?_put (o : Object) (key : String) (p : Property) (other : String) :
    (o.put key p).properties.get? other =
      if other = key then some p else o.properties.get? other :=
  o.properties.get?_insert key p other

theorem get?_resize (o : Object) (n : Nat) (key : String) : (o.resize n).properties.get? key =
    if key = "length" then (o.properties.get? key).map fun p => { p with value := .nat n }
    else if n < o.length then (o.properties.get? key).filter fun _ =>
      match arrayIndex? key with
      | some i => i < n
      | none => true
    else o.properties.get? key := by
  have hlength : arrayIndex? "length" = none := by decide
  unfold resize
  dsimp only
  rw [Table.get?_modify]
  split
  · rename_i hkey
    subst hkey
    split
    · rw [Table.get?_filter, hlength]
      cases o.properties.get? "length" <;> rfl
    · rfl
  · split
    · exact Table.get?_filter _ _ key
    · rfl

theorem isArray_of_grownIndex? {i : Nat} (h : o.grownIndex? key = some i) : o.isArray = true := by
  unfold grownIndex? at h
  split at h
  · assumption
  · cases h

/-- The length is no item. -/
theorem ne_length_of_grownIndex? {i : Nat} (h : o.grownIndex? key = some i) : key ≠ "length" := by
  rintro rfl
  have hlength : arrayIndex? "length" = none := by decide
  unfold grownIndex? at h
  rw [hlength] at h
  split at h <;> cases h

theorem added_of_grownIndex? {i : Nat} (h : o.grownIndex? key = some i) (v : Value) :
    o.added key v = (o.put key (.data v)).put "length" (.length (.nat (i + 1))) := by
  rw [added, h]

theorem added_of_fits (h : o.grownIndex? key = none) (v : Value) :
    o.added key v = o.put key (.data v) := by
  rw [added, h]

theorem get?_defined_of_grownIndex? {i : Nat} (h : o.grownIndex? key = some i) (p : Property)
    (other : String) : (o.defined key p).properties.get? other =
      if other = "length" then
        (o.properties.get? other).map fun p => { p with value := .nat (i + 1) }
      else if other = key then some p else o.properties.get? other := by
  have hkey : "length" ≠ key := (ne_length_of_grownIndex? h).symm
  rw [defined, h]
  dsimp only
  rw [Table.get?_modify, get?_put]
  split
  · rename_i hother
    subst hother
    rw [if_neg hkey]
  · rfl

theorem defined_of_fits (h : o.grownIndex? key = none) (p : Property) :
    o.defined key p = o.put key p := by
  rw [defined, h]

/-! ## Names of properties -/

theorem mem_keys_iff (o : Object) (key : String) :
    key ∈ o.properties.keys ↔ (o.properties.get? key).isSome := by
  rw [Option.isSome_iff_ne_none, ne_eq, Table.get?_eq_none_iff, not_not]

theorem keys_put_of_mem {key : String} (h : key ∈ o.properties.keys) (p : Property) :
    (o.put key p).properties.keys = o.properties.keys := by
  rw [put]
  dsimp only
  rw [Table.insert_eq_modify _ p h, Table.keys_modify]

theorem keys_put_of_not_mem {key : String} (h : key ∉ o.properties.keys) (p : Property) :
    (o.put key p).properties.keys = o.properties.keys ++ [key] :=
  Table.keys_insert_of_place?_eq_none _ p ((Table.place?_eq_none_iff _).2 h)

theorem mem_keys_put (o : Object) (key : String) (p : Property) (other : String) :
    other ∈ (o.put key p).properties.keys ↔ other = key ∨ other ∈ o.properties.keys := by
  by_cases h : key ∈ o.properties.keys
  · rw [keys_put_of_mem h]
    constructor
    · exact .inr
    · rintro (rfl | hother)
      · exact h
      · exact hother
  · rw [keys_put_of_not_mem h, List.mem_append, List.mem_singleton, or_comm]

theorem grownIndex?_eq_some_iff {key : String} {i : Nat} : o.grownIndex? key = some i ↔
    o.isArray = true ∧ arrayIndex? key = some i ∧ o.length ≤ i := by
  unfold grownIndex?
  cases arrayIndex? key with
  | none => simp
  | some j =>
    by_cases hj : o.length ≤ j
    · simp only [ge_iff_le, hj, if_true, Option.ite_none_right_eq_some, Option.some.injEq]
      constructor
      · rintro ⟨harray, rfl⟩
        exact ⟨harray, rfl, hj⟩
      · rintro ⟨harray, rfl, -⟩
        exact ⟨harray, rfl⟩
    · simp only [ge_iff_le, hj, if_false, ite_self, Option.some.injEq]
      constructor
      · rintro ⟨⟩
      · rintro ⟨-, rfl, hle⟩
        exact absurd hle hj

/-- A shorter length cuts the items from there on, and any other keeps all names. -/
theorem keys_resize (o : Object) (n : Nat) : (o.resize n).properties.keys =
    if n < o.length then o.properties.keys.filter (staysBelow n) else o.properties.keys := by
  unfold resize
  dsimp only
  rw [Table.keys_modify]
  split
  · rw [Table.keys, Table.toList_filter, Table.keys, List.filter_map]
    rfl
  · rfl

namespace Extent

theorem mem_length (h : o.Extent n) : "length" ∈ o.properties.keys := by
  obtain ⟨writable, hlength⟩ := h.length
  rw [mem_keys_iff, hlength]
  rfl

theorem length_eq (h : o.Extent n) : o.length = n := by
  obtain ⟨writable, hlength⟩ := h.length
  exact Object.length_eq hlength rfl h.bounded

/-- An array grows by the items that lie at its length or behind it. -/
theorem grownIndex?_eq_some_iff (h : o.Extent n) {key : String} {i : Nat} :
    o.grownIndex? key = some i ↔ arrayIndex? key = some i ∧ n ≤ i := by
  rw [Object.grownIndex?_eq_some_iff, h.length_eq, eq_true h.isArray, true_and]

theorem reach_of_grownIndex? (h : o.Extent n) {key : String} {i : Nat}
    (hgrown : o.grownIndex? key = some i) : reach n key = i + 1 := by
  obtain ⟨hindex, hle⟩ := h.grownIndex?_eq_some_iff.1 hgrown
  rw [reach, hindex]
  exact Nat.max_eq_right (Nat.le_succ_of_le hle)

/-- What fits below the length. -/
theorem lt_of_fits (h : o.Extent n) {key : String} (hfits : o.grownIndex? key = none) {i : Nat}
    (hindex : arrayIndex? key = some i) : i < n := by
  by_contra hle
  have hgrown := h.grownIndex?_eq_some_iff.2 ⟨hindex, Nat.le_of_not_lt hle⟩
  rw [hfits] at hgrown
  cases hgrown

theorem reach_of_fits (h : o.Extent n) {key : String} (hfits : o.grownIndex? key = none) :
    reach n key = n := by
  unfold reach
  cases hindex : arrayIndex? key with
  | none => rfl
  | some i => exact Nat.max_eq_left (h.lt_of_fits hfits hindex)

/-! ## Changes -/

/-- A property other than the length is set, as an item below the length or under another name. -/
theorem put (h : o.Extent n) {key : String} (hkey : key ≠ "length")
    (hitem : ∀ i, arrayIndex? key = some i → i < n) (p : Property) : (o.put key p).Extent n where
  isArray := h.isArray
  bounded := h.bounded
  length := by
    obtain ⟨writable, hlength⟩ := h.length
    refine ⟨writable, ?_⟩
    rw [get?_put, if_neg hkey.symm, hlength]
  above := by
    intro other i hother hindex
    rcases (mem_keys_put o key p other).1 hother with rfl | hother
    · exact hitem i hindex
    · exact h.above other i hother hindex

/-- Any values and flags may change, but for the length. -/
theorem modify (h : o.Extent n) {key : String} (hkey : key ≠ "length") (f : Property → Property) :
    ({ o with properties := o.properties.modify key f } : Object).Extent n where
  isArray := h.isArray
  bounded := h.bounded
  length := by
    obtain ⟨writable, hlength⟩ := h.length
    refine ⟨writable, ?_⟩
    rw [Table.get?_modify, if_neg hkey.symm, hlength]
  above := by
    intro other i hother hindex
    rw [Table.keys_modify] at hother
    exact h.above other i hother hindex

/-- The length becomes read-only or may be written. -/
theorem limit (h : o.Extent n) (writable : Bool) :
    ({ o with properties := o.properties.modify "length" fun p => { p with writable } } :
      Object).Extent n where
  isArray := h.isArray
  bounded := h.bounded
  length := by
    obtain ⟨writable', hlength⟩ := h.length
    refine ⟨writable, ?_⟩
    rw [Table.get?_modify, if_pos rfl, hlength]
    rfl
  above := by
    intro other i hother hindex
    rw [Table.keys_modify] at hother
    exact h.above other i hother hindex

/-- What can be deleted is not the length. -/
theorem erase (h : o.Extent n) {key : String} {p : Property}
    (hp : o.properties.get? key = some p) (hconfigurable : p.configurable = true) :
    ({ o with properties := o.properties.erase key } : Object).Extent n where
  isArray := h.isArray
  bounded := h.bounded
  length := by
    obtain ⟨writable, hlength⟩ := h.length
    have hkey : "length" ≠ key := by
      rintro rfl
      rw [hp] at hlength
      cases hlength
      cases hconfigurable
    refine ⟨writable, ?_⟩
    rw [Table.get?_erase, if_neg hkey, hlength]
  above := by
    intro other i hother hindex
    rw [Table.keys_erase] at hother
    exact h.above other i (List.mem_of_mem_erase hother) hindex

theorem keys_resize (h : o.Extent n) (k : Nat) :
    (o.resize k).properties.keys = o.properties.keys.filter (staysBelow k) := by
  rw [Object.keys_resize, h.length_eq]
  split
  · rfl
  · rename_i hlonger
    -- Nothing lies behind the length that could be cut.
    refine (List.filter_eq_self.2 fun key hkey => ?_).symm
    unfold staysBelow
    split
    · rename_i i hindex
      have := h.above key i hkey hindex
      exact decide_eq_true (by omega)
    · rfl

theorem resize (h : o.Extent n) {k : Nat} (hk : k < 4294967296) : (o.resize k).Extent k where
  isArray := h.isArray
  bounded := hk
  length := by
    obtain ⟨writable, hlength⟩ := h.length
    refine ⟨writable, ?_⟩
    rw [get?_resize, if_pos rfl, hlength]
    rfl
  above := by
    intro key i hkey hindex
    rw [h.keys_resize, List.mem_filter] at hkey
    have hstays := hkey.2
    rw [staysBelow, hindex] at hstays
    exact of_decide_eq_true hstays

theorem cut_resize (h : o.Extent n) (k : Nat) : o.Cut k (o.resize k) where
  keys := h.keys_resize k
  others := by
    intro key hkey hlength
    rw [h.keys_resize, List.mem_filter] at hkey
    rw [get?_resize, if_neg hlength]
    split
    · have hstays := hkey.2
      unfold staysBelow at hstays
      cases o.properties.get? key with
      | none => rfl
      | some p => exact if_pos hstays
    · rfl
  shell := ⟨rfl, rfl, rfl, rfl, rfl⟩

theorem added (h : o.Extent n) {key : String} (hkey : key ≠ "length") (v : Value) :
    (o.added key v).Extent (reach n key) := by
  cases hgrown : o.grownIndex? key with
  | none =>
    rw [added_of_fits hgrown, h.reach_of_fits hgrown]
    exact h.put hkey (fun i hindex => h.lt_of_fits hgrown hindex) _
  | some i =>
    obtain ⟨hindex, hle⟩ := h.grownIndex?_eq_some_iff.1 hgrown
    rw [added_of_grownIndex? hgrown, h.reach_of_grownIndex? hgrown]
    constructor
    · exact h.isArray
    · have := lt_of_arrayIndex? hindex
      omega
    · exact ⟨true, (get?_put ..).trans (if_pos rfl)⟩
    · intro other j hother hother'
      rcases (mem_keys_put _ _ _ _).1 hother with rfl | hother
      · rw [arrayIndex?_length] at hother'
        cases hother'
      · rcases (mem_keys_put _ _ _ _).1 hother with rfl | hother
        · rw [hindex] at hother'
          cases hother'
          exact Nat.lt_succ_self i
        · have := h.above other j hother hother'
          omega

theorem defined (h : o.Extent n) {key : String} (hkey : key ≠ "length") (p : Property) :
    (o.defined key p).Extent (reach n key) := by
  cases hgrown : o.grownIndex? key with
  | none =>
    rw [defined_of_fits hgrown, h.reach_of_fits hgrown]
    exact h.put hkey (fun i hindex => h.lt_of_fits hgrown hindex) _
  | some i =>
    obtain ⟨hindex, hle⟩ := h.grownIndex?_eq_some_iff.1 hgrown
    obtain ⟨writable, hlength⟩ := h.length
    rw [h.reach_of_grownIndex? hgrown]
    constructor
    · rw [Object.defined, hgrown]
      exact h.isArray
    · have := lt_of_arrayIndex? hindex
      omega
    · refine ⟨writable, ?_⟩
      rw [get?_defined_of_grownIndex? hgrown, if_pos rfl, hlength]
      rfl
    · intro other j hother hother'
      rw [Object.defined, hgrown] at hother
      dsimp only at hother
      rw [Table.keys_modify] at hother
      rcases (mem_keys_put _ _ _ _).1 hother with rfl | hother
      · rw [hindex] at hother'
        cases hother'
        exact Nat.lt_succ_self i
      · have := h.above other j hother hother'
        omega

end Extent

/-! ## New arrays -/

/-- The items of an array that is being filled, all below a bound. -/
structure Filled (o : Object) (n : Nat) : Prop where
  isArray : o.isArray = true
  below : ∀ key i, key ∈ o.properties.keys → arrayIndex? key = some i → i < n

namespace Filled

theorem empty (owner : Option Owner) (proto : Option ObjectId) (n : Nat) :
    ({ owner, proto, cls := .array } : Object).Filled n where
  isArray := rfl
  below := by
    intro key i hkey
    exact absurd hkey List.not_mem_nil

theorem mono (h : o.Filled n) {k : Nat} (hk : n ≤ k) : o.Filled k where
  isArray := h.isArray
  below key i hkey hindex := Nat.lt_of_lt_of_le (h.below key i hkey hindex) hk

theorem putItem (h : o.Filled n) {i : Nat} (hi : i < n) (p : Property) :
    (o.put (Number.natText i) p).Filled n where
  isArray := h.isArray
  below := by
    intro key j hkey hindex
    rcases (mem_keys_put ..).1 hkey with rfl | hkey
    · rw [eq_of_arrayIndex?_natText hindex]
      exact hi
    · exact h.below key j hkey hindex

theorem putItems (h : o.Filled n) {i : Nat} (values : List Value) (hi : i + values.length ≤ n) :
    (o.putItems i values).Filled n := by
  induction values generalizing o i with
  | nil => exact h
  | cons v rest ih =>
    rw [List.length_cons] at hi
    exact ih (h.putItem (by omega) _) (by omega)

/-- What was there stays. -/
theorem mem_keys_putItems {key : String} (h : key ∈ o.properties.keys) (i : Nat)
    (values : List Value) : key ∈ (o.putItems i values).properties.keys := by
  induction values generalizing o i with
  | nil => exact h
  | cons v rest ih => exact ih ((mem_keys_put ..).2 (.inr h)) (i + 1)

theorem putName (h : o.Filled n) {key : String} (hkey : arrayIndex? key = none) (p : Property) :
    (o.put key p).Filled n where
  isArray := h.isArray
  below := by
    intro other i hother hindex
    rcases (mem_keys_put ..).1 hother with rfl | hother
    · rw [hkey] at hindex
      cases hindex
    · exact h.below other i hother hindex

/-- An array is finished by its length. -/
theorem extent (h : o.Filled n) (hn : n < 4294967296) :
    (o.put "length" (.length (.nat (n % 4294967296)))).Extent n where
  isArray := h.isArray
  bounded := hn
  length := ⟨true, by rw [get?_put, if_pos rfl, Nat.mod_eq_of_lt hn]; rfl⟩
  above := (h.putName arrayIndex?_length _).below

end Filled

end Object

end ScriptMachine
