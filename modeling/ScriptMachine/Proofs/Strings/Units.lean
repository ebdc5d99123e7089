import Mathlib.Order.Bounds.Defs
import ScriptMachine.Text.Units

/-!
# Cuts and searches on code units

A cut of a text is a cut of its units, in which a half of a pair that is left alone is replaced. A
search of a text finds its units: no text starts with the second half of a pair, so none is found
within a character.
-/

namespace ScriptMachine.Text

/-! ## Pairs of units -/

/-- What is read where a unit stands alone: the replacement character for a half of a pair. -/
def alone (u : Nat) : Nat := if isHigh u || isLow u then 0xfffd else u

/-- The units with every half that stands alone replaced. -/
def repaired : List Nat → List Nat
  | [] => []
  | [u] => [alone u]
  | u :: v :: rest =>
    if isHigh u && isLow v then u :: v :: repaired rest else alone u :: repaired (v :: rest)

@[simp] theorem length_repaired (us : List Nat) : (repaired us).length = us.length := by
  fun_induction repaired us <;> simp_all

theorem isHigh_iff {u : Nat} : isHigh u = true ↔ 0xd800 ≤ u ∧ u < 0xdc00 := by simp [isHigh]

theorem isLow_iff {u : Nat} : isLow u = true ↔ 0xdc00 ≤ u ∧ u < 0xe000 := by simp [isLow]

theorem isHigh_eq_false_of_isLow {u : Nat} (h : isLow u = true) : isHigh u = false := by
  rw [isLow_iff] at h
  rw [← Bool.not_eq_true, isHigh_iff]
  omega

theorem alone_whole {u : Nat} (hhigh : isHigh u = false) (hlow : isLow u = false) : alone u = u := by
  simp [alone, hhigh, hlow]

theorem isHigh_alone (u : Nat) : isHigh (alone u) = false := by
  unfold alone
  split
  · rfl
  · simp_all

theorem alone_alone (u : Nat) : alone (alone u) = alone u := by
  by_cases h : isHigh u || isLow u
  · rw [show alone u = 0xfffd from if_pos h]
    rfl
  · rw [show alone u = u from if_neg h]
    exact if_neg h

/-- A unit in front that is no first half of a pair stands alone. -/
theorem repaired_cons {u : Nat} {us : List Nat} (h : isHigh u = true → us.head?.any isLow = false) :
    repaired (u :: us) = alone u :: repaired us := by
  cases us with
  | nil => rfl
  | cons v rest =>
    rw [repaired, if_neg]
    cases hu : isHigh u with
    | true => simpa using h hu
    | false => simp

theorem repaired_cons_of_whole {u : Nat} (us : List Nat) (h : isHigh u = false) :
    repaired (u :: us) = alone u :: repaired us :=
  repaired_cons fun hu => by simp [h] at hu

/-- The units of a character are one whole unit or a pair. -/
theorem charUnits_cases (c : Char) :
    (width c = 1 ∧ charUnits c = [c.toNat] ∧ isHigh c.toNat = false ∧ isLow c.toNat = false) ∨
      width c = 2 ∧ ∃ u v, charUnits c = [u, v] ∧ isHigh u = true ∧ isLow v = true ∧
        c.toNat = 0x10000 + (u - 0xd800) * 0x400 + (v - 0xdc00) := by
  unfold width charUnits
  have hvalid := c.valid
  change c.toNat < 0xd800 ∨ 0xdfff < c.toNat ∧ c.toNat < 0x110000 at hvalid
  split
  · refine .inl ⟨rfl, rfl, ?_, ?_⟩
    · rw [← Bool.not_eq_true, isHigh_iff]
      omega
    · rw [← Bool.not_eq_true, isLow_iff]
      omega
  · refine .inr ⟨rfl, _, _, rfl, isHigh_iff.2 ?_, isLow_iff.2 ?_, ?_⟩ <;> omega

theorem repaired_charUnits_append (c : Char) (us : List Nat) :
    repaired (charUnits c ++ us) = charUnits c ++ repaired us := by
  rcases charUnits_cases c with ⟨-, hc, hhigh, hlow⟩ | ⟨-, u, v, hc, hu, hv, -⟩
  · rw [hc, List.singleton_append, repaired_cons_of_whole _ hhigh, alone_whole hhigh hlow]
    rfl
  · rw [hc]
    change repaired (u :: v :: us) = _
    rw [repaired, hu, hv]
    rfl

/-- A text has no half that stands alone. -/
theorem repaired_flatMap (cs : List Char) :
    repaired (cs.flatMap charUnits) = cs.flatMap charUnits := by
  induction cs with
  | nil => rfl
  | cons c rest ih => rw [List.flatMap_cons, repaired_charUnits_append, ih]

/-- Two units that are no pair are none after a cut behind them. -/
theorem head?_take_of_not_pair {u v : Nat} {rest : List Nat} (k : Nat)
    (h : ¬ (isHigh u && isLow v) = true) (hu : isHigh u = true) :
    ((v :: rest).take k).head?.any isLow = false := by
  cases k with
  | zero => rfl
  | succ k => simpa [hu] using h

theorem repaired_take_repaired (us : List Nat) (k : Nat) :
    repaired ((repaired us).take k) = repaired (us.take k) := by
  fun_induction repaired us generalizing k with
  | case1 => rfl
  | case2 u =>
    cases k with
    | zero => rfl
    | succ k => simp [repaired, alone_alone]
  | case3 u v rest h ih =>
    match k with
    | 0 => rfl
    | 1 => rfl
    | k + 2 =>
      change repaired (u :: v :: (repaired rest).take k) = repaired (u :: v :: rest.take k)
      rw [repaired, repaired, if_pos h, if_pos h, ih]
  | case4 u v rest h ih =>
    cases k with
    | zero => rfl
    | succ k =>
      change repaired (alone u :: (repaired (v :: rest)).take k) =
        repaired (u :: (v :: rest).take k)
      rw [repaired_cons_of_whole _ (isHigh_alone u), ih, alone_alone,
        repaired_cons (head?_take_of_not_pair k h)]

/-- Whether a position lies between the halves of a pair. -/
def CutsPair (us : List Nat) (k : Nat) : Prop :=
  ∃ i u v, k = i + 1 ∧ us[i]? = some u ∧ us[k]? = some v ∧ isHigh u = true ∧ isLow v = true

/-- Halves are repaired on each side of a position that cuts no pair. -/
theorem repaired_take_append_drop (us : List Nat) {k : Nat} (h : ¬ CutsPair us k) :
    repaired (us.take k) ++ repaired (us.drop k) = repaired us := by
  fun_induction repaired us generalizing k with
  | case1 => simp [repaired]
  | case2 u =>
    cases k with
    | zero => rfl
    | succ k => simp [repaired]
  | case3 u v rest hpair ih =>
    have hboth : isHigh u = true ∧ isLow v = true := by simpa using hpair
    match k with
    | 0 => simp [repaired, hboth]
    | 1 => exact absurd ⟨0, u, v, rfl, rfl, rfl, hboth⟩ h
    | k + 2 =>
      have hrest : ¬ CutsPair rest k := by
        rintro ⟨i, w, x, rfl, hw, hx, hhalves⟩
        exact h ⟨i + 2, w, x, rfl, hw, hx, hhalves⟩
      simp only [List.take_succ_cons, List.drop_succ_cons]
      rw [repaired, if_pos hpair, List.cons_append, List.cons_append, ih hrest]
  | case4 u v rest hpair ih =>
    cases k with
    | zero => simp [repaired, hpair]
    | succ k =>
      have hrest : ¬ CutsPair (v :: rest) k := by
        rintro ⟨i, w, x, rfl, hw, hx, hhalves⟩
        exact h ⟨i + 1, w, x, rfl, hw, hx, hhalves⟩
      rw [List.take_succ_cons, List.drop_succ_cons,
        repaired_cons (head?_take_of_not_pair k hpair), List.cons_append, ih hrest]

/-! ## Cuts -/

theorem flatMap_dropUnits (n : Nat) (cs : List Char) :
    (dropUnits n cs).flatMap charUnits = repaired ((cs.flatMap charUnits).drop n) := by
  fun_induction dropUnits n cs with
  | case1 => simp [repaired]
  | case2 c rest => rw [List.drop_zero, repaired_flatMap]
  | case3 n c rest hzero hlt =>
    rcases charUnits_cases c with ⟨hw, -⟩ | ⟨hw, u, v, hc, -, hv, -⟩
    · omega
    · obtain rfl : n = 1 := by omega
      rw [List.flatMap_cons, List.flatMap_cons, hc]
      change 0xfffd :: rest.flatMap charUnits = repaired (v :: rest.flatMap charUnits)
      rw [repaired_cons_of_whole _ (isHigh_eq_false_of_isLow hv), repaired_flatMap, alone, hv,
        Bool.or_true]
      rfl
  | case4 n c rest hzero hge ih =>
    have hwidth := length_charUnits c
    have hpassed : (charUnits c).drop n = [] := List.drop_eq_nil_of_le (by omega)
    rw [ih, List.flatMap_cons, List.drop_append, hwidth, hpassed, List.nil_append]

theorem units_push (s : String) (c : Char) : units (s.push c) = units s ++ charUnits c := by
  simp [units, String.toList_push]

theorem units_takeUnits (out : String) (n : Nat) (cs : List Char) :
    units (takeUnits out n cs) = units out ++ repaired ((cs.flatMap charUnits).take n) := by
  fun_induction takeUnits out n cs with
  | case1 => simp [repaired]
  | case2 => simp [repaired]
  | case3 out n c rest hzero hlt =>
    rcases charUnits_cases c with ⟨hw, -⟩ | ⟨hw, u, v, hc, hu, -, -⟩
    · omega
    · obtain rfl : n = 1 := by omega
      rw [units_push, List.flatMap_cons, hc]
      change _ ++ [0xfffd] = _ ++ [alone u]
      rw [alone, hu, Bool.true_or]
      rfl
  | case4 out n c rest hzero hge ih =>
    have hwidth := length_charUnits c
    have hwhole : (charUnits c).take n = charUnits c := List.take_of_length_le (by omega)
    rw [ih, units_push, List.flatMap_cons, List.take_append, hwidth, hwhole,
      repaired_charUnits_append, List.append_assoc]

/-- The part of a text between two positions. -/
theorem units_cut (s : String) (start stop : Nat) :
    units (cut s start stop) = repaired (((units s).drop start).take (stop - start)) := by
  rw [cut, units_takeUnits, flatMap_dropUnits, repaired_take_repaired]
  rfl

/-- Units are words of 16 bits. -/
theorem lt_of_mem_units {s : String} {u : Nat} (h : u ∈ units s) : u < 0x10000 := by
  obtain ⟨c, -, hu⟩ := List.mem_flatMap.1 h
  unfold charUnits at hu
  split at hu
  · rw [List.mem_singleton] at hu
    omega
  · have hvalid := c.valid
    change c.toNat < 0xd800 ∨ 0xdfff < c.toNat ∧ c.toNat < 0x110000 at hvalid
    simp only [List.mem_cons, List.not_mem_nil, or_false] at hu
    omega

theorem units_ofUnits_singleton {u : Nat} (h : u < 0x10000) : units (ofUnits [u]) = [alone u] := by
  rw [ofUnits, units, String.toList_ofList, decodeUnits, List.flatMap_singleton, alone]
  split
  · rfl
  · rename_i hwhole
    have hvalid : u.isValidChar := by
      rw [Bool.or_eq_true, not_or, isHigh_iff, isLow_iff] at hwhole
      unfold Nat.isValidChar
      omega
    have hnat : (Char.ofNat u).toNat = u := by
      rw [Char.ofNat, dif_pos hvalid]
      rfl
    rw [charUnits, hnat, if_pos h]

/-! ## Texts within texts -/

/-- The units of a character tell where it ends. -/
theorem charUnits_append_inj {c d : Char} {us vs : List Nat}
    (h : charUnits c ++ us = charUnits d ++ vs) : c = d ∧ us = vs := by
  have hchar : ∀ {c d : Char}, c.toNat = d.toNat → c = d := fun h => Char.toNat_inj.1 h
  rcases charUnits_cases c with ⟨-, hc, hhigh, -⟩ | ⟨-, u, v, hc, hu, -, hcode⟩ <;>
    rcases charUnits_cases d with ⟨-, hd, hhigh', -⟩ | ⟨-, w, x, hd, hw, -, hcode'⟩ <;>
    rw [hc, hd] at h
  · injection h with hnat hrest
    exact ⟨hchar hnat, hrest⟩
  · injection h with hnat hrest
    rw [hnat, hw] at hhigh
    cases hhigh
  · injection h with hnat hrest
    rw [← hnat, hu] at hhigh'
    cases hhigh'
  · injection h with hu' hrest
    injection hrest with hv' hrest
    exact ⟨hchar (by rw [hcode, hcode', hu', hv']), hrest⟩

theorem charUnits_ne_nil (c : Char) : charUnits c ≠ [] := by
  unfold charUnits
  split <;> simp

theorem flatMap_charUnits_prefix {ns cs : List Char} :
    ns.flatMap charUnits <+: cs.flatMap charUnits ↔ ns <+: cs := by
  induction ns generalizing cs with
  | nil => simp
  | cons d ns ih =>
    cases cs with
    | nil => simp [charUnits_ne_nil]
    | cons c cs =>
      rw [List.cons_prefix_cons, List.flatMap_cons, List.flatMap_cons, ← ih]
      constructor
      · rintro ⟨t, ht⟩
        rw [List.append_assoc] at ht
        obtain ⟨hchar, hrest⟩ := charUnits_append_inj ht
        exact ⟨hchar, t, hrest⟩
      · rintro ⟨rfl, t, ht⟩
        exact ⟨t, by rw [List.append_assoc, ht]⟩

/-- A text is told by its units. -/
theorem eq_of_units {s t : String} (h : units s = units t) : s = t := by
  have hst : s.toList <+: t.toList := flatMap_charUnits_prefix.1 ⟨[], (List.append_nil _).trans h⟩
  have hts : t.toList <+: s.toList := flatMap_charUnits_prefix.1 ⟨[], (List.append_nil _).trans h.symm⟩
  exact String.toList_inj.1 (hst.eq_of_length_le hts.length_le)

/-- The first position from a start on at which units are found among others. -/
def IsFirst (us vs : List Nat) (start : Nat) : Option Nat → Prop
  | some i => IsLeast {j | start ≤ j ∧ vs <+: us.drop j} i
  | none => ∀ j, start ≤ j → ¬ vs <+: us.drop j

variable {us vs : List Nat} {i k : Nat}

theorem IsFirst.of_later {r : Option Nat} (h : IsFirst us vs k r) (hle : i ≤ k)
    (hbefore : ∀ j, i ≤ j → j < k → ¬ vs <+: us.drop j) : IsFirst us vs i r := by
  cases r with
  | none =>
    intro j hj
    rcases Nat.lt_or_ge j k with hlt | hge
    · exact hbefore j hj hlt
    · exact h j hge
  | some found =>
    obtain ⟨⟨hfound, hprefix⟩, hleast⟩ := h
    refine ⟨⟨Nat.le_trans hle hfound, hprefix⟩, ?_⟩
    rintro j ⟨hj, hj'⟩
    rcases Nat.lt_or_ge j k with hlt | hge
    · exact absurd hj' (hbefore j hj hlt)
    · exact hleast ⟨hge, hj'⟩

/-- No text is found behind the first unit of a character and before its end. -/
theorem not_prefix_inside {c : Char} {ns : List Char} (hns : ns ≠ [])
    {ahead : List Nat} (hahead : ahead.length = i) {j : Nat} (hij : i < j) (hj : j < i + width c)
    (rest : List Nat) : ¬ ns.flatMap charUnits <+: (ahead ++ (charUnits c ++ rest)).drop j := by
  rcases charUnits_cases c with ⟨hw, -⟩ | ⟨hw, u, v, hc, -, hv, -⟩
  · omega
  obtain rfl : j = ahead.length + 1 := by omega
  obtain ⟨d, ns, rfl⟩ := List.exists_cons_of_ne_nil hns
  rw [hc, List.drop_length_add_append]
  rintro ⟨t, ht⟩
  change charUnits d ++ ns.flatMap charUnits ++ t = v :: rest at ht
  rcases charUnits_cases d with ⟨-, hd, -, hlow⟩ | ⟨-, w, x, hd, hw, -⟩
  · rw [hd] at ht
    injection ht with hunit
    rw [hunit, hv] at hlow
    cases hlow
  · rw [hd] at ht
    injection ht with hunit
    rw [← hunit] at hv
    rw [isHigh_eq_false_of_isLow hv] at hw
    cases hw

theorem isFirst_findChars {ns : List Char} (hns : ns ≠ []) {ahead : List Nat}
    (hahead : ahead.length = i) (cs : List Char) :
    IsFirst (ahead ++ cs.flatMap charUnits) (ns.flatMap charUnits) i (findChars ns i cs) := by
  induction cs generalizing i ahead with
  | nil =>
    intro j hj hprefix
    obtain ⟨d, ns, rfl⟩ := List.exists_cons_of_ne_nil hns
    rw [List.drop_eq_nil_of_le (by simp [hahead, hj]), List.prefix_nil] at hprefix
    simp [charUnits_ne_nil] at hprefix
  | cons c rest ih =>
    rw [findChars, List.flatMap_cons]
    split
    · rename_i hprefix
      refine ⟨⟨Nat.le_refl i, ?_⟩, fun j hj => hj.1⟩
      rw [List.drop_left' hahead, ← List.flatMap_cons]
      exact flatMap_charUnits_prefix.2 (List.isPrefixOf_iff_prefix.1 hprefix)
    · rename_i hprefix
      have hlater : IsFirst (ahead ++ charUnits c ++ rest.flatMap charUnits)
          (ns.flatMap charUnits) (i + width c) (findChars ns (i + width c) rest) :=
        ih (by simp [hahead])
      rw [List.append_assoc] at hlater
      refine hlater.of_later (Nat.le_add_right i _) fun j hij hj => ?_
      rcases Nat.eq_or_lt_of_le hij with rfl | hlt
      · rw [List.drop_left' hahead, ← List.flatMap_cons, flatMap_charUnits_prefix]
        exact fun h => hprefix (List.isPrefixOf_iff_prefix.2 h)
      · exact not_prefix_inside hns hahead hlt hj _

/-- A search from a position on finds the first position at which the units are. -/
theorem isFirst_indexOf? (s needle : String) {start : Nat} (hne : needle.isEmpty = false) :
    IsFirst (units s) (units needle) start (indexOf? s needle start) := by
  have hns : needle.toList ≠ [] := by simpa using hne
  have general : ∀ (cs : List Char) (i : Nat) (ahead : List Nat), ahead.length = i →
      (∀ j, start ≤ j → j < i →
        ¬ units needle <+: (ahead ++ cs.flatMap charUnits).drop j) →
      IsFirst (ahead ++ cs.flatMap charUnits) (units needle) start
        (findChars needle.toList (wholeFrom start i cs).1 (wholeFrom start i cs).2) := by
    intro cs i ahead hahead hbefore
    fun_induction wholeFrom start i cs generalizing ahead with
    | case1 i =>
      intro j hj
      rcases Nat.lt_or_ge j i with hlt | hge
      · exact hbefore j hj hlt
      · exact isFirst_findChars hns hahead [] j hge
    | case2 i c rest hle =>
      exact (isFirst_findChars hns hahead (c :: rest)).of_later hle hbefore
    | case3 i c rest hlt ih =>
      rw [List.flatMap_cons, ← List.append_assoc] at hbefore ⊢
      refine ih (ahead ++ charUnits c) (by simp [hahead]) fun j hj hj' => ?_
      rw [List.append_assoc]
      exact not_prefix_inside hns hahead (by omega) hj' _
  rw [indexOf?, if_neg (by simp [hne])]
  exact general s.toList 0 [] rfl fun j _ hj => absurd hj (Nat.not_lt_zero j)

end ScriptMachine.Text
