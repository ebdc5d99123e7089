import ScriptMachine.Proofs.Numbers.Rounding
import ScriptMachine.Number.Reading

/-!
# Numbers read from text

The texts that are numbers are given by a grammar. A whole text is read as a number exactly when it
is one of them, and a prefix is read when it is the longest of them.
-/

namespace ScriptMachine.Number

open Float.Model ScriptMachine.Text

variable {cs rest : List Char}

/-! ## The grammar -/

/-- A run of decimal digits, which may be empty. -/
def Digits (cs : List Char) : Prop := ∀ c ∈ cs, c.isDigit = true

/-- Digits with an optional fraction, or a fraction alone: the digits before the point, those behind
it, and the text. -/
inductive Mantissa : List Char → List Char → List Char → Prop
  | integer {whole : List Char} (hwhole : Digits whole) (hne : whole ≠ []) : Mantissa whole [] whole
  | point {whole frac : List Char} (hwhole : Digits whole) (hfrac : Digits frac)
      (hne : whole ≠ [] ∨ frac ≠ []) : Mantissa whole frac (whole ++ '.' :: frac)

/-- An optional sign. -/
inductive SignText : Bool → List Char → Prop
  | absent : SignText false []
  | plus : SignText false ['+']
  | minus : SignText true ['-']

/-- An optional exponent with an optional sign and at least one digit. -/
inductive Exponent : Bool → List Char → List Char → Prop
  | absent : Exponent false [] []
  | present {negative : Bool} {marker : Char} {sign digits : List Char}
      (hmarker : marker = 'e' ∨ marker = 'E') (hsign : SignText negative sign)
      (hdigits : Digits digits) (hne : digits ≠ []) :
      Exponent negative digits (marker :: (sign ++ digits))

/-- The texts of an unsigned decimal literal with the given parts. -/
inductive DecimalLiteral.Spelled (d : DecimalLiteral) : List Char → Prop
  | intro {mantissa exponent : List Char} (hmantissa : Mantissa d.whole d.frac mantissa)
      (hexponent : Exponent d.expNegative d.exp exponent) : d.Spelled (mantissa ++ exponent)

/-- An unsigned number: its text and its value. -/
inductive Unsigned : List Char → Float → Prop
  | infinite : Unsigned infinityName infinity
  | decimal {d : DecimalLiteral} {text : List Char} (h : d.Spelled text) : Unsigned text d.value

/-- A hexadecimal digit. -/
def HexDigit (c : Char) : Prop :=
  '0' ≤ c ∧ c ≤ '9' ∨ 'a' ≤ c ∧ c ≤ 'f' ∨ 'A' ≤ c ∧ c ≤ 'F'

/-- A number without space around it: its text and its value. A hexadecimal number has no sign. -/
inductive Numeral : List Char → Float → Prop
  | empty : Numeral [] 0
  | hexadecimal {marker : Char} {digits : List Char} (hmarker : marker = 'x' ∨ marker = 'X')
      (hne : digits ≠ []) (hdigits : ∀ c ∈ digits, HexDigit c) :
      Numeral ('0' :: marker :: digits) (ofRadixDigits 16 digits)
  | signed {negative : Bool} {sign text : List Char} {x : Float} (hsign : SignText negative sign)
      (h : Unsigned text x) : Numeral (sign ++ text) (withSign negative x)

/-- A text is a number, with space around it. -/
def Written (s : String) (x : Float) : Prop :=
  ∃ front text back, s.toList = front ++ text ++ back ∧ (∀ c ∈ front, isSpace c = true) ∧
    (∀ c ∈ back, isSpace c = true) ∧ Numeral text x

/-- The longest number at the head of a text. -/
def Longest (cs : List Char) (x : Float) : Prop :=
  ∃ front rest, cs = front ++ rest ∧ Unsigned front x ∧
    ∀ front' rest' y, cs = front' ++ rest' → Unsigned front' y → front'.length ≤ front.length

/-! ## Runs -/

/-- A text is empty or starts with a character that is not of a class. -/
def Ends (p : Char → Bool) (rest : List Char) : Prop := ∀ c ∈ rest.head?, p c = false

theorem ends_nil (p : Char → Bool) : Ends p [] := fun _ h => nomatch h

theorem ends_cons {p : Char → Bool} {c : Char} (h : p c = false) (rest : List Char) :
    Ends p (c :: rest) := by
  rintro _ ⟨⟩
  exact h

section

variable {p : Char → Bool} {run : List Char}

theorem Ends.takeWhile_eq (h : Ends p rest) : rest.takeWhile p = [] := by
  cases rest with
  | nil => rfl
  | cons c rest => exact List.takeWhile_cons_of_neg (by rw [h c rfl]; exact Bool.false_ne_true)

theorem Ends.dropWhile_eq (h : Ends p rest) : rest.dropWhile p = rest := by
  cases rest with
  | nil => rfl
  | cons c rest => exact List.dropWhile_cons_of_neg (by rw [h c rfl]; exact Bool.false_ne_true)

theorem ends_dropWhile (p : Char → Bool) (cs : List Char) : Ends p (cs.dropWhile p) := by
  intro c hc
  have := List.head?_dropWhile_not p cs
  rw [Option.mem_def.1 hc] at this
  exact this

/-- The rest behind a run. -/
theorem drop_takeWhile (p : Char → Bool) (cs : List Char) :
    cs.drop (cs.takeWhile p).length = cs.dropWhile p := by
  conv => lhs; arg 2; rw [← List.takeWhile_append_dropWhile (p := p) (l := cs)]
  exact List.drop_left

theorem length_dropWhile_le' (p : Char → Bool) (cs : List Char) :
    (cs.dropWhile p).length ≤ cs.length := (List.dropWhile_suffix p).length_le

end

theorem digits_takeWhile (cs : List Char) : Digits (cs.takeWhile Char.isDigit) :=
  fun _ hc => List.mem_takeWhile_imp hc

/-! ## The scanners -/

/-- What a sign does not start with. -/
def isSign (c : Char) : Bool := c == '+' || c == '-'

theorem takeSign_append {negative : Bool} {sign : List Char} (h : SignText negative sign)
    (hrest : sign = [] → Ends isSign rest) : takeSign (sign ++ rest) = (negative, rest) := by
  cases h with
  | absent =>
    cases rest with
    | nil => rfl
    | cons c rest =>
      have hc := hrest rfl c rfl
      simp only [isSign, Bool.or_eq_false_iff, beq_eq_false_iff_ne] at hc
      unfold takeSign
      split
      · rename_i heq
        cases heq
        exact absurd rfl hc.2
      · rename_i heq
        cases heq
        exact absurd rfl hc.1
      · rfl
  | plus => rfl
  | minus => rfl

theorem takeSign_spec (cs : List Char) : ∃ sign, SignText (takeSign cs).1 sign ∧
    cs = sign ++ (takeSign cs).2 ∧ (sign = [] → Ends isSign cs) := by
  unfold takeSign
  split
  · exact ⟨_, .minus, rfl, fun h => nomatch h⟩
  · exact ⟨_, .plus, rfl, fun h => nomatch h⟩
  · rename_i hminus hplus
    refine ⟨_, .absent, rfl, fun _ c hc => ?_⟩
    cases cs with
    | nil => cases hc
    | cons a rest =>
      cases hc
      simp only [isSign, Bool.or_eq_false_iff, beq_eq_false_iff_ne]
      exact ⟨fun h => hplus rest (by rw [h]), fun h => hminus rest (by rw [h])⟩

theorem isDigit_not_isSign {c : Char} (h : c.isDigit = true) : isSign c = false := by
  unfold isSign
  by_contra hne
  rw [Bool.not_eq_false, Bool.or_eq_true, beq_iff_eq, beq_iff_eq] at hne
  rcases hne with rfl | rfl <;> exact absurd h (by decide)

theorem scanExponent_cons (c : Char) (rest : List Char) : scanExponent (c :: rest) =
    if c == 'e' || c == 'E' then
      let run := (takeSign rest).2.takeWhile Char.isDigit
      if run.isEmpty then none else some ((takeSign rest).1, run, (takeSign rest).2.dropWhile Char.isDigit)
    else none := by
  unfold scanExponent takeSign
  dsimp only
  split
  · split <;> simp only [drop_takeWhile]
  · rfl

/-- An exponent is scanned with all the digits that follow it. -/
theorem scanExponent_append {negative : Bool} {marker : Char} {sign digits : List Char}
    (hmarker : marker = 'e' ∨ marker = 'E') (hsign : SignText negative sign)
    (hdigits : Digits digits) (hne : digits ≠ []) (rest : List Char) :
    scanExponent (marker :: (sign ++ digits) ++ rest) =
      some (negative, digits ++ rest.takeWhile Char.isDigit, rest.dropWhile Char.isDigit) := by
  have hends : sign = [] → Ends isSign (digits ++ rest) := fun _ c hc => by
    cases digits with
    | nil => exact absurd rfl hne
    | cons a digits =>
      cases hc
      exact isDigit_not_isSign (hdigits _ List.mem_cons_self)
  have htaken := takeSign_append hsign hends
  have hmark : (marker == 'e' || marker == 'E') = true := by
    rcases hmarker with rfl | rfl <;> rfl
  rw [List.cons_append, List.append_assoc, scanExponent_cons, htaken, if_pos hmark]
  dsimp only
  rw [List.takeWhile_append_of_pos hdigits, List.dropWhile_append_of_pos hdigits, if_neg]
  simp [hne]

theorem scanExponent_sound {negative : Bool} {digits : List Char}
    (h : scanExponent cs = some (negative, digits, rest)) :
    ∃ x, Exponent negative digits x ∧ cs = x ++ rest := by
  cases cs with
  | nil => cases h
  | cons c cs =>
    obtain ⟨sign, hsign, hcs, -⟩ := takeSign_spec cs
    rw [scanExponent_cons] at h
    split at h
    · rename_i hmark
      dsimp only at h
      split at h
      · cases h
      · rename_i hne
        cases h
        refine ⟨_, .present (by simpa using hmark) hsign (digits_takeWhile _) ?_, ?_⟩
        · simpa using hne
        · rw [List.cons_append, List.append_assoc, List.takeWhile_append_dropWhile, ← hcs]
    · cases h

/-- A mantissa without a point. -/
theorem scanMantissa_integer (hne : cs.takeWhile Char.isDigit ≠ [])
    (hpoint : ∀ rest, cs.dropWhile Char.isDigit ≠ '.' :: rest) :
    scanMantissa cs = some (cs.takeWhile Char.isDigit, [], cs.dropWhile Char.isDigit) := by
  unfold scanMantissa
  dsimp only
  rw [drop_takeWhile]
  split
  · rename_i rest h
    exact absurd h (hpoint rest)
  · rw [if_neg (by simpa using hne)]

theorem scanMantissa_point (h : cs.dropWhile Char.isDigit = '.' :: rest)
    (hne : cs.takeWhile Char.isDigit ≠ [] ∨ rest.takeWhile Char.isDigit ≠ []) :
    scanMantissa cs = some (cs.takeWhile Char.isDigit, rest.takeWhile Char.isDigit,
      rest.dropWhile Char.isDigit) := by
  have hsome : ((cs.takeWhile Char.isDigit).isEmpty && (rest.takeWhile Char.isDigit).isEmpty) =
      false := by
    rw [Bool.and_eq_false_iff]
    simpa using hne
  unfold scanMantissa
  dsimp only
  rw [drop_takeWhile, h]
  simp only [hsome, Bool.false_eq_true, if_false, drop_takeWhile]

/-- A mantissa is scanned, and more of it if the text goes on. -/
theorem scanMantissa_append {whole frac mantissa : List Char} (h : Mantissa whole frac mantissa)
    (rest : List Char) : ∃ whole' frac' rest',
      scanMantissa (mantissa ++ rest) = some (whole', frac', rest') ∧ rest'.length ≤ rest.length ∧
        (Ends Char.isDigit rest → rest.head? ≠ some '.' →
          whole' = whole ∧ frac' = frac ∧ rest' = rest) := by
  have hless := length_dropWhile_le' Char.isDigit rest
  cases h with
  | integer hwhole hne =>
    have htaken : (whole ++ rest).takeWhile Char.isDigit = whole ++ rest.takeWhile Char.isDigit :=
      List.takeWhile_append_of_pos hwhole
    have hleft : (whole ++ rest).dropWhile Char.isDigit = rest.dropWhile Char.isDigit :=
      List.dropWhile_append_of_pos hwhole
    have hsome : (whole ++ rest).takeWhile Char.isDigit ≠ [] := by
      rw [htaken]
      exact List.append_ne_nil_of_left_ne_nil hne _
    by_cases hpoint : ∃ tail, rest.dropWhile Char.isDigit = '.' :: tail
    · obtain ⟨tail, htail⟩ := hpoint
      refine ⟨_, _, _, scanMantissa_point (hleft.trans htail) (.inl hsome), ?_,
        fun hends hhead => ?_⟩
      · have := length_dropWhile_le' Char.isDigit tail
        rw [htail, List.length_cons] at hless
        omega
      · rw [hends.dropWhile_eq] at htail
        exact absurd (by rw [htail]; rfl) hhead
    · refine ⟨_, _, _, scanMantissa_integer hsome (fun tail h => hpoint ⟨tail, hleft ▸ h⟩), ?_,
        fun hends _ => ?_⟩
      · rw [hleft]
        exact hless
      · rw [htaken, hleft, hends.takeWhile_eq, hends.dropWhile_eq, List.append_nil]
        exact ⟨rfl, rfl, rfl⟩
  | point hwhole hfrac hne =>
    have hends : Ends Char.isDigit ('.' :: (frac ++ rest)) := ends_cons (by decide) _
    have htext : whole ++ '.' :: frac ++ rest = whole ++ '.' :: (frac ++ rest) := by simp
    have htaken : (whole ++ '.' :: frac ++ rest).takeWhile Char.isDigit = whole := by
      rw [htext, List.takeWhile_append_of_pos hwhole, hends.takeWhile_eq, List.append_nil]
    have hleft : (whole ++ '.' :: frac ++ rest).dropWhile Char.isDigit = '.' :: (frac ++ rest) := by
      rw [htext, List.dropWhile_append_of_pos hwhole, hends.dropWhile_eq]
    have hfraction : (frac ++ rest).takeWhile Char.isDigit = frac ++ rest.takeWhile Char.isDigit :=
      List.takeWhile_append_of_pos hfrac
    have hbehind : (frac ++ rest).dropWhile Char.isDigit = rest.dropWhile Char.isDigit :=
      List.dropWhile_append_of_pos hfrac
    refine ⟨_, _, _, scanMantissa_point hleft ?_, ?_, fun hends _ => ?_⟩
    · rw [htaken, hfraction]
      exact hne.imp_right fun h => List.append_ne_nil_of_left_ne_nil h _
    · rw [hbehind]
      exact hless
    · rw [htaken, hfraction, hbehind, hends.takeWhile_eq, hends.dropWhile_eq, List.append_nil]
      exact ⟨rfl, rfl, rfl⟩

theorem scanMantissa_sound {whole frac : List Char} (h : scanMantissa cs = some (whole, frac, rest)) :
    ∃ mantissa, Mantissa whole frac mantissa ∧ cs = mantissa ++ rest := by
  have hsplit : cs.takeWhile Char.isDigit ++ cs.dropWhile Char.isDigit = cs :=
    List.takeWhile_append_dropWhile
  unfold scanMantissa at h
  dsimp only at h
  rw [drop_takeWhile] at h
  split at h
  · rename_i tail htail
    split at h
    · cases h
    · rename_i hne
      cases h
      refine ⟨_, .point (digits_takeWhile cs) (digits_takeWhile tail) ?_, ?_⟩
      · rw [Bool.and_eq_true, List.isEmpty_iff, List.isEmpty_iff, not_and_or] at hne
        exact hne
      · rw [drop_takeWhile, List.append_assoc, List.cons_append, List.takeWhile_append_dropWhile,
          ← htail, hsplit]
  · split at h
    · cases h
    · rename_i hne
      cases h
      exact ⟨_, .integer (digits_takeWhile cs) (by simpa using hne), hsplit.symm⟩

/-- What is scanned is a decimal literal. -/
theorem scanDecimal_sound {d : DecimalLiteral} (h : scanDecimal cs = some (d, rest)) :
    ∃ front, d.Spelled front ∧ cs = front ++ rest := by
  unfold scanDecimal at h
  split at h
  · cases h
  · rename_i whole frac middle hscan
    obtain ⟨mantissa, hmantissa, hcs⟩ := scanMantissa_sound hscan
    split at h
    · rename_i hexponent
      cases h
      obtain ⟨x, hx, hmiddle⟩ := scanExponent_sound hexponent
      exact ⟨_, .intro hmantissa hx, by rw [hcs, hmiddle, List.append_assoc]⟩
    · cases h
      exact ⟨_, .intro hmantissa .absent, by rw [hcs, List.append_nil]⟩

/-- What starts with a decimal literal is scanned at least that far. -/
theorem scanDecimal_append {d : DecimalLiteral} {front : List Char} (h : d.Spelled front)
    (rest : List Char) : ∃ d' rest', scanDecimal (front ++ rest) = some (d', rest') ∧
      rest'.length ≤ rest.length ∧ (rest = [] → d' = d) := by
  obtain ⟨hmantissa, hexponent⟩ := h
  rename_i mantissa exponent
  obtain ⟨whole, frac, negative, exp⟩ := d
  dsimp only at hmantissa hexponent
  cases hexponent with
  | absent =>
    obtain ⟨whole', frac', middle, hscan, hmiddle, hsame⟩ := scanMantissa_append hmantissa rest
    rw [List.append_nil, scanDecimal, hscan]
    dsimp only
    split
    · rename_i n' exp' rest' hexp
      obtain ⟨x, hx, rfl⟩ := scanExponent_sound hexp
      refine ⟨_, _, rfl, Nat.le_trans (by simp) hmiddle, ?_⟩
      rintro rfl
      rw [List.length_eq_zero_iff.1 (Nat.le_zero.1 hmiddle)] at hexp
      cases hexp
    · refine ⟨_, _, rfl, hmiddle, ?_⟩
      rintro rfl
      obtain ⟨rfl, rfl, -⟩ := hsame (ends_nil _) (by simp)
      rfl
  | present hmarker hsign hdigits hne =>
    rename_i marker sign
    obtain ⟨whole', frac', middle, hscan, -, hsame⟩ :=
      scanMantissa_append hmantissa (marker :: (sign ++ exp) ++ rest)
    have hends : Ends Char.isDigit (marker :: (sign ++ exp) ++ rest) :=
      ends_cons (by rcases hmarker with rfl | rfl <;> decide) _
    obtain ⟨rfl, rfl, rfl⟩ := hsame hends (by rcases hmarker with rfl | rfl <;> simp)
    rw [List.append_assoc, scanDecimal, hscan]
    dsimp only
    rw [scanExponent_append hmarker hsign hdigits hne]
    refine ⟨_, _, rfl, length_dropWhile_le' _ _, ?_⟩
    rintro rfl
    simp

/-! ## What is read is a number -/

variable {x y : Float}

theorem isNaN_eq_false_iff : x.isNaN = false ↔ x.toModel.unpack ≠ .notANumber := by
  change x.toModel.unpack.isNaN = false ↔ _
  cases x.toModel.unpack <;> simp [UnpackedFloat.isNaN]

theorem isNaN_of_parts (h : biasedExponent x ≠ 2047 ∨ fraction x = 0) : x.isNaN = false := by
  rw [isNaN_eq_false_iff, unpack_eq]
  split
  · rename_i hexponent
    rw [if_pos (h.resolve_left (not_not.2 hexponent))]
    exact UnpackedFloat.noConfusion
  · split
    · split <;> exact UnpackedFloat.noConfusion
    · exact UnpackedFloat.noConfusion

/-- What is put together from a number is a number. -/
theorem isNaN_pack {u : UnpackedFloat} (h : u ≠ .notANumber) :
    (Float.ofModel (pack u)).isNaN = false := by
  have hcomponents (s : UnpackedFloat.Sign) (e : BitVec 11) (m : BitVec 52)
      (hparts : e.toNat ≠ 2047 ∨ m.toNat = 0)
      (heq : UnpackedFloat.pack Format.binary64 u =
        UnpackedFloat.packComponents Format.binary64 s e m) :
      (Float.ofModel (pack u)).isNaN = false := by
    have hbits : bitsNat (.ofModel (pack u)) = s.toBitVec.toNat * 2 ^ 63 + e.toNat * 2 ^ 52 + m.toNat :=
      (congrArg BitVec.toNat heq).trans (toNat_packComponents s e m)
    have hs : s.toBitVec.toNat < 2 := s.toBitVec.isLt
    have hm := m.isLt
    have he := e.isLt
    refine isNaN_of_parts ?_
    rw [biasedExponent_eq, fraction_eq, hbits]
    omega
  cases u with
  | notANumber => exact absurd rfl h
  | infinity s => exact hcomponents s (-1#11) 0 (.inr rfl) rfl
  | zero s => exact hcomponents s 0 0 (.inr rfl) rfl
  | finite s m e hm =>
    by_cases hlarge : 2 ^ Format.binary64.exponentBits ≤
        (e + Format.binary64.exponentBias + Format.binary64.mantissaBitsWithoutImplicit).toNat + 1
    · exact hcomponents s (-1#11) 0 (.inr rfl) (if_pos hlarge)
    · by_cases hnormal : m.log2 + 1 = Format.binary64.mantissaBits
      · refine hcomponents s _ _ (.inl ?_) ((if_neg hlarge).trans (if_pos hnormal))
        change ¬ (2 ^ 11 ≤ _) at hlarge
        rw [BitVec.toNat_ofNat]
        omega
      · exact hcomponents s 0 _ (.inl (by decide)) ((if_neg hlarge).trans (if_neg hnormal))

theorem roundWithAccuracy_ne_notANumber (s : UnpackedFloat.Sign) (m : Nat) (e : Int)
    (a : UnpackedFloat.Accuracy) :
    UnpackedFloat.roundWithAccuracy Format.binary64 s m e a ≠ .notANumber := by
  unfold UnpackedFloat.roundWithAccuracy
  dsimp only
  split
  · exact UnpackedFloat.noConfusion
  · exact UnpackedFloat.noConfusion

/-- A number times a finite one that is not zero is a number. -/
theorem isNaN_mul {m : Nat} {e : Int} {hm : 0 < m} (hx : x.isNaN = false)
    (hy : y.toModel.unpack = .finite .positive m e hm) : (x * y).isNaN = false := by
  rw [isNaN_eq_false_iff] at hx
  apply isNaN_pack
  rw [hy]
  cases hu : x.toModel.unpack with
  | notANumber => exact absurd hu hx
  | infinity s => exact UnpackedFloat.noConfusion
  | zero s => exact UnpackedFloat.noConfusion
  | finite s n j hn => exact roundWithAccuracy_ne_notANumber _ _ _ _

theorem ofScientific_ne_notANumber (m : Nat) (e : Int) :
    UnpackedFloat.ofScientific Format.binary64 m e ≠ .notANumber := by
  unfold UnpackedFloat.ofScientific
  split
  · exact UnpackedFloat.noConfusion
  · split
    · exact UnpackedFloat.noConfusion
    · split
      · exact UnpackedFloat.noConfusion
      · split
        · exact roundWithAccuracy_ne_notANumber _ _ _ _
        · exact roundWithAccuracy_ne_notANumber _ _ _ _

theorem isNaN_floatOfNat (n : Nat) : (Float.ofNat n).isNaN = false := by
  have hone : (Float.ofBits 4607182418800017408).toModel.unpack =
      .finite .positive (2 ^ 52) (-52) (by decide) := by
    rfl
  change (Float.ofScientific n false 0).isNaN = false
  unfold Float.ofScientific
  split
  · refine isNaN_mul ?_ hone
    apply isNaN_pack
    unfold UnpackedFloat.ofUInt64 UnpackedFloat.ofNat UnpackedFloat.ofInt UnpackedFloat.normalize
    split
    · exact roundWithAccuracy_ne_notANumber _ _ _ _
    · exact UnpackedFloat.noConfusion
    · exact roundWithAccuracy_ne_notANumber _ _ _ _
  · exact isNaN_pack (ofScientific_ne_notANumber _ _)

theorem isNaN_withSign (negative : Bool) (hx : x.isNaN = false) :
    (withSign negative x).isNaN = false := by
  cases negative with
  | false => exact hx
  | true =>
    change (-x).isNaN = false
    rw [isNaN_eq_false_iff] at hx
    apply isNaN_pack
    cases hu : x.toModel.unpack with
    | notANumber => exact absurd hu hx
    | _ => exact UnpackedFloat.noConfusion

/-- The double with the bits of a canonical number. -/
theorem unpack_ofBits {b : UInt64} {m : Nat} {e : Int} (h : Canonical m e) (he : e ≤ 971)
    (hm : 0 < m) (hb : b.toNat = rank m e) :
    (Float.ofBits b).toModel.unpack = .finite .positive m e hm := by
  let y : Float := ⟨pack (.finite .positive m e hm)⟩
  have hy : y.toModel.unpack = .finite .positive m e hm := unpack_pack_canonical h he _ hm
  have hbits : y.toBits = b := by
    rw [← UInt64.toNat_inj, hb]
    exact (bitsNat_pack h hm).trans (if_neg (by omega))
  rw [← hbits]
  change (pack y.toModel.unpack).unpack = _
  rw [hy]
  exact hy

theorem unpack_twoPow {e : Int} (hlow : -1074 ≤ e) (hhigh : e ≤ 1023) :
    ∃ m j, ∃ hm : 0 < m, (twoPow e).toModel.unpack = .finite .positive m j hm := by
  unfold twoPow
  split
  · rename_i hsmall
    obtain ⟨k, hk⟩ : ∃ k : Nat, e = k - 1074 := ⟨(e + 1074).toNat, by omega⟩
    have hk52 : k < 52 := by omega
    have hpos : 0 < 2 ^ k := Nat.two_pow_pos k
    have hless : 2 ^ k < 2 ^ 52 := Nat.pow_lt_pow_right (by decide) hk52
    refine ⟨2 ^ k, -1074, hpos, unpack_ofBits ⟨hpos, by omega, by decide, fun _ => rfl⟩ (by decide)
      hpos ?_⟩
    have hshift : (e + 1074).toNat.toUInt64.toNat = k := by
      change (e + 1074).toNat % 2 ^ 64 = k
      omega
    rw [rank, if_pos hless, UInt64.toNat_shiftLeft, hshift,
      Nat.mod_eq_of_lt (show k < 64 by omega), Nat.shiftLeft_eq]
    change 1 * 2 ^ k % 2 ^ 64 = 2 ^ k
    omega
  · rename_i hnormal
    refine ⟨2 ^ 52, e - 52, by decide, unpack_ofBits ⟨by decide, by decide, by omega,
      fun hsmall => absurd hsmall (by decide)⟩ (by omega) (by decide) ?_⟩
    have hexp : (e + 1023).toNat.toUInt64.toNat = (e + 1023).toNat := Nat.mod_eq_of_lt (by omega)
    rw [rank, if_neg (by decide), UInt64.toNat_shiftLeft, hexp, Nat.shiftLeft_eq]
    change (e + 1023).toNat * 2 ^ 52 % 2 ^ 64 = _
    omega

theorem isNaN_infinity : infinity.isNaN = false := by
  decide +kernel

theorem isNaN_zero : (0 : Float).isNaN = false :=
  isNaN_eq_false_iff.2 (by rw [unpack_zero]; exact UnpackedFloat.noConfusion)

theorem isNaN_nearest (num den : Nat) : (nearest num den).isNaN = false := by
  have hlow : -1074 ≤ lastBinaryPlace num den := le_max_right _ _
  have hplace {c : Bool} {kept : Nat} (hc : c = false → lastBinaryPlace num den ≤ 971) :
      (if c = true then infinity else ofDyadic ⟨kept, lastBinaryPlace num den⟩).isNaN = false := by
    cases c with
    | true => exact isNaN_infinity
    | false =>
      obtain ⟨m, j, hm, hunpack⟩ := unpack_twoPow hlow (by have := hc rfl; omega)
      exact isNaN_mul (isNaN_floatOfNat kept) hunpack
  unfold nearest
  split
  · exact isNaN_zero
  · refine hplace fun hnot => ?_
    simp only [Bool.or_eq_false_iff, decide_eq_false_iff_not] at hnot
    omega

theorem isNaN_ofNat (n : Nat) : (ofNat n).isNaN = false := by
  unfold ofNat
  split
  · exact isNaN_floatOfNat n
  · exact isNaN_nearest n 1

theorem isNaN_ofDecimal (digits : Nat) (e : Int) : (ofDecimal digits e).isNaN = false := by
  unfold ofDecimal
  split
  · exact isNaN_zero
  · dsimp only
    split
    · exact isNaN_infinity
    · split
      · exact isNaN_zero
      · split
        · exact isNaN_nearest _ _
        · exact isNaN_nearest _ _

/-! ## Characters -/

/-- A character of a decimal literal. -/
def isDecimalChar (c : Char) : Bool :=
  c.isDigit || c == '.' || c == 'e' || c == 'E' || isSign c

theorem isDecimalChar_of_isDigit {c : Char} (h : c.isDigit = true) : isDecimalChar c = true := by
  simp [isDecimalChar, h]

theorem Mantissa.chars {whole frac text : List Char} (h : Mantissa whole frac text) :
    ∀ c ∈ text, isDecimalChar c = true := by
  cases h with
  | integer hwhole => exact fun c hc => isDecimalChar_of_isDigit (hwhole c hc)
  | point hwhole hfrac =>
    intro c hc
    rcases List.mem_append.1 hc with hc | hc
    · exact isDecimalChar_of_isDigit (hwhole c hc)
    · rcases List.mem_cons.1 hc with rfl | hc
      · rfl
      · exact isDecimalChar_of_isDigit (hfrac c hc)

theorem Exponent.chars {negative : Bool} {digits text : List Char}
    (h : Exponent negative digits text) : ∀ c ∈ text, isDecimalChar c = true := by
  cases h with
  | absent => exact fun c hc => nomatch hc
  | present hmarker hsign hdigits =>
    intro c hc
    rcases List.mem_cons.1 hc with rfl | hc
    · rcases hmarker with rfl | rfl <;> rfl
    rcases List.mem_append.1 hc with hc | hc
    · cases hsign with
      | absent => cases hc
      | plus => rw [List.mem_singleton.1 hc]; rfl
      | minus => rw [List.mem_singleton.1 hc]; rfl
    · exact isDecimalChar_of_isDigit (hdigits c hc)

theorem DecimalLiteral.Spelled.chars {d : DecimalLiteral} {text : List Char} (h : d.Spelled text) :
    ∀ c ∈ text, isDecimalChar c = true := by
  obtain ⟨hmantissa, hexponent⟩ := h
  exact fun c hc => (List.mem_append.1 hc).elim (hmantissa.chars c) (hexponent.chars c)

/-- A decimal literal starts with a digit or with a point. -/
theorem Mantissa.head {whole frac text : List Char} (h : Mantissa whole frac text) :
    ∃ c rest, text = c :: rest ∧ (c.isDigit = true ∨ c = '.') := by
  cases h with
  | integer hwhole hne =>
    obtain ⟨c, rest, rfl⟩ := List.exists_cons_of_ne_nil hne
    exact ⟨c, rest, rfl, .inl (hwhole c List.mem_cons_self)⟩
  | point hwhole hfrac hne =>
    cases whole with
    | nil => exact ⟨'.', frac, rfl, .inr rfl⟩
    | cons c rest => exact ⟨c, _, rfl, .inl (hwhole c List.mem_cons_self)⟩

theorem DecimalLiteral.Spelled.head {d : DecimalLiteral} {text : List Char} (h : d.Spelled text) :
    ∃ c rest, text = c :: rest ∧ (c.isDigit = true ∨ c = '.') := by
  obtain ⟨hmantissa, -⟩ := h
  obtain ⟨c, rest, rfl, hc⟩ := hmantissa.head
  exact ⟨c, _, rfl, hc⟩

theorem isDigitOf_sixteen_iff (c : Char) : isDigitOf 16 c = true ↔ HexDigit c := by
  have hsome (v : Nat) : (if v < 16 then some v else none).isSome = true ↔ v < 16 := by
    split <;> simp [*]
  rw [isDigitOf, digitValue?, hsome]
  simp only [HexDigit, Char.le_def, UInt32.le_iff_toNat_le]
  change (if 48 ≤ c.toNat ∧ c.toNat ≤ 57 then c.toNat - 48
      else if 97 ≤ c.toNat ∧ c.toNat ≤ 122 then c.toNat - 87
      else if 65 ≤ c.toNat ∧ c.toNat ≤ 90 then c.toNat - 55 else 36) < 16 ↔
    48 ≤ c.toNat ∧ c.toNat ≤ 57 ∨ 97 ≤ c.toNat ∧ c.toNat ≤ 102 ∨ 65 ≤ c.toNat ∧ c.toNat ≤ 70
  split_ifs <;> omega

/-- A printable character is no space. -/
theorem isSpace_of_printable {c : Char} (hlow : 33 ≤ c.toNat) (hhigh : c.toNat < 127) :
    isSpace c = false := by
  have hne {d : Char} (hd : d.toNat < 33 ∨ 127 ≤ d.toNat) : (c == d) = false := by
    rw [beq_eq_false_iff_ne]
    rintro rfl
    omega
  have hrange : ¬ '\u2000' ≤ c := by
    rw [Char.le_def, UInt32.le_iff_toNat_le]
    change ¬ 8192 ≤ c.toNat
    omega
  have hblank : isBlank c = false := by
    unfold isBlank
    rw [hne (by decide), hne (by decide), hne (by decide), hne (by decide), hne (by decide),
      hne (by decide), hne (by decide), hne (by decide), hne (by decide), hne (by decide),
      hne (by decide), decide_eq_false hrange]
    rfl
  have hline : isLineTerminator c = false := by
    unfold isLineTerminator
    rw [hne (by decide), hne (by decide), hne (by decide), hne (by decide)]
    rfl
  rw [isSpace, hblank, hline]
  rfl

theorem infinityName_eq : infinityName = ['I', 'n', 'f', 'i', 'n', 'i', 't', 'y'] := rfl

theorem isSpace_of_isDecimalChar {c : Char} (h : isDecimalChar c = true) : isSpace c = false := by
  simp only [isDecimalChar, isSign, Bool.or_eq_true, beq_iff_eq] at h
  rcases h with (((h | rfl) | rfl) | rfl) | rfl | rfl
  · rw [Char.isDigit_iff_toNat] at h
    change 48 ≤ c.toNat ∧ c.toNat ≤ 57 at h
    exact isSpace_of_printable (by omega) (by omega)
  all_goals decide

theorem HexDigit.isSpace {c : Char} (h : HexDigit c) : isSpace c = false := by
  simp only [HexDigit, Char.le_def, UInt32.le_iff_toNat_le] at h
  change 48 ≤ c.toNat ∧ c.toNat ≤ 57 ∨ 97 ≤ c.toNat ∧ c.toNat ≤ 102 ∨ 65 ≤ c.toNat ∧ c.toNat ≤ 70 at h
  exact isSpace_of_printable (by omega) (by omega)

/-- No number has a space in it. -/
theorem Numeral.isSpace {text : List Char} {x : Float} (h : Numeral text x) :
    ∀ c ∈ text, isSpace c = false := by
  cases h with
  | empty => exact fun c hc => nomatch hc
  | hexadecimal hmarker hne hdigits =>
    intro c hc
    rcases List.mem_cons.1 hc with rfl | hc
    · decide
    rcases List.mem_cons.1 hc with rfl | hc
    · rcases hmarker with rfl | rfl <;> decide
    · exact (hdigits c hc).isSpace
  | signed hsign h =>
    intro c hc
    rcases List.mem_append.1 hc with hc | hc
    · cases hsign with
      | absent => cases hc
      | plus => rw [List.mem_singleton.1 hc]; decide
      | minus => rw [List.mem_singleton.1 hc]; decide
    · cases h with
      | infinite =>
        rw [infinityName_eq] at hc
        simp only [List.mem_cons, List.not_mem_nil, or_false] at hc
        rcases hc with rfl | rfl | rfl | rfl | rfl | rfl | rfl | rfl <;>
          exact isSpace_of_printable (by decide) (by decide)
      | decimal h => exact isSpace_of_isDecimalChar (h.chars c hc)

section

variable {p : Char → Bool} {front text back : List Char}

theorem ends_of_all (h : ∀ c ∈ cs, p c = false) : Ends p cs :=
  fun c hc => h c (List.mem_of_mem_head? hc)

/-- What is cut off at the ends. -/
theorem trimBoth_append (hfront : ∀ c ∈ front, p c = true) (hback : ∀ c ∈ back, p c = true)
    (htext : ∀ c ∈ text, p c = false) : trimBoth p (front ++ text ++ back) = text := by
  have hleft : (front ++ text ++ back).dropWhile p = (text ++ back).dropWhile p := by
    rw [List.append_assoc, List.dropWhile_append_of_pos hfront]
  rcases List.eq_nil_or_concat text with rfl | ⟨init, last, rfl⟩
  · rw [trimBoth, hleft, List.nil_append, List.dropWhile_eq_nil_iff.2 hback]
    rfl
  · have hends : Ends p (init ++ [last] ++ back) := fun c hc => by
      refine htext c ?_
      cases init with
      | nil => cases hc; simp
      | cons a init => cases hc; simp
    rw [trimBoth, hleft, List.concat_eq_append, hends.dropWhile_eq, List.reverse_append,
      List.dropWhile_append_of_pos (fun c hc => hback c (List.mem_reverse.1 hc)),
      (ends_of_all fun c hc => htext c ((List.concat_eq_append ▸ List.mem_reverse.1 hc))).dropWhile_eq,
      List.reverse_reverse]

theorem trimBoth_spec (p : Char → Bool) (cs : List Char) : ∃ front back,
    cs = front ++ trimBoth p cs ++ back ∧ (∀ c ∈ front, p c = true) ∧ ∀ c ∈ back, p c = true := by
  refine ⟨cs.takeWhile p, ((cs.dropWhile p).reverse.takeWhile p).reverse, ?_,
    fun _ hc => List.mem_takeWhile_imp hc,
    fun _ hc => List.mem_takeWhile_imp (List.mem_reverse.1 hc)⟩
  rw [trimBoth, List.append_assoc, ← List.reverse_append, List.takeWhile_append_dropWhile,
    List.reverse_reverse, List.takeWhile_append_dropWhile]

end

/-! ## Whole texts and prefixes -/

theorem isNaN_nan : nan.isNaN = true := by
  decide +kernel

theorem isNaN_unsigned {text : List Char} {x : Float} (h : Unsigned text x) : x.isNaN = false := by
  cases h with
  | infinite => exact isNaN_infinity
  | decimal => exact isNaN_ofDecimal _ _

theorem isNaN_numeral {text : List Char} {x : Float} (h : Numeral text x) : x.isNaN = false := by
  cases h with
  | empty => exact isNaN_zero
  | hexadecimal => exact isNaN_ofNat _
  | signed hsign h => exact isNaN_withSign _ (isNaN_unsigned h)

/-- An unsigned number starts with no sign. -/
theorem Unsigned.ends {text : List Char} {x : Float} (h : Unsigned text x) (rest : List Char) :
    Ends isSign (text ++ rest) := by
  cases h with
  | infinite => exact ends_cons (by decide) _
  | decimal h =>
    obtain ⟨c, rest, rfl, hc⟩ := h.head
    exact ends_cons (hc.elim isDigit_not_isSign fun h => h ▸ by decide) _

theorem takeSign_unsigned {negative : Bool} {sign text : List Char} {x : Float}
    (hsign : SignText negative sign) (h : Unsigned text x) (rest : List Char) :
    takeSign (sign ++ (text ++ rest)) = (negative, text ++ rest) :=
  takeSign_append hsign fun _ => h.ends rest

/-- No decimal literal starts with a name. -/
theorem DecimalLiteral.Spelled.not_infinity {d : DecimalLiteral} {text : List Char}
    (h : d.Spelled text) (rest : List Char) : infinityName.isPrefixOf (text ++ rest) = false := by
  obtain ⟨c, tail, rfl, hc⟩ := h.head
  have hne : ('I' == c) = false := by
    rw [beq_eq_false_iff_ne]
    rintro rfl
    rcases hc with hc | hc
    · exact absurd hc (by decide)
    · exact absurd hc (by decide)
  have hname : infinityName = 'I' :: "nfinity".toList := rfl
  rw [hname, List.cons_append, List.isPrefixOf_cons_cons, hne, Bool.false_and]

/-- A number with a sign or a decimal is not hexadecimal. -/
theorem hexTail?_signed {negative : Bool} {sign text : List Char} {x : Float}
    (hsign : SignText negative sign) (h : Unsigned text x) : hexTail? (sign ++ text) = none := by
  have hmarker (c : Char) (hc : c = 'x' ∨ c = 'X') : c ∉ sign ++ text := by
    intro hmem
    rcases List.mem_append.1 hmem with hmem | hmem
    · cases hsign with
      | absent => cases hmem
      | plus => rcases hc with rfl | rfl <;> exact absurd hmem (by decide)
      | minus => rcases hc with rfl | rfl <;> exact absurd hmem (by decide)
    · cases h with
      | infinite =>
        rw [infinityName_eq] at hmem
        rcases hc with rfl | rfl <;> exact absurd hmem (by decide)
      | decimal h => rcases hc with rfl | rfl <;> exact absurd (h.chars _ hmem) (by decide)
  unfold hexTail?
  split
  · rename_i heq
    exact absurd (heq ▸ by simp) (hmarker 'x' (.inl rfl))
  · rename_i heq
    exact absurd (heq ▸ by simp) (hmarker 'X' (.inr rfl))
  · rfl

/-- The number behind the space around it. -/
theorem ofText_of_written {s : String} {x : Float} (h : Written s x) : ofText s = x := by
  obtain ⟨front, text, back, hs, hfront, hback, hnumeral⟩ := h
  have htrimmed : trimBoth isSpace s.toList = text := by
    rw [hs, trimBoth_append hfront hback hnumeral.isSpace]
  unfold ofText
  rw [htrimmed]
  dsimp only
  cases hnumeral with
  | empty => rfl
  | hexadecimal hmarker hne hdigits =>
    rename_i marker digits
    have htail : hexTail? ('0' :: marker :: digits) = some digits := by
      rcases hmarker with rfl | rfl <;> rfl
    have hall : digits.all (isDigitOf 16) = true :=
      List.all_eq_true.2 fun c hc => (isDigitOf_sixteen_iff c).2 (hdigits c hc)
    rw [htail]
    simp [hne, hall]
  | signed hsign h =>
    rename_i negative sign text x
    have htaken := takeSign_unsigned hsign h []
    rw [List.append_nil] at htaken
    have hne : (sign ++ text).isEmpty = false := by
      have htext : text ≠ [] := by
        cases h with
        | infinite => rw [infinityName_eq]; exact List.cons_ne_nil _ _
        | decimal h =>
          obtain ⟨c, rest, rfl, -⟩ := h.head
          exact List.cons_ne_nil _ _
      simp [htext]
    rw [hne, if_neg Bool.false_ne_true, hexTail?_signed hsign h, htaken]
    dsimp only
    cases h with
    | infinite => exact if_pos rfl
    | decimal h =>
      rename_i d
      obtain ⟨d', rest', hscan, hrest, hsame⟩ := scanDecimal_append h []
      have hname : text ≠ infinityName := fun heq => by
        have := h.not_infinity []
        rw [heq, List.append_nil, List.isPrefixOf_iff_prefix.2 List.prefix_rfl] at this
        cases this
      rw [List.append_nil, hsame rfl, List.length_eq_zero_iff.1 (Nat.le_zero.1 hrest)] at hscan
      rw [if_neg hname, hscan]

theorem written_of_ofText {s : String} (h : (ofText s).isNaN = false) : Written s (ofText s) := by
  obtain ⟨front, back, hs, hfront, hback⟩ := trimBoth_spec isSpace s.toList
  refine ⟨front, _, back, hs, hfront, hback, ?_⟩
  unfold ofText at h ⊢
  dsimp only at h ⊢
  generalize trimBoth isSpace s.toList = text at h ⊢
  split
  · rename_i hempty
    rw [List.isEmpty_iff.1 hempty]
    exact .empty
  rename_i hne
  rw [if_neg hne] at h
  split
  · rename_i digits htail
    rw [htail] at h
    dsimp only at h
    split
    · rename_i hbad
      rw [if_pos hbad, isNaN_nan] at h
      cases h
    · rename_i hgood
      rw [Bool.or_eq_true, not_or, List.isEmpty_iff, Bool.not_eq_true', Bool.not_eq_false,
        List.all_eq_true] at hgood
      have hdigits : ∀ c ∈ digits, HexDigit c :=
        fun c hc => (isDigitOf_sixteen_iff c).1 (hgood.2 c hc)
      unfold hexTail? at htail
      split at htail
      · cases htail
        exact .hexadecimal (.inl rfl) hgood.1 hdigits
      · cases htail
        exact .hexadecimal (.inr rfl) hgood.1 hdigits
      · cases htail
  · rename_i htail
    rw [htail] at h
    dsimp only at h
    obtain ⟨sign, hsign, htext, -⟩ := takeSign_spec text
    generalize (takeSign text).1 = negative, (takeSign text).2 = unsigned at hsign htext h ⊢
    rw [htext]
    split
    · rename_i hname
      rw [hname]
      exact .signed hsign .infinite
    · rename_i hname
      rw [if_neg hname] at h
      split
      · rename_i d hscan
        obtain ⟨front, hspelled, hfront⟩ := scanDecimal_sound hscan
        rw [List.append_nil] at hfront
        rw [hfront]
        exact .signed hsign (.decimal hspelled)
      · rename_i hscan
        exfalso
        split at h
        · rename_i d heq
          exact hscan d heq
        · rw [isNaN_nan] at h
          cases h

/-- A text has one value. -/
theorem Unsigned.unique {text : List Char} {x y : Float} (hx : Unsigned text x)
    (hy : Unsigned text y) : x = y := by
  have hapart {d : DecimalLiteral} (h : d.Spelled infinityName) : False := by
    have := h.not_infinity []
    rw [List.append_nil, List.isPrefixOf_iff_prefix.2 List.prefix_rfl] at this
    cases this
  cases hx with
  | infinite =>
    cases hy with
    | infinite => rfl
    | decimal hy => exact (hapart hy).elim
  | decimal hx =>
    cases hy with
    | infinite => exact (hapart hx).elim
    | decimal hy =>
      obtain ⟨d, rest, hscan, -, hd⟩ := scanDecimal_append hx []
      obtain ⟨d', rest', hscan', -, hd'⟩ := scanDecimal_append hy []
      rw [hscan] at hscan'
      cases hscan'
      rw [← hd rfl, ← hd' rfl]

theorem Longest.unique {x y : Float} (hx : Longest cs x) (hy : Longest cs y) : x = y := by
  obtain ⟨front, rest, hcs, h, hmost⟩ := hx
  obtain ⟨front', rest', hcs', h', hmost'⟩ := hy
  have hlength := Nat.le_antisymm (hmost' _ _ _ hcs h) (hmost _ _ _ hcs' h')
  obtain ⟨rfl, -⟩ := List.append_inj (hcs.symm.trans hcs') hlength
  exact h.unique h'

/-- The longest number at the head of a text, if there is one. -/
theorem longest_or_none (cs : List Char) :
    if infinityName.isPrefixOf cs then Longest cs infinity
    else match scanDecimal cs with
      | some (d, _) => Longest cs d.value
      | none => ∀ front rest x, cs = front ++ rest → ¬ Unsigned front x := by
  split
  · rename_i hname
    obtain ⟨rest, hrest⟩ := List.isPrefixOf_iff_prefix.1 hname
    refine ⟨_, rest, hrest.symm, .infinite, fun front' rest' y hcs h => ?_⟩
    cases h with
    | infinite => exact Nat.le_refl _
    | decimal h =>
      rw [hcs, h.not_infinity] at hname
      cases hname
  · rename_i hname
    have hdecimal {front rest : List Char} {x : Float} (hcs : cs = front ++ rest)
        (h : Unsigned front x) : ∃ d : DecimalLiteral, d.Spelled front ∧ x = d.value := by
      cases h with
      | infinite =>
        exact absurd (List.isPrefixOf_iff_prefix.2 ⟨rest, hcs.symm⟩) hname
      | decimal h => exact ⟨_, h, rfl⟩
    split
    · rename_i d rest hscan
      obtain ⟨front, hspelled, hcs⟩ := scanDecimal_sound hscan
      refine ⟨front, rest, hcs, .decimal hspelled, fun front' rest' y hcs' h => ?_⟩
      obtain ⟨d', hd', -⟩ := hdecimal hcs' h
      obtain ⟨d'', rest'', hscan', hle, -⟩ := scanDecimal_append hd' rest'
      rw [← hcs', hscan] at hscan'
      cases hscan'
      have := congrArg List.length (hcs.symm.trans hcs')
      rw [List.length_append, List.length_append] at this
      omega
    · rename_i hscan
      intro front rest x hcs h
      obtain ⟨d, hd, -⟩ := hdecimal hcs h
      obtain ⟨d', rest', hscan', -⟩ := scanDecimal_append hd rest
      rw [← hcs, hscan] at hscan'
      cases hscan'

/-- A text is read as a number exactly when the grammar makes it one, with space around it, and as
that number. A prefix is read when it is the longest number behind leading space and a sign. -/
theorem reads_exactly_its_grammar (s : String) :
    ((ofText s).isNaN = false ↔ ∃ x, Written s x) ∧ (∀ x, Written s x → ofText s = x) ∧
    ∃ blank sign cs negative, s.toList = blank ++ sign ++ cs ∧ (∀ c ∈ blank, isSpace c = true) ∧
      Ends isSpace (sign ++ cs) ∧ SignText negative sign ∧ (sign = [] → Ends isSign cs) ∧
      ((∃ x, Longest cs x ∧ (∀ y, Longest cs y → y = x) ∧ parseFloat s = withSign negative x) ∨
        (∀ front rest x, cs = front ++ rest → ¬ Unsigned front x) ∧ (parseFloat s).isNaN = true) := by
  refine ⟨⟨fun h => ⟨_, written_of_ofText h⟩, ?_⟩, fun x h => ofText_of_written h, ?_⟩
  · rintro ⟨x, h⟩
    rw [ofText_of_written h]
    obtain ⟨_, _, _, _, _, _, hnumeral⟩ := h
    exact isNaN_numeral hnumeral
  · obtain ⟨sign, hsign, hrest, hnone⟩ := takeSign_spec (s.toList.dropWhile isSpace)
    refine ⟨s.toList.takeWhile isSpace, sign, (takeSign (s.toList.dropWhile isSpace)).2,
      (takeSign (s.toList.dropWhile isSpace)).1, ?_, fun _ hc => List.mem_takeWhile_imp hc, ?_, hsign,
      ?_, ?_⟩
    · rw [List.append_assoc, ← hrest, List.takeWhile_append_dropWhile]
    · rw [← hrest]
      exact ends_dropWhile _ _
    · intro hempty
      have hends := hnone hempty
      rwa [hrest, hempty, List.nil_append] at hends
    · have hlongest := longest_or_none (takeSign (s.toList.dropWhile isSpace)).2
      unfold parseFloat
      dsimp only
      split
      · rename_i hname
        rw [if_pos hname] at hlongest
        exact .inl ⟨_, hlongest, fun _ h => h.unique hlongest, rfl⟩
      · rename_i hname
        rw [if_neg hname] at hlongest
        split
        · rename_i d rest hscan
          rw [hscan] at hlongest
          exact .inl ⟨_, hlongest, fun _ h => h.unique hlongest, rfl⟩
        · rename_i hscan
          rw [hscan] at hlongest
          exact .inr ⟨hlongest, isNaN_nan⟩

end ScriptMachine.Number
