import ScriptMachine.Proofs.Numbers.Literals
import ScriptMachine.Proofs.Strings.Units

/-!
# Escapes in string literals

A string literal is written in pieces: characters that stand for themselves and escapes. Each piece
stands for code units, and the value of the literal is what the units of all pieces decode to. The
scanner looks one escape ahead, so it joins the halves of a pair exactly where they are neighbours
among the units. Main statement: `literal_read_as_units`.
-/

namespace ScriptMachine.Text

/-- The units of a character decode to it, whatever follows. -/
theorem decodeUnits_charUnits_append (c : Char) (us : List Nat) :
    decodeUnits (charUnits c ++ us) = c :: decodeUnits us := by
  rcases charUnits_cases c with ⟨-, hunits, hhigh, hlow⟩ | ⟨-, u, v, hunits, hu, hv, hc⟩
  · rw [hunits, List.singleton_append]
    cases us with
    | nil => simp [decodeUnits, hhigh, hlow]
    | cons v rest => simp [decodeUnits, hhigh, hlow]
  · rw [hunits, List.cons_append, List.singleton_append, decodeUnits, hu, hv, ← hc]
    simp

theorem decodeUnits_flatMap (cs : List Char) : decodeUnits (cs.flatMap charUnits) = cs := by
  induction cs with
  | nil => rfl
  | cons c cs ih => rw [List.flatMap_cons, decodeUnits_charUnits_append, ih]

/-- A text is what its units decode to. -/
theorem ofUnits_units (s : String) : ofUnits (units s) = s := by
  rw [ofUnits, units, decodeUnits_flatMap, String.ofList_toList]

end ScriptMachine.Text

namespace ScriptMachine.Source

open Number ScriptMachine.Text

/-! ## Units behind one another -/

/-- The first unit of a pair and the second one, which follows it. -/
theorem decodeUnits_pair {u v : Nat} (hu : isHigh u = true) (hv : isLow v = true) (us : List Nat) :
    decodeUnits (u :: v :: us) =
      Char.ofNat (0x10000 + (u - 0xd800) * 0x400 + (v - 0xdc00)) :: decodeUnits us := by
  rw [decodeUnits, hu, hv]
  rfl

theorem charOfUnit_eq (u : Nat) :
    charOfUnit u = if isHigh u || isLow u then '\ufffd' else Char.ofNat u := by
  unfold charOfUnit
  refine if_congr ?_ rfl rfl
  rw [Bool.or_eq_true, isHigh_iff, isLow_iff]
  omega

/-- A unit that is not the first half of a pair, or has no second half behind it. -/
theorem decodeUnits_alone {u : Nat} {us : List Nat}
    (h : isHigh u = true → us.head?.any isLow = false) :
    decodeUnits (u :: us) = charOfUnit u :: decodeUnits us := by
  rw [charOfUnit_eq]
  cases us with
  | nil => rfl
  | cons v us =>
    rw [decodeUnits, if_neg]
    intro hpair
    rw [Bool.and_eq_true] at hpair
    have hlow := h hpair.1
    rw [List.head?_cons, Option.any_some, hpair.2] at hlow
    cases hlow

/-! ## Pieces of a literal -/

/-- What the inside of a string literal is made of. -/
inductive Piece where
  /-- A character that stands for itself. -/
  | plain (c : Char)
  /-- A backslash and one character. -/
  | single (c : Char)
  /-- The escape of the character zero. -/
  | zero
  /-- An escape with two hexadecimal digits. -/
  | byte (digits : Fin 2 → Char)
  /-- An escape with four hexadecimal digits. -/
  | unit (digits : Fin 4 → Char)

/-- What a character behind a backslash stands for. -/
def singleValue (c : Char) : Char :=
  match c with
  | 'n' => '\n'
  | 'r' => '\r'
  | 't' => '\t'
  | 'b' => '\x08'
  | 'f' => '\x0c'
  | 'v' => '\x0b'
  | c => c

namespace Piece

/-- How a piece is written. -/
def text : Piece → List Char
  | plain c => [c]
  | single c => ['\\', c]
  | zero => ['\\', '0']
  | byte d => ['\\', 'x', d 0, d 1]
  | unit d => ['\\', 'u', d 0, d 1, d 2, d 3]

/-- The code units that a piece stands for. -/
def units : Piece → List Nat
  | plain c => charUnits c
  | single c => charUnits (singleValue c)
  | zero => [0]
  | byte d => [natOfDigits 16 [d 0, d 1]]
  | unit d => [natOfDigits 16 [d 0, d 1, d 2, d 3]]

end Piece

/-- How pieces are written one behind the other. -/
def literalText (ps : List Piece) : List Char := ps.flatMap Piece.text

/-- The code units of pieces one behind the other. -/
def literalUnits (ps : List Piece) : List Nat := ps.flatMap Piece.units

/-- A piece may stand in a literal with the given quotes, in front of the given text. -/
def Piece.Stands (quote : Char) (behind : List Char) : Piece → Prop
  | plain c => c ≠ quote ∧ c ≠ '\\' ∧ isLineTerminator c = false
  | single c => c.isDigit = false ∧ c ≠ 'x' ∧ c ≠ 'u' ∧ isLineTerminator c = false
  | zero => Number.Ends Char.isDigit behind
  | byte d => ∀ i, HexDigit (d i)
  | unit d => ∀ i, HexDigit (d i)

/-- Each piece may stand where it does. -/
def Allowed (quote : Char) : List Piece → Prop
  | [] => True
  | p :: ps => p.Stands quote (literalText ps) ∧ Allowed quote ps

variable {quote : Char} {acc rest : List Char} {used : Nat} {ps : List Piece}

@[simp] theorem literalText_cons (p : Piece) (ps : List Piece) :
    literalText (p :: ps) = p.text ++ literalText ps := rfl

@[simp] theorem literalUnits_cons (p : Piece) (ps : List Piece) :
    literalUnits (p :: ps) = p.units ++ literalUnits ps := rfl

/-! ## One escape -/

theorem hexValue?_eq {cs : List Char} (h : ∀ c ∈ cs, HexDigit c) :
    hexValue? cs = some (natOfDigits 16 cs) := by
  unfold hexValue?
  rw [if_pos]
  rw [List.all_eq_true]
  exact fun c hc => (isDigitOf_sixteen_iff c).2 (h c hc)

theorem hexValue?_pair {d : Fin 2 → Char} (h : ∀ i, HexDigit (d i)) :
    hexValue? [d 0, d 1] = some (natOfDigits 16 [d 0, d 1]) := by
  apply hexValue?_eq
  simp [h]

theorem hexValue?_quad {d : Fin 4 → Char} (h : ∀ i, HexDigit (d i)) :
    hexValue? [d 0, d 1, d 2, d 3] = some (natOfDigits 16 [d 0, d 1, d 2, d 3]) := by
  apply hexValue?_eq
  simp [h]

theorem digitValue?_lt {radix : Nat} {c : Char} {n : Nat} (h : digitValue? radix c = some n) :
    n < radix := by
  unfold digitValue? at h
  dsimp only at h
  by_cases hlt : (if '0' ≤ c ∧ c ≤ '9' then c.toNat - 48
      else if 'a' ≤ c ∧ c ≤ 'z' then c.toNat - 87
      else if 'A' ≤ c ∧ c ≤ 'Z' then c.toNat - 55 else 36) < radix
  · rw [if_pos hlt] at h
    exact Option.some.inj h ▸ hlt
  · rw [if_neg hlt] at h
    cases h

/-- Two hexadecimal digits are less than the halves of pairs. -/
theorem natOfDigits_pair_lt (a b : Char) : natOfDigits 16 [a, b] < 256 := by
  have hdigit (c : Char) : (digitValue? 16 c).getD 0 < 16 := by
    cases hvalue : digitValue? 16 c with
    | none => decide
    | some n => exact digitValue?_lt hvalue
  have ha := hdigit a
  have hb := hdigit b
  simp only [natOfDigits, List.foldl_cons, List.foldl_nil]
  omega

theorem escape_single {c : Char} (h : Piece.Stands quote rest (.single c)) (behind : List Char) :
    escape (c :: behind) = .ok ([singleValue c], 1) := by
  obtain ⟨hdigit, hx, hu, hline⟩ := h
  unfold escape singleValue
  split <;> simp_all [isLineTerminator]

theorem escape_zero {behind : List Char} (h : Number.Ends Char.isDigit behind) :
    escape ('0' :: behind) = .ok (['\x00'], 1) := by
  have hnext : (behind.head?.map Char.isDigit).getD false = false := by
    cases behind with
    | nil => rfl
    | cons c behind => exact h c rfl
  change (if (behind.head?.map Char.isDigit).getD false = true then _ else _) = _
  rw [hnext]
  rfl

theorem escape_byte {d : Fin 2 → Char} (h : ∀ i, HexDigit (d i)) (behind : List Char) :
    escape ('x' :: d 0 :: d 1 :: behind) = .ok ([charOfUnit (natOfDigits 16 [d 0, d 1])], 3) := by
  simp only [escape, hexValue?_pair h]

theorem hexQuad?_eq {d : Fin 4 → Char} (h : ∀ i, HexDigit (d i)) (behind : List Char) :
    hexQuad? (d 0 :: d 1 :: d 2 :: d 3 :: behind) = some (natOfDigits 16 [d 0, d 1, d 2, d 3]) :=
  hexValue?_quad h

theorem escape_unit {d : Fin 4 → Char} (h : ∀ i, HexDigit (d i)) (behind : List Char) :
    escape ('u' :: d 0 :: d 1 :: d 2 :: d 3 :: behind) =
      .ok ([(unicodeEscape (natOfDigits 16 [d 0, d 1, d 2, d 3]) behind).1],
        5 + (unicodeEscape (natOfDigits 16 [d 0, d 1, d 2, d 3]) behind).2) := by
  simp only [escape, hexQuad?_eq h]
  rfl

/-! ## What stands behind the first half of a pair -/

theorem lowSurrogate?_unit {d : Fin 4 → Char} (h : ∀ i, HexDigit (d i)) (behind : List Char) :
    lowSurrogate? (Piece.text (.unit d) ++ behind) =
      if isLow (natOfDigits 16 [d 0, d 1, d 2, d 3])
        then some (natOfDigits 16 [d 0, d 1, d 2, d 3]) else none := by
  rw [Piece.text, List.cons_append, List.cons_append, lowSurrogate?]
  simp only [List.cons_append, List.nil_append, hexQuad?_eq h]
  exact if_congr isLow_iff.symm rfl rfl

/-- A piece that is no escape of a unit neither is taken for a second half nor stands for one. -/
theorem not_low_of_ne_unit {p : Piece} {behind : List Char} (hp : ∀ d, p ≠ .unit d)
    (h : p.Stands quote rest) :
    lowSurrogate? (p.text ++ behind) = none ∧ ∀ us, (p.units ++ us).head?.any isLow = false := by
  have hchar (c : Char) (us : List Nat) : (charUnits c ++ us).head?.any isLow = false := by
    rcases charUnits_cases c with ⟨-, hunits, -, hlow⟩ | ⟨-, u, v, hunits, hu, -, -⟩
    · rw [hunits]
      exact hlow
    · rw [hunits]
      rw [isHigh_iff] at hu
      simp [isLow]
      omega
  cases p with
  | plain c =>
    refine ⟨?_, hchar c⟩
    unfold lowSurrogate?
    split
    · rename_i heq
      exact absurd (List.cons.inj heq).1 h.2.1
    · rfl
  | single c =>
    refine ⟨?_, hchar (singleValue c)⟩
    unfold lowSurrogate?
    split
    · rename_i heq
      exact absurd (List.cons.inj (List.cons.inj heq).2).1 h.2.2.1
    · rfl
  | zero => exact ⟨rfl, fun _ => rfl⟩
  | byte d =>
    refine ⟨rfl, fun us => ?_⟩
    have hlt := natOfDigits_pair_lt (d 0) (d 1)
    simp only [Piece.units, List.singleton_append, List.head?_cons, Option.any_some, isLow]
    simp
    omega
  | unit d => exact absurd rfl (hp d)

/-- The scanner looks ahead in the text for the second half of a pair. It finds one exactly where it
is the next unit. -/
theorem lowSurrogate?_cases (hquote : quote ≠ '\\') (h : Allowed quote ps) (rest : List Char) :
    (lowSurrogate? (literalText ps ++ quote :: rest) = none ∧
        (literalUnits ps).head?.any isLow = false) ∨
      ∃ d qs, ps = .unit d :: qs ∧ isLow (natOfDigits 16 [d 0, d 1, d 2, d 3]) = true ∧
        lowSurrogate? (literalText ps ++ quote :: rest) =
          some (natOfDigits 16 [d 0, d 1, d 2, d 3]) := by
  cases ps with
  | nil =>
    left
    refine ⟨?_, rfl⟩
    unfold lowSurrogate?
    split
    · rename_i heq
      exact absurd (List.cons.inj heq).1 hquote
    · rfl
  | cons p qs =>
    rw [literalText_cons, List.append_assoc]
    by_cases hp : ∃ d, p = .unit d
    · obtain ⟨d, rfl⟩ := hp
      rw [lowSurrogate?_unit h.1]
      cases hlow : isLow (natOfDigits 16 [d 0, d 1, d 2, d 3]) with
      | false => exact .inl ⟨rfl, hlow⟩
      | true => exact .inr ⟨d, qs, rfl, hlow, rfl⟩
    · left
      have hnone : lowSurrogate? (p.text ++ (literalText qs ++ quote :: rest)) = none ∧ _ :=
        not_low_of_ne_unit (fun d hd => hp ⟨d, hd⟩) h.1
      exact ⟨hnone.1, hnone.2 _⟩

/-! ## The whole literal -/

theorem stringBody_quote (quote : Char) (acc : List Char) (used : Nat) (rest : List Char) :
    stringBody quote acc used (quote :: rest) = .ok (String.ofList acc.reverse, used + 1) := by
  rw [stringBody, if_pos (beq_self_eq_true quote)]

theorem stringBody_plain {c : Char} (h : Piece.Stands quote rest (.plain c)) (acc : List Char)
    (used : Nat) (behind : List Char) :
    stringBody quote acc used (c :: behind) = stringBody quote (c :: acc) (used + 1) behind := by
  obtain ⟨hquote, hslash, hline⟩ := h
  rw [stringBody, if_neg (by simpa using hquote), if_neg (by simpa using hslash),
    if_neg (by simp [hline])]

theorem stringBody_escape {behind value : List Char} {n : Nat} (hquote : quote ≠ '\\')
    (h : escape behind = .ok (value, n)) (acc : List Char) (used : Nat) :
    stringBody quote acc used ('\\' :: behind) =
      stringBody quote (value.reverse ++ acc) (used + 1 + n) (behind.drop n) := by
  rw [stringBody, if_neg (by simpa using hquote.symm), if_pos (beq_self_eq_true _), h]

/-- A piece that is no escape of a unit is read as the character that its units decode to. -/
theorem exists_value_of_ne_unit {p : Piece} (hquote : quote = '"' ∨ quote = '\'')
    (hp : ∀ d, p ≠ .unit d) (h : p.Stands quote (literalText ps)) (acc : List Char) (used : Nat)
    (rest : List Char) :
    ∃ c, (∀ us, decodeUnits (p.units ++ us) = c :: decodeUnits us) ∧
      stringBody quote acc used (p.text ++ (literalText ps ++ quote :: rest)) =
        stringBody quote (c :: acc) (used + p.text.length) (literalText ps ++ quote :: rest) := by
  have hslash : quote ≠ '\\' := by
    rcases hquote with rfl | rfl <;> decide
  have hwhole {u : Nat} (hu : u < 256) (us : List Nat) :
      decodeUnits ([u] ++ us) = charOfUnit u :: decodeUnits us := by
    refine decodeUnits_alone fun hhigh => ?_
    rw [isHigh_iff] at hhigh
    omega
  cases p with
  | plain c => exact ⟨c, decodeUnits_charUnits_append c, stringBody_plain h _ _ _⟩
  | single c =>
    exact ⟨singleValue c, decodeUnits_charUnits_append _,
      stringBody_escape hslash (escape_single h _) _ _⟩
  | zero =>
    have hends : Number.Ends Char.isDigit (literalText ps ++ quote :: rest) := by
      intro d hd
      cases htext : literalText ps with
      | nil =>
        rw [htext] at hd
        obtain rfl := Option.some.inj hd
        rcases hquote with rfl | rfl <;> decide
      | cons c cs =>
        rw [htext] at hd
        exact h d (htext ▸ hd)
    exact ⟨'\x00', hwhole (by decide), stringBody_escape hslash (escape_zero hends) _ _⟩
  | byte d =>
    exact ⟨_, hwhole (natOfDigits_pair_lt _ _), stringBody_escape hslash (escape_byte h _) _ _⟩
  | unit d => exact absurd rfl (hp d)

/-- The escape of a unit that makes no pair with what follows. -/
theorem stringBody_unit_alone {d : Fin 4 → Char} (hquote : quote ≠ '\\') (h : ∀ i, HexDigit (d i))
    {behind : List Char}
    (halone : isHigh (natOfDigits 16 [d 0, d 1, d 2, d 3]) = true → lowSurrogate? behind = none)
    (acc : List Char) (used : Nat) :
    stringBody quote acc used (Piece.text (.unit d) ++ behind) =
      stringBody quote (charOfUnit (natOfDigits 16 [d 0, d 1, d 2, d 3]) :: acc) (used + 6)
        behind := by
  have hescape : unicodeEscape (natOfDigits 16 [d 0, d 1, d 2, d 3]) behind =
      (charOfUnit (natOfDigits 16 [d 0, d 1, d 2, d 3]), 0) := by
    unfold unicodeEscape
    split
    · rename_i low hlow
      split at hlow
      · rename_i hhigh
        rw [halone (isHigh_iff.2 hhigh)] at hlow
        cases hlow
      · cases hlow
    · rfl
  have hread := escape_unit h behind
  rw [hescape] at hread
  exact stringBody_escape hquote hread acc used

/-- The escapes of the two halves of a pair. -/
theorem stringBody_unit_pair {d e : Fin 4 → Char} (hquote : quote ≠ '\\')
    (hd : ∀ i, HexDigit (d i)) (he : ∀ i, HexDigit (e i)) {u v : Nat}
    (hu : natOfDigits 16 [d 0, d 1, d 2, d 3] = u) (hv : natOfDigits 16 [e 0, e 1, e 2, e 3] = v)
    (hhigh : isHigh u = true) (hlow : isLow v = true) (acc : List Char) (used : Nat)
    (behind : List Char) :
    stringBody quote acc used (Piece.text (.unit d) ++ (Piece.text (.unit e) ++ behind)) =
      stringBody quote (Char.ofNat (0x10000 + (u - 0xd800) * 0x400 + (v - 0xdc00)) :: acc)
        (used + 12) behind := by
  have hescape : unicodeEscape u (Piece.text (.unit e) ++ behind) =
      (Char.ofNat (0x10000 + (u - 0xd800) * 0x400 + (v - 0xdc00)), 6) := by
    unfold unicodeEscape
    rw [if_pos (isHigh_iff.1 hhigh), lowSurrogate?_unit he, hv, hlow]
    rfl
  generalize Char.ofNat (0x10000 + (u - 0xd800) * 0x400 + (v - 0xdc00)) = c at hescape ⊢
  have hread : escape ('u' :: d 0 :: d 1 :: d 2 :: d 3 :: (Piece.text (.unit e) ++ behind)) =
      .ok ([c], 11) := by
    rw [escape_unit hd, hu, hescape]
    rfl
  exact stringBody_escape hquote hread acc used

/-- The scanner reads pieces up to the closing quote as the characters that their units decode to.
The induction is on the number of pieces, since the halves of a pair are two of them. -/
theorem stringBody_literal (hquote : quote = '"' ∨ quote = '\'') (h : Allowed quote ps)
    (acc : List Char) (used : Nat) (rest : List Char) :
    stringBody quote acc used (literalText ps ++ quote :: rest) =
      .ok (String.ofList (acc.reverse ++ decodeUnits (literalUnits ps)),
        used + (literalText ps).length + 1) := by
  have hslash : quote ≠ '\\' := by
    rcases hquote with rfl | rfl <;> decide
  induction hn : ps.length using Nat.strong_induction_on generalizing ps acc used with
  | _ n ih =>
    cases ps with
    | nil =>
      rw [literalText, List.flatMap_nil, List.nil_append, stringBody_quote]
      simp [literalUnits, decodeUnits]
    | cons p ps =>
      obtain ⟨hp, hps⟩ := h
      have hlength : (p :: ps).length = ps.length + 1 := rfl
      rw [literalText_cons, literalUnits_cons, List.append_assoc, List.length_append]
      by_cases hunit : ∃ d, p = .unit d
      · obtain ⟨d, rfl⟩ := hunit
        have hcode : Piece.units (.unit d) = [natOfDigits 16 [d 0, d 1, d 2, d 3]] := rfl
        rw [hcode, List.singleton_append]
        generalize hu : natOfDigits 16 [d 0, d 1, d 2, d 3] = u
        rcases lowSurrogate?_cases hslash hps rest with ⟨hnone, hhead⟩ | ⟨e, qs, rfl, hlow, -⟩
        · rw [stringBody_unit_alone hslash hp (fun _ => hnone), hu,
            ih _ (by omega) hps _ _ rfl, decodeUnits_alone (fun _ => hhead)]
          simp [Piece.text, Nat.add_assoc]
        · generalize hv : natOfDigits 16 [e 0, e 1, e 2, e 3] = v at hlow
          have hlast : literalUnits (.unit e :: qs) = v :: literalUnits qs := by
            rw [literalUnits_cons, ← hv]
            rfl
          cases hhigh : isHigh u with
          | true =>
            have hlength' : (Piece.unit e :: qs).length = qs.length + 1 := rfl
            rw [literalText_cons, List.append_assoc, stringBody_unit_pair hslash hp hps.1 hu hv hhigh
              hlow, ih _ (by omega) hps.2 _ _ rfl, hlast, decodeUnits_pair hhigh hlow]
            simp [Piece.text]
            omega
          | false =>
            rw [stringBody_unit_alone hslash hp (by simp [hu, hhigh]), hu,
              ih _ (by omega) hps _ _ rfl, decodeUnits_alone (by simp [hhigh])]
            simp [Piece.text, Nat.add_assoc]
      · obtain ⟨c, hdecode, hread⟩ := exists_value_of_ne_unit hquote (fun d hd => hunit ⟨d, hd⟩) hp acc
          used rest
        rw [hread, ih _ (by omega) hps _ _ rfl, hdecode]
        simp [Nat.add_assoc]

/-! ## A text that is one literal -/

/-- Nothing is passed over in front of a character that starts a token, or at the end. -/
theorem skipTrivia_of_starts {c : Cursor}
    (h : ∀ ch ∈ c.rest.head?, ch = '"' ∨ ch = '\'') : skipTrivia c false = .ok (c, false) := by
  rw [skipTrivia]
  split
  · rfl
  · rename_i ch rest hrest
    rcases h ch (by rw [hrest]; rfl) with rfl | rfl <;> rfl

/-- A text between quotes that is read up to its end is one token. -/
theorem tokens_quoted {value source : String} (hquote : quote = '"' ∨ quote = '\'')
    (hsource : source.toList = quote :: rest)
    (h : stringBody quote [] 0 rest = .ok (value, rest.length)) :
    ∃ t last, tokens source = .ok [t, last] ∧ t.kind = .text value ∧ t.span.start = 0 ∧
      t.span.stop = source.utf8ByteSize ∧ last.kind = .eof := by
  have hscan : scanToken quote rest = .ok (.text value, rest.length) := by
    unfold scanToken
    rw [if_pos (by rcases hquote with rfl | rfl <;> rfl), h]
    rfl
  let next := (Cursor.ofText source).skip (rest.length + 1)
  have hstart : (Cursor.ofText source).rest = quote :: rest := hsource
  have hend : next.rest = [] := by
    rw [Cursor.rest_skip, hstart]
    simp
  have hoffset : next.offset = source.utf8ByteSize := by
    rw [((Cursor.Behind.ofText source).skip (rest.length + 1)).offset, hstart,
      List.take_of_length_le (by simp), List.nil_append, ← hsource, width_toList]
  have hlast (t : Token) : ∃ last, tokensFrom [t] next = .ok [t, last] ∧ last.kind = .eof := by
    have hskip := skipTrivia_of_starts (c := next) (by simp [hend])
    rw [tokensFrom]
    split
    · rename_i hother
      cases hskip.symm.trans hother
    · rename_i here newline hother
      cases hskip.symm.trans hother
      split
      · exact ⟨_, rfl, rfl⟩
      · rename_i hother
        cases hend.symm.trans hother
  have hskip := skipTrivia_of_starts (c := Cursor.ofText source) (by simpa [hstart] using hquote)
  rw [tokens, tokensFrom]
  split
  · rename_i hother
    cases hskip.symm.trans hother
  · rename_i here newline hother
    cases hskip.symm.trans hother
    split
    · rename_i hother
      cases hstart.symm.trans hother
    · rename_i first rest' hother
      cases hstart.symm.trans hother
      rw [hscan]
      obtain ⟨last, htokens, hkind⟩ := hlast ⟨.text value, ⟨0, next.offset, 1, 1⟩, false⟩
      exact ⟨_, last, htokens, rfl, rfl, hoffset, hkind⟩

/-- A text is one string literal with the given value. -/
def IsStringLiteral (source value : String) : Prop :=
  ∃ t last, tokens source = .ok [t, last] ∧ t.kind = .text value ∧ t.span.start = 0 ∧
    t.span.stop = source.utf8ByteSize ∧ last.kind = .eof

/-- The escape of a code unit. -/
def unitPiece (u : Nat) : Piece :=
  .unit fun i => digitChar (u / 16 ^ (3 - i.val) % 16)

theorem hexDigit_digitChar {n : Nat} (h : n < 16) : HexDigit (digitChar n) ∧
    (digitValue? 16 (digitChar n)).getD 0 = n := by
  revert n
  unfold HexDigit
  decide

theorem allowed_unitPieces (quote : Char) (us : List Nat) : Allowed quote (us.map unitPiece) := by
  induction us with
  | nil => trivial
  | cons u us ih => exact ⟨fun i => (hexDigit_digitChar (Nat.mod_lt _ (by decide))).1, ih⟩

theorem units_unitPiece {u : Nat} (h : u < 0x10000) : (unitPiece u).units = [u] := by
  have hdigit (k : Nat) : (digitValue? 16 (digitChar (u / 16 ^ k % 16))).getD 0 = u / 16 ^ k % 16 :=
    (hexDigit_digitChar (Nat.mod_lt _ (by decide))).2
  unfold unitPiece Piece.units natOfDigits
  simp only [List.foldl_cons, List.foldl_nil, hdigit]
  congr 1
  simp
  omega

theorem literalUnits_unitPieces (s : String) :
    literalUnits ((units s).map unitPiece) = units s := by
  have hall : ∀ us : List Nat, (∀ u ∈ us, u < 0x10000) → literalUnits (us.map unitPiece) = us := by
    intro us hus
    induction us with
    | nil => rfl
    | cons u us ih =>
      rw [List.map_cons, literalUnits_cons, units_unitPiece (hus u (by simp)),
        ih fun v hv => hus v (by simp [hv])]
      rfl
  exact hall _ fun u hu => lt_of_mem_units hu

/-- Pieces between quotes are one string literal, and its value is what their units decode to. A text
whose units are all written as escapes is the value of the literal. -/
theorem literal_read_as_units (quote : Char) (hquote : quote = '"' ∨ quote = '\'') :
    (∀ ps, Allowed quote ps →
      IsStringLiteral (String.ofList (quote :: literalText ps ++ [quote]))
        (ofUnits (literalUnits ps))) ∧
    ∀ s, IsStringLiteral
      (String.ofList (quote :: literalText ((units s).map unitPiece) ++ [quote])) s := by
  have hpieces : ∀ ps, Allowed quote ps →
      IsStringLiteral (String.ofList (quote :: literalText ps ++ [quote]))
        (ofUnits (literalUnits ps)) := by
    intro ps hps
    have hread := stringBody_literal hquote hps [] 0 []
    have hsource : (String.ofList (quote :: literalText ps ++ [quote])).toList =
        quote :: (literalText ps ++ [quote]) := String.toList_ofList
    refine tokens_quoted hquote hsource ?_
    rw [hread]
    simp [ofUnits]
  refine ⟨hpieces, fun s => ?_⟩
  have hunits := hpieces _ (allowed_unitPieces quote (units s))
  rwa [literalUnits_unitPieces, ofUnits_units] at hunits

/-- Two halves make a pair, and a half that is left alone is replaced. -/
theorem literal_of_three_halves : ('"' = '"' ∨ '"' = '\'') ∧
    Allowed '"' ([0xd83d, 0xde00, 0xd83d].map unitPiece ++ [.single 'n', .plain 'é']) ∧
    IsStringLiteral "\"\\ud83d\\ude00\\ud83d\\né\"" "😀\ufffd\né" := by
  have hallowed :
      Allowed '"' ([0xd83d, 0xde00, 0xd83d].map unitPiece ++ [.single 'n', .plain 'é']) := by
    have hdigits (u : Nat) (behind : List Char) : (unitPiece u).Stands '"' behind := fun _ =>
      (hexDigit_digitChar (Nat.mod_lt _ (by decide))).1
    exact ⟨hdigits _ _, hdigits _ _, hdigits _ _, ⟨by decide, by decide, by decide, by decide⟩,
      ⟨by decide, by decide, by decide⟩, trivial⟩
  exact ⟨.inl rfl, hallowed, (literal_read_as_units '"' (.inl rfl)).1 _ hallowed⟩

end ScriptMachine.Source
