import ScriptMachine.Proofs.Lexing.Tiling
import ScriptMachine.Proofs.Numbers.Reading

/-!
# Numeric literals

A text that is one numeric literal is spelled by the grammar of numbers, so it is read from a text as
the number it is in a program.
-/

namespace ScriptMachine.Source

open Number Text

variable {first : Char} {rest : List Char} {x : Float} {n : Nat}

/-- A text is one numeric token, with nothing in front of it and nothing behind it. -/
def IsNumericLiteral (source : String) (x : Float) : Prop :=
  ∃ t last, tokens source = .ok [t, last] ∧ t.kind = .number x ∧ t.span.start = 0 ∧
    t.span.stop = source.utf8ByteSize

theorem width_toList (s : String) : width s.toList = s.utf8ByteSize := by
  obtain ⟨cs, rfl⟩ : ∃ cs, s = String.ofList cs := ⟨s.toList, by simp⟩
  rw [String.toList_ofList]
  induction cs with
  | nil => rfl
  | cons c cs ih =>
    rw [width_cons, ih]
    simp [String.ofList_cons]

/-- The characters that are moved over are used up. -/
theorem drop_eq_nil_of_width {cs : List Char} (h : width (cs.take n) = width cs) :
    cs.drop n = [] := by
  by_contra hne
  have hsplit := congrArg width (List.take_append_drop n cs)
  rw [width_append] at hsplit
  have := width_pos hne
  omega

/-- What a numeric literal starts with: a digit, or a point in front of one. -/
def StartsNumber (first : Char) (rest : List Char) : Prop :=
  first.isDigit = true ∨ first = '.' ∧ ∃ c tail, rest = c :: tail ∧ c.isDigit = true

/-- A number comes from its own scanner. -/
theorem numberBody_of_scanToken (h : scanToken first rest = .ok (.number x, n)) :
    StartsNumber first rest ∧ numberBody first rest = .ok (x, n) := by
  have hword (word : String) : wordKind word ≠ .number x := by
    unfold wordKind
    split
    · exact TokenKind.noConfusion
    · split <;> exact TokenKind.noConfusion
  unfold scanToken at h
  split at h
  · cases hbody : stringBody first [] 0 rest with
    | error cause => rw [hbody] at h; cases h
    | ok value => rw [hbody] at h; cases h
  split at h
  · rename_i hstart
    refine ⟨?_, ?_⟩
    · rw [Bool.or_eq_true, Bool.and_eq_true, beq_iff_eq] at hstart
      refine hstart.imp_right fun ⟨hpoint, hdigit⟩ => ⟨hpoint, ?_⟩
      cases rest with
      | nil => cases hdigit
      | cons c tail => exact ⟨c, tail, rfl, hdigit⟩
    · cases hbody : numberBody first rest with
      | error cause => rw [hbody] at h; cases h
      | ok value => rw [hbody] at h; cases h; rfl
  split at h
  · exact absurd (congrArg Prod.fst (Except.ok.inj h)) (hword _)
  · split at h
    · cases h
    · cases h

theorem exponentPart_cons (c : Char) (rest : List Char) : exponentPart (c :: rest) =
    if c == 'e' || c == 'E' then
      let run := (takeSign rest).2.takeWhile Char.isDigit
      if run.isEmpty then .error .badNumber
      else .ok ((takeSign rest).1, run, 1 + (rest.length - (takeSign rest).2.length) + run.length)
    else .ok (false, [], 0) := by
  unfold exponentPart takeSign
  dsimp only
  split
  · split <;> simp
  · rfl

/-- The exponent part of a literal is spelled by the grammar. -/
theorem exponentPart_sound {cs exp : List Char} {negative : Bool}
    (h : exponentPart cs = .ok (negative, exp, n)) :
    ∃ text, Exponent negative exp text ∧ cs = text ++ cs.drop n := by
  cases cs with
  | nil =>
    cases h
    exact ⟨_, .absent, rfl⟩
  | cons c rest =>
    obtain ⟨sign, hsign, hrest, -⟩ := takeSign_spec rest
    rw [exponentPart_cons] at h
    generalize (takeSign rest).1 = minus, (takeSign rest).2 = digits at hsign hrest h
    subst hrest
    split at h
    · rename_i hmark
      dsimp only at h
      split at h
      · cases h
      · rename_i hne
        cases h
        refine ⟨_, .present (by simpa using hmark) hsign (digits_takeWhile digits)
          (by simpa using hne), ?_⟩
        have hplace : 1 + ((sign ++ digits).length - digits.length) +
            (digits.takeWhile Char.isDigit).length =
              (sign.length + (digits.takeWhile Char.isDigit).length) + 1 := by
          rw [List.length_append]
          omega
        rw [hplace, List.drop_succ_cons, List.drop_length_add_append, drop_takeWhile,
          List.cons_append, List.append_assoc, List.takeWhile_append_dropWhile]
    · cases h
      exact ⟨_, .absent, rfl⟩

/-- What is read once the digits in front of the exponent and their number are known. -/
def behindMantissa (whole frac tail : List Char) (k : Nat) : Except SyntaxCause (Float × Nat) :=
  match exponentPart tail with
  | .error cause => .error cause
  | .ok (negative, exp, n) =>
    if endsNumber (tail.drop n) then
      .ok (DecimalLiteral.value ⟨whole, frac, negative, exp⟩, k + n)
    else .error .numberRunsOn

/-- A decimal literal is spelled by the grammar. -/
theorem decimal_sound (hfirst : StartsNumber first rest)
    (h : numberBody.decimal first rest = .ok (x, n)) :
    ∃ (d : DecimalLiteral) (text : List Char), d.Spelled text ∧ x = d.value ∧
      first :: rest = text ++ rest.drop n := by
  have hbehind {whole frac mantissa tail : List Char} {k : Nat} (hmantissa : Mantissa whole frac mantissa)
      (htext : first :: rest = mantissa ++ tail) (htail : rest.drop k = tail)
      (h : behindMantissa whole frac tail k = .ok (x, n)) :
      ∃ (d : DecimalLiteral) (text : List Char), d.Spelled text ∧ x = d.value ∧
        first :: rest = text ++ rest.drop n := by
    unfold behindMantissa at h
    split at h
    · cases h
    · rename_i negative exp k' hexponent
      obtain ⟨text, hspelled, hsplit⟩ := exponentPart_sound hexponent
      split at h
      · cases h
        refine ⟨_, _, .intro hmantissa hspelled, rfl, ?_⟩
        rw [htext, ← List.drop_drop, htail, List.append_assoc, ← hsplit]
      · cases h
  have hpoint {whole tail : List Char} {k : Nat}
      (hwhole : Digits whole) (hne : whole ≠ [] ∨ tail.takeWhile Char.isDigit ≠ [])
      (htext : first :: rest = whole ++ '.' :: tail) (htail : rest.drop k = tail)
      (h : behindMantissa whole (tail.takeWhile Char.isDigit)
        (tail.drop (tail.takeWhile Char.isDigit).length)
        (k + (tail.takeWhile Char.isDigit).length) = .ok (x, n)) :
      ∃ (d : DecimalLiteral) (text : List Char), d.Spelled text ∧ x = d.value ∧
        first :: rest = text ++ rest.drop n := by
    refine hbehind (.point hwhole (digits_takeWhile tail) hne) ?_ ?_ h
    · rw [htext, List.append_assoc, List.cons_append, drop_takeWhile,
        List.takeWhile_append_dropWhile]
    · rw [← List.drop_drop, htail]
  unfold numberBody.decimal at h
  rcases hfirst with hdigit | ⟨rfl, c, tail, rfl, hdigit⟩
  · have hne : (first == '.') = false := by
      rw [beq_eq_false_iff_ne]
      rintro rfl
      exact absurd hdigit (by decide)
    have hwhole : Digits (first :: rest.takeWhile Char.isDigit) := fun c hc => by
      rcases List.mem_cons.1 hc with rfl | hc
      · exact hdigit
      · exact digits_takeWhile rest c hc
    have hsplit : rest.takeWhile Char.isDigit ++ rest.dropWhile Char.isDigit = rest :=
      List.takeWhile_append_dropWhile
    have hbehind' := drop_takeWhile Char.isDigit rest
    generalize hparts : (if first == '.' then _ else _ : List Char × Nat × List Char) = parts at h
    rw [hne, if_neg Bool.false_ne_true] at hparts
    dsimp only at hparts
    split at hparts
    · rename_i tail htail
      rw [hbehind'] at htail
      subst hparts
      rw [hne] at h
      have htext : first :: rest = first :: rest.takeWhile Char.isDigit ++ '.' :: tail := by
        rw [List.cons_append, ← htail, hsplit]
      have hrest : rest.drop ((rest.takeWhile Char.isDigit).length + 1) = tail := by
        rw [← List.drop_drop, hbehind', htail]
        rfl
      exact hpoint hwhole (.inl (List.cons_ne_nil _ _)) htext hrest h
    · rename_i hnone
      subst hparts
      rw [hne] at h
      have htext : first :: rest = first :: rest.takeWhile Char.isDigit ++
          rest.drop (rest.takeWhile Char.isDigit).length := by
        rw [List.cons_append, hbehind', hsplit]
      exact hbehind (.integer hwhole (List.cons_ne_nil _ _)) htext rfl h
  · have hne : (c :: tail).takeWhile Char.isDigit ≠ [] := by
      rw [List.takeWhile_cons_of_pos hdigit]
      exact List.cons_ne_nil _ _
    have hwhole : Digits [] := fun _ h => (List.not_mem_nil h).elim
    exact hpoint (k := 0) hwhole (.inr hne) rfl rfl h

/-- A numeric literal that ends a text is a numeral. -/
theorem numeral_of_numberBody (hfirst : StartsNumber first rest)
    (h : numberBody first rest = .ok (x, n)) (hend : rest.drop n = []) :
    Numeral (first :: rest) x := by
  have hhexadecimal {marker : Char} {body : List Char} (hmarker : marker = 'x' ∨ marker = 'X')
      (h : numberBody.hexadecimal body = .ok (x, n)) (hend : (marker :: body).drop n = []) :
      Numeral ('0' :: marker :: body) x := by
    unfold numberBody.hexadecimal at h
    dsimp only at h
    split at h
    · cases h
    rename_i hne
    split at h
    · cases h
      rw [Nat.add_comm, List.drop_succ_cons, drop_takeWhile, List.dropWhile_eq_nil_iff] at hend
      have hall : body.takeWhile (isDigitOf 16) = body := List.takeWhile_eq_self_iff.2 hend
      rw [hall] at hne ⊢
      exact .hexadecimal hmarker (by simpa using hne)
        fun c hc => (isDigitOf_sixteen_iff c).1 (hend c hc)
    · cases h
  have hdecimal (h : numberBody.decimal first rest = .ok (x, n)) : Numeral (first :: rest) x := by
    obtain ⟨d, text, hspelled, rfl, htext⟩ := decimal_sound hfirst h
    rw [hend, List.append_nil] at htext
    rw [htext]
    exact .signed .absent (.decimal hspelled)
  unfold numberBody at h
  split at h
  · exact hhexadecimal (.inl rfl) h hend
  · exact hhexadecimal (.inr rfl) h hend
  · split at h
    · cases h
    · exact hdecimal h
  · exact hdecimal h

/-- A text that is a numeric literal is read as the number that the literal stands for. -/
theorem ofText_of_literal {source : String} (h : IsNumericLiteral source x) : ofText source = x := by
  obtain ⟨t, last, htokens, hkind, hstart, hstop⟩ := h
  unfold tokens tokensFrom at htokens
  split at htokens
  · cases htokens
  rename_i here newline htrivia
  obtain ⟨gap, hgap, -, hplaced, -, -⟩ := trivia_of_skipTrivia htrivia (Cursor.Behind.ofText source)
  split at htokens
  · cases htokens
  rename_i first rest hrest
  split at htokens
  · cases htokens
  rename_i kind n hscan
  obtain ⟨scanned, hscanned, -⟩ := tiles_of_tokensFrom htokens (hplaced.skip (n + 1))
  obtain ⟨rfl, -⟩ := List.cons.inj hscanned
  change kind = .number x at hkind
  change here.offset = 0 at hstart
  change (here.skip (n + 1)).offset = source.utf8ByteSize at hstop
  subst hkind
  have hempty : gap = [] := by
    by_contra hne
    have hpos := width_pos hne
    have hoffset := hplaced.offset
    rw [List.nil_append] at hoffset
    omega
  have hwhole : here.rest = source.toList := by
    rw [hempty] at hgap
    exact hgap.symm
  obtain ⟨hfirst, hbody⟩ := numberBody_of_scanToken hscan
  have hend : rest.drop n = [] := by
    have hoffset := (hplaced.skip (n + 1)).offset
    rw [hempty, hstop, hwhole, ← width_toList] at hoffset
    have hdrop := drop_eq_nil_of_width hoffset.symm
    rwa [← hwhole, hrest, List.drop_succ_cons] at hdrop
  have hnumeral := numeral_of_numberBody hfirst hbody hend
  rw [← hrest, hwhole] at hnumeral
  exact Number.ofText_of_written ⟨[], _, [], by simp, by simp, by simp, hnumeral⟩

/-- A fraction without digits in front of it is a literal of five. -/
theorem ofText_of_short_literal : ∃ x, IsNumericLiteral ".5e1" x ∧
    x.toBits = 0x4014000000000000 ∧ Number.ofText ".5e1" = x := by
  have hscanned : (tokens ".5e1").toOption.map (fun ts => ts.map fun t =>
      ((match t.kind with | .number x => some x.toBits | _ => none), t.span.start, t.span.stop)) =
        some [(some 0x4014000000000000, 0, 4), (none, 4, 4)] := by
    decide +kernel
  cases htokens : tokens ".5e1" with
  | error e =>
    rw [htokens] at hscanned
    cases hscanned
  | ok ts =>
    rw [htokens] at hscanned
    obtain ⟨t, tail, rfl, ht, htail⟩ := List.map_eq_cons_iff.1 (Option.some.inj hscanned)
    obtain ⟨last, _, rfl, -, hnil⟩ := List.map_eq_cons_iff.1 htail
    obtain rfl := List.map_eq_nil_iff.1 hnil
    obtain ⟨hkind, hspan⟩ := Prod.mk.inj ht
    obtain ⟨hstart, hstop⟩ := Prod.mk.inj hspan
    split at hkind
    · rename_i x hx
      have hliteral : IsNumericLiteral ".5e1" x := ⟨t, last, htokens, hx, hstart, by rw [hstop]; rfl⟩
      exact ⟨x, hliteral, Option.some.inj hkind, ofText_of_literal hliteral⟩
    · cases hkind

end ScriptMachine.Source
