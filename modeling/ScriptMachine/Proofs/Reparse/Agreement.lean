import ScriptMachine.Proofs.Tree.Tokens

/-!
# Scanning up to a closing brace

A closing brace ends every token in front of it but strings and comments, and those must be closed
where they are. So what is scanned in front of a closing brace does not depend on what stands behind
it: two texts that agree up to such a brace have the same tokens there.
-/

namespace ScriptMachine.Source

open ScriptMachine.Text ScriptMachine.Number

/-- Two texts have the same characters in front of a closing brace, and that many of them. Behind the
brace each goes on in its own way. -/
inductive Agree (behind behind' : List Char) : Nat → List Char → List Char → Prop
  | brace : Agree behind behind' 0 ('\x7d' :: behind) ('\x7d' :: behind')
  | cons (c : Char) {k : Nat} {cs cs' : List Char} (h : Agree behind behind' k cs cs') :
    Agree behind behind' (k + 1) (c :: cs) (c :: cs')

namespace Agree

variable {behind behind' cs cs' : List Char} {k n : Nat}

theorem length (h : Agree behind behind' k cs cs') : cs.length = k + 1 + behind.length := by
  induction h with
  | brace => simp [Nat.add_comm]
  | cons c _ ih =>
    rw [List.length_cons, ih]
    omega

theorem symm (h : Agree behind behind' k cs cs') : Agree behind' behind k cs' cs := by
  induction h with
  | brace => exact .brace
  | cons c _ ih => exact .cons c ih

theorem length' (h : Agree behind behind' k cs cs') : cs'.length = k + 1 + behind'.length :=
  h.symm.length

theorem head? (h : Agree behind behind' k cs cs') : cs.head? = cs'.head? := by
  cases h with
  | brace => rfl
  | cons c _ => rfl

theorem drop (h : Agree behind behind' k cs cs') (hn : n ≤ k) :
    Agree behind behind' (k - n) (cs.drop n) (cs'.drop n) := by
  induction h generalizing n with
  | brace =>
    obtain rfl := Nat.le_zero.1 hn
    exact .brace
  | cons c h ih =>
    cases n with
    | zero => exact .cons c h
    | succ n =>
      rw [Nat.add_sub_add_right]
      exact ih (Nat.le_of_succ_le_succ hn)

/-- Behind the brace each text goes on in its own way. -/
theorem drop_all (h : Agree behind behind' k cs cs') :
    cs.drop (k + 1) = behind ∧ cs'.drop (k + 1) = behind' := by
  induction h with
  | brace => exact ⟨rfl, rfl⟩
  | cons c _ ih => exact ih

theorem take (h : Agree behind behind' k cs cs') (hn : n ≤ k) : cs.take n = cs'.take n := by
  induction h generalizing n with
  | brace =>
    obtain rfl := Nat.le_zero.1 hn
    rfl
  | cons c _ ih =>
    cases n with
    | zero => rfl
    | succ n =>
      rw [List.take_succ_cons, List.take_succ_cons, ih (Nat.le_of_succ_le_succ hn)]

/-- The brace is among the characters up to it. -/
theorem mem_take (h : Agree behind behind' k cs cs') (hn : k < n) :
    '\x7d' ∈ cs.take n ∧ '\x7d' ∈ cs'.take n := by
  induction h generalizing n with
  | brace =>
    cases n with
    | zero => cases hn
    | succ n => simp
  | cons c _ ih =>
    cases n with
    | zero => cases hn
    | succ n =>
      obtain ⟨hleft, hright⟩ := ih (Nat.lt_of_succ_lt_succ hn)
      exact ⟨List.mem_cons_of_mem _ hleft, List.mem_cons_of_mem _ hright⟩

/-- A run that the brace ends is the same in both texts. -/
theorem takeWhile (h : Agree behind behind' k cs cs') {p : Char → Bool} (hp : p '\x7d' = false) :
    cs.takeWhile p = cs'.takeWhile p ∧ (cs.takeWhile p).length ≤ k := by
  induction h with
  | brace => simp [hp]
  | cons c _ ih =>
    cases hc : p c with
    | true => simpa [hc] using ih
    | false => simp [hc]

/-- A run that ends in front of the brace is the same in both texts. -/
theorem takeWhile_of_lt (h : Agree behind behind' k cs cs') {p : Char → Bool}
    (hlt : (cs.takeWhile p).length ≤ k) (hp : p '\x7d' = true) :
    cs.takeWhile p = cs'.takeWhile p := by
  induction h with
  | brace => simp [hp] at hlt
  | cons c _ ih =>
    cases hc : p c with
    | true =>
      simp only [List.takeWhile_cons, hc, if_true, List.length_cons,
        Nat.add_le_add_iff_right] at hlt ⊢
      rw [ih hlt]
    | false => simp [hc]

/-- A word without a brace stands in both texts or in neither. -/
theorem isPrefixOf (h : Agree behind behind' k cs cs') {word : List Char}
    (hword : word = ['\x7d'] ∨ '\x7d' ∉ word) : word.isPrefixOf cs = word.isPrefixOf cs' := by
  induction word generalizing k cs cs' with
  | nil => simp
  | cons w word ih =>
    cases h with
    | brace =>
      rcases hword with hword | hword
      · cases hword
        simp
      · have hw : w ≠ '\x7d' := fun h => hword (h ▸ List.mem_cons_self)
        have hbeq : (w == '\x7d') = false := beq_eq_false_iff_ne.2 hw
        rw [List.isPrefixOf_cons_cons, List.isPrefixOf_cons_cons, hbeq, Bool.false_and, Bool.false_and]
    | cons c h =>
      rw [List.isPrefixOf_cons_cons, List.isPrefixOf_cons_cons]
      rcases hword with hword | hword
      · cases hword
        simp
      · rw [ih h (.inr fun hmem => hword (List.mem_cons_of_mem _ hmem))]

/-- A word without a brace ends in front of the brace. -/
theorem length_le_of_isPrefixOf (h : Agree behind behind' k cs cs') {word : List Char}
    (hword : '\x7d' ∉ word) (hinitial : word.isPrefixOf cs = true) : word.length ≤ k := by
  induction word generalizing k cs cs' with
  | nil => exact Nat.zero_le _
  | cons w word ih =>
    cases h with
    | brace =>
      rw [List.isPrefixOf_cons_cons, Bool.and_eq_true, beq_iff_eq] at hinitial
      exact absurd (hinitial.1 ▸ List.mem_cons_self) hword
    | cons c h =>
      rw [List.isPrefixOf_cons_cons, Bool.and_eq_true] at hinitial
      exact Nat.succ_le_succ (ih h (fun hmem => hword (List.mem_cons_of_mem _ hmem)) hinitial.2)

/-! ## Punctuators -/

theorem find?_congr {α : Type} {p q : α → Bool} {l : List α} (h : ∀ a ∈ l, p a = q a) :
    l.find? p = l.find? q := by
  induction l with
  | nil => rfl
  | cons a l ih =>
    rw [List.find?_cons, List.find?_cons, h a List.mem_cons_self,
      ih fun b hb => h b (List.mem_cons_of_mem _ hb)]

/-- A closing brace stands in no spelling but its own. -/
theorem brace_or_not_mem : ∀ entry ∈ Punctuator.table,
    entry.2.1.toList = ['\x7d'] ∨ '\x7d' ∉ entry.2.1.toList := by
  decide

theorem scan? (h : Agree behind behind' k cs cs') :
    Punctuator.scan? cs = Punctuator.scan? cs' := by
  unfold Punctuator.scan?
  apply congrArg
  apply find?_congr
  intro entry hentry
  exact h.isPrefixOf (brace_or_not_mem entry hentry)

/-- A punctuator ends in front of the brace, or is one. -/
theorem le_of_scan? (h : Agree behind behind' k cs cs') {p : Punctuator}
    (hscan : Punctuator.scan? cs = some (p, n)) : n ≤ k + 1 := by
  obtain ⟨⟨q, text, label⟩, hfind, heq⟩ := Option.map_eq_some_iff.1 hscan
  cases heq
  have hinitial := List.find?_some hfind
  rw [← String.length_toList]
  rcases brace_or_not_mem _ (List.mem_of_find?_eq_some hfind) with hbrace | hbrace
  · rw [hbrace]
    exact Nat.succ_le_succ (Nat.zero_le k)
  · exact Nat.le_succ_of_le (h.length_le_of_isPrefixOf hbrace hinitial)

/-! ## Strings -/

theorem hexValue?_of_mem {digits : List Char} (h : '\x7d' ∈ digits) : hexValue? digits = none := by
  unfold hexValue?
  apply if_neg
  intro hall
  have hbrace := List.all_eq_true.1 hall _ h
  revert hbrace
  decide

theorem hexQuad?_eq (cs : List Char) :
    Source.hexQuad? cs = if cs.length < 4 then none else hexValue? (cs.take 4) := by
  match cs with
  | [] => rfl
  | [_] => rfl
  | [_, _] => rfl
  | [_, _, _] => rfl
  | a :: b :: c :: d :: rest =>
    rw [if_neg]
    · rfl
    · simp

/-- Where the brace is among the characters that are looked at, they are no number. -/
theorem hexQuad?_of_lt (h : Agree behind behind' k cs cs') (hk : k < 4) :
    Source.hexQuad? cs = none ∧ Source.hexQuad? cs' = none := by
  rw [hexQuad?_eq, hexQuad?_eq, hexValue?_of_mem (h.mem_take hk).1, hexValue?_of_mem (h.mem_take hk).2]
  exact ⟨ite_self _, ite_self _⟩

theorem hexQuad? (h : Agree behind behind' k cs cs') :
    Source.hexQuad? cs = Source.hexQuad? cs' := by
  by_cases hk : k < 4
  · obtain ⟨hleft, hright⟩ := h.hexQuad?_of_lt hk
    rw [hleft, hright]
  · have hlength := h.length
    have hlength' := h.length'
    rw [hexQuad?_eq, hexQuad?_eq, if_neg (by omega), if_neg (by omega), h.take (by omega)]

theorem lowSurrogate? (h : Agree behind behind' k cs cs') :
    Source.lowSurrogate? cs = Source.lowSurrogate? cs' := by
  cases h with
  | brace => rfl
  | cons c h =>
    by_cases hc : c = '\\'
    · subst hc
      cases h with
      | brace => rfl
      | cons d h =>
        by_cases hd : d = 'u'
        · subst hd
          rw [Source.lowSurrogate?, Source.lowSurrogate?, h.hexQuad?]
        · simp [Source.lowSurrogate?, hd]
    · simp [Source.lowSurrogate?, hc]

theorem unicodeEscape (h : Agree behind behind' k cs cs') (code : Nat) :
    Source.unicodeEscape code cs = Source.unicodeEscape code cs' := by
  unfold Source.unicodeEscape
  rw [h.lowSurrogate?]

/-- An escape stands for the same in both texts. -/
theorem escape (h : Agree behind behind' k cs cs') :
    Source.escape cs = Source.escape cs' := by
  cases h with
  | brace => rfl
  | @cons c k cs cs' h =>
    by_cases hx : c = 'x'
    · subst hx
      have hnone {digits : List Char} (hmem : '\x7d' ∈ digits) := hexValue?_of_mem hmem
      cases h with
      | brace =>
        cases behind <;> cases behind' <;> simp [Source.escape, hnone]
      | cons a h =>
        cases h with
        | brace => simp [Source.escape, hnone]
        | cons b h => rfl
    by_cases hu : c = 'u'
    · subst hu
      rw [Source.escape, Source.escape, h.hexQuad?]
      cases hquad : Source.hexQuad? cs' with
      | none => rfl
      | some code =>
        have hk : 4 ≤ k := by
          refine Nat.le_of_not_lt fun hk => ?_
          rw [(h.hexQuad?_of_lt hk).2] at hquad
          cases hquad
        dsimp only
        rw [(h.drop hk).unicodeEscape]
    by_cases hzero : c = '0'
    · subst hzero
      rw [Source.escape, Source.escape, h.head?]
    by_cases hr : c = '\r'
    · subst hr
      cases h with
      | brace => rfl
      | cons d h =>
        by_cases hd : d = '\n'
        · subst hd
          rfl
        · simp [Source.escape, hd]
    · unfold Source.escape
      split <;> simp_all

end Agree

/-- A string is closed behind what was used of it before. -/
theorem used_lt_of_stringBody {quote : Char} {acc cs : List Char} {used n : Nat} {value : String}
    (h : stringBody quote acc used cs = .ok (value, n)) : used < n := by
  fun_induction stringBody quote acc used cs with
  | case1 => cases h
  | case2 =>
    cases h
    exact Nat.lt_succ_self _
  | case3 => cases h
  | case4 acc used c rest _ _ escaped m _ ih =>
    have := ih h
    omega
  | case5 => cases h
  | case6 acc used c rest _ _ _ ih =>
    have := ih h
    omega

/-- A string is closed within the text. -/
theorem le_of_stringBody {quote : Char} {acc cs : List Char} {used n : Nat} {value : String}
    (h : stringBody quote acc used cs = .ok (value, n)) : n ≤ used + cs.length := by
  fun_induction stringBody quote acc used cs with
  | case1 => cases h
  | case2 =>
    cases h
    rw [List.length_cons]
    omega
  | case3 => cases h
  | case4 acc used c rest _ _ escaped m _ ih =>
    have hle := ih h
    have hused := used_lt_of_stringBody h
    rw [List.length_drop] at hle
    rw [List.length_cons]
    omega
  | case5 => cases h
  | case6 acc used c rest _ _ _ ih =>
    have hle := ih h
    rw [List.length_cons]
    omega

namespace Agree

variable {behind behind' cs cs' : List Char} {k n : Nat}

/-- A string that is closed in front of the brace has the same value in both texts. -/
theorem stringBody {quote : Char} (hquote : quote ≠ '\x7d') (h : Agree behind behind' k cs cs')
    {acc : List Char} {used : Nat} {value : String}
    (hbody : Source.stringBody quote acc used cs = .ok (value, n)) (hn : n ≤ used + k + 1) :
    Source.stringBody quote acc used cs' = .ok (value, n) := by
  induction hlength : cs.length using Nat.strongRecOn generalizing cs cs' k acc used with
  | ind length ih =>
    subst hlength
    cases h with
    | brace =>
      -- The string would be closed behind the brace.
      have hnot : ('\x7d' == quote) = false := beq_eq_false_iff_ne.2 hquote.symm
      have hline : isLineTerminator '\x7d' = false := by decide
      rw [Source.stringBody, if_neg (by simp [hnot]), if_neg (by decide),
        if_neg (by simp [hline])] at hbody
      have := used_lt_of_stringBody hbody
      omega
    | @cons c k rest rest' h =>
      rw [Source.stringBody] at hbody ⊢
      split at hbody
      · rename_i hc
        rw [if_pos hc]
        exact hbody
      rename_i hc
      rw [if_neg hc]
      split at hbody
      · rename_i hbackslash
        rw [if_pos hbackslash, ← h.escape]
        cases hescape : Source.escape rest with
        | error cause =>
          rw [hescape] at hbody
          cases hbody
        | ok escaped =>
          obtain ⟨chars, m⟩ := escaped
          rw [hescape] at hbody
          dsimp only at hbody ⊢
          have hused := used_lt_of_stringBody hbody
          have hdrop := h.drop (n := m) (by omega)
          exact ih (rest.drop m).length (by rw [List.length_drop, List.length_cons]; omega) hdrop hbody (by omega) rfl
      · rename_i hbackslash
        rw [if_neg hbackslash]
        split at hbody
        · cases hbody
        · rename_i hline
          rw [if_neg hline]
          exact ih rest.length (by simp) h hbody (by omega) rfl

/-! ## Numbers -/

theorem endsNumber (h : Agree behind behind' k cs cs') :
    Source.endsNumber cs = Source.endsNumber cs' := by
  rw [Source.endsNumber, Source.endsNumber, h.head?]

theorem exponentPart (h : Agree behind behind' k cs cs') :
    Source.exponentPart cs = Source.exponentPart cs' ∧
      ∀ r, Source.exponentPart cs = .ok r → r.2.2 ≤ k := by
  -- The digits behind a sign, or without one.
  have hdigits {j : Nat} {digits digits' : List Char} (h : Agree behind behind' j digits digits')
      (negative : Bool) (signed : Nat) (hj : signed + j + 1 ≤ k) :
      let part (digits : List Char) : Except SyntaxCause (Bool × List Char × Nat) :=
        let run := digits.takeWhile Char.isDigit
        if run.isEmpty then .error .badNumber else .ok (negative, run, 1 + signed + run.length)
      part digits = part digits' ∧ ∀ r, part digits = .ok r → r.2.2 ≤ k := by
    obtain ⟨heq, hle⟩ := h.takeWhile (p := Char.isDigit) (by decide)
    dsimp only
    refine ⟨by rw [heq], fun r hr => ?_⟩
    split at hr
    · cases hr
    · cases hr
      dsimp only
      omega
  cases h with
  | brace => exact ⟨rfl, fun r hr => by cases hr; exact Nat.le_refl _⟩
  | @cons c k rest rest' h =>
    unfold Source.exponentPart
    dsimp only
    split
    · cases h with
      | brace => exact ⟨rfl, fun r hr => by cases hr⟩
      | @cons d k rest rest' h =>
        by_cases hminus : d = '-'
        · subst hminus
          exact hdigits h true 1 (by omega)
        by_cases hplus : d = '+'
        · subst hplus
          exact hdigits h false 1 (by omega)
        · have hplain := hdigits (.cons d h) false 0 (by omega)
          simpa [hminus, hplus] using hplain
    · exact ⟨rfl, fun r hr => by cases hr; exact Nat.zero_le _⟩

theorem hexadecimal (h : Agree behind behind' k cs cs') :
    numberBody.hexadecimal cs = numberBody.hexadecimal cs' ∧
      ∀ r, numberBody.hexadecimal cs = .ok r → r.2 ≤ k + 1 := by
  obtain ⟨heq, hle⟩ := h.takeWhile (p := isDigitOf 16) (by decide)
  unfold numberBody.hexadecimal
  dsimp only
  refine ⟨by rw [← heq, (h.drop hle).endsNumber], fun r hr => ?_⟩
  split at hr
  · cases hr
  split at hr
  · cases hr
    dsimp only
    omega
  · cases hr

end Agree

/-- A decimal literal behind its whole part, its point and its fraction. -/
def decimalEnd (whole : List Char) (point : Nat) (frac tail : List Char) :
    Except SyntaxCause (Float × Nat) :=
  match exponentPart tail with
  | .error cause => .error cause
  | .ok (negative, exp, n) =>
    if endsNumber (tail.drop n) then
      .ok (DecimalLiteral.value ⟨whole, frac, negative, exp⟩,
        (whole.length - 1) + point + frac.length + n)
    else .error .numberRunsOn

theorem decimal_of_point (rest : List Char) :
    numberBody.decimal '.' rest = decimalEnd [] 0 (rest.takeWhile Char.isDigit)
      (rest.drop (rest.takeWhile Char.isDigit).length) := rfl

theorem decimal_eq {first : Char} (hfirst : (first == '.') = false) (rest : List Char) :
    numberBody.decimal first rest =
      match rest.drop (rest.takeWhile Char.isDigit).length with
      | '.' :: tail => decimalEnd (first :: rest.takeWhile Char.isDigit) 1
        (tail.takeWhile Char.isDigit) (tail.drop (tail.takeWhile Char.isDigit).length)
      | tail => decimalEnd (first :: rest.takeWhile Char.isDigit) 0 [] tail := by
  unfold numberBody.decimal
  simp only [hfirst, Bool.false_eq_true, if_false, Bool.false_or]
  generalize rest.drop (rest.takeWhile Char.isDigit).length = tail
  rcases tail with - | ⟨c, tail⟩
  · rfl
  by_cases hc : c = '.'
  · subst hc
    rfl
  · unfold decimalEnd
    cases hpart : exponentPart (c :: tail) <;> simp [hc, hpart]

namespace Agree

variable {behind behind' cs cs' : List Char} {k n : Nat}

theorem decimalEnd (h : Agree behind behind' k cs cs') (whole : List Char) (point : Nat)
    (frac : List Char) :
    Source.decimalEnd whole point frac cs = Source.decimalEnd whole point frac cs' ∧
      ∀ r, Source.decimalEnd whole point frac cs = .ok r →
        r.2 ≤ whole.length - 1 + point + frac.length + k := by
  obtain ⟨heq, hle⟩ := h.exponentPart
  unfold Source.decimalEnd
  rw [← heq]
  cases hpart : Source.exponentPart cs with
  | error cause => exact ⟨rfl, fun r hr => by cases hr⟩
  | ok r =>
    have hpast := hle _ hpart
    obtain ⟨negative, exp, m⟩ := r
    dsimp only at hpast ⊢
    refine ⟨by rw [(h.drop hpast).endsNumber], fun r hr => ?_⟩
    split at hr
    · cases hr
      dsimp only
      omega
    · cases hr

theorem decimal (h : Agree behind behind' k cs cs') (first : Char) :
    numberBody.decimal first cs = numberBody.decimal first cs' ∧
      ∀ r, numberBody.decimal first cs = .ok r → r.2 ≤ k := by
  obtain ⟨heq, hle⟩ := h.takeWhile (p := Char.isDigit) (by decide)
  have htail := h.drop hle
  cases hfirst : first == '.' with
  | true =>
    obtain rfl := eq_of_beq hfirst
    obtain ⟨hsame, hpast⟩ := htail.decimalEnd [] 0 (cs.takeWhile Char.isDigit)
    rw [decimal_of_point, decimal_of_point, ← heq]
    refine ⟨hsame, fun r hr => ?_⟩
    have := hpast r hr
    rw [List.length_nil] at this
    omega
  | false =>
    rw [decimal_eq hfirst, decimal_eq hfirst, ← heq]
    have hlength : (first :: cs.takeWhile Char.isDigit).length - 1 =
        (cs.takeWhile Char.isDigit).length := rfl
    generalize hrun : cs.takeWhile Char.isDigit = run at hle htail hlength ⊢
    generalize hj : k - run.length = j at htail
    generalize cs.drop run.length = tail at htail ⊢
    generalize cs'.drop run.length = tail' at htail ⊢
    have hplain := htail.decimalEnd (first :: run) 0 []
    rw [hlength, List.length_nil] at hplain
    cases htail with
    | brace => exact ⟨hplain.1, fun r hr => by have := hplain.2 r hr; omega⟩
    | @cons c j rest rest' htail =>
      by_cases hc : c = '.'
      · subst hc
        obtain ⟨hfrac, hfracle⟩ := htail.takeWhile (p := Char.isDigit) (by decide)
        obtain ⟨hsame, hpast⟩ := (htail.drop hfracle).decimalEnd (first :: run) 1
          (rest.takeWhile Char.isDigit)
        refine ⟨?_, fun r hr => ?_⟩
        · simpa [← hfrac] using hsame
        · have := hpast r hr
          rw [hlength] at this
          omega
      · refine ⟨by simpa [hc] using hplain.1, fun r hr => ?_⟩
        have := hplain.2 r (by simpa [hc] using hr)
        omega

theorem numberBody (h : Agree behind behind' k cs cs') (first : Char) :
    Source.numberBody first cs = Source.numberBody first cs' ∧
      ∀ r, Source.numberBody first cs = .ok r → r.2 ≤ k := by
  by_cases hzero : first = '0'
  · subst hzero
    cases h with
    | brace => exact Agree.brace.decimal '0'
    | cons c h =>
      by_cases hx : c = 'x'
      · subst hx
        exact h.hexadecimal
      by_cases hX : c = 'X'
      · subst hX
        exact h.hexadecimal
      · have hdecimal := (Agree.cons c h).decimal '0'
        rw [Source.numberBody, Source.numberBody, ← hdecimal.1]
        · refine ⟨rfl, fun r hr => ?_⟩
          split at hr
          · cases hr
          · exact hdecimal.2 r hr
        · exact hx
        · exact hX
        · exact hx
        · exact hX
  · have hdecimal := h.decimal first
    simpa [Source.numberBody, hzero] using hdecimal

/-! ## Tokens -/

/-- A token that leaves what is behind the brace is the same in both texts, and no longer than up to
the brace. -/
theorem scanToken (h : Agree behind behind' k cs cs') {first : Char} (hfirst : first ≠ '\x7d')
    {kind : TokenKind} (hscan : Source.scanToken first cs = .ok (kind, n))
    (hn : behind.length ≤ (cs.drop n).length) :
    Source.scanToken first cs' = .ok (kind, n) ∧ n ≤ k + 1 := by
  have hlength := h.length
  rw [List.length_drop] at hn
  unfold Source.scanToken at hscan ⊢
  split at hscan
  · rename_i hquote
    rw [if_pos hquote]
    cases hbody : Source.stringBody first [] 0 cs with
    | error cause =>
      rw [hbody] at hscan
      cases hscan
    | ok r =>
      rw [hbody] at hscan
      cases hscan
      have hclosed := le_of_stringBody hbody
      have hpast : r.2 ≤ k + 1 := by omega
      rw [h.stringBody hfirst hbody (by omega)]
      exact ⟨rfl, hpast⟩
  rename_i hquote
  rw [if_neg hquote]
  split at hscan
  · rename_i hdigit
    obtain ⟨hsame, hpast⟩ := h.numberBody first
    rw [h.head?] at hdigit
    rw [if_pos hdigit, ← hsame]
    refine ⟨hscan, ?_⟩
    cases hbody : Source.numberBody first cs with
    | error cause =>
      rw [hbody] at hscan
      cases hscan
    | ok r =>
      rw [hbody] at hscan
      cases hscan
      exact Nat.le_succ_of_le (hpast r hbody)
  rename_i hdigit
  rw [h.head?] at hdigit
  rw [if_neg hdigit]
  split at hscan
  · rename_i hword
    obtain ⟨hsame, hpast⟩ := h.takeWhile (p := isIdContinue) (by decide)
    rw [if_pos hword, ← hsame]
    refine ⟨hscan, ?_⟩
    cases hscan
    exact Nat.le_succ_of_le hpast
  · rename_i hword
    have hall := Agree.cons first h
    rw [if_neg hword, ← hall.scan?]
    refine ⟨hscan, ?_⟩
    cases hfound : Punctuator.scan? (first :: cs) with
    | none =>
      rw [hfound] at hscan
      cases hscan
    | some found =>
      obtain ⟨p, m⟩ := found
      have hpast := hall.le_of_scan? hfound
      rw [hfound] at hscan
      cases hscan
      omega

/-! ## Comments -/

theorem commentLength (h : Agree behind behind' k cs cs') (hlength : Source.commentLength cs = some n)
    (hn : n ≤ k) : Source.commentLength cs' = some n := by
  induction h generalizing n with
  | brace =>
    rw [Source.commentLength] at hlength
    · cases hrest : Source.commentLength behind <;> simp [hrest] at hlength
      omega
    · simp
  | @cons c k rest rest' h ih =>
    by_cases hclosed : c = '*' ∧ rest.head? = some '/'
    · obtain ⟨rfl, hhead⟩ := hclosed
      have hhead' := h.head?.symm.trans hhead
      obtain ⟨tail, rfl⟩ : ∃ tail, rest = '/' :: tail := List.head?_eq_some_iff.1 hhead
      obtain ⟨tail', rfl⟩ : ∃ tail, rest' = '/' :: tail := List.head?_eq_some_iff.1 hhead'
      exact hlength
    · have hnot : ∀ tail, c = '*' → rest = '/' :: tail → False := by
        rintro tail rfl rfl
        exact hclosed ⟨rfl, rfl⟩
      have hnot' : ∀ tail, c = '*' → rest' = '/' :: tail → False := by
        rintro tail rfl rfl
        exact hclosed ⟨rfl, h.head?⟩
      rw [Source.commentLength] at hlength
      · rw [Source.commentLength]
        · obtain ⟨m, hm, rfl⟩ := Option.map_eq_some_iff.1 hlength
          rw [ih hm (by omega)]
          rfl
        · exact hnot'
      · exact hnot

/-- A comment that ends in front of the brace is the same in both texts. -/
theorem comment? (h : Agree behind behind' k cs cs') {ended : Bool}
    (hcomment : Source.comment? cs = .ok (some (n, ended))) (hn : n + 1 ≤ k) :
    Source.comment? cs' = .ok (some (n, ended)) := by
  cases h with
  | brace => cases hcomment
  | cons c h =>
    by_cases hc : c = '/'
    · subst hc
      cases h with
      | brace => cases hcomment
      | cons d h =>
        by_cases hslash : d = '/'
        · subst hslash
          simp only [Source.comment?, Except.ok.injEq, Option.some.injEq, Prod.mk.injEq]
            at hcomment ⊢
          rw [← h.takeWhile_of_lt (by omega) (by decide)]
          exact hcomment
        by_cases hstar : d = '*'
        · subst hstar
          rw [Source.comment?] at hcomment ⊢
          split at hcomment
          · cases hcomment
          · rename_i m hm
            cases hcomment
            rw [h.commentLength hm (by omega), h.take (by omega)]
        · simp [Source.comment?, hslash, hstar] at hcomment
    · simp [Source.comment?, hc] at hcomment

theorem comment?_none (h : Agree behind behind' k cs cs')
    (hcomment : Source.comment? cs = .ok none) : Source.comment? cs' = .ok none := by
  cases h with
  | brace => rfl
  | cons c h =>
    by_cases hc : c = '/'
    · subst hc
      cases h with
      | brace => rfl
      | cons d h =>
        by_cases hslash : d = '/'
        · subst hslash
          cases hcomment
        by_cases hstar : d = '*'
        · subst hstar
          rw [Source.comment?] at hcomment
          split at hcomment <;> cases hcomment
        · simp [Source.comment?, hslash, hstar]
    · simp [Source.comment?, hc]

end Agree

end ScriptMachine.Source
