import ScriptMachine.Json.Printer
import ScriptMachine.Proofs.NumberText

/-!
# The compact text as a list of characters

The printer appends to the text written so far. Here the characters of a value are given by
themselves, so that a reader can be followed along them.
-/

namespace ScriptMachine.Json

/-- The characters that stand for one character of a string. -/
def charChars (c : Char) : List Char :=
  if isPlain c then [c] else (escapeChar c).toList

/-- The characters of a string in quotes. -/
def stringChars (s : String) : List Char :=
  '"' :: s.toList.flatMap charChars ++ ['"']

mutual

/-- The characters of the compact text of a value. -/
def chars : Json → List Char
  | .null => ['n', 'u', 'l', 'l']
  | .bool true => ['t', 'r', 'u', 'e']
  | .bool false => ['f', 'a', 'l', 's', 'e']
  | .int i => (intText i).toList
  | .float f => if f.isFinite then (Number.jsonText f).toList else ['n', 'u', 'l', 'l']
  | .str s => stringChars s
  | .arr items => '[' :: itemChars true items ++ [']']
  | .obj fields => '\x7b' :: fieldChars true fields ++ ['\x7d']

/-- The characters of items, with a comma in front of all but the first. -/
def itemChars (first : Bool) : List Json → List Char
  | [] => []
  | item :: rest => (if first then [] else [',']) ++ item.chars ++ itemChars false rest

/-- The characters of fields, with a comma in front of all but the first. -/
def fieldChars (first : Bool) : List (String × Json) → List Char
  | [] => []
  | (key, value) :: rest =>
    (if first then [] else [',']) ++ stringChars key ++ ':' :: value.chars ++
      fieldChars false rest

end

theorem toList_foldl_escape (cs : List Char) (out : String) :
    (cs.foldl (fun acc c => if isPlain c then acc.push c else acc ++ escapeChar c) out).toList =
      out.toList ++ cs.flatMap charChars := by
  induction cs generalizing out with
  | nil => simp
  | cons c rest ih =>
    rw [List.foldl_cons, ih, List.flatMap_cons, charChars]
    split <;> simp [String.toList_push, String.toList_append]

theorem flatMap_charChars_of_all_isPlain (cs : List Char) (h : cs.all isPlain = true) :
    cs.flatMap charChars = cs := by
  induction cs with
  | nil => rfl
  | cons c rest ih =>
    rw [List.all_cons, Bool.and_eq_true] at h
    rw [List.flatMap_cons, ih h.2, charChars, if_pos h.1]
    rfl

theorem toList_writeString (out s : String) :
    (writeString out s).toList = out.toList ++ stringChars s := by
  rw [writeString, String.toList_push, stringChars]
  split
  · rename_i h
    rw [String.all_bool_eq] at h
    rw [flatMap_charChars_of_all_isPlain _ h]
    simp [String.toList_append, String.toList_push]
  · rw [String.foldl_eq_foldl_toList, toList_foldl_escape]
    simp [String.toList_push]

mutual

/-- Writing a value appends its characters. -/
theorem toList_write (out : String) (j : Json) : (write out j).toList = out.toList ++ j.chars := by
  match j with
  | .null => simp [write, chars, String.toList_append]
  | .bool true => simp [write, chars, String.toList_append]
  | .bool false => simp [write, chars, String.toList_append]
  | .int i => simp [write, chars, String.toList_append]
  | .float f =>
    rw [write, chars]
    split <;> simp [String.toList_append]
  | .str s => rw [write, chars, toList_writeString]
  | .arr items =>
    rw [write, chars, String.toList_push, toList_writeItems, String.toList_push]
    simp
  | .obj fields =>
    rw [write, chars, String.toList_push, toList_writeFields, String.toList_push]
    simp

theorem toList_writeItems (out : String) (first : Bool) (items : List Json) :
    (writeItems out first items).toList = out.toList ++ itemChars first items := by
  match items with
  | [] => simp [writeItems, itemChars]
  | item :: rest =>
    rw [writeItems, toList_writeItems, toList_write, itemChars]
    cases first <;> simp [String.toList_push]

theorem toList_writeFields (out : String) (first : Bool) (fields : List (String × Json)) :
    (writeFields out first fields).toList = out.toList ++ fieldChars first fields := by
  match fields with
  | [] => simp [writeFields, fieldChars]
  | (key, value) :: rest =>
    rw [writeFields, toList_writeFields, toList_write, fieldChars, String.toList_push,
      toList_writeString]
    cases first <;> simp [String.toList_push]

end

theorem toList_compact (j : Json) : j.compact.toList = j.chars := by
  rw [compact, toList_write]
  rfl

/-!
## Reading the compact text

The reader takes the compact text of a value apart as the printer put it together: names, strings,
brackets and commas come back as they were. Only numbers may change, each one as its own text does
when it is read alone.
-/

open Number

namespace Reader

/-! ## Strings -/

theorem string_run_of_isPlain (demand : Demand) (fuel : Nat) (acc : List Char) {c : Char}
    (h : isPlain c = true) (rest : List Char) (n : Nat) :
    string demand (fuel + 1) acc ⟨c :: rest, n⟩ =
      string demand (fuel + 1) (c :: acc) ⟨rest, n + c.utf8Size⟩ := by
  have hc : (c == '"' || c == '\\' || decide (c.toNat < 0x20)) = false := by
    simpa [isPlain] using h
  have hrun : plainRun acc n (c :: rest) = plainRun (c :: acc) (n + c.utf8Size) rest := by
    rw [plainRun, hc]
    rfl
  simp only [string, bind_run, get_run, set_run, hrun]

/-- A control character has two digits in the escape that names it. -/
theorem controlDigits : ∀ k < 32,
    isDigitOf 16 (digitChar (k / 16)) = true ∧ isDigitOf 16 (digitChar (k % 16)) = true ∧
      (digitChar (k / 16)).utf8Size = 1 ∧ (digitChar (k % 16)).utf8Size = 1 ∧
      natOfDigits 16 ['0', '0', digitChar (k / 16), digitChar (k % 16)] = k := by
  decide +kernel

theorem gives_hexEscape_control {k : Nat} (h : k < 32) (rest : List Char) :
    Gives hexEscape ('0' :: '0' :: digitChar (k / 16) :: digitChar (k % 16) :: rest) k rest := by
  intro n
  obtain ⟨ha, hb, hsa, hsb, hk⟩ := controlDigits k h
  have hzero : '0'.utf8Size = 1 := by decide
  have hdigit : isDigitOf 16 '0' = true := by decide
  refine ⟨n + 4, ?_⟩
  simp [hexEscape, bind_run, get_run, ha, hb, hsa, hsb, hzero, hk, hdigit]
  rfl

theorem gives_unicodeEscape_control {c : Char} (h : c.toNat < 0x20) (rest : List Char) :
    Gives (unicodeEscape .full)
      ('0' :: '0' :: digitChar (c.toNat / 16) :: digitChar (c.toNat % 16) :: rest) c rest := by
  refine (gives_hexEscape_control h rest).bind ?_
  have hlow : ¬ (0xdc00 ≤ c.toNat ∧ c.toNat ≤ 0xdfff) := by omega
  have hhigh : c.toNat < 0xd800 ∨ 0xdbff < c.toNat := by omega
  simp only [Demand.isStrict, Bool.not_true, Bool.false_eq_true, if_false, hlow, hhigh, if_true,
    Char.ofNat_toNat]
  exact gives_pure c rest

theorem gives_escaped_letter {c d : Char} (hu : d ≠ 'u') (h : letterEscape? d = some c)
    (rest : List Char) : Gives (escaped .full) (d :: rest) c rest := by
  refine (gives_peek (d :: rest)).bind ?_
  simp only [List.head?_cons, h]
  exact (gives_bump d rest).bind (gives_pure c rest)

/-- The escape of a character, behind its backslash, stands for the character. -/
theorem gives_escaped {c : Char} (h : isPlain c = false) (rest : List Char) :
    ∃ tail, charChars c = '\\' :: tail ∧ Gives (escaped .full) (tail ++ rest) c rest := by
  rw [charChars, h, if_neg (by decide)]
  have letter : ∀ d, d ≠ 'u' → letterEscape? d = some c →
      ∃ tail, ['\\', d] = '\\' :: tail ∧ Gives (escaped .full) (tail ++ rest) c rest :=
    fun d hu hd => ⟨[d], rfl, gives_escaped_letter hu hd rest⟩
  by_cases hquote : c = '"'
  · subst hquote
    exact letter '"' (by decide) rfl
  by_cases hback : c = '\\'
  · subst hback
    exact letter '\\' (by decide) rfl
  by_cases hb : c = '\x08'
  · subst hb
    exact letter 'b' (by decide) rfl
  by_cases ht : c = '\t'
  · subst ht
    exact letter 't' (by decide) rfl
  by_cases hn : c = '\n'
  · subst hn
    exact letter 'n' (by decide) rfl
  by_cases hf : c = '\x0c'
  · subst hf
    exact letter 'f' (by decide) rfl
  by_cases hr : c = '\r'
  · subst hr
    exact letter 'r' (by decide) rfl
  have hcontrol : c.toNat < 0x20 := by
    simpa [isPlain, hquote, hback] using h
  refine ⟨['u', '0', '0', digitChar (c.toNat / 16), digitChar (c.toNat % 16)], ?_, ?_⟩
  · simp [escapeChar, hquote, hback, hb, ht, hn, hf, hr, hcontrol]
  · refine (gives_peek _).bind ?_
    exact (gives_bump 'u' _).bind (gives_unicodeEscape_control hcontrol rest)

/-- A string behind its opening quote. Every escape has at least two characters, so the length of
the text bounds their number. -/
theorem gives_string (cs acc rest : List Char) (fuel : Nat)
    (hfuel : (cs.flatMap charChars).length < fuel) :
    Gives (string .full fuel acc) (cs.flatMap charChars ++ '"' :: rest)
      (String.ofList (acc.reverse ++ cs)) rest := by
  induction cs generalizing acc fuel with
  | nil =>
    obtain ⟨fuel, rfl⟩ := Nat.exists_eq_succ_of_ne_zero (Nat.ne_of_gt hfuel)
    intro n
    refine ⟨n + '"'.utf8Size, ?_⟩
    simp [string, bind_run, get_run, set_run, plainRun]
    rfl
  | cons c cs ih =>
    obtain ⟨fuel, rfl⟩ := Nat.exists_eq_succ_of_ne_zero (Nat.ne_of_gt (Nat.zero_lt_of_lt hfuel))
    rw [List.flatMap_cons, List.length_append] at hfuel
    rw [List.flatMap_cons, List.append_assoc]
    cases hplain : isPlain c with
    | true =>
      have hchars : charChars c = [c] := by rw [charChars, hplain, if_pos rfl]
      rw [hchars] at hfuel ⊢
      have hrest := ih (c :: acc) (fuel + 1) (by
        rw [List.length_singleton] at hfuel
        omega)
      rw [List.reverse_cons, List.append_assoc, List.singleton_append] at hrest
      intro n
      rw [List.singleton_append, string_run_of_isPlain .full fuel acc hplain]
      exact hrest _
    | false =>
      obtain ⟨tail, htail, hescaped⟩ := gives_escaped hplain
        (cs.flatMap charChars ++ '"' :: rest)
      rw [htail] at hfuel ⊢
      have hrest := ih (c :: acc) fuel (by
        rw [List.length_cons] at hfuel
        omega)
      rw [List.reverse_cons, List.append_assoc, List.singleton_append] at hrest
      have hbehind := hescaped.bind (f := fun c => string .full fuel (c :: acc)) hrest
      intro n
      obtain ⟨k, hk⟩ := (gives_bump '\\' _).bind (f := fun _ => do
        let c ← escaped .full
        string .full fuel (c :: acc)) hbehind n
      refine ⟨k, ?_⟩
      rw [← hk]
      simp [string, bind_run, get_run, set_run, plainRun]

theorem stringChars_append (s : String) (rest : List Char) :
    stringChars s ++ rest = '"' :: (s.toList.flatMap charChars ++ '"' :: rest) := by
  rw [stringChars, List.cons_append, List.cons_append, List.append_assoc]
  rfl

theorem gives_string_toList (s : String) (rest : List Char) {fuel : Nat}
    (hfuel : (stringChars s).length ≤ fuel + 1) :
    Gives (string .full fuel []) (s.toList.flatMap charChars ++ '"' :: rest) s rest := by
  have hlength : (s.toList.flatMap charChars).length < fuel := by
    rw [stringChars, List.cons_append, List.length_cons, List.length_append] at hfuel
    rw [List.length_singleton] at hfuel
    omega
  have hstring := gives_string s.toList [] rest fuel hlength
  rwa [List.reverse_nil, List.nil_append, String.ofList_toList] at hstring

/-! ## Values that start with a digit or a sign -/

/-- A number with its sign. -/
def signedNumber (demand : Demand) (c : Char) : Reader Json :=
  if c = '-' then do bump; number demand true
  else if c.isDigit then number demand false
  else failNext .expectedValue

theorem dropBlanks_of_not_isBlank {c : Char} (h : isBlank c = false) (rest : List Char) (n : Nat) :
    skipBlanks.dropBlanks (c :: rest) n = ⟨c :: rest, n⟩ := by
  rw [skipBlanks.dropBlanks, h]
  rfl

theorem gives_skipBlanks {c : Char} (h : isBlank c = false) (rest : List Char) :
    Gives skipBlanks (c :: rest) (some c) (c :: rest) := by
  intro n
  refine ⟨n, ?_⟩
  rw [skipBlanks, bind_run]
  change peek (skipBlanks.dropBlanks (c :: rest) n) = _
  rw [dropBlanks_of_not_isBlank h]
  rfl

theorem isNumberChar_cases {c : Char} (h : isNumberChar c = true) :
    isBlank c = false ∧ c ≠ 'n' ∧ c ≠ 't' ∧ c ≠ 'f' ∧ c ≠ '"' ∧ c ≠ '[' ∧ c ≠ '\x7b' ∧ c ≠ ']' ∧
      c ≠ '\x7d' ∧ c ≠ ',' := by
  refine ⟨?_, ?_⟩
  · cases hblank : isBlank c with
    | false => rfl
    | true =>
      simp only [isBlank, Bool.or_eq_true, beq_iff_eq] at hblank
      rcases hblank with ((rfl | rfl) | rfl) | rfl <;> revert h <;> decide
  · refine ⟨?_, ?_, ?_, ?_, ?_, ?_, ?_, ?_, ?_⟩ <;> rintro rfl <;> revert h <;> decide

theorem value_run_of_isNumberChar (demand : Demand) (fuel depth : Nat) {c : Char}
    (h : isNumberChar c = true) (rest : List Char) (n : Nat) :
    value demand (fuel + 1) depth ⟨c :: rest, n⟩ = signedNumber demand c ⟨c :: rest, n⟩ := by
  obtain ⟨hblank, hn, ht, hf, hquote, hlist, hobject, -⟩ := isNumberChar_cases h
  obtain ⟨k, hk⟩ := gives_skipBlanks hblank rest n
  rw [value, bind_run, hk]
  have hk : k = n := by
    rw [skipBlanks, bind_run] at hk
    change peek (skipBlanks.dropBlanks (c :: rest) n) = _ at hk
    rw [dropBlanks_of_not_isBlank hblank] at hk
    cases hk
    rfl
  subst hk
  by_cases hminus : c = '-'
  · subst hminus
    rw [signedNumber, if_pos rfl]
    rfl
  · rw [signedNumber, if_neg hminus]
    dsimp only
    split <;> first | contradiction | rfl

theorem settles_signedNumber (demand : Demand) (c : Char) (cs : List Char) :
    Settles (signedNumber demand c) (c :: cs) := by
  unfold signedNumber
  split
  · exact (settles_bump c cs).bind fun _ cs' _ => settles_number demand true cs'
  split
  · exact settles_number demand false (c :: cs)
  · exact settles_failNext _ (c :: cs)

/-- The reader refuses, or it stops before the end of a number. -/
def Stops {α : Type} (x : Reader α) (input : List Char) : Prop :=
  Refuses x input ∨ ∃ a c tail, isNumberChar c = true ∧ Gives x input a (c :: tail)

end Reader

/-! ## Numbers read back -/

theorem isDigit_digitChar {d : Nat} (h : d < 10) : (digitChar d).isDigit = true := by
  have : ∀ d < 10, (digitChar d).isDigit = true := by decide
  exact this d h

theorem isDigit_of_mem_digitsFrom {fuel n : Nat} {acc : List Char}
    (hacc : ∀ c ∈ acc, c.isDigit = true) : ∀ c ∈ digitsFrom 10 fuel n acc, c.isDigit = true := by
  induction fuel generalizing n acc with
  | zero => exact hacc
  | succ fuel ih =>
    rw [digitsFrom]
    split
    · rename_i hn
      intro c hc
      rcases List.mem_cons.1 hc with rfl | hc
      · exact isDigit_digitChar hn
      · exact hacc c hc
    · apply ih
      intro c hc
      rcases List.mem_cons.1 hc with rfl | hc
      · exact isDigit_digitChar (Nat.mod_lt n (by decide))
      · exact hacc c hc

theorem isDigit_of_mem_decimalDigits (n : Nat) : ∀ c ∈ decimalDigits n, c.isDigit = true :=
  isDigit_of_mem_digitsFrom (by simp)

theorem isNumberChar_of_isDigit {c : Char} (h : c.isDigit = true) :
    Reader.isNumberChar c = true := by
  simp [Reader.isNumberChar, h]

theorem digitsFrom_ne_nil {fuel n : Nat} {acc : List Char} (h : 0 < fuel ∨ acc ≠ []) :
    digitsFrom 10 fuel n acc ≠ [] := by
  induction fuel generalizing n acc with
  | zero => simpa [digitsFrom] using h
  | succ fuel ih =>
    rw [digitsFrom]
    split
    · simp
    · exact ih (.inr (by simp))

theorem decimalDigits_ne_nil (n : Nat) : decimalDigits n ≠ [] :=
  digitsFrom_ne_nil (.inl (Nat.succ_pos _))

/-- A text of a number has characters, and only those of numbers. -/
def IsNumberText (cs : List Char) : Prop :=
  cs ≠ [] ∧ ∀ c ∈ cs, Reader.isNumberChar c = true

theorem isNumberText_decimalDigits (n : Nat) : IsNumberText (decimalDigits n) :=
  ⟨decimalDigits_ne_nil n, fun c hc =>
    isNumberChar_of_isDigit (isDigit_of_mem_decimalDigits n c hc)⟩

theorem IsNumberText.cons {c : Char} (h : Reader.isNumberChar c = true) {cs : List Char}
    (hcs : ∀ c ∈ cs, Reader.isNumberChar c = true) : IsNumberText (c :: cs) :=
  ⟨by simp, by simpa using ⟨h, hcs⟩⟩

theorem isNumberText_intText (i : Int) : IsNumberText (intText i).toList := by
  cases i with
  | ofNat n => simpa [intText, natText] using isNumberText_decimalDigits n
  | negSucc n =>
    have h := (isNumberText_decimalDigits (n + 1)).2
    have := IsNumberText.cons (c := '-') (by decide) h
    simpa [intText, natText, String.toList_append] using this

theorem isNumberText_positional (digits : List Char) (point : Int)
    (h : IsNumberText digits) : IsNumberText (jsonLayout.positional digits point) := by
  have hzero : Reader.isNumberChar '0' = true := by decide
  have hpoint : Reader.isNumberChar '.' = true := by decide
  have hreplicate : ∀ k, ∀ c ∈ List.replicate k '0', Reader.isNumberChar c = true := by
    intro k c hc
    rw [List.eq_of_mem_replicate hc]
    exact hzero
  unfold Layout.positional
  split
  · split
    · exact .cons hzero (by simpa [hpoint] using h.2)
    split
    · refine ⟨by simp [h.1], ?_⟩
      simp only [jsonLayout, if_true, List.mem_append]
      rintro c ((hc | hc) | hc)
      · exact h.2 c hc
      · exact hreplicate _ c hc
      · rcases List.mem_cons.1 hc with rfl | hc
        · exact hpoint
        · rw [List.mem_singleton.1 hc]
          exact hzero
    · refine ⟨by simp, ?_⟩
      intro c hc
      rcases List.mem_append.1 hc with hc | hc
      · exact h.2 c (List.mem_of_mem_take hc)
      rcases List.mem_cons.1 hc with rfl | hc
      · exact hpoint
      · exact h.2 c (List.mem_of_mem_drop hc)
  · refine .cons hzero ?_
    intro c hc
    rcases List.mem_append.1 hc with hc | hc
    · rcases List.mem_cons.1 hc with rfl | hc
      · exact hpoint
      · exact hreplicate _ c hc
    · exact h.2 c hc

theorem isNumberText_scientific (digits : List Char) (point : Int) (h : IsNumberText digits) :
    IsNumberText (Layout.scientific digits point) := by
  refine ⟨by simp [Layout.scientific], ?_⟩
  intro c hc
  rcases List.mem_append.1 hc with hc | hc
  · split at hc
    · rcases List.mem_cons.1 hc with rfl | hc
      · exact h.2 c (by simp)
      rcases List.mem_cons.1 hc with rfl | hc
      · decide
      · exact h.2 c (List.mem_cons_of_mem _ hc)
    · exact h.2 c hc
  rcases List.mem_cons.1 hc with rfl | hc
  · decide
  rcases List.mem_cons.1 hc with rfl | hc
  · split <;> decide
  · exact (isNumberText_decimalDigits _).2 c hc

theorem isNumberText_jsonText (f : Float) : IsNumberText (jsonText f).toList := by
  have hbody : IsNumberText (if f == 0 then ['0', '.', '0'] else jsonLayout.text f.abs) := by
    split
    · exact ⟨List.cons_ne_nil _ _, List.all_eq_true.1 rfl⟩
    · rw [Layout.text]
      split
      · exact isNumberText_positional _ _ (isNumberText_decimalDigits _)
      · exact isNumberText_scientific _ _ (isNumberText_decimalDigits _)
  rw [jsonText, String.toList_ofList]
  split
  · exact .cons (by decide) hbody.2
  · exact hbody

/-! ## Whole texts -/

namespace Reader

/-- A value with nothing but blanks behind it. -/
def document (fuel : Nat) : Reader Json := do
  let j ← value .full fuel 128
  if (← skipBlanks).isSome then failNext .trailingCharacters
  return j

theorem gives_skipBlanks_nil : Gives skipBlanks [] none [] :=
  fun n => ⟨n, rfl⟩

theorem gives_document {fuel : Nat} {input : List Char} {j : Json}
    (h : Gives (value .full fuel 128) input j []) : Gives (document fuel) input j [] := by
  refine h.bind (gives_skipBlanks_nil.bind ?_)
  exact gives_pure j []

theorem refuses_document {fuel : Nat} {input : List Char}
    (h : Stops (value .full fuel 128) input) : Refuses (document fuel) input := by
  rcases h with h | ⟨j, c, tail, hc, h⟩
  · exact h.bind _
  · refine h.bind_refuses ((gives_skipBlanks (isNumberChar_cases hc).1 tail).bind_refuses ?_)
    exact (refuses_failNext _ _).bind _

end Reader

theorem read_eq (text : String) : read text =
    (Reader.document (2 * text.toList.length + 4) ⟨text.toList, 0⟩).map (·.1) := rfl

theorem read_of_gives {text : String} {j : Json}
    (h : Reader.Gives (Reader.value .full (2 * text.toList.length + 4) 128) text.toList j []) :
    read text = .ok j := by
  obtain ⟨k, hk⟩ := Reader.gives_document h 0
  rw [read_eq, hk]
  rfl

theorem read_of_stops {text : String}
    (h : Reader.Stops (Reader.value .full (2 * text.toList.length + 4) 128) text.toList) :
    (read text).toOption = none := by
  obtain ⟨e, he⟩ := Reader.refuses_document h 0
  rw [read_eq, he]
  rfl

/-- The text of a number reads alone as it reads in front of anything that ends it. -/
theorem read_numberText {text : String} (h : IsNumberText text.toList) :
    (∃ a, read text = .ok a ∧ ∀ fuel depth rest, Reader.Closed rest →
      Reader.Gives (Reader.value .full (fuel + 1) depth) (text.toList ++ rest) a rest) ∨
    ((read text).toOption = none ∧ ∀ fuel depth rest, Reader.Closed rest →
      Reader.Stops (Reader.value .full (fuel + 1) depth) (text.toList ++ rest)) := by
  obtain ⟨c, cs, hcs⟩ := List.exists_cons_of_ne_nil h.1
  have hchars := h.2
  rw [hcs] at hchars
  have hrun := fun fuel depth rest n =>
    Reader.value_run_of_isNumberChar .full fuel depth (hchars c (by simp)) (cs ++ rest) n
  rcases Reader.settles_signedNumber .full c cs with ⟨a, cs', hcs', hgives⟩ | hrefuses
  · have hvalue : ∀ fuel depth rest, Reader.Closed rest →
        Reader.Gives (Reader.value .full (fuel + 1) depth) (text.toList ++ rest) a
          (cs' ++ rest) := by
      intro fuel depth rest hrest n
      rw [hcs, List.cons_append, hrun]
      exact hgives rest hrest n
    cases cs' with
    | nil =>
      refine .inl ⟨a, read_of_gives ?_, hvalue⟩
      have halone := hvalue (2 * text.toList.length + 3) 128 [] Reader.closed_nil
      rwa [List.append_nil] at halone
    | cons d tail =>
      have hd := hchars d (hcs'.subset (by simp))
      have hstops : ∀ fuel depth rest, Reader.Closed rest →
          Reader.Stops (Reader.value .full (fuel + 1) depth) (text.toList ++ rest) :=
        fun fuel depth rest hrest => .inr ⟨a, d, tail ++ rest, hd, hvalue fuel depth rest hrest⟩
      have halone := hstops (2 * text.toList.length + 3) 128 [] Reader.closed_nil
      rw [List.append_nil] at halone
      exact .inr ⟨read_of_stops halone, hstops⟩
  · have hstops : ∀ fuel depth rest, Reader.Closed rest →
        Reader.Stops (Reader.value .full (fuel + 1) depth) (text.toList ++ rest) := by
      intro fuel depth rest hrest
      refine .inl fun n => ?_
      rw [hcs, List.cons_append, hrun]
      exact hrefuses rest hrest n
    have halone := hstops (2 * text.toList.length + 3) 128 [] Reader.closed_nil
    rw [List.append_nil] at halone
    exact .inr ⟨read_of_stops halone, hstops⟩

end ScriptMachine.Json
