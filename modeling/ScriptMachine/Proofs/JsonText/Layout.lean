import ScriptMachine.Proofs.JsonRoundTrip

/-!
# A JSON value and its indented text

The indented text of a value is the compact text with line breaks, indentation and blanks between
its parts. The reader passes over blanks, so where an indentation is made of blanks the value is
read from its indented text as it is from the compact one.
-/

namespace ScriptMachine.Json

/-! ## The indented text as a list of characters -/

/-- The characters of a line break and the indentation of a depth. -/
def lineChars (indent : List Char) (depth : Nat) : List Char :=
  '\n' :: (List.replicate depth indent).flatten

mutual

/-- The characters of the indented text of a value at a depth. -/
def indentedChars (indent : List Char) (depth : Nat) : Json → List Char
  | .arr (item :: rest) =>
    '[' :: indentedItems indent (depth + 1) true (item :: rest) ++ lineChars indent depth ++ [']']
  | .obj ((key, value) :: rest) =>
    '\x7b' :: indentedFields indent (depth + 1) true ((key, value) :: rest) ++
      lineChars indent depth ++ ['\x7d']
  | j => j.chars

/-- The characters of items on lines of their own, with a comma in front of all but the first. -/
def indentedItems (indent : List Char) (depth : Nat) (first : Bool) : List Json → List Char
  | [] => []
  | item :: rest =>
    (if first then [] else [',']) ++ lineChars indent depth ++ indentedChars indent depth item ++
      indentedItems indent depth false rest

/-- The characters of fields on lines of their own, with a comma in front of all but the first. -/
def indentedFields (indent : List Char) (depth : Nat) (first : Bool) :
    List (String × Json) → List Char
  | [] => []
  | (key, value) :: rest =>
    (if first then [] else [',']) ++ lineChars indent depth ++ stringChars key ++
      ':' :: ' ' :: indentedChars indent depth value ++ indentedFields indent depth false rest

end

theorem toList_breakLine (out indent : String) (depth : Nat) :
    (breakLine out indent depth).toList = out.toList ++ lineChars indent.toList depth := by
  induction depth with
  | zero => rw [breakLine, String.toList_push, lineChars, List.replicate_zero, List.flatten_nil]
  | succ depth ih =>
    rw [breakLine, String.toList_append, ih, lineChars, lineChars, List.replicate_succ',
      List.flatten_append, List.flatten_singleton, List.append_assoc, List.cons_append]

mutual

/-- Writing a value with indentation appends its characters. -/
theorem toList_writeIndented (indent : String) (depth : Nat) (out : String) (j : Json) :
    (writeIndented indent depth out j).toList =
      out.toList ++ indentedChars indent.toList depth j := by
  match j with
  | .null => simp [writeIndented, indentedChars, chars, String.toList_append]
  | .bool true => simp [writeIndented, indentedChars, chars, String.toList_append]
  | .bool false => simp [writeIndented, indentedChars, chars, String.toList_append]
  | .int i => simp [writeIndented, indentedChars, chars, String.toList_append]
  | .float f =>
    rw [writeIndented, indentedChars, chars]
    split <;> simp [String.toList_append]
    all_goals simp
  | .str s => simp [writeIndented, indentedChars, chars, toList_writeString]
  | .arr [] => simp [writeIndented, indentedChars, chars, itemChars, String.toList_append]
  | .obj [] => simp [writeIndented, indentedChars, chars, fieldChars, String.toList_append]
  | .arr (item :: rest) =>
    rw [writeIndented, String.toList_push, toList_breakLine, toList_writeIndentedItems,
      toList_writeIndented, toList_breakLine, String.toList_push, indentedChars, indentedItems]
    simp
  | .obj ((key, value) :: rest) =>
    rw [writeIndented, String.toList_push, toList_breakLine, toList_writeIndentedFields,
      toList_writeIndented, String.toList_append, toList_writeString, toList_breakLine,
      String.toList_push, indentedChars, indentedFields]
    simp

theorem toList_writeIndentedItems (indent : String) (depth : Nat) (out : String)
    (items : List Json) : (writeIndentedItems indent depth out items).toList =
      out.toList ++ indentedItems indent.toList depth false items := by
  match items with
  | [] => simp [writeIndentedItems, indentedItems]
  | item :: rest =>
    rw [writeIndentedItems, toList_writeIndentedItems, toList_writeIndented, toList_breakLine,
      String.toList_push, indentedItems]
    simp

theorem toList_writeIndentedFields (indent : String) (depth : Nat) (out : String)
    (fields : List (String × Json)) : (writeIndentedFields indent depth out fields).toList =
      out.toList ++ indentedFields indent.toList depth false fields := by
  match fields with
  | [] => simp [writeIndentedFields, indentedFields]
  | (key, value) :: rest =>
    rw [writeIndentedFields, toList_writeIndentedFields, toList_writeIndented,
      String.toList_append, toList_writeString, toList_breakLine, String.toList_push,
      indentedFields]
    simp

end

theorem toList_pretty (indent : String) (j : Json) :
    (j.pretty indent).toList = indentedChars indent.toList 0 j := by
  rw [pretty, toList_writeIndented]
  rfl

/-! ## Reading over blanks -/

/-- Only blanks, as they may stand between the parts of a text. -/
def Blank (cs : List Char) : Prop := ∀ c ∈ cs, Reader.isBlank c = true

theorem blank_lineChars {indent : List Char} (h : Blank indent) (depth : Nat) :
    Blank (lineChars indent depth) := by
  intro c hc
  rcases List.mem_cons.1 hc with rfl | hc
  · rfl
  · obtain ⟨line, hline, hc⟩ := List.mem_flatten.1 hc
    rw [List.eq_of_mem_replicate hline] at hc
    exact h c hc

namespace Reader

variable {α : Type} {bs : List Char}

theorem skipBlanks_append (h : Blank bs) (cs : List Char) (n : Nat) :
    skipBlanks ⟨bs ++ cs, n⟩ = skipBlanks ⟨cs, n + bs.length⟩ := by
  induction bs generalizing n with
  | nil => rfl
  | cons b bs ih =>
    obtain ⟨hb, hbs⟩ := List.forall_mem_cons.1 h
    have hdrop : skipBlanks.dropBlanks (b :: (bs ++ cs)) n =
        skipBlanks.dropBlanks (bs ++ cs) (n + 1) := by
      rw [skipBlanks.dropBlanks, if_pos hb]
    have hskip : skipBlanks ⟨b :: (bs ++ cs), n⟩ = skipBlanks ⟨bs ++ cs, n + 1⟩ := by
      change peek (skipBlanks.dropBlanks (b :: (bs ++ cs)) n) = _
      rw [hdrop]
      rfl
    rw [List.cons_append, hskip, ih hbs, List.length_cons, Nat.add_assoc, Nat.add_comm 1]

/-- What starts by passing over blanks goes on behind them. -/
theorem continues_blanks (h : Blank bs) (f : Option Char → Reader α) (cs : List Char) :
    Continues (skipBlanks >>= f) (skipBlanks >>= f) (bs ++ cs) cs := by
  intro n
  exact ⟨n + bs.length, by rw [bind_run, bind_run, skipBlanks_append h]⟩

theorem gives_skipBlanks_append (h : Blank bs) {c : Char} (hc : isBlank c = false)
    (rest : List Char) : Gives skipBlanks (bs ++ c :: rest) (some c) (c :: rest) := by
  intro n
  rw [skipBlanks_append h]
  exact gives_skipBlanks hc rest _

theorem gives_value_append (h : Blank bs) {fuel depth : Nat} {cs rest : List Char} {j : Json}
    (hj : Gives (value .full (fuel + 1) depth) cs j rest) :
    Gives (value .full (fuel + 1) depth) (bs ++ cs) j rest := by
  rw [value] at hj ⊢
  exact (continues_blanks h _ cs).gives hj

theorem gives_items_end (h : Blank bs) (fuel depth : Nat) (first : Bool) (acc : List Json)
    (rest : List Char) :
    Gives (items .full (fuel + 1) depth first acc) (bs ++ ']' :: rest) acc.reverse rest := by
  have hend := gives_items_nil fuel depth first acc rest
  rw [items] at hend ⊢
  exact (continues_blanks h _ _).gives hend

/-- In front of an item on a line of its own the comma and the line break are passed by. -/
theorem continues_items_line (h : Blank bs) {c : Char} (hblank : isBlank c = false) (hend : c ≠ ']')
    (fuel depth : Nat) (first : Bool) (acc : List Json) (tail : List Char) :
    Continues (items .full (fuel + 1) depth first acc)
      (do
        let item ← value .full fuel depth
        items .full fuel depth false (item :: acc))
      ((if first then [] else [',']) ++ (bs ++ c :: tail)) (c :: tail) := by
  cases first with
  | true =>
    have hitem := continues_items hblank hend fuel depth true acc tail
    rw [items] at hitem ⊢
    exact (continues_blanks h _ _).trans hitem
  | false =>
    rw [items]
    refine (gives_skipBlanks (c := ',') (by decide) (bs ++ c :: tail)).continues.trans ?_
    refine (gives_bump ',' (bs ++ c :: tail)).continues.trans ?_
    refine (gives_skipBlanks_append h hblank tail).continues.trans ?_
    intro n
    refine ⟨n, ?_⟩
    simp only []
    rfl

theorem gives_fields_end (h : Blank bs) (fuel depth : Nat) (first : Bool)
    (acc : List (String × Json)) (rest : List Char) :
    Gives (fields .full (fuel + 1) depth first acc) (bs ++ '\x7d' :: rest) acc.reverse rest := by
  have hend := gives_fields_nil fuel depth first acc rest
  rw [fields] at hend ⊢
  exact (continues_blanks h _ _).gives hend

/-- In front of a field on a line of its own the comma and the line break are passed by. -/
theorem continues_fields_line (h : Blank bs) (key : String) (fuel : Nat)
    (hfuel : (stringChars key).length ≤ fuel + 1) (depth : Nat) (first : Bool)
    (acc : List (String × Json)) (rest : List Char) :
    Continues (fields .full (fuel + 1) depth first acc)
      (do
        let item ← value .full fuel depth
        fields .full fuel depth false (addField .full key item acc))
      ((if first then [] else [',']) ++ (bs ++ (stringChars key ++ ':' :: rest))) rest := by
  cases first with
  | true =>
    have hfield := continues_fields key fuel hfuel depth true acc rest
    rw [fields] at hfield ⊢
    exact (continues_blanks h _ _).trans (by simpa using hfield)
  | false =>
    have hcolon : isBlank ':' = false := by decide
    rw [stringChars_append, fields]
    refine (gives_skipBlanks (c := ',') (by decide) _).continues.trans ?_
    refine (gives_bump ',' _).continues.trans ?_
    refine (gives_skipBlanks_append h (c := '"') (by decide) _).continues.trans ?_
    refine (gives_bump '"' _).continues.trans ?_
    refine (gives_string_toList key (':' :: rest) hfuel).continues.trans ?_
    refine (gives_skipBlanks hcolon rest).continues.trans ?_
    exact (gives_bump ':' rest).continues

end Reader

/-! ## Reading the indented text -/

theorem exists_indentedChars_eq_cons (indent : List Char) (depth : Nat) (j : Json) :
    ∃ c cs, indentedChars indent depth j = c :: cs ∧ Reader.isBlank c = false ∧ c ≠ ']' := by
  match j with
  | .arr (item :: rest) =>
    rw [indentedChars, List.cons_append, List.cons_append]
    exact ⟨'[', _, rfl, by decide⟩
  | .obj ((key, value) :: rest) =>
    rw [indentedChars, List.cons_append, List.cons_append]
    exact ⟨'\x7b', _, rfl, by decide⟩
  | .null => exact ⟨'n', _, rfl, by decide⟩
  | .bool true => exact ⟨'t', _, rfl, by decide⟩
  | .bool false => exact ⟨'f', _, rfl, by decide⟩
  | .int i =>
    obtain ⟨c, cs, hcs, hblank, hend, -⟩ := exists_chars_eq_cons (.int i)
    exact ⟨c, cs, hcs, hblank, hend⟩
  | .float f =>
    obtain ⟨c, cs, hcs, hblank, hend, -⟩ := exists_chars_eq_cons (.float f)
    exact ⟨c, cs, hcs, hblank, hend⟩
  | .str s =>
    obtain ⟨c, cs, hcs, hblank, hend, -⟩ := exists_chars_eq_cons (.str s)
    exact ⟨c, cs, hcs, hblank, hend⟩
  | .arr [] => exact ⟨'[', _, rfl, by decide⟩
  | .obj [] => exact ⟨'\x7b', _, rfl, by decide⟩

theorem closed_append {bs rest : List Char} (h : Blank bs) (hrest : Reader.Closed rest) :
    Reader.Closed (bs ++ rest) := by
  cases bs with
  | nil => exact hrest
  | cons b bs =>
    refine Reader.closed_cons ?_ (bs ++ rest)
    cases hnumber : Reader.isNumberChar b with
    | false => rfl
    | true =>
      have hblank := (Reader.isNumberChar_cases hnumber).1
      rw [(List.forall_mem_cons.1 h).1] at hblank
      cases hblank

theorem closed_indentedItems (indent : List Char) (depth : Nat) (items : List Json)
    {rest : List Char} (hrest : Reader.Closed rest) :
    Reader.Closed (indentedItems indent depth false items ++ rest) := by
  cases items with
  | nil => exact hrest
  | cons item items =>
    rw [indentedItems, if_neg (by decide)]
    simp only [List.append_assoc]
    exact Reader.closed_cons (by decide) _

theorem closed_indentedFields (indent : List Char) (depth : Nat) (fields : List (String × Json))
    {rest : List Char} (hrest : Reader.Closed rest) :
    Reader.Closed (indentedFields indent depth false fields ++ rest) := by
  cases fields with
  | nil => exact hrest
  | cons field fields =>
    obtain ⟨key, value⟩ := field
    rw [indentedFields, if_neg (by decide)]
    simp only [List.append_assoc]
    exact Reader.closed_cons (by decide) _

/-- A value whose numbers are read back is read back from its compact text. -/
theorem gives_chars {j : Json} (hkeys : j.KeysDiffer) (hnumbers : ∀ x ∈ j.numbers, x.Survives)
    {fuel depth : Nat} (hdepth : j.depth < depth) (hfuel : 2 * j.chars.length ≤ fuel)
    {rest : List Char} (hrest : Reader.Closed rest) :
    Reader.Gives (Reader.value .full fuel depth) (j.chars ++ rest) j rest := by
  have h := follows_chars j hkeys fuel depth hdepth hfuel hrest
  rwa [(reread?_eq_some_self_iff j).2 hnumbers] at h

theorem length_lineChars_pos (indent : List Char) (depth : Nat) :
    0 < (lineChars indent depth).length := Nat.succ_pos _

section

variable {indent : List Char} (hindent : Blank indent)

include hindent

mutual

/-- A value whose numbers are read back is read back from its text with blanks. -/
theorem gives_indentedChars (j : Json) (hkeys : j.KeysDiffer)
    (hnumbers : ∀ x ∈ j.numbers, x.Survives) (level fuel depth : Nat) (hdepth : j.depth < depth)
    (hfuel : 2 * (indentedChars indent level j).length ≤ fuel) {rest : List Char}
    (hrest : Reader.Closed rest) :
    Reader.Gives (Reader.value .full fuel depth) (indentedChars indent level j ++ rest) j rest := by
  match j with
  | .null => exact gives_chars hkeys hnumbers hdepth hfuel hrest
  | .bool b => exact gives_chars hkeys hnumbers hdepth hfuel hrest
  | .int i => exact gives_chars hkeys hnumbers hdepth hfuel hrest
  | .float f => exact gives_chars hkeys hnumbers hdepth hfuel hrest
  | .str s => exact gives_chars hkeys hnumbers hdepth hfuel hrest
  | .arr [] => exact gives_chars hkeys hnumbers hdepth hfuel hrest
  | .obj [] => exact gives_chars hkeys hnumbers hdepth hfuel hrest
  | .arr (item :: js) =>
    have hline := length_lineChars_pos indent level
    rw [Json.depth] at hdepth
    simp only [indentedChars, List.length_append, List.length_cons] at hfuel
    obtain ⟨fuel, rfl⟩ : ∃ n, fuel = n + 1 := ⟨fuel - 1, by omega⟩
    have hitems := gives_indentedItems (item :: js) hkeys hnumbers (level + 1) fuel (depth - 1)
      (by omega) true (by omega) [] (blank_lineChars hindent level) rest
    have hcont := Reader.continues_value_arr depth (by omega) fuel
      (indentedItems indent (level + 1) true (item :: js) ++
        (lineChars indent level ++ ']' :: rest))
    rw [indentedChars, List.cons_append, List.cons_append, List.cons_append, List.append_assoc,
      List.append_assoc]
    exact hcont.gives (hitems.bind (Reader.gives_pure _ rest))
  | .obj ((key, value) :: fs) =>
    have hline := length_lineChars_pos indent level
    rw [Json.depth] at hdepth
    simp only [indentedChars, List.length_append, List.length_cons] at hfuel
    obtain ⟨fuel, rfl⟩ : ∃ n, fuel = n + 1 := ⟨fuel - 1, by omega⟩
    have hfields := gives_indentedFields ((key, value) :: fs) hkeys.2 hnumbers (level + 1) fuel
      (depth - 1) (by omega) true (by omega) [] hkeys.1 (blank_lineChars hindent level) rest
    have hcont := Reader.continues_value_obj depth (by omega) fuel
      (indentedFields indent (level + 1) true ((key, value) :: fs) ++
        (lineChars indent level ++ '\x7d' :: rest))
    rw [indentedChars, List.cons_append, List.cons_append, List.cons_append, List.append_assoc,
      List.append_assoc]
    exact hcont.gives (hfields.bind (Reader.gives_pure _ rest))

theorem gives_indentedItems (js : List Json) (hkeys : ItemsDiffer js)
    (hnumbers : ∀ x ∈ itemsNumbers js, x.Survives) (level fuel depth : Nat)
    (hdepth : itemsDepth js < depth) (first : Bool)
    (hfuel : 2 * (indentedItems indent level first js).length + 3 ≤ fuel) (acc : List Json)
    {bs : List Char} (hbs : Blank bs) (rest : List Char) :
    Reader.Gives (Reader.items .full fuel depth first acc)
      (indentedItems indent level first js ++ (bs ++ ']' :: rest)) (acc.reverse ++ js) rest := by
  obtain ⟨fuel, rfl⟩ : ∃ n, fuel = n + 1 := ⟨fuel - 1, by omega⟩
  match js with
  | [] =>
    rw [List.append_nil]
    exact Reader.gives_items_end hbs fuel depth first acc rest
  | item :: js =>
    have hline := length_lineChars_pos indent level
    rw [itemsDepth] at hdepth
    rw [itemsNumbers, List.forall_mem_append] at hnumbers
    simp only [indentedItems, List.length_append] at hfuel
    obtain ⟨c, cs, hcs, hblank, hend⟩ := exists_indentedChars_eq_cons indent level item
    have hend' : Reader.Closed (bs ++ ']' :: rest) :=
      closed_append hbs (Reader.closed_cons (by decide) rest)
    have hitem := gives_indentedChars item hkeys.1 hnumbers.1 level fuel depth (by omega)
      (by omega) (closed_indentedItems indent level js hend')
    have hitems := gives_indentedItems js hkeys.2 hnumbers.2 level fuel depth (by omega) false
      (by omega) (item :: acc) hbs rest
    rw [List.reverse_cons, List.append_assoc, List.singleton_append] at hitems
    have hcont := Reader.continues_items_line (blank_lineChars hindent level) hblank hend fuel
      depth first acc (cs ++ (indentedItems indent level false js ++ (bs ++ ']' :: rest)))
    rw [← List.cons_append, ← hcs] at hcont
    have hgives := hcont.gives (hitem.bind hitems)
    simpa only [indentedItems, List.append_assoc] using hgives

theorem gives_indentedFields (fs : List (String × Json)) (hkeys : FieldsDiffer fs)
    (hnumbers : ∀ x ∈ fieldsNumbers fs, x.Survives) (level fuel depth : Nat)
    (hdepth : fieldsDepth fs < depth) (first : Bool)
    (hfuel : 2 * (indentedFields indent level first fs).length + 3 ≤ fuel)
    (acc : List (String × Json)) (hacc : ((acc.reverse ++ fs).map Prod.fst).Nodup)
    {bs : List Char} (hbs : Blank bs) (rest : List Char) :
    Reader.Gives (Reader.fields .full fuel depth first acc)
      (indentedFields indent level first fs ++ (bs ++ '\x7d' :: rest)) (acc.reverse ++ fs)
      rest := by
  obtain ⟨fuel, rfl⟩ : ∃ n, fuel = n + 1 := ⟨fuel - 1, by omega⟩
  match fs with
  | [] =>
    rw [List.append_nil]
    exact Reader.gives_fields_end hbs fuel depth first acc rest
  | (key, value) :: fs =>
    have hline := length_lineChars_pos indent level
    rw [fieldsDepth] at hdepth
    rw [fieldsNumbers, List.forall_mem_append] at hnumbers
    simp only [indentedFields, List.length_append, List.length_cons] at hfuel
    obtain ⟨fuel, rfl⟩ : ∃ n, fuel = n + 1 := ⟨fuel - 1, by omega⟩
    have hend : Reader.Closed (bs ++ '\x7d' :: rest) :=
      closed_append hbs (Reader.closed_cons (by decide) rest)
    have hvalue := gives_indentedChars value hkeys.1 hnumbers.1 level (fuel + 1) depth (by omega)
      (by omega) (closed_indentedFields indent level fs hend)
    have hblank : Blank [' '] := List.forall_mem_singleton.2 rfl
    have hfields := gives_indentedFields fs hkeys.2 hnumbers.2 level (fuel + 1) depth (by omega)
      false (by omega) ((key, value) :: acc) (by simpa using hacc) hbs rest
    rw [List.reverse_cons, List.append_assoc, List.singleton_append] at hfields
    have hkey : key ∉ acc.map Prod.fst := by
      intro hmem
      rw [List.map_append, List.nodup_append] at hacc
      exact hacc.2.2 key (by simpa using hmem) key (by simp) rfl
    have hcont := Reader.continues_fields_line (blank_lineChars hindent level) key (fuel + 1)
      (by omega) depth first acc ([' '] ++ (indentedChars indent level value ++
        (indentedFields indent level false fs ++ (bs ++ '\x7d' :: rest))))
    simp only [Reader.addField_of_not_mem hkey] at hcont
    have hgives := hcont.gives ((Reader.gives_value_append hblank hvalue).bind hfields)
    simpa only [indentedFields, List.append_assoc, List.cons_append, List.nil_append] using hgives

end

end

/-- A value whose numbers are read back is read back from its text with an indentation of blanks. -/
theorem read_pretty {indent : String} {j : Json} (hindent : Blank indent.toList)
    (hkeys : j.KeysDiffer) (hdepth : j.depth < 128) (hnumbers : ∀ x ∈ j.numbers, x.Survives) :
    read (j.pretty indent) = .ok j := by
  apply read_of_gives
  have h := gives_indentedChars hindent j hkeys hnumbers 0
    (2 * (j.pretty indent).toList.length + 4) 128 hdepth (by rw [toList_pretty]; omega)
    Reader.closed_nil
  rwa [List.append_nil, ← toList_pretty] at h

/-! ## Integers that survive -/

open Number

/-- A negative integer of 64 bits is read back from its text. -/
theorem survives_negSucc {n : Nat} (h : n < 2 ^ 63) : Survives (.int (.negSucc n)) := by
  have hchars : (Json.int (.negSucc n)).compact.toList = '-' :: decimalDigits (n + 1) := by
    simp [toList_compact, chars, intText, natText, String.toList_append]
  apply read_of_gives
  rw [hchars]
  have hlt := lt_ten_pow_log2_succ (n + 1)
  obtain ⟨c, cs, hcs, hzero⟩ := head?_digitsFrom hlt (Nat.succ_pos n) []
  have hvalue := foldl_digitsFrom hlt (Nat.succ_pos _) []
  have hdigits := isDigit_of_mem_decimalDigits (n + 1)
  rw [decimalDigits, hcs] at hdigits ⊢
  rw [hcs, List.foldl_nil] at hvalue
  have hdigit : c.isDigit = true := hdigits c List.mem_cons_self
  have hgather := gather_eq (c :: cs) 0 0 (by
    rw [hvalue]
    exact Nat.le_of_lt_succ (Nat.lt_of_le_of_lt h (by decide)))
  rw [hvalue] at hgather
  have hnumber : Reader.Gives (Reader.number .full true) (c :: cs) (.int (.negSucc n)) [] := by
    have hzero' : (c == '0') = false := by simpa using hzero
    have hrange : ¬ 9223372036854775808 < n + 1 := Nat.not_lt.2 h
    refine (Reader.gives_peek _).bind ?_
    simp only [List.head?_cons, hdigit, Bool.not_true, Bool.false_eq_true, if_false, hzero']
    refine (gives_takeDigits hdigits).bind ?_
    simp only [hgather]
    refine (Reader.gives_peek []).bind ?_
    simp only [List.head?_nil, if_false, ne_eq, not_true_eq_false]
    rw [if_neg (by simp [hrange]), Int.negSucc_eq]
    exact Reader.gives_pure _ []
  intro k
  rw [Reader.value_run_of_isNumberChar _ _ _ (by decide), Reader.signedNumber, if_pos rfl]
  exact (Reader.gives_bump '-' (c :: cs)).bind hnumber k

/-- An integer of at most 53 digits is read back from its text. -/
theorem survives_int {i : Int} (h : i.natAbs < 2 ^ 53) : Survives (.int i) := by
  cases i with
  | ofNat n => exact survives_nat (Nat.lt_trans h (by decide))
  | negSucc n => exact survives_negSucc (Nat.lt_trans (Nat.lt_of_succ_lt h) (by decide))

end ScriptMachine.Json
