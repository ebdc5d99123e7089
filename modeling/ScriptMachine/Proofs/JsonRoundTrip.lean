import Mathlib.Algebra.Group.Nat.Defs
import ScriptMachine.Proofs.JsonReading

/-!
# A JSON value and its compact text

Reading the compact text of a value gives the value with each of its numbers read back from the
number's own text, as long as the keys of each object differ and the value is not nested too
deeply. The value itself comes back exactly when each of its numbers does.
-/

namespace ScriptMachine.Json

mutual

/-- The value with every number read back from its own text, if they all can be read. -/
def reread? : Json → Option Json
  | .null => some .null
  | .bool b => some (.bool b)
  | .int i => (read (Json.int i).compact).toOption
  | .float f => (read (Json.float f).compact).toOption
  | .str s => some (.str s)
  | .arr items => (rereadItems? items).map .arr
  | .obj fields => (rereadFields? fields).map .obj

def rereadItems? : List Json → Option (List Json)
  | [] => some []
  | item :: rest => item.reread?.bind fun a => (rereadItems? rest).map (a :: ·)

def rereadFields? : List (String × Json) → Option (List (String × Json))
  | [] => some []
  | (key, value) :: rest =>
    value.reread?.bind fun a => (rereadFields? rest).map ((key, a) :: ·)

end

mutual

/-- How deeply arrays and objects are nested. -/
def depth : Json → Nat
  | .arr items => itemsDepth items + 1
  | .obj fields => fieldsDepth fields + 1
  | _ => 0

def itemsDepth : List Json → Nat
  | [] => 0
  | item :: rest => max item.depth (itemsDepth rest)

def fieldsDepth : List (String × Json) → Nat
  | [] => 0
  | (_, value) :: rest => max value.depth (fieldsDepth rest)

end

mutual

/-- The keys of each object in the value differ from each other. -/
def KeysDiffer : Json → Prop
  | .arr items => ItemsDiffer items
  | .obj fields => (fields.map Prod.fst).Nodup ∧ FieldsDiffer fields
  | _ => True

def ItemsDiffer : List Json → Prop
  | [] => True
  | item :: rest => item.KeysDiffer ∧ ItemsDiffer rest

def FieldsDiffer : List (String × Json) → Prop
  | [] => True
  | (_, value) :: rest => value.KeysDiffer ∧ FieldsDiffer rest

end

mutual

/-- The numbers in the value, in their order. -/
def numbers : Json → List Json
  | .int i => [.int i]
  | .float f => [.float f]
  | .arr items => itemsNumbers items
  | .obj fields => fieldsNumbers fields
  | _ => []

def itemsNumbers : List Json → List Json
  | [] => []
  | item :: rest => item.numbers ++ itemsNumbers rest

def fieldsNumbers : List (String × Json) → List Json
  | [] => []
  | (_, value) :: rest => value.numbers ++ fieldsNumbers rest

end

/-- The text of a value reads back as the value. -/
def Survives (j : Json) : Prop := read j.compact = .ok j

/-! ## The shape of the text -/

/-- The text of a value starts with a character that neither ends a list nor parts its members. -/
theorem exists_chars_eq_cons (j : Json) : ∃ c cs, j.chars = c :: cs ∧ Reader.isBlank c = false ∧
    c ≠ ']' ∧ c ≠ '\x7d' ∧ c ≠ ',' := by
  have number : ∀ {cs : List Char}, IsNumberText cs → ∃ c rest, cs = c :: rest ∧
      Reader.isBlank c = false ∧ c ≠ ']' ∧ c ≠ '\x7d' ∧ c ≠ ',' := by
    intro cs h
    obtain ⟨c, rest, rfl⟩ := List.exists_cons_of_ne_nil h.1
    obtain ⟨hblank, -, -, -, -, -, -, hitem, hfield, hcomma⟩ :=
      Reader.isNumberChar_cases (h.2 c (by simp))
    exact ⟨c, rest, rfl, hblank, hitem, hfield, hcomma⟩
  have fixed : ∀ (c : Char) (cs : List Char), (Reader.isBlank c = false ∧
      c ≠ ']' ∧ c ≠ '\x7d' ∧ c ≠ ',') → ∃ d ds, c :: cs = d :: ds ∧ Reader.isBlank d = false ∧
      d ≠ ']' ∧ d ≠ '\x7d' ∧ d ≠ ',' :=
    fun c cs h => ⟨c, cs, rfl, h⟩
  cases j with
  | null => exact fixed 'n' _ (by decide)
  | bool b => cases b <;> exact fixed _ _ (by decide)
  | int i =>
    rw [chars]
    exact number (isNumberText_intText i)
  | float f =>
    rw [chars]
    split
    · exact number (isNumberText_jsonText f)
    · exact fixed 'n' _ (by decide)
  | str s =>
    rw [chars, stringChars, List.cons_append]
    exact fixed '"' _ (by decide)
  | arr items =>
    rw [chars, List.cons_append]
    exact fixed '[' _ (by decide)
  | obj fields =>
    rw [chars, List.cons_append]
    exact fixed '\x7b' _ (by decide)

theorem length_chars_pos (j : Json) : 0 < j.chars.length := by
  obtain ⟨c, cs, hcs, -⟩ := exists_chars_eq_cons j
  rw [hcs]
  exact Nat.succ_pos _

theorem closed_itemChars (items : List Json) (rest : List Char) :
    Reader.Closed (itemChars false items ++ ']' :: rest) := by
  cases items with
  | nil => exact Reader.closed_cons (by decide) rest
  | cons item items =>
    rw [itemChars, if_neg (by decide), List.append_assoc, List.append_assoc]
    exact Reader.closed_cons (by decide) _

theorem closed_fieldChars (fields : List (String × Json)) (rest : List Char) :
    Reader.Closed (fieldChars false fields ++ '\x7d' :: rest) := by
  cases fields with
  | nil => exact Reader.closed_cons (by decide) rest
  | cons field fields =>
    obtain ⟨key, value⟩ := field
    rw [fieldChars, if_neg (by decide), List.append_assoc, List.append_assoc, List.append_assoc]
    exact Reader.closed_cons (by decide) _

namespace Reader

variable {α : Type}

/-- A reader goes on as another one behind some characters. -/
def Continues (x y : Reader α) (input rest : List Char) : Prop :=
  ∀ n, ∃ k, x ⟨input, n⟩ = y ⟨rest, k⟩

theorem Continues.gives {x y : Reader α} {input mid rest : List Char} {a : α}
    (h : Continues x y input mid) (hy : Gives y mid a rest) : Gives x input a rest := by
  intro n
  obtain ⟨k, hk⟩ := h n
  rw [hk]
  exact hy k

theorem Continues.refuses {x y : Reader α} {input mid : List Char}
    (h : Continues x y input mid) (hy : Refuses y mid) : Refuses x input := by
  intro n
  obtain ⟨k, hk⟩ := h n
  rw [hk]
  exact hy k

theorem Gives.continues {β : Type} {x : Reader α} {f : α → Reader β} {input mid : List Char}
    {a : α} (h : Gives x input a mid) : Continues (x >>= f) (f a) input mid := by
  intro n
  obtain ⟨k, hk⟩ := h n
  exact ⟨k, by rw [bind_run, hk]⟩

theorem Continues.trans {x y z : Reader α} {input mid rest : List Char}
    (h : Continues x y input mid) (h' : Continues y z mid rest) : Continues x z input rest := by
  intro n
  obtain ⟨k, hk⟩ := h n
  obtain ⟨l, hl⟩ := h' k
  exact ⟨l, by rw [hk, hl]⟩

/-! ## Items -/

theorem gives_items_nil (fuel depth : Nat) (first : Bool) (acc : List Json) (rest : List Char) :
    Gives (items .full (fuel + 1) depth first acc) (']' :: rest) acc.reverse rest := by
  rw [items]
  refine (gives_skipBlanks (by decide) rest).bind ?_
  exact (gives_bump ']' rest).bind (gives_pure _ rest)

/-- In front of an item its comma is passed by, and the item is read. -/
theorem continues_items {c : Char} (hblank : isBlank c = false) (hend : c ≠ ']')
    (fuel depth : Nat) (first : Bool) (acc : List Json) (tail : List Char) :
    Continues (items .full (fuel + 1) depth first acc)
      (do
        let item ← value .full fuel depth
        items .full fuel depth false (item :: acc))
      ((if first then [] else [',']) ++ c :: tail) (c :: tail) := by
  rw [items]
  cases first with
  | true =>
    refine (gives_skipBlanks hblank tail).continues.trans ?_
    intro n
    refine ⟨n, ?_⟩
    simp only []
    rfl
  | false =>
    refine (gives_skipBlanks (c := ',') (by decide) (c :: tail)).continues.trans ?_
    refine (gives_bump ',' (c :: tail)).continues.trans ?_
    refine (gives_skipBlanks hblank tail).continues.trans ?_
    intro n
    refine ⟨n, ?_⟩
    simp only []
    rfl

/-- A number that stops early is not followed by a comma or the end of the list. -/
theorem refuses_items_of_isNumberChar {c : Char} (h : isNumberChar c = true) (fuel depth : Nat)
    (acc : List Json) (tail : List Char) :
    Refuses (items .full fuel depth false acc) (c :: tail) := by
  obtain ⟨hblank, -, -, -, -, -, -, hend, -, hcomma⟩ := isNumberChar_cases h
  cases fuel with
  | zero =>
    rw [items]
    exact refuses_failNext _ _
  | succ fuel =>
    rw [items]
    refine (gives_skipBlanks hblank tail).bind_refuses ?_
    split
    · contradiction
    · rename_i heq
      exact absurd (Option.some.inj heq) hend
    · rename_i d hd heq
      cases heq
      have : (c == ',') = false := by simpa using hcomma
      simp only [Bool.not_false, if_true, this, Bool.false_eq_true, if_false]
      exact (refuses_failNext _ _).bind _

/-! ## Fields -/

theorem gives_fields_nil (fuel depth : Nat) (first : Bool) (acc : List (String × Json))
    (rest : List Char) :
    Gives (fields .full (fuel + 1) depth first acc) ('\x7d' :: rest) acc.reverse rest := by
  rw [fields]
  refine (gives_skipBlanks (by decide) rest).bind ?_
  exact (gives_bump '\x7d' rest).bind (gives_pure _ rest)

/-- In front of a field its comma, its key and the colon are passed by, and the value is read. -/
theorem continues_fields (key : String) (fuel : Nat) (hfuel : (stringChars key).length ≤ fuel + 1)
    (depth : Nat) (first : Bool) (acc : List (String × Json)) (rest : List Char) :
    Continues (fields .full (fuel + 1) depth first acc)
      (do
        let item ← value .full fuel depth
        fields .full fuel depth false (addField .full key item acc))
      ((if first then [] else [',']) ++ stringChars key ++ ':' :: rest) rest := by
  have hcolon : isBlank ':' = false := by decide
  rw [List.append_assoc, stringChars_append, fields]
  cases first with
  | true =>
    refine (gives_skipBlanks (c := '"') (by decide) _).continues.trans ?_
    refine (gives_bump '"' _).continues.trans ?_
    refine (gives_string_toList key (':' :: rest) hfuel).continues.trans ?_
    refine (gives_skipBlanks hcolon rest).continues.trans ?_
    exact (gives_bump ':' rest).continues
  | false =>
    refine (gives_skipBlanks (c := ',') (by decide) _).continues.trans ?_
    refine (gives_bump ',' _).continues.trans ?_
    refine (gives_skipBlanks (c := '"') (by decide) _).continues.trans ?_
    refine (gives_bump '"' _).continues.trans ?_
    refine (gives_string_toList key (':' :: rest) hfuel).continues.trans ?_
    refine (gives_skipBlanks hcolon rest).continues.trans ?_
    exact (gives_bump ':' rest).continues

/-- A number that stops early is not followed by a comma or the end of the fields. -/
theorem refuses_fields_of_isNumberChar {c : Char} (h : isNumberChar c = true) (fuel depth : Nat)
    (acc : List (String × Json)) (tail : List Char) :
    Refuses (fields .full fuel depth false acc) (c :: tail) := by
  obtain ⟨hblank, -, -, -, -, -, -, -, hend, hcomma⟩ := isNumberChar_cases h
  cases fuel with
  | zero =>
    rw [fields]
    exact refuses_failNext _ _
  | succ fuel =>
    rw [fields]
    refine (gives_skipBlanks hblank tail).bind_refuses ?_
    split
    · contradiction
    · rename_i heq
      exact absurd (Option.some.inj heq) hend
    · rename_i d hd heq
      cases heq
      have : (c == ',') = false := by simpa using hcomma
      simp only [Bool.not_false, if_true, this, Bool.false_eq_true, if_false]
      exact (refuses_failNext _ _).bind _

/-! ## Names and strings -/

theorem gives_value_null (fuel depth : Nat) (rest : List Char) :
    Gives (value .full (fuel + 1) depth) ('n' :: 'u' :: 'l' :: 'l' :: rest) .null rest :=
  fun n => ⟨n + 4, rfl⟩

theorem gives_value_true (fuel depth : Nat) (rest : List Char) :
    Gives (value .full (fuel + 1) depth) ('t' :: 'r' :: 'u' :: 'e' :: rest) (.bool true) rest :=
  fun n => ⟨n + 4, rfl⟩

theorem gives_value_false (fuel depth : Nat) (rest : List Char) :
    Gives (value .full (fuel + 1) depth) ('f' :: 'a' :: 'l' :: 's' :: 'e' :: rest) (.bool false)
      rest :=
  fun n => ⟨n + 5, rfl⟩

theorem gives_value_str (s : String) {fuel : Nat} (hfuel : (stringChars s).length ≤ fuel + 1)
    (depth : Nat) (rest : List Char) :
    Gives (value .full (fuel + 1) depth) (stringChars s ++ rest) (.str s) rest := by
  rw [value, stringChars_append]
  refine (gives_skipBlanks (by decide) _).bind ?_
  refine (gives_bump '"' _).bind ?_
  exact (gives_string_toList s rest hfuel).bind (gives_pure _ rest)

/-- An array is read item by item behind its bracket. -/
theorem continues_value_arr (depth : Nat) (hdepth : 1 < depth) (fuel : Nat) (rest : List Char) :
    Continues (value .full (fuel + 1) depth)
      (do return .arr (← items .full fuel (depth - 1) true [])) ('[' :: rest) rest := by
  rw [value]
  refine (gives_skipBlanks (by decide) rest).continues.trans ?_
  have hlimit : (decide (depth ≤ 1) && Demand.full.isStrict) = false := by
    simpa [Demand.isStrict] using hdepth
  simp only [hlimit, Bool.false_eq_true, if_false]
  exact (gives_bump '[' rest).continues

/-- An object is read field by field behind its brace. -/
theorem continues_value_obj (depth : Nat) (hdepth : 1 < depth) (fuel : Nat) (rest : List Char) :
    Continues (value .full (fuel + 1) depth)
      (do return .obj (← fields .full fuel (depth - 1) true [])) ('\x7b' :: rest) rest := by
  rw [value]
  refine (gives_skipBlanks (by decide) rest).continues.trans ?_
  have hlimit : (decide (depth ≤ 1) && Demand.full.isStrict) = false := by
    simpa [Demand.isStrict] using hdepth
  simp only [hlimit, Bool.false_eq_true, if_false]
  exact (gives_bump '\x7b' rest).continues

theorem addField_of_not_mem {key : String} {acc : List (String × Json)}
    (h : key ∉ acc.map Prod.fst) (item : Json) :
    addField .full key item acc = (key, item) :: acc := by
  have hany : acc.any (·.1 == key) = false := by
    rw [List.any_eq_false]
    intro field hfield heq
    exact h (List.mem_map.2 ⟨field, hfield, by simpa using heq⟩)
  rw [addField, hany, Bool.and_false, if_neg (by decide)]

end Reader

/-! ## Whole values -/

/-- What the reader makes of a text that stands for a value, or for none. -/
def Reader.Follows {α : Type} (x : Reader α) (input : List Char) (rest : List Char) :
    Option α → Prop
  | some a => Gives x input a rest
  | none => Refuses x input

/-- A value whose numbers cannot all be read back is refused, or the reader stops inside one. -/
def Reader.FollowsNumbers (x : Reader Json) (input : List Char) (rest : List Char) :
    Option Json → Prop
  | some a => Gives x input a rest
  | none => Stops x input

theorem follows_number (j : Json) (hchars : IsNumberText j.chars)
    (hreread : j.reread? = (read j.compact).toOption) (fuel depth : Nat) {rest : List Char}
    (hrest : Reader.Closed rest) :
    Reader.FollowsNumbers (Reader.value .full (fuel + 1) depth) (j.chars ++ rest) rest
      j.reread? := by
  rw [hreread]
  rw [← toList_compact] at hchars ⊢
  rcases read_numberText hchars with ⟨a, ha, hgives⟩ | ⟨hnone, hstops⟩
  · rw [ha]
    exact hgives fuel depth rest hrest
  · rw [hnone]
    exact hstops fuel depth rest hrest

theorem read_float_of_not_isFinite {f : Float} (h : ¬ f.isFinite = true) :
    read (Json.float f).compact = .ok .null := by
  apply read_of_gives
  rw [toList_compact, chars, if_neg h]
  exact Reader.gives_value_null _ _ []

mutual

/-- The reader follows the characters of a value. -/
theorem follows_chars (j : Json) (hkeys : j.KeysDiffer) (fuel depth : Nat)
    (hdepth : j.depth < depth) (hfuel : 2 * j.chars.length ≤ fuel) {rest : List Char}
    (hrest : Reader.Closed rest) :
    Reader.FollowsNumbers (Reader.value .full fuel depth) (j.chars ++ rest) rest j.reread? := by
  have hpos := length_chars_pos j
  obtain ⟨fuel, rfl⟩ : ∃ n, fuel = n + 1 := ⟨fuel - 1, by omega⟩
  match j with
  | .null => exact Reader.gives_value_null fuel depth rest
  | .bool true => exact Reader.gives_value_true fuel depth rest
  | .bool false => exact Reader.gives_value_false fuel depth rest
  | .int i => exact follows_number (.int i) (isNumberText_intText i) rfl fuel depth hrest
  | .float f =>
    by_cases hf : f.isFinite = true
    · refine follows_number (.float f) ?_ rfl fuel depth hrest
      rw [chars, if_pos hf]
      exact isNumberText_jsonText f
    · rw [reread?, read_float_of_not_isFinite hf, chars, if_neg hf]
      exact Reader.gives_value_null fuel depth rest
  | .str s =>
    rw [chars] at hfuel
    exact Reader.gives_value_str s (by omega) depth rest
  | .arr js =>
    rw [Json.depth] at hdepth
    rw [chars, List.length_append, List.length_cons, List.length_singleton] at hfuel
    have hitems := follows_itemChars js hkeys fuel (depth - 1) (by omega) true
      (by omega) [] rest
    rw [chars, reread?, List.cons_append, List.cons_append, List.append_assoc]
    have hcont := Reader.continues_value_arr depth (by omega) fuel
      (itemChars true js ++ ([']'] ++ rest))
    cases hread : rereadItems? js with
    | none =>
      rw [hread] at hitems
      exact .inl (hcont.refuses (hitems.bind _))
    | some as =>
      rw [hread] at hitems
      exact hcont.gives (hitems.bind (Reader.gives_pure _ rest))
  | .obj fs =>
    rw [Json.depth] at hdepth
    rw [chars, List.length_append, List.length_cons, List.length_singleton] at hfuel
    have hfields := follows_fieldChars fs hkeys.2 fuel (depth - 1) (by omega)
      true (by omega) [] hkeys.1 rest
    rw [chars, reread?, List.cons_append, List.cons_append, List.append_assoc]
    have hcont := Reader.continues_value_obj depth (by omega) fuel
      (fieldChars true fs ++ (['\x7d'] ++ rest))
    cases hread : rereadFields? fs with
    | none =>
      rw [hread] at hfields
      exact .inl (hcont.refuses (hfields.bind _))
    | some as =>
      rw [hread] at hfields
      exact hcont.gives (hfields.bind (Reader.gives_pure _ rest))

theorem follows_itemChars (js : List Json) (hkeys : ItemsDiffer js) (fuel depth : Nat)
    (hdepth : itemsDepth js < depth) (first : Bool)
    (hfuel : 2 * (itemChars first js).length + 3 ≤ fuel) (acc : List Json) (rest : List Char) :
    Reader.Follows (Reader.items .full fuel depth first acc) (itemChars first js ++ ']' :: rest)
      rest ((rereadItems? js).map (acc.reverse ++ ·)) := by
  obtain ⟨fuel, rfl⟩ : ∃ n, fuel = n + 1 := ⟨fuel - 1, by omega⟩
  match js with
  | [] =>
    rw [rereadItems?, Option.map_some, List.append_nil]
    exact Reader.gives_items_nil fuel depth first acc rest
  | item :: js =>
    rw [itemsDepth] at hdepth
    rw [itemChars, List.length_append, List.length_append] at hfuel
    have hpos := length_chars_pos item
    obtain ⟨c, cs, hcs, hblank, hend, -⟩ := exists_chars_eq_cons item
    have hitem := follows_chars item hkeys.1 fuel depth (by omega)
      (by omega) (closed_itemChars js rest)
    have hcont := Reader.continues_items hblank hend fuel depth first acc
      (cs ++ (itemChars false js ++ ']' :: rest))
    rw [← List.cons_append, ← hcs] at hcont
    rw [itemChars, rereadItems?, List.append_assoc, List.append_assoc]
    cases hread : item.reread? with
    | none =>
      rw [hread] at hitem
      refine hcont.refuses ?_
      rcases hitem with hitem | ⟨a, d, tail, hd, hitem⟩
      · exact hitem.bind _
      · exact hitem.bind_refuses
          (Reader.refuses_items_of_isNumberChar hd fuel depth (a :: acc) tail)
    | some a =>
      rw [hread] at hitem
      have hrest := follows_itemChars js hkeys.2 fuel depth (by omega)
        false (by omega) (a :: acc) rest
      rw [Option.bind_some]
      cases hreads : rereadItems? js with
      | none =>
        rw [hreads] at hrest
        exact hcont.refuses (hitem.bind_refuses hrest)
      | some as =>
        rw [hreads, Option.map_some, List.reverse_cons, List.append_assoc] at hrest
        exact hcont.gives (hitem.bind hrest)

theorem follows_fieldChars (fs : List (String × Json)) (hkeys : FieldsDiffer fs) (fuel depth : Nat)
    (hdepth : fieldsDepth fs < depth) (first : Bool)
    (hfuel : 2 * (fieldChars first fs).length + 3 ≤ fuel) (acc : List (String × Json))
    (hacc : ((acc.reverse ++ fs).map Prod.fst).Nodup) (rest : List Char) :
    Reader.Follows (Reader.fields .full fuel depth first acc)
      (fieldChars first fs ++ '\x7d' :: rest) rest
      ((rereadFields? fs).map (acc.reverse ++ ·)) := by
  obtain ⟨fuel, rfl⟩ : ∃ n, fuel = n + 1 := ⟨fuel - 1, by omega⟩
  match fs with
  | [] =>
    rw [rereadFields?, Option.map_some, List.append_nil]
    exact Reader.gives_fields_nil fuel depth first acc rest
  | (key, value) :: fs =>
    rw [fieldsDepth] at hdepth
    rw [fieldChars, List.length_append, List.length_append, List.length_append,
      List.length_cons] at hfuel
    have hpos := length_chars_pos value
    have hvalue := follows_chars value hkeys.1 fuel depth (by omega)
      (by omega) (closed_fieldChars fs rest)
    have hcont := Reader.continues_fields key fuel (by omega) depth first acc
      (value.chars ++ (fieldChars false fs ++ '\x7d' :: rest))
    rw [fieldChars, rereadFields?, List.append_assoc, List.append_assoc, List.cons_append]
    have hkey : key ∉ acc.map Prod.fst := by
      intro hmem
      rw [List.map_append, List.nodup_append] at hacc
      exact hacc.2.2 key (by simpa using hmem) key (by simp) rfl
    have hadd : ∀ a, Reader.addField .full key a acc = (key, a) :: acc :=
      Reader.addField_of_not_mem hkey
    simp only [hadd] at hcont
    cases hread : value.reread? with
    | none =>
      rw [hread] at hvalue
      refine hcont.refuses ?_
      rcases hvalue with hvalue | ⟨a, d, tail, hd, hvalue⟩
      · exact hvalue.bind _
      · exact hvalue.bind_refuses
          (Reader.refuses_fields_of_isNumberChar hd fuel depth ((key, a) :: acc) tail)
    | some a =>
      rw [hread] at hvalue
      have hrest := follows_fieldChars fs hkeys.2 fuel depth (by omega)
        false (by omega) ((key, a) :: acc) (by simpa using hacc) rest
      rw [Option.bind_some]
      cases hreads : rereadFields? fs with
      | none =>
        rw [hreads] at hrest
        exact hcont.refuses (hvalue.bind_refuses hrest)
      | some as =>
        rw [hreads, Option.map_some, List.reverse_cons, List.append_assoc] at hrest
        exact hcont.gives (hvalue.bind hrest)

end

/-- Reading the text of a value gives the value with its numbers read back. -/
theorem toOption_read_compact (j : Json) (hkeys : j.KeysDiffer) (hdepth : j.depth < 128) :
    (read j.compact).toOption = j.reread? := by
  have h := follows_chars j hkeys (2 * j.compact.toList.length + 4) 128 hdepth
    (by rw [toList_compact]; omega) Reader.closed_nil
  rw [List.append_nil, ← toList_compact] at h
  cases hread : j.reread? with
  | none =>
    rw [hread] at h
    exact read_of_stops h
  | some a =>
    rw [hread] at h
    rw [read_of_gives h]
    rfl

theorem survives_iff_toOption (j : Json) :
    j.Survives ↔ (read j.compact).toOption = some j := by
  rw [Survives]
  cases read j.compact <;> simp [Except.toOption]

mutual

theorem reread?_eq_some_self_iff (j : Json) :
    j.reread? = some j ↔ ∀ x ∈ j.numbers, x.Survives := by
  match j with
  | .null => simp [reread?, numbers]
  | .bool b => simp [reread?, numbers]
  | .int i => simp [reread?, numbers, survives_iff_toOption]
  | .float f => simp [reread?, numbers, survives_iff_toOption]
  | .str s => simp [reread?, numbers]
  | .arr js =>
    rw [reread?, numbers, ← rereadItems?_eq_some_self_iff js]
    simp
  | .obj fs =>
    rw [reread?, numbers, ← rereadFields?_eq_some_self_iff fs]
    simp

theorem rereadItems?_eq_some_self_iff (js : List Json) :
    rereadItems? js = some js ↔ ∀ x ∈ itemsNumbers js, x.Survives := by
  match js with
  | [] => simp [rereadItems?, itemsNumbers]
  | j :: js =>
    simp only [rereadItems?, itemsNumbers, List.forall_mem_append,
      ← reread?_eq_some_self_iff j, ← rereadItems?_eq_some_self_iff js]
    cases j.reread? <;> cases rereadItems? js <;> simp

theorem rereadFields?_eq_some_self_iff (fs : List (String × Json)) :
    rereadFields? fs = some fs ↔ ∀ x ∈ fieldsNumbers fs, x.Survives := by
  match fs with
  | [] => simp [rereadFields?, fieldsNumbers]
  | (key, j) :: fs =>
    simp only [rereadFields?, fieldsNumbers, List.forall_mem_append,
      ← reread?_eq_some_self_iff j, ← rereadFields?_eq_some_self_iff fs]
    cases j.reread? <;> cases rereadFields? fs <;> simp

end

/-- A value comes back from its text exactly when each of its numbers does. -/
theorem survives_iff (j : Json) (hkeys : j.KeysDiffer) (hdepth : j.depth < 128) :
    j.Survives ↔ ∀ x ∈ j.numbers, x.Survives := by
  rw [survives_iff_toOption, toOption_read_compact j hkeys hdepth]
  exact reread?_eq_some_self_iff j

/-! ## Numbers that survive -/

open Number

/-- One more decimal digit behind a number. -/
def appendDigit (n : Nat) (c : Char) : Nat := n * 10 + (digitValue? 10 c).getD 0

theorem digitValue?_digitChar {d : Nat} (h : d < 10) :
    (digitValue? 10 (digitChar d)).getD 0 = d := by
  have : ∀ d < 10, (digitValue? 10 (digitChar d)).getD 0 = d := by decide
  exact this d h

theorem digitChar_ne_zero {d : Nat} (h : d < 10) (hpos : 0 < d) : digitChar d ≠ '0' := by
  have : ∀ d < 10, 0 < d → digitChar d ≠ '0' := by decide
  exact this d h hpos

theorem foldl_digitsFrom {fuel n : Nat} (h : n < 10 ^ fuel) (hpos : 0 < fuel) (acc : List Char) :
    (digitsFrom 10 fuel n acc).foldl appendDigit 0 = acc.foldl appendDigit n := by
  induction fuel generalizing n acc with
  | zero => cases hpos
  | succ fuel ih =>
    rw [digitsFrom]
    split
    · rename_i hn
      rw [List.foldl_cons, appendDigit, digitValue?_digitChar hn, Nat.zero_mul, Nat.zero_add]
    · rename_i hn
      have hfuel : 0 < fuel := by
        rcases Nat.eq_zero_or_pos fuel with rfl | hfuel
        · omega
        · exact hfuel
      have hdiv : n / 10 < 10 ^ fuel := by
        rw [Nat.pow_succ] at h
        omega
      rw [ih hdiv hfuel, List.foldl_cons, appendDigit,
        digitValue?_digitChar (Nat.mod_lt n (by decide)), Nat.div_add_mod']

/-- Digits do not start with a zero, unless zero is the number. -/
theorem head?_digitsFrom {fuel n : Nat} (h : n < 10 ^ fuel) (hpos : 0 < n) (acc : List Char) :
    ∃ c cs, digitsFrom 10 fuel n acc = c :: cs ∧ c ≠ '0' := by
  induction fuel generalizing n acc with
  | zero => simp at h; omega
  | succ fuel ih =>
    rw [digitsFrom]
    split
    · rename_i hn
      exact ⟨digitChar n, acc, rfl, digitChar_ne_zero hn hpos⟩
    · rename_i hn
      have hdiv : n / 10 < 10 ^ fuel := by
        rw [Nat.pow_succ] at h
        omega
      exact ih hdiv (by omega) _

theorem lt_ten_pow_log2_succ (n : Nat) : n < 10 ^ (n.log2 + 1) :=
  calc n < 2 ^ (n.log2 + 1) := Nat.lt_log2_self
    _ ≤ 10 ^ (n.log2 + 1) := Nat.pow_le_pow_left (by decide) _

theorem le_foldl_appendDigit (cs : List Char) (n : Nat) : n ≤ cs.foldl appendDigit n := by
  induction cs generalizing n with
  | nil => exact Nat.le_refl n
  | cons c cs ih =>
    have hstep : n ≤ appendDigit n c := by
      rw [appendDigit]
      omega
    exact Nat.le_trans hstep (ih _)

/-- Digits whose value fits the significand are all gathered. -/
theorem gather_eq (cs : List Char) (n added : Nat)
    (h : cs.foldl appendDigit n ≤ Reader.maxSignificand) :
    Reader.gather n added cs = (cs.foldl appendDigit n, added + cs.length, 0) := by
  induction cs generalizing n added with
  | nil => rfl
  | cons c cs ih =>
    have hle := Nat.le_trans (le_foldl_appendDigit cs (appendDigit n c)) h
    have hfits : Reader.overflows n ((digitValue? 10 c).getD 0) Reader.maxSignificand = false :=
      decide_eq_false (Nat.not_lt.2 hle)
    rw [Reader.gather]
    simp only [hfits, Bool.false_eq_true, if_false]
    rw [← appendDigit, ih _ _ h, List.foldl_cons, List.length_cons]
    simp only [Prod.mk.injEq, true_and, and_true]
    omega

theorem gives_takeDigits {cs : List Char} (h : ∀ c ∈ cs, c.isDigit = true) :
    Reader.Gives Reader.takeDigits cs cs [] := by
  intro n
  have hrun : cs.takeWhile Char.isDigit = cs := by
    have hrun : (cs ++ []).takeWhile Char.isDigit = cs ++ [].takeWhile Char.isDigit :=
      List.takeWhile_append_of_pos h
    simpa using hrun
  refine ⟨n + cs.length, ?_⟩
  change Except.ok _ = _
  simp only [hrun, List.drop_length]

/-- A natural number of 64 bits is read back from its text. -/
theorem survives_nat {n : Nat} (h : n < 2 ^ 64) : Survives (.nat n) := by
  have hchars : (Json.nat n).compact.toList = decimalDigits n := by
    rw [toList_compact, nat, chars]
    exact String.toList_ofList
  apply read_of_gives
  rw [hchars]
  rcases Nat.eq_zero_or_pos n with rfl | hpos
  · exact fun n => ⟨n + 1, rfl⟩
  have hlt := lt_ten_pow_log2_succ n
  obtain ⟨c, cs, hcs, hzero⟩ := head?_digitsFrom hlt hpos []
  have hvalue := foldl_digitsFrom hlt (Nat.succ_pos _) []
  have hdigits := isDigit_of_mem_decimalDigits n
  rw [decimalDigits, hcs] at hdigits ⊢
  rw [hcs, List.foldl_nil] at hvalue
  have hdigit : c.isDigit = true := hdigits c (by simp)
  have hminus : c ≠ '-' := by
    rintro rfl
    exact absurd hdigit (by decide)
  have hgather := gather_eq (c :: cs) 0 0 (by rw [hvalue]; exact Nat.le_of_lt_succ h)
  rw [hvalue] at hgather
  have hnumber : Reader.Gives (Reader.number .full false) (c :: cs) (.nat n) [] := by
    have hzero' : (c == '0') = false := by simpa using hzero
    refine (Reader.gives_peek _).bind ?_
    simp only [List.head?_cons, hdigit, Bool.not_true, Bool.false_eq_true, if_false, hzero']
    refine (gives_takeDigits hdigits).bind ?_
    simp only [hgather]
    exact (Reader.gives_peek []).bind (Reader.gives_pure _ [])
  intro k
  rw [Reader.value_run_of_isNumberChar _ _ _ (isNumberChar_of_isDigit hdigit),
    Reader.signedNumber, if_neg hminus, if_pos hdigit]
  exact hnumber k

end ScriptMachine.Json
