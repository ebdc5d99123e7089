import ScriptMachine.Json.Reader

/-!
# Numbers inside a longer text

A number ends where a character follows that no number contains. What the reader makes of the
characters of a number then does not depend on the text behind them: it gives the same value and
leaves the same characters, or it refuses in both.
-/

namespace ScriptMachine.Json

namespace Reader

variable {α β : Type}

/-! ## Readings and refusals

The byte index only serves the wording of refusals, so it is left open on both sides. -/

/-- From any index, the reader gives a value and moves to a rest. -/
def Gives (x : Reader α) (input : List Char) (a : α) (rest : List Char) : Prop :=
  ∀ n, ∃ k, x ⟨input, n⟩ = .ok (a, ⟨rest, k⟩)

/-- From any index, the reader refuses. -/
def Refuses (x : Reader α) (input : List Char) : Prop :=
  ∀ n, ∃ e, x ⟨input, n⟩ = .error e

theorem bind_run (x : Reader α) (f : α → Reader β) (p : Place) :
    (x >>= f) p = (match x p with
      | .ok (a, q) => f a q
      | .error e => .error e) := by
  change (x p >>= fun q => f q.1 q.2) = _
  cases x p <;> rfl

theorem Gives.bind {x : Reader α} {f : α → Reader β} {input mid rest : List Char} {a : α} {b : β}
    (hx : Gives x input a mid) (hf : Gives (f a) mid b rest) : Gives (x >>= f) input b rest := by
  intro n
  obtain ⟨k, hk⟩ := hx n
  obtain ⟨l, hl⟩ := hf k
  exact ⟨l, by rw [bind_run, hk]; exact hl⟩

theorem Gives.bind_refuses {x : Reader α} {f : α → Reader β} {input mid : List Char} {a : α}
    (hx : Gives x input a mid) (hf : Refuses (f a) mid) : Refuses (x >>= f) input := by
  intro n
  obtain ⟨k, hk⟩ := hx n
  obtain ⟨e, he⟩ := hf k
  exact ⟨e, by rw [bind_run, hk]; exact he⟩

theorem Refuses.bind {x : Reader α} {input : List Char} (hx : Refuses x input)
    (f : α → Reader β) : Refuses (x >>= f) input := by
  intro n
  obtain ⟨e, he⟩ := hx n
  exact ⟨e, by rw [bind_run, he]⟩

theorem gives_pure (a : α) (input : List Char) : Gives (pure a : Reader α) input a input :=
  fun n => ⟨n, rfl⟩

theorem gives_peek (input : List Char) : Gives peek input input.head? input :=
  fun n => ⟨n, rfl⟩

theorem gives_bump (c : Char) (rest : List Char) : Gives bump (c :: rest) () rest :=
  fun n => ⟨n + c.utf8Size, rfl⟩

theorem refuses_failHere (cause : ReadCause) (input : List Char) :
    Refuses (failHere cause : Reader α) input :=
  fun _ => ⟨_, rfl⟩

theorem refuses_failNext (cause : ReadCause) (input : List Char) :
    Refuses (failNext cause : Reader α) input :=
  fun _ => ⟨_, rfl⟩

/-! ## The end of a number -/

/-- The characters of numbers. -/
def isNumberChar (c : Char) : Bool :=
  c.isDigit || c == '.' || c == 'e' || c == 'E' || c == '+' || c == '-'

/-- The text does not go on with a character of numbers. -/
def Closed (rest : List Char) : Prop :=
  ∀ c, rest.head? = some c → isNumberChar c = false

theorem closed_nil : Closed [] := by
  intro c h
  cases h

theorem closed_cons {c : Char} (h : isNumberChar c = false) (rest : List Char) :
    Closed (c :: rest) := by
  intro d hd
  cases hd
  exact h

/-- What a reader does on some characters does not depend on the closed text behind them. -/
def Settles (x : Reader α) (cs : List Char) : Prop :=
  (∃ a cs', cs' <:+ cs ∧ ∀ rest, Closed rest → Gives x (cs ++ rest) a (cs' ++ rest)) ∨
    ∀ rest, Closed rest → Refuses x (cs ++ rest)

theorem Settles.bind {x : Reader α} {f : α → Reader β} {cs : List Char} (hx : Settles x cs)
    (hf : ∀ a cs', cs' <:+ cs → Settles (f a) cs') : Settles (x >>= f) cs := by
  rcases hx with ⟨a, mid, hmid, hx⟩ | hx
  · rcases hf a mid hmid with ⟨b, cs', hcs', hfa⟩ | hfa
    · exact .inl ⟨b, cs', hcs'.trans hmid, fun rest h => (hx rest h).bind (hfa rest h)⟩
    · exact .inr fun rest h => (hx rest h).bind_refuses (hfa rest h)
  · exact .inr fun rest h => (hx rest h).bind f

theorem settles_pure (a : α) (cs : List Char) : Settles (pure a : Reader α) cs :=
  .inl ⟨a, cs, List.suffix_refl cs, fun rest _ => gives_pure a (cs ++ rest)⟩

theorem settles_failHere (cause : ReadCause) (cs : List Char) :
    Settles (failHere cause : Reader α) cs :=
  .inr fun rest _ => refuses_failHere cause (cs ++ rest)

theorem settles_failNext (cause : ReadCause) (cs : List Char) :
    Settles (failNext cause : Reader α) cs :=
  .inr fun rest _ => refuses_failNext cause (cs ++ rest)

theorem settles_bump (c : Char) (cs : List Char) : Settles bump (c :: cs) :=
  .inl ⟨(), cs, List.suffix_cons c cs, fun rest _ => gives_bump c (cs ++ rest)⟩

/-- Looking at a character of the number. -/
theorem settles_peek_cons {f : Option Char → Reader α} {c : Char} {cs : List Char}
    (h : Settles (f (some c)) (c :: cs)) : Settles (peek >>= f) (c :: cs) := by
  rcases h with ⟨a, cs', hcs', hf⟩ | hf
  · exact .inl ⟨a, cs', hcs', fun rest h => (gives_peek (c :: cs ++ rest)).bind (hf rest h)⟩
  · exact .inr fun rest h => (gives_peek (c :: cs ++ rest)).bind_refuses (hf rest h)

/-- Looking behind the number, when nothing but a character of numbers makes a difference. -/
theorem settles_peek_nil {f : Option Char → Reader α} {y : Reader α} (hy : Settles y [])
    (h : ∀ o : Option Char, (∀ c, o = some c → isNumberChar c = false) → f o = y) :
    Settles (peek >>= f) [] := by
  have hpeek : ∀ rest, Closed rest → f rest.head? = y := fun rest hrest => h rest.head? hrest
  rcases hy with ⟨a, cs', hcs', hy⟩ | hy
  · exact .inl ⟨a, cs', hcs', fun rest hrest =>
      (gives_peek ([] ++ rest)).bind (hpeek rest hrest ▸ hy rest hrest)⟩
  · exact .inr fun rest hrest =>
      (gives_peek ([] ++ rest)).bind_refuses (hpeek rest hrest ▸ hy rest hrest)

/-- Looking behind the number, when that is refused. -/
theorem settles_peek_nil_of_refuses {f : Option Char → Reader α}
    (h : ∀ o : Option Char, (∀ c, o = some c → isNumberChar c = false) →
      ∀ input, Refuses (f o) input) : Settles (peek >>= f) [] :=
  .inr fun rest hrest => (gives_peek ([] ++ rest)).bind_refuses (h rest.head? hrest _)

/-! ## Digits -/

theorem isDigit_eq_false_of_isNumberChar {c : Char} (h : isNumberChar c = false) :
    c.isDigit = false := by
  simp only [isNumberChar, Bool.or_eq_false_iff] at h
  exact h.1.1.1.1.1

theorem takeWhile_isDigit_append (cs : List Char) {rest : List Char} (h : Closed rest) :
    (cs ++ rest).takeWhile Char.isDigit = cs.takeWhile Char.isDigit := by
  induction cs with
  | nil =>
    cases rest with
    | nil => rfl
    | cons c rest =>
      have hc := isDigit_eq_false_of_isNumberChar (h c rfl)
      simp [hc]
  | cons c cs ih =>
    rw [List.cons_append, List.takeWhile_cons, List.takeWhile_cons, ih]

theorem length_takeWhile_le (cs : List Char) (p : Char → Bool) :
    (cs.takeWhile p).length ≤ cs.length :=
  (List.takeWhile_prefix p).length_le

theorem settles_takeDigits (cs : List Char) : Settles takeDigits cs := by
  refine .inl ⟨cs.takeWhile Char.isDigit, cs.drop (cs.takeWhile Char.isDigit).length,
    List.drop_suffix _ _, fun rest hrest n => ?_⟩
  have hrun := takeWhile_isDigit_append cs hrest
  have hdrop : (cs ++ rest).drop (cs.takeWhile Char.isDigit).length =
      cs.drop (cs.takeWhile Char.isDigit).length ++ rest :=
    List.drop_append_of_le_length (length_takeWhile_le cs Char.isDigit)
  refine ⟨n + (cs.takeWhile Char.isDigit).length, ?_⟩
  change Except.ok _ = _
  simp only [hrun, hdrop]

/-! ## The parts of a number -/

theorem settles_ofParts (demand : Demand) (negative : Bool) (significand : Nat) (exponent : Int)
    (cs : List Char) : Settles (ofParts demand negative significand exponent) cs := by
  unfold ofParts
  split
  · exact settles_pure _ cs
  · split
    · exact settles_failHere _ cs
    · exact settles_pure _ cs

theorem exponentDigits_used_le (acc : Nat) (run : List Char) (used : Nat) :
    (exponentDigits acc run used).2 ≤ used + run.length := by
  induction run generalizing acc used with
  | nil => simp [exponentDigits]
  | cons c rest ih =>
    rw [exponentDigits]
    split
    · simp only [List.length_cons]
      omega
    · have := ih (acc * 10 + (Number.digitValue? 10 c).getD 0) (used + 1)
      simp only [List.length_cons]
      omega

/-- A reader that moves behind some characters and goes on as another one. -/
theorem settles_of_drop {x y : Reader α} {cs : List Char} (k : Nat) (hy : Settles y (cs.drop k))
    (h : ∀ rest n, Closed rest → ∃ n', x ⟨cs ++ rest, n⟩ = y ⟨cs.drop k ++ rest, n'⟩) :
    Settles x cs := by
  rcases hy with ⟨a, cs', hcs', hy⟩ | hy
  · refine .inl ⟨a, cs', hcs'.trans (List.drop_suffix k cs), fun rest hrest n => ?_⟩
    obtain ⟨n', hn'⟩ := h rest n hrest
    rw [hn']
    exact hy rest hrest n'
  · refine .inr fun rest hrest n => ?_
    obtain ⟨n', hn'⟩ := h rest n hrest
    rw [hn']
    exact hy rest hrest n'

theorem get_run (p : Place) : (get : Reader Place) p = .ok (p, p) := rfl

theorem set_run (p q : Place) : (set p : Reader Unit) q = .ok ((), p) := rfl

/-- The digits behind the sign, whichever it is. -/
theorem settles_exponentDigitsPart (demand : Demand) (negative : Bool) (significand : Nat)
    (start : Int) (expNegative : Bool) (cs : List Char) :
    Settles (exponentDigitsPart demand negative significand start expNegative) cs := by
  unfold exponentDigitsPart
  cases cs with
  | nil =>
    refine settles_peek_nil_of_refuses fun o ho input => ?_
    cases o with
    | none => exact refuses_failHere _ input
    | some d =>
      have hd := isDigit_eq_false_of_isNumberChar (ho d rfl)
      simp only [hd, Bool.not_false, if_true]
      exact (refuses_failNext _ input).bind _
  | cons d cs =>
    refine settles_peek_cons ?_
    dsimp only
    split
    · exact .inr fun rest _ => (refuses_failNext _ _).bind _
    have hused : (exponentDigits 0 ((d :: cs).takeWhile Char.isDigit) 0).2 ≤
        (d :: cs).length := by
      have := exponentDigits_used_le 0 ((d :: cs).takeWhile Char.isDigit) 0
      have := length_takeWhile_le (d :: cs) Char.isDigit
      omega
    generalize d :: cs = cs at hused
    cases hdigits : exponentDigits 0 (cs.takeWhile Char.isDigit) 0 with
    | mk value used =>
      rw [hdigits] at hused
      cases value with
      | some e =>
        refine settles_of_drop used (settles_ofParts demand negative significand
          (max (-2147483648) (min 2147483647
            (if expNegative then start - e else start + e))) _) fun rest n hrest => ?_
        refine ⟨n + used, ?_⟩
        rw [← List.drop_append_of_le_length hused]
        simp only [bind_run, get_run, takeWhile_isDigit_append _ hrest, hdigits, set_run]
      | none =>
        refine settles_of_drop (y := do
          if (significand ≠ 0 && !expNegative) && demand.isStrict then
            failHere .numberOutOfRange
          let _ ← takeDigits
          return .float (Number.withSign negative
            (if significand ≠ 0 && !expNegative then Number.infinity else 0)))
          used ?_ fun rest n hrest => ?_
        · dsimp only
          split
          · exact .inr fun rest _ => (refuses_failHere _ _).bind _
          · exact (settles_takeDigits _).bind fun _ cs' _ => settles_pure _ cs'
        · refine ⟨n + used, ?_⟩
          rw [← List.drop_append_of_le_length hused]
          simp only [bind_run, get_run, takeWhile_isDigit_append _ hrest, hdigits, set_run]

theorem settles_exponentPart (demand : Demand) (negative : Bool) (significand : Nat) (start : Int)
    (c : Char) (cs : List Char) :
    Settles (exponentPart demand negative significand start) (c :: cs) := by
  have digits := settles_exponentDigitsPart demand negative significand start
  unfold exponentPart
  refine (settles_bump c cs).bind fun _ cs' _ => ?_
  cases cs' with
  | nil =>
    refine settles_peek_nil (digits false []) fun o ho => ?_
    split
    · exact absurd (ho '+' rfl) (by decide)
    · exact absurd (ho '-' rfl) (by decide)
    · rfl
  | cons d cs' =>
    refine settles_peek_cons ?_
    split
    · exact (settles_bump d cs').bind fun _ cs'' _ => digits false cs''
    · exact (settles_bump d cs').bind fun _ cs'' _ => digits true cs''
    · exact digits false (d :: cs')

theorem settles_fractionPart (demand : Demand) (negative : Bool) (significand : Nat) (start : Int)
    (c : Char) (cs : List Char) :
    Settles (fractionPart demand negative significand start) (c :: cs) := by
  unfold fractionPart
  refine (settles_bump c cs).bind fun _ cs' _ => (settles_takeDigits cs').bind fun run cs'' _ => ?_
  dsimp only
  split
  · cases cs'' with
    | nil =>
      refine settles_peek_nil_of_refuses fun o _ input => ?_
      split
      · exact (refuses_failNext _ input).bind _
      · exact (refuses_failNext _ input).bind _
    | cons d cs'' =>
      refine settles_peek_cons (.inr fun rest _ => ?_)
      exact (refuses_failNext _ _).bind _
  · generalize (gather significand 0 run).1 = digits, start - ↑(gather significand 0 run).2.1 = power
    cases cs'' with
    | nil =>
      refine settles_peek_nil (settles_ofParts demand negative digits power []) fun o ho => ?_
      split
      · exact absurd (ho 'e' rfl) (by decide)
      · exact absurd (ho 'E' rfl) (by decide)
      · rfl
    | cons d cs'' =>
      refine settles_peek_cons ?_
      split
      · exact settles_exponentPart demand negative _ _ d cs''
      · exact settles_exponentPart demand negative _ _ d cs''
      · exact settles_ofParts demand negative _ _ (d :: cs'')

/-- What a number is, once its leading digits have been taken. -/
theorem settles_behind_digits (demand : Demand) (negative : Bool) (significand dropped : Nat)
    (cs : List Char) : Settles (do
      match ← peek with
      | some '.' => fractionPart demand negative significand dropped
      | some 'e' => exponentPart demand negative significand dropped
      | some 'E' => exponentPart demand negative significand dropped
      | _ =>
        if dropped ≠ 0 then ofParts demand negative significand dropped
        else if !negative then return .int significand
        else if significand = 0 || significand > Nat.pow 2 63 then
          return .float (-Number.ofNat significand)
        else return .int (-significand)) cs := by
  have whole : ∀ cs, Settles (
      if dropped ≠ 0 then ofParts demand negative significand dropped
      else if !negative then return .int significand
      else if significand = 0 || significand > Nat.pow 2 63 then
        return .float (-Number.ofNat significand)
      else return .int (-significand) : Reader Json) cs := by
    intro cs
    split
    · exact settles_ofParts demand negative significand dropped cs
    split
    · exact settles_pure _ cs
    split
    · exact settles_pure _ cs
    · exact settles_pure _ cs
  cases cs with
  | nil =>
    refine settles_peek_nil (whole []) fun o ho => ?_
    split
    · exact absurd (ho '.' rfl) (by decide)
    · exact absurd (ho 'e' rfl) (by decide)
    · exact absurd (ho 'E' rfl) (by decide)
    · rfl
  | cons d cs =>
    refine settles_peek_cons ?_
    split
    · exact settles_fractionPart demand negative significand dropped d cs
    · exact settles_exponentPart demand negative significand dropped d cs
    · exact settles_exponentPart demand negative significand dropped d cs
    · exact whole (d :: cs)

theorem settles_number (demand : Demand) (negative : Bool) (cs : List Char) :
    Settles (number demand negative) cs := by
  unfold number
  cases cs with
  | nil =>
    refine settles_peek_nil_of_refuses fun o ho input => ?_
    cases o with
    | none => exact refuses_failHere _ input
    | some d =>
      have hd := isDigit_eq_false_of_isNumberChar (ho d rfl)
      simp only [hd, Bool.not_false, if_true]
      exact (refuses_failNext _ input).bind _
  | cons d cs =>
    refine settles_peek_cons ?_
    dsimp only
    split
    · exact .inr fun rest _ => (refuses_failNext _ _).bind _
    have first : Settles (if d == '0' then do bump; return ['0'] else takeDigits :
        Reader (List Char)) (d :: cs) := by
      split
      · exact (settles_bump d cs).bind fun _ cs' _ => settles_pure _ cs'
      · exact settles_takeDigits (d :: cs)
    refine first.bind fun run cs' _ => ?_
    have behind := settles_behind_digits demand negative (gather 0 0 run).1
      (gather 0 0 run).2.2
    split
    · cases cs' with
      | nil =>
        refine settles_peek_nil (behind []) fun o ho => ?_
        have ho : (o.map Char.isDigit).getD false = false := by
          cases o with
          | none => rfl
          | some c => exact isDigit_eq_false_of_isNumberChar (ho c rfl)
        rw [ho]
        rfl
      | cons c cs' =>
        refine settles_peek_cons ?_
        split
        · exact .inr fun rest _ => (refuses_failNext _ _).bind _
        · exact behind (c :: cs')
    · exact behind cs'

end Reader

end ScriptMachine.Json
