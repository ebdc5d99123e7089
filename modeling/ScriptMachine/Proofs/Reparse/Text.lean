import ScriptMachine.Proofs.Reparse.Agreement
import ScriptMachine.Proofs.Reparse.Mirror
import ScriptMachine.Proofs.Reparse.Wrapping
import ScriptMachine.Proofs.Tree.Scope

/-!
# Excerpts of a text

A stretch of a text that ends with a closing brace has the tokens that it has where it comes from,
also in parentheses.

A list of tokens is scanned from one cursor to another. If the stretch of text between them ends with
a closing brace, the same tokens are scanned where the stretch stands in another text, and each is
moved as far as the stretch.
-/

namespace ScriptMachine

namespace Source

open Cursor ScriptMachine.Text

/-- Some tokens are scanned from one cursor to another. -/
inductive Lexed : Cursor → List Token → Cursor → Prop
  | nil (c : Cursor) : Lexed c [] c
  | cons {c here d : Cursor} {newline : Bool} {first : Char} {rest : List Char} {kind : TokenKind}
    {n : Nat} {ts : List Token} (htrivia : skipTrivia c false = .ok (here, newline))
    (hrest : here.rest = first :: rest) (hscan : scanToken first rest = .ok (kind, n))
    (htail : Lexed (here.skip (n + 1)) ts d) :
    Lexed c (⟨kind, ⟨here.offset, (here.skip (n + 1)).offset, here.line, here.column⟩, newline⟩ :: ts) d

/-- From a cursor on there is nothing but the end of the text. -/
def Ends (c : Cursor) (t : Token) : Prop :=
  ∃ here newline, skipTrivia c false = .ok (here, newline) ∧ here.rest = [] ∧
    t = ⟨.eof, ⟨here.offset, here.offset, here.line, here.column⟩, newline⟩

namespace Lexed

variable {c d e : Cursor} {ts us acc : List Token}

theorem trans (h : Lexed c ts d) (h' : Lexed d us e) : Lexed c (ts ++ us) e := by
  induction h with
  | nil => exact h'
  | cons htrivia hrest hscan _ ih => exact .cons htrivia hrest hscan (ih h')

/-- What is scanned in two parts is scanned up to a cursor in between. -/
theorem split (h : Lexed c (ts ++ us) e) : ∃ d, Lexed c ts d ∧ Lexed d us e := by
  induction ts generalizing c with
  | nil => exact ⟨c, .nil c, h⟩
  | cons t ts ih =>
    cases h with
    | cons htrivia hrest hscan htail =>
      obtain ⟨d, hfront, hback⟩ := ih htail
      exact ⟨d, .cons htrivia hrest hscan hfront, hback⟩

theorem length_le (h : Lexed c ts d) : d.rest.length ≤ c.rest.length := by
  induction h with
  | nil => exact Nat.le_refl _
  | cons htrivia hrest hscan _ ih =>
    have hskipped := length_rest_skipTrivia htrivia
    rw [rest_skip, List.length_drop] at ih
    omega

end Lexed

/-- The tokens of a text are scanned up to where only its end is left. -/
theorem tokensFrom_eq_ok {acc ts : List Token} {c : Cursor} :
    tokensFrom acc c = .ok ts ↔
      ∃ us d t, Lexed c us d ∧ Ends d t ∧ ts = acc.reverse ++ us ++ [t] := by
  constructor
  · intro h
    fun_induction tokensFrom acc c with
    | case1 | case3 => cases h
    | case2 acc c here newline htrivia hrest =>
      cases h
      exact ⟨[], c, _, .nil c, ⟨here, newline, htrivia, hrest, rfl⟩, by simp⟩
    | case4 acc c here newline htrivia first rest hrest kind n hscan next ih =>
      obtain ⟨us, d, t, hlexed, hends, rfl⟩ := ih h
      exact ⟨_, d, t, .cons htrivia hrest hscan hlexed, hends, by simp [next]⟩
  · rintro ⟨us, d, t, hlexed, ⟨here, newline, htrivia, hrest, rfl⟩, rfl⟩
    induction hlexed generalizing acc with
    | nil c =>
      rw [tokensFrom]
      split
      · rename_i hother
        cases htrivia.symm.trans hother
      · rename_i here' newline' hother
        cases htrivia.symm.trans hother
        split
        · simp
        · rename_i hother
          cases hrest.symm.trans hother
    | cons htrivia' hrest' hscan _ ih =>
      rw [tokensFrom]
      split
      · rename_i hother
        cases htrivia'.symm.trans hother
      · rename_i here' newline' hother
        cases htrivia'.symm.trans hother
        split
        · rename_i hother
          cases hrest'.symm.trans hother
        · rename_i first' rest' hother
          cases hrest'.symm.trans hother
          rw [hscan]
          dsimp only
          rw [ih htrivia]
          simp

/-! ## Moved cursors -/

/-- A cursor stands as far behind an opening parenthesis as another one behind the start of some
text. -/
structure Shifted (origin : Onset) (c c' : Cursor) : Prop where
  start_le : origin.start ≤ c.offset
  lineEnd : c.offset ≤ origin.lineEnd → lineEnd origin.start c.offset c.rest = origin.lineEnd
  offset : c'.offset = c.offset + 1 - origin.start
  line : c'.line = c.line + 1 - origin.line
  column : c'.column = if c.offset ≤ origin.lineEnd then c.column + 2 - origin.column else c.column

/-- Two cursors stand in front of texts that agree up to a brace, or right behind that brace. -/
inductive Keeps (behind behind' : List Char) (c c' : Cursor) : Prop
  | within {k : Nat} (h : Agree behind behind' k c.rest c'.rest)
  | beyond (h : c.rest = behind) (h' : c'.rest = behind')

variable {origin : Onset} {behind behind' : List Char} {c c' d : Cursor} {k n : Nat}

/-- Both texts start with the same character. -/
theorem Agree.exists_cons (h : Agree behind behind' k c.rest c'.rest) {ch : Char} {rest : List Char}
    (hrest : c.rest = ch :: rest) : ∃ rest', c'.rest = ch :: rest' := by
  have hhead := h.head?
  rw [hrest] at hhead
  exact List.head?_eq_some_iff.1 hhead.symm

theorem le_lineEnd (start offset : Nat) (cs : List Char) : offset ≤ lineEnd start offset cs := by
  fun_induction lineEnd start offset cs with
  | case1 | case2 => exact Nat.le_refl _
  | case3 offset c rest _ ih => exact Nat.le_trans (Nat.le_add_right _ _) ih

theorem lineEnd_append {start offset : Nat} {before : List Char}
    (h : offset + width before ≤ start) (cs : List Char) :
    lineEnd start offset (before ++ cs) = lineEnd start (offset + width before) cs := by
  induction before generalizing offset with
  | nil => rfl
  | cons c before ih =>
    rw [width_cons] at h ⊢
    have hpos := c.utf8Size_pos
    rw [List.cons_append, lineEnd, if_neg (fun hstart => by omega), ih (by omega), Nat.add_assoc]

/-- Both cursors move over a character that ends the line on both sides or on neither. -/
theorem Shifted.bump_cons (h : Shifted origin c c') {ch : Char} {rest rest' : List Char}
    (hrest : c.rest = ch :: rest) (hrest' : c'.rest = ch :: rest')
    (hends : endsLine ch rest' = endsLine ch rest) : Shifted origin c.bump c'.bump := by
  have hend := h.lineEnd
  have hbehind := le_lineEnd origin.start (c.offset + ch.utf8Size) rest
  have hpos := ch.utf8Size_pos
  rw [hrest, Source.lineEnd] at hend
  have hstart := h.start_le
  rw [bump_of_cons hrest, bump_of_cons hrest', hends]
  cases hnewline : endsLine ch rest with
  | true =>
    rw [if_pos ⟨hstart, hnewline⟩] at hend
    have hpast : ¬ c.offset + ch.utf8Size ≤ origin.lineEnd := by omega
    constructor
    case start_le => exact Nat.le_trans hstart (Nat.le_add_right _ _)
    case lineEnd => exact fun hle => absurd hle hpast
    case offset => simp only [if_true, h.offset]; omega
    case line => simp only [if_true, h.line]; grind
    case column => simp [hpast]
  | false =>
    rw [if_neg (by simp [hnewline])] at hend
    constructor
    case start_le => exact Nat.le_trans hstart (Nat.le_add_right _ _)
    case lineEnd => exact fun hle => hend (Nat.le_trans (Nat.le_add_right _ _) hle)
    case offset => simp only [Bool.false_eq_true, if_false, h.offset]; omega
    case line => exact h.line
    case column =>
      simp only [Bool.false_eq_true, if_false, h.column]
      by_cases hle : c.offset ≤ origin.lineEnd
      · rw [if_pos hle, if_pos (by have := hend hle; omega)]
        grind
      · rw [if_neg hle, if_neg (by omega)]

theorem Shifted.bump (h : Shifted origin c c') (hagree : Agree behind behind' k c.rest c'.rest) :
    Shifted origin c.bump c'.bump := by
  cases hrest : c.rest with
  | nil =>
    rw [hrest] at hagree
    cases hagree
  | cons ch rest =>
    obtain ⟨rest', hrest'⟩ := hagree.exists_cons hrest
    refine h.bump_cons hrest hrest' ?_
    rw [hrest, hrest'] at hagree
    cases hagree with
    | brace => rfl
    | cons _ hagree => rw [endsLine, endsLine, hagree.head?]

theorem Shifted.skip (h : Shifted origin c c') (hagree : Agree behind behind' k c.rest c'.rest)
    (hn : n ≤ k + 1) : Shifted origin (c.skip n) (c'.skip n) := by
  induction n generalizing c c' k with
  | zero => exact h
  | succ n ih =>
    have hbump := h.bump hagree
    cases k with
    | zero =>
      obtain rfl : n = 0 := by omega
      exact hbump
    | succ k =>
      apply ih hbump (k := k)
      · rw [rest_bump, rest_bump]
        exact hagree.drop (Nat.succ_pos k)
      · omega

/-- Behind some characters in front of the brace, or behind the brace, two texts still agree. -/
theorem Agree.skip (h : Agree behind behind' k c.rest c'.rest) (hn : n ≤ k + 1) :
    Keeps behind behind' (c.skip n) (c'.skip n) := by
  rcases Nat.lt_or_eq_of_le hn with hlt | rfl
  · apply Keeps.within
    rw [rest_skip, rest_skip]
    exact h.drop (Nat.le_of_lt_succ hlt)
  · obtain ⟨hleft, hright⟩ := h.drop_all
    apply Keeps.beyond
    · rw [rest_skip, hleft]
    · rw [rest_skip, hright]

/-- In front of another character than the brace both texts have that character. -/
theorem Agree.of_ne (h : Agree behind behind' k c.rest c'.rest) {ch : Char}
    (hhead : c.rest.head? = some ch) (hne : ch ≠ '\x7d') :
    ∃ j rest, k = j + 1 ∧ Agree behind behind' j (c.skip 1).rest (c'.skip 1).rest ∧
      c'.rest = ch :: rest := by
  rw [rest_skip, rest_skip]
  revert h hhead
  generalize c.rest = cs
  generalize c'.rest = cs'
  intro h hhead
  cases h with
  | brace => exact absurd (Option.some.inj hhead).symm hne
  | @cons ch' j cs cs' h =>
    cases hhead
    exact ⟨j, cs', rfl, h, rfl⟩

theorem skipTrivia_eq {ch : Char} {rest : List Char} {newline : Bool}
    (hrest : c.rest = ch :: rest) :
    Source.skipTrivia c newline =
      if isLineTerminator ch then Source.skipTrivia (c.skip 1) true
      else if isBlank ch then Source.skipTrivia (c.skip 1) newline
      else
        match comment? (ch :: rest) with
        | .error cause => .error ⟨cause, c.line, c.column⟩
        | .ok none => .ok (c, newline)
        | .ok (some (n, ended)) => Source.skipTrivia (c.skip (n + 1)) (newline || ended) := by
  rw [Source.skipTrivia]
  split
  · rename_i hnil
    cases hrest.symm.trans hnil
  · rename_i heq
    cases hrest.symm.trans heq
    rfl

/-- Blanks and comments in front of a token in front of the brace, or the brace, are the same in both
texts. -/
theorem Agree.skipTrivia (h : Agree behind behind' k c.rest c'.rest) (hshifted : Shifted origin c c')
    {newline flag : Bool} (htrivia : Source.skipTrivia c newline = .ok (d, flag))
    (hlength : behind.length < d.rest.length) :
    ∃ d' j, Source.skipTrivia c' newline = .ok (d', flag) ∧ Shifted origin d d' ∧
      Agree behind behind' j d.rest d'.rest := by
  fun_induction Source.skipTrivia c newline generalizing c' k with
  | case1 c newline hrest =>
    rw [hrest] at h
    cases h
  | case2 c newline ch rest hrest hline ih =>
    obtain ⟨j, rest', rfl, h', hother⟩ := h.of_ne (hrest ▸ List.head?_cons) (by
      rintro rfl
      exact absurd hline (by decide))
    rw [skipTrivia_eq hother, if_pos hline]
    exact ih h' (hshifted.skip h (by omega)) htrivia
  | case3 c newline ch rest hrest hline hblank ih =>
    obtain ⟨j, rest', rfl, h', hother⟩ := h.of_ne (hrest ▸ List.head?_cons) (by
      rintro rfl
      exact absurd hblank (by decide))
    rw [skipTrivia_eq hother, if_neg hline, if_pos hblank]
    exact ih h' (hshifted.skip h (by omega)) htrivia
  | case4 => cases htrivia
  | case5 c newline ch rest hrest hline hblank hcomment =>
    cases htrivia
    obtain ⟨rest', hrest'⟩ := h.exists_cons hrest
    have hnone := h.comment?_none (hrest ▸ hcomment)
    rw [hrest'] at hnone
    refine ⟨c', k, ?_, hshifted, h⟩
    rw [skipTrivia_eq hrest', if_neg hline, if_neg hblank, hnone]
  | case6 c newline ch rest hrest hline hblank n ended hcomment ih =>
    have hskipped := length_rest_skipTrivia htrivia
    have hcount := h.length
    rw [rest_skip, List.length_drop] at hskipped
    have hn : n + 1 ≤ k := by omega
    obtain ⟨rest', hrest'⟩ := h.exists_cons hrest
    have hsome := h.comment? (hrest ▸ hcomment) hn
    rw [hrest'] at hsome
    have hbehind : Agree behind behind' (k - (n + 1)) (c.skip (n + 1)).rest
        (c'.skip (n + 1)).rest := by
      rw [rest_skip, rest_skip]
      exact h.drop hn
    rw [skipTrivia_eq hrest', if_neg hline, if_neg hblank, hsome]
    exact ih hbehind (hshifted.skip h (by omega)) htrivia

/-- A character that stands in no spelling of a punctuator but its own. -/
structure Single (ch : Char) (p : Punctuator) : Prop where
  quote : (ch == '"' || ch == '\'') = false
  digit : ch.isDigit = false
  point : (ch == '.') = false
  word : isIdStart ch = false
  spelling : Punctuator.scan? [ch] = some (p, 1)
  alone : ∀ entry ∈ Punctuator.table, entry.2.1.toList.head? ≠ some ch ∨ entry.2.1.toList = [ch]

theorem single_lParen : Single '(' .lParen := by
  constructor <;> decide +kernel

theorem single_rParen : Single ')' .rParen := by
  constructor <;> decide +kernel

theorem single_rBrace : Single '\x7d' .rBrace := by
  constructor <;> decide +kernel

/-- Such a character is a token of its own. -/
theorem Single.scanToken {ch : Char} {p : Punctuator} (h : Single ch p) (rest : List Char) :
    scanToken ch rest = .ok (.punct p, 0) := by
  have hscan : Punctuator.scan? (ch :: rest) = some (p, 1) := by
    rw [← h.spelling]
    unfold Punctuator.scan?
    apply congrArg
    apply Agree.find?_congr
    intro entry hentry
    change entry.2.1.toList.isPrefixOf (ch :: rest) = entry.2.1.toList.isPrefixOf [ch]
    rcases h.alone entry hentry with hhead | halone
    · cases htext : entry.2.1.toList with
      | nil => rfl
      | cons other text =>
        have hother : (other == ch) = false := by
          apply beq_eq_false_iff_ne.2
          rintro rfl
          exact hhead (by rw [htext]; rfl)
        rw [List.isPrefixOf_cons_cons, List.isPrefixOf_cons_cons, hother, Bool.false_and,
          Bool.false_and]
    · rw [halone]
      simp
  unfold Source.scanToken
  rw [h.quote, h.digit, h.point, Bool.false_and, Bool.false_or, h.word, hscan]
  rfl

/-- The tokens of a stretch of text that ends with a closing brace are the same, but moved, where the
stretch stands in another text. -/
theorem Lexed.moved {ts : List Token} (h : Lexed c ts d) (hkeeps : Keeps behind behind' c c')
    (hshifted : Shifted origin c c') (hlength : behind.length ≤ d.rest.length) :
    ∃ d', Lexed c' (ts.map (Token.moved origin)) d' ∧ Keeps behind behind' d d' ∧
      Shifted origin d d' := by
  induction h generalizing c' with
  | nil c => exact ⟨c', .nil c', hkeeps, hshifted⟩
  | @cons c here d newline first rest kind n ts htrivia hrest hscan htail ih =>
    have hnext := htail.length_le
    have hskipped := length_rest_skipTrivia htrivia
    rw [rest_skip, hrest, List.drop_succ_cons] at hnext
    have hpast : behind.length < here.rest.length := by
      rw [hrest, List.length_cons]
      rw [List.length_drop] at hnext
      omega
    cases hkeeps with
    | beyond hover _ => exact absurd (hover ▸ hskipped) (Nat.not_le.2 hpast)
    | within hagree =>
      obtain ⟨here', j, htrivia', hshifted', hhere⟩ := hagree.skipTrivia hshifted htrivia hpast
      obtain ⟨rest', hrest'⟩ := hhere.exists_cons hrest
      have hsame : scanToken first rest' = .ok (kind, n) ∧ n ≤ j := by
        have hhere' := hhere
        rw [hrest, hrest'] at hhere'
        by_cases hbrace : first = '\x7d'
        · subst hbrace
          rw [single_rBrace.scanToken] at hscan ⊢
          cases hscan
          exact ⟨rfl, Nat.zero_le j⟩
        · cases hhere' with
          | brace => exact absurd rfl hbrace
          | cons _ hbehind => exact hbehind.scanToken hbrace hscan (Nat.le_trans hlength hnext)
      obtain ⟨hscan', hn⟩ := hsame
      have hn : n + 1 ≤ j + 1 := Nat.succ_le_succ hn
      have hshifted'' := hshifted'.skip hhere hn
      obtain ⟨d', hlexed, hkeeps', hend⟩ := ih (hhere.skip hn) hshifted'' hlength
      refine ⟨d', ?_, hkeeps', hend⟩
      have hcons := Lexed.cons htrivia' hrest' hscan' hlexed
      have hspan : (⟨here'.offset, (here'.skip (n + 1)).offset, here'.line, here'.column⟩ : Span) =
          Span.moved ⟨here.offset, (here.skip (n + 1)).offset, here.line, here.column⟩
            origin := by
        rw [Span.moved, hshifted'.offset, hshifted''.offset, hshifted'.line, hshifted'.column]
      rw [hspan] at hcons
      exact hcons

/-!
## An excerpt in parentheses

The text from the start of a token up to the end of a closing brace, put in parentheses, has the
tokens it has where it comes from, between those of the parentheses.
-/

variable {c d here : Cursor} {ts : List Token} {source : String}

/-! ## Slices -/

theorem takeTo_append (front behind : List Char) (offset : Nat) :
    sliceFrom.takeTo (offset + width front) offset (front ++ behind) = some front := by
  induction front generalizing offset with
  | nil => cases behind <;> simp [sliceFrom.takeTo]
  | cons ch front ih =>
    have hpos := ch.utf8Size_pos
    have hne : offset ≠ offset + width (ch :: front) := by
      rw [width_cons]
      omega
    have hlt : offset < offset + width (ch :: front) := by
      rw [width_cons]
      omega
    have hsum : offset + width (ch :: front) = offset + ch.utf8Size + width front := by
      rw [width_cons]
      omega
    rw [List.cons_append, sliceFrom.takeTo, if_neg hne, if_pos hlt, hsum, ih]
    rfl

theorem sliceFrom_append (before front behind : List Char) (skipped : Nat) :
    sliceFrom (skipped + width before) (skipped + width before + width front) skipped
      (before ++ (front ++ behind)) = some front := by
  induction before generalizing skipped with
  | nil =>
    rw [width_nil, Nat.add_zero, List.nil_append]
    have htake := takeTo_append front behind skipped
    cases hall : front ++ behind with
    | nil =>
      obtain ⟨rfl, -⟩ := List.append_eq_nil_iff.1 hall
      simp [sliceFrom]
    | cons ch rest =>
      rw [sliceFrom, if_neg (Nat.lt_irrefl _), if_pos rfl, ← hall, htake]
  | cons ch before ih =>
    have hpos := ch.utf8Size_pos
    have hlt : skipped < skipped + width (ch :: before) := by
      rw [width_cons]
      omega
    have hsum : skipped + width (ch :: before) = skipped + ch.utf8Size + width before := by
      rw [width_cons]
      omega
    rw [List.cons_append, sliceFrom, if_pos hlt, hsum, ih]

/-- The text between two cursors is what stands between them. -/
theorem slice_of_at {front : List Char} (hc : c.At source) (hd : d.At source)
    (hrest : c.rest = front ++ d.rest) : slice source c.offset d.offset = String.ofList front := by
  obtain ⟨before, htext, hwidth⟩ := hc
  obtain ⟨before', htext', hwidth'⟩ := hd
  rw [hrest] at htext
  have hbefore : before' = before ++ front := by
    rw [← List.append_assoc] at htext
    exact List.append_cancel_right (htext'.symm.trans htext)
  rw [hbefore, width_append, hwidth] at hwidth'
  have hslice := sliceFrom_append before front d.rest 0
  rw [Nat.zero_add, hwidth, hwidth'] at hslice
  rw [slice, htext, hslice]
  rfl

/-! ## What is scanned -/

/-- In front of a token nothing is skipped. -/
theorem skipTrivia_again {newline flag : Bool} (h : skipTrivia c newline = .ok (here, flag))
    (other : Bool) : skipTrivia here other = .ok (here, other) := by
  fun_induction skipTrivia c newline with
  | case1 c newline hrest =>
    cases h
    rw [skipTrivia]
    split
    · rfl
    · rename_i heq
      cases hrest.symm.trans heq
  | case2 c newline ch rest hrest hline ih => exact ih h
  | case3 c newline ch rest hrest hline hblank ih => exact ih h
  | case4 => cases h
  | case5 c newline ch rest hrest hline hblank hcomment =>
    cases h
    rw [skipTrivia_eq hrest, if_neg hline, if_neg hblank, hcomment]
  | case6 c newline ch rest hrest hline hblank n ended hcomment ih => exact ih h

theorem Lexed.at_source (h : Lexed c ts d) (hc : c.At source) : d.At source := by
  induction h with
  | nil => exact hc
  | cons htrivia _ _ _ ih => exact ih ((at_of_skipTrivia htrivia hc).1.skip _)

theorem suffix_of_skipTrivia {newline flag : Bool} (h : skipTrivia c newline = .ok (here, flag)) :
    here.rest <:+ c.rest := by
  fun_induction skipTrivia c newline with
  | case1 | case5 =>
    cases h
    exact List.suffix_refl _
  | case2 c newline ch rest hrest hline ih | case3 c newline ch rest hrest hline hblank ih =>
    have hrest' := ih h
    rw [rest_skip] at hrest'
    exact hrest'.trans (List.drop_suffix _ _)
  | case4 => cases h
  | case6 c newline ch rest hrest hline hblank n ended hcomment ih =>
    have hrest' := ih h
    rw [rest_skip] at hrest'
    exact hrest'.trans (List.drop_suffix _ _)

theorem Lexed.suffix (h : Lexed c ts d) : d.rest <:+ c.rest := by
  induction h with
  | nil => exact List.suffix_refl _
  | cons htrivia _ _ _ ih =>
    rw [rest_skip] at ih
    exact (ih.trans (List.drop_suffix _ _)).trans (suffix_of_skipTrivia htrivia)

theorem rBrace_spelling : ∀ entry ∈ Punctuator.table, entry.1 = .rBrace →
    entry.2.1.toList = ['\x7d'] := by
  decide

/-- The token of a closing brace is that character. -/
theorem first_of_rBrace {first : Char} {rest : List Char} {n : Nat}
    (h : scanToken first rest = .ok (.punct .rBrace, n)) : first = '\x7d' ∧ n = 0 := by
  have hmap {α : Type} {r : Except SyntaxCause (α × Nat)} {f : α × Nat → TokenKind × Nat}
      (hf : ∀ a, (f a).1 ≠ .punct .rBrace) (hr : r.map f = .ok (.punct .rBrace, n)) : False := by
    cases r with
    | error cause => cases hr
    | ok a => exact hf a (congrArg Prod.fst (Except.ok.inj hr))
  unfold scanToken at h
  split at h
  · exact (hmap (fun _ h => by cases h) h).elim
  split at h
  · exact (hmap (fun _ h => by cases h) h).elim
  split at h
  · have hword := congrArg Prod.fst (Except.ok.inj h)
    dsimp only at hword
    unfold wordKind at hword
    split at hword
    · cases hword
    · split at hword <;> cases hword
  · split at h
    · rename_i p m hscan
      cases h
      obtain ⟨⟨q, text, label⟩, hfind, heq⟩ := Option.map_eq_some_iff.1 hscan
      cases heq
      have htext := rBrace_spelling _ (List.mem_of_find?_eq_some hfind) rfl
      have hinitial := List.find?_some hfind
      dsimp only at htext hinitial
      rw [htext, List.isPrefixOf_cons_cons, Bool.and_eq_true] at hinitial
      have hlength : text.length = 1 := by
        rw [← String.length_toList, htext]
        rfl
      exact ⟨(beq_iff_eq.1 hinitial.1).symm, by rw [hlength]⟩
    · cases h

/-- A list of tokens that ends with a closing brace ends where that character does. -/
theorem Lexed.brace {brace : Token} (h : Lexed c (ts ++ [brace]) d)
    (hbrace : brace.kind = .punct .rBrace) :
    brace.span.stop = d.offset ∧ ∃ front, c.rest = front ++ '\x7d' :: d.rest := by
  obtain ⟨e, hfront, hback⟩ := h.split
  cases hback with
  | @cons _ here _ newline first rest kind n _ htrivia hrest hscan htail =>
    cases htail
    obtain rfl : kind = .punct .rBrace := hbrace
    obtain ⟨rfl, rfl⟩ := first_of_rBrace hscan
    refine ⟨rfl, ?_⟩
    obtain ⟨skipped, hskipped⟩ := (suffix_of_skipTrivia htrivia).trans hfront.suffix
    refine ⟨skipped, ?_⟩
    rw [← hskipped, hrest, rest_skip, hrest]
    rfl

theorem agree_append (front behind behind' : List Char) :
    Agree behind behind' front.length (front ++ '\x7d' :: behind) (front ++ '\x7d' :: behind') := by
  induction front with
  | nil => exact .brace
  | cons ch front ih => exact .cons ch ih

/-- A character that is a token of its own is scanned as that. -/
theorem lexed_single {ch : Char} {p : Punctuator} {rest : List Char} (h : Single ch p)
    (hblank : skipTrivia c false = .ok (c, false)) (hrest : c.rest = ch :: rest) :
    ∃ token, token.kind = .punct p ∧ Lexed c [token] (c.skip 1) :=
  ⟨_, rfl, .cons hblank hrest (h.scanToken rest) (.nil _)⟩

/-- Some tokens of a text that end with a closing brace are scanned from where the first one starts. -/
theorem lexed_of_tokens {before behind : List Token} {first brace : Token}
    (h : tokens source = .ok (before ++ (first :: ts ++ brace :: behind))) (hbehind : behind ≠ []) :
    ∃ here d, here.At source ∧ d.At source ∧ here.offset = first.span.start ∧
      here.line = first.span.line ∧ here.column = first.span.column ∧
      Lexed here ({ first with newlineBefore := false } :: ts ++ [brace]) d := by
  obtain ⟨scanned, e, last, hscanned, -, hall⟩ := tokensFrom_eq_ok.1 h
  obtain ⟨inner, last', rfl⟩ : ∃ inner last', behind = inner ++ [last'] :=
    ⟨_, _, (List.dropLast_concat_getLast hbehind).symm⟩
  have hparts : before ++ ((first :: ts ++ [brace]) ++ inner) = scanned := by
    have hsplit : before ++ (first :: ts ++ brace :: (inner ++ [last'])) =
        (before ++ ((first :: ts ++ [brace]) ++ inner)) ++ [last'] := by simp
    exact (List.append_inj' (hsplit.symm.trans hall) rfl).1
  rw [← hparts] at hscanned
  obtain ⟨c, hbefore, hrest⟩ := hscanned.split
  obtain ⟨d, hexcerpt, -⟩ := hrest.split
  have hc := hbefore.at_source (at_ofText source)
  have hd := hexcerpt.at_source hc
  cases hexcerpt with
  | @cons _ here _ newline ch rest kind n _ htrivia hhere hscan htail =>
    refine ⟨here, d, (at_of_skipTrivia htrivia hc).1, hd, rfl, rfl, rfl, ?_⟩
    exact .cons (skipTrivia_again htrivia false) hhere hscan htail

/-- An excerpt that ends with a closing brace has its tokens in parentheses too. -/
theorem tokens_excerpt {before behind : List Token} {first brace : Token}
    (h : tokens source = .ok (before ++ (first :: ts ++ brace :: behind)))
    (hbrace : brace.kind = .punct .rBrace) (hbehind : behind ≠ []) :
    ∃ left right ended, left.kind = .punct .lParen ∧ right.kind = .punct .rParen ∧
      ended.kind = .eof ∧
      tokens ("(" ++ slice source first.span.start brace.span.stop ++ ")") =
        .ok (left :: (({ first with newlineBefore := false } :: ts).map
          (Token.moved (first.span.onset source)) ++
            brace.moved (first.span.onset source) :: [right, ended])) := by
  obtain ⟨here, d, hhere, hd, hoffset, hline, hcolumn, hlexed⟩ := lexed_of_tokens h hbehind
  obtain ⟨hstop, front, hfront⟩ := hlexed.brace hbrace
  have hslice : slice source first.span.start brace.span.stop = String.ofList (front ++ ['\x7d']) := by
    rw [← hoffset, hstop]
    exact slice_of_at hhere hd (by rw [hfront, List.append_assoc]; rfl)
  have htext : ("(" ++ slice source first.span.start brace.span.stop ++ ")").toList =
      '(' :: (front ++ '\x7d' :: [')']) := by
    rw [hslice]
    simp
  generalize "(" ++ slice source first.span.start brace.span.stop ++ ")" = text at htext
  -- The opening parenthesis, then the excerpt one column further, then the closing parenthesis.
  let start := Cursor.ofText text
  have hstart : start.rest = '(' :: (front ++ '\x7d' :: [')']) := htext
  obtain ⟨left, hleft, hopen⟩ := lexed_single single_lParen (c := start) (by
    rw [skipTrivia_eq hstart]
    rfl) hstart
  have hbump : start.skip 1 = ⟨front ++ '\x7d' :: [')'], 1, 1, 2⟩ := by
    change Cursor.bump start = _
    rw [Cursor.bump, hstart]
    rfl
  have hkeeps : Keeps d.rest [')'] here (start.skip 1) := by
    refine .within (k := front.length) ?_
    rw [hfront, hbump]
    exact agree_append front d.rest [')']
  have hlineEnd : lineEnd first.span.start here.offset here.rest =
      (first.span.onset source).lineEnd := by
    obtain ⟨before, htext, hwidth⟩ := hhere
    have hwidth' : 0 + width before = here.offset := by rw [hwidth, Nat.zero_add]
    rw [Span.onset, htext, lineEnd_append (Nat.le_of_eq (hwidth'.trans hoffset)), hwidth']
  have hshifted : Shifted (first.span.onset source) here (start.skip 1) := by
    rw [hbump]
    constructor
    case start_le => exact Nat.le_of_eq hoffset.symm
    case lineEnd => exact fun _ => hlineEnd
    case offset =>
      rw [hoffset]
      exact (Nat.add_sub_cancel_left _ _).symm
    case line =>
      rw [hline]
      change 1 = first.span.line + 1 - first.span.line
      grind
    case column =>
      rw [if_pos (hlineEnd ▸ le_lineEnd _ _ _), hcolumn]
      change 2 = first.span.column + 2 - first.span.column
      grind
  obtain ⟨e, hmoved, hkeeps', -⟩ := hlexed.moved hkeeps hshifted (Nat.le_refl _)
  have hbehind : e.rest = [')'] := by
    cases hkeeps' with
    | beyond _ h' => exact h'
    | within h' =>
      have := h'.length
      omega
  obtain ⟨right, hright, hclose⟩ := lexed_single single_rParen (c := e) (by
    rw [skipTrivia_eq hbehind]
    rfl) hbehind
  have hnil : (e.skip 1).rest = [] := by
    rw [rest_skip, hbehind]
    rfl
  refine ⟨left, right, ⟨.eof, ⟨(e.skip 1).offset, (e.skip 1).offset, (e.skip 1).line,
    (e.skip 1).column⟩, false⟩, hleft, hright, rfl, ?_⟩
  apply tokensFrom_eq_ok.2
  refine ⟨_, e.skip 1, _, (hopen.trans hmoved).trans hclose, ⟨e.skip 1, false, ?_, hnil, rfl⟩, ?_⟩
  · rw [skipTrivia]
    split
    · rfl
    · rename_i hcons
      cases hnil.symm.trans hcons
  · simp

end Source

/-!
## The text of a function

The text of a function, put in parentheses, is accepted and is that function: one statement, an
expression, with the same name and parameters, the same hoisted names and the same tree below it.
Only the indices of nodes are smaller, by as many nodes as there were before the function, and the
stretches of text start elsewhere.
-/

namespace Tree

open ScriptMachine.Source ScriptMachine.Tree.Parser

variable {source : String} {nodes : Array Node} {lo hi left right : Nat} {id : NodeId}

namespace Program

/-- A node stands in the tree below another one, functions in it included, or is that node. -/
inductive Below (p : Program) (top : NodeId) : NodeId → Prop
  | refl : Below p top top
  | branch {id child : NodeId} {n : Node} (h : Below p top id) (hn : p.nodes[id]? = some n)
    (hchild : child ∈ n.kind.branches) : Below p top child

/-- A program is one statement, an expression that is the function of a node of another program. What
is below the function there is below it here, as many places nearer to the front. -/
structure Isolates (q p : Program) (n : Node) (function : FunctionNode) (base : NodeId) : Prop where
  root : ∃ statement expression, q.kind? q.root = some (.program [statement] {}) ∧
    q.kind? statement = some (.expressionStatement expression) ∧
    q.kind? expression = some (.functionExpression (function.moved base))
  below : ∀ id, p.Below function.body id → base ≤ id ∧
    ∃ m, p.nodes[id]? = some m ∧ n.span.start ≤ m.span.start ∧ m.span.stop ≤ n.span.stop ∧
      q.nodes[id - base]? = some (m.moved (n.span.onset p.source) base)

/-- What is below a node stands in its stretch of the text. -/
theorem WellFormed.within_below {p : Program} (hp : p.WellFormed) {top id : NodeId} {n m : Node}
    (h : p.Below top id) (hn : p.nodes[top]? = some n) (hm : p.nodes[id]? = some m) :
    n.span.start ≤ m.span.start ∧ m.span.stop ≤ n.span.stop := by
  induction h generalizing m with
  | refl =>
    obtain rfl := Option.some.inj (hn.symm.trans hm)
    exact ⟨Nat.le_refl _, Nat.le_refl _⟩
  | branch _ hparent hchild ih =>
    obtain ⟨hstart, hstop⟩ := ih hparent
    obtain ⟨hstart', hstop'⟩ := hp.within _ _ hparent _ hchild m hm
    exact ⟨Nat.le_trans hstart hstart', Nat.le_trans hstop' hstop⟩

theorem Below.trans {p : Program} {top mid id : NodeId} (h : p.Below top mid)
    (h' : p.Below mid id) : p.Below top id := by
  induction h' with
  | refl => exact h
  | branch _ hn hchild ih => exact .branch ih hn hchild

/-- A text that is one function expression hoists nothing. -/
theorem hoisted_of_expression {q : Program} (h : parse source = .ok q) {hoisted : Hoisted}
    {statement expression : NodeId} {function : FunctionNode}
    (hroot : q.kind? q.root = some (.program [statement] hoisted))
    (hstatement : q.kind? statement = some (.expressionStatement expression))
    (hexpression : q.kind? expression = some (.functionExpression function)) : hoisted = {} := by
  obtain ⟨-, hhoisted, -⟩ := recorded_of_parse h
  obtain ⟨r, hr, hrkind⟩ := kind?_eq_some hroot
  obtain ⟨s, hs, hskind⟩ := kind?_eq_some hstatement
  obtain ⟨e, he, hekind⟩ := kind?_eq_some hexpression
  have hstored := (wellFormed_of_parse h).stored
  have hbelow {id : NodeId} {n : Node} (hn : q.nodes[id]? = some n) :
      ∀ child ∈ n.kind.children, child < id := fun child hchild =>
    hstored id n hn child (List.mem_append_left _ (List.mem_append_left _ hchild))
  rw [hhoisted q.root hoisted (.program hroot), Hoisted.reading_node hr (hbelow hr), hrkind]
  change ({} : Hoisted).reading q.nodes [statement] = {}
  rw [Hoisted.reading_node hs (hbelow hs), hskind]
  change ({} : Hoisted).reading q.nodes [expression] = {}
  rw [Hoisted.reading_node he (hbelow he), hekind]
  rfl

end Program

/-- What is below a root of some trees is among them. -/
theorem Forest.bounds_below {p : Program} {root : NodeId}
    (h : Forest source p.nodes lo left [root] hi right) (hid : p.Below root id) :
    lo ≤ id ∧ id < hi := by
  induction hid with
  | refl => exact h.mem_bounds List.mem_cons_self
  | branch _ hn hchild ih =>
    obtain ⟨m, first, hm, -, -, hfirst, hforest⟩ := h.node ih.1 ih.2
    obtain rfl := Option.some.inj (hm.symm.trans hn)
    obtain ⟨hle, hlt⟩ := hforest.mem_bounds hchild
    exact ⟨Nat.le_trans hfirst hle, Nat.lt_trans hlt ih.2⟩

/-- The tokens in front of the parameters do the same elsewhere. -/
theorem Parser.Head.moved {name : Option String} {first : Token} {rest : List Token}
    (h : Head name (first :: rest)) (origin : Onset) :
    Head name (({ first with newlineBefore := false } :: rest).map (Token.moved origin)) := by
  cases h with
  | anonymous hkeyword => exact .anonymous hkeyword
  | named hkeyword hword hname => exact .named hkeyword hword hname

/-- Three nodes on top of others. -/
theorem getElem?_push_three (nodes : Array Node) (a b c : Node) :
    (((nodes.push a).push b).push c)[nodes.size]? = some a ∧
      (((nodes.push a).push b).push c)[nodes.size + 1]? = some b ∧
      (((nodes.push a).push b).push c)[nodes.size + 2]? = some c ∧
      Grown nodes (((nodes.push a).push b).push c) := by
  have hfirst : (nodes.push a)[nodes.size]? = some a := Array.getElem?_push_size
  have hsecond : ((nodes.push a).push b)[nodes.size + 1]? = some b := by
    rw [← Array.size_push a]
    exact Array.getElem?_push_size
  have hthird : (((nodes.push a).push b).push c)[nodes.size + 2]? = some c := by
    have hsize : ((nodes.push a).push b).size = nodes.size + 2 := by
      rw [Array.size_push, Array.size_push]
    rw [← hsize]
    exact Array.getElem?_push_size
  exact ⟨((Grown.push _ b).trans (.push _ c)) _ _ hfirst, Grown.push _ c _ _ hsecond, hthird,
    (Grown.push _ a).trans ((Grown.push _ b).trans (.push _ c))⟩

/-- A text whose tokens are a function in parentheses is accepted. -/
theorem parse_of_function {left paren right ended : Token} {head rest : List Token}
    {name : Option String} {function : FunctionNode} {P : Array Node → Prop}
    (htokens : tokens source = .ok (left :: (head ++ paren :: rest)))
    (hleft : left.kind = .punct .lParen) (hhead : Head name head)
    (hparen : paren.kind = .punct .lParen) (hright : right.kind = .punct .rParen)
    (hended : ended.kind = .eof)
    (h : ∀ (s : State) (deep : Nat), 8 * (rest.length + 1) ≤ deep → s.rest = paren :: rest →
      s.nodes = #[] → ∃ t, functionRest (parseGoal (deep + 1)) name s = .ok (function, t) ∧
        t.rest = [right, ended] ∧ P t.nodes) :
    ∃ (q : Program) (nodes : Array Node), parse source = .ok q ∧ P nodes ∧ Grown nodes q.nodes ∧
      ∃ statement expression, q.kind? q.root = some (.program [statement] {}) ∧
        q.kind? statement = some (.expressionStatement expression) ∧
        q.kind? expression = some (.functionExpression function) := by
  let all := left :: (head ++ paren :: rest)
  have hlength : rest.length + 1 ≤ all.length := by
    simp only [all, List.length_cons, List.length_append]
    omega
  obtain ⟨nodes, hoisted, inner, outer, whole, u, hnodes, hroot, hu⟩ :=
    programRoot_of_function (s := { source, rest := all }) rfl hleft hhead hparen hright hended
      fun s hrest hempty => h s (8 * all.length + 4) (by omega) hrest hempty
  obtain ⟨hexpression, hstatement, hprogram, hgrown⟩ := getElem?_push_three nodes
    ⟨.functionExpression function, inner⟩ ⟨.expressionStatement nodes.size, outer⟩
    ⟨.program [nodes.size + 1] hoisted, whole⟩
  rw [← hu] at hexpression hstatement hprogram hgrown
  let q : Program := ⟨source, u.nodes, nodes.size + 2⟩
  have hparse : parse source = .ok q := by
    unfold parse
    rw [htokens]
    simp only [bind, Except.bind, StateT.run, all] at hroot ⊢
    rw [hroot]
    rfl
  have hprogram := Program.kind?_of_node (p := q) hprogram
  have hstatement := Program.kind?_of_node (p := q) hstatement
  have hexpression := Program.kind?_of_node (p := q) hexpression
  obtain rfl := Program.hoisted_of_expression hparse hprogram hstatement hexpression
  exact ⟨q, nodes, hparse, hnodes, hgrown, nodes.size + 1, nodes.size, hprogram, hstatement,
    hexpression⟩

/-- The text of a function is the function, in parentheses too. -/
theorem isolates_of_parse {p : Program} (h : parse source = .ok p) {n : Node}
    {function : FunctionNode} (hn : p.nodes[id]? = some n)
    (hfunction : n.kind.function? = some function) :
    ∃ q base, parse ("(" ++ p.text id ++ ")") = .ok q ∧ q.Isolates p n function base := by
  obtain ⟨ts, head, before, after, htokens, horigin⟩ := origin_of_parse h hn hfunction
  obtain ⟨depth, hrun⟩ := horigin.run
  obtain ⟨paren, rest, brace, hparen, hbrace, hrest, hbehind, hpast, helsewhere⟩ :=
    functionRest_elsewhere horigin.ready hrun
  have hlaid := (ensures_functionRest (gives_parseGoal depth) (.refl horigin.ready) function.name
    function after hrun).laid
  obtain ⟨first, front, rfl⟩ : ∃ first front, head = first :: front := by
    have hleads := horigin.leads
    generalize function.name = name at hleads
    cases hleads with
    | anonymous _ => exact ⟨_, _, rfl⟩
    | named _ _ _ => exact ⟨_, _, rfl⟩
  have hspan : ({ first.span with stop := brace.span.stop } : Span) = n.span := by
    rw [← hpast]
    exact Option.some.inj horigin.span
  obtain ⟨skipped, hskipped⟩ := horigin.behind
  have hsource : p.source = source := by
    obtain ⟨_, _, _, _, -, -, hp⟩ := read_of_parse h
    rw [hp]
  have htext : p.text id = slice source first.span.start brace.span.stop := by
    rw [Program.text, hn, hsource]
    dsimp only
    rw [← hspan]
  have hall : tokens source =
      .ok (skipped ++ (first :: (front ++ paren :: rest) ++ brace :: after.rest)) := by
    rw [htokens, ← hskipped, hrest]
    simp
  obtain ⟨left, right, ended, hleft, hright, hended, htokens'⟩ := tokens_excerpt hall hbrace hbehind
  let origin := n.span.onset p.source
  have horiginal : first.span.onset source = origin := by
    change first.span.onset source = n.span.onset p.source
    rw [← hspan, hsource]
    rfl
  rw [horiginal, ← htext] at htokens'
  let base := before.nodes.size
  let P (nodes : Array Node) : Prop :=
    ∀ i, nodes[i]? = (after.nodes[base + i]?).map (Node.moved origin base)
  have hparts : left :: (({ first with newlineBefore := false } :: (front ++ paren :: rest)).map
      (Token.moved origin) ++ brace.moved origin :: [right, ended]) =
      left :: (({ first with newlineBefore := false } :: front).map (Token.moved origin) ++
        paren.moved origin :: (rest.map (Token.moved origin) ++
          brace.moved origin :: [right, ended])) := by
    simp
  rw [hparts] at htokens'
  obtain ⟨q, nodes, hparse, hnodes, hgrown, hroot⟩ := parse_of_function (P := P) htokens' hleft
    (horigin.leads.moved origin) hparen hright hended fun s deep hdeep hrest hempty => by
      have hbound : 8 * (rest.length + 1) ≤ deep := by
        rw [List.length_append, List.length_map] at hdeep
        omega
      obtain ⟨t, hrun, ht, hechoes⟩ :=
        helsewhere origin s [right, ended] deep (List.cons_ne_nil _ _) hbound hempty hrest
      exact ⟨t, hrun, ht, hechoes.nodes⟩
  refine ⟨q, base, hparse, ?_⟩
  have hwf := wellFormed_of_parse h
  constructor
  · exact hroot
  · intro x hx
    obtain ⟨hle, hlt⟩ := (hlaid.forest.mono_nodes horigin.grown).bounds_below hx
    have hm : after.nodes[x]? = some after.nodes[x] := Array.getElem?_eq_getElem hlt
    have hmoved : nodes[x - base]? = some (after.nodes[x].moved origin base) := by
      rw [hnodes, Nat.add_sub_cancel' hle, hm]
      rfl
    have hbody : p.Below id function.body :=
      .branch .refl hn (List.mem_append_right _ (by simp [hfunction]))
    have hat := horigin.grown _ _ hm
    obtain ⟨hstart, hstop⟩ := hwf.within_below (hbody.trans hx) hn hat
    exact ⟨hle, after.nodes[x], hat, hstart, hstop, hgrown _ _ hmoved⟩

theorem isolates_of_parse_nested :
    ∃ p n q base, parse "var a; x = [function f(b)\n \x7b var c = \"s\"; function g() \x7b return b \x7d return g \x7d];" =
        .ok p ∧
      p.nodes[13]? = some n ∧ n.kind.function? = some ⟨some "f", ["b"], 12, ⟨["c"], [9]⟩⟩ ∧
      parse ("(" ++ p.text 13 ++ ")") = .ok q ∧
      q.Isolates p n ⟨some "f", ["b"], 12, ⟨["c"], [9]⟩⟩ base := by
  have hkind : (parse "var a; x = [function f(b)\n \x7b var c = \"s\"; function g() \x7b return b \x7d return g \x7d];").toOption.bind
        (fun p => p.kind? 13) =
      some (.functionExpression ⟨some "f", ["b"], 12, ⟨["c"], [9]⟩⟩) := by
    decide +kernel
  cases h : parse "var a; x = [function f(b)\n \x7b var c = \"s\"; function g() \x7b return b \x7d return g \x7d];" with
  | error e =>
    rw [h] at hkind
    cases hkind
  | ok p =>
    rw [h] at hkind
    obtain ⟨n, hn, hfunction⟩ := Program.kind?_eq_some hkind
    have hfunction := congrArg NodeKind.function? hfunction
    obtain ⟨q, base, hparse, hisolates⟩ := isolates_of_parse h hn hfunction
    exact ⟨p, n, q, base, rfl, hn, hfunction, hparse, hisolates⟩

end Tree

end ScriptMachine
