import Mathlib.Data.List.TakeWhile
import ScriptMachine.Proofs.Tree.Tokens

/-!
# Tokens tile the text

What stands between two tokens is read from a grammar of its own: blanks, line ends and whole
comments. Tokens and what stands between them make up the text, and the line and the column of a
token are counted in the text before it, in 32 bits.
-/

namespace ScriptMachine.Source

open Cursor ScriptMachine.Text

/-! ## Lines and columns -/

/-- How many line breaks characters have. A carriage return and a line feed behind it are one. -/
def lineBreaks : List Char → Nat
  | [] => 0
  | '\r' :: '\n' :: rest => lineBreaks rest + 1
  | c :: rest => if isLineTerminator c then lineBreaks rest + 1 else lineBreaks rest

/-- How many characters stand behind the last line break. -/
def sinceBreak (cs : List Char) : Nat := (cs.reverse.takeWhile fun c => !isLineTerminator c).length

/-- A carriage return and its line feed are on different sides. -/
def Splits (before rest : List Char) : Prop :=
  before.getLast? = some '\r' ∧ rest.head? = some '\n'

theorem lineBreaks_cons (c : Char) (rest : List Char) :
    lineBreaks (c :: rest) = (if endsLine c rest then 1 else 0) + lineBreaks rest := by
  by_cases hpair : c = '\r' ∧ rest.head? = some '\n'
  · obtain ⟨rfl, hhead⟩ := hpair
    obtain ⟨rest, rfl⟩ := List.head?_eq_some_iff.1 hhead
    have hfeed : lineBreaks ('\n' :: rest) = lineBreaks rest + 1 := rfl
    have hends : endsLine '\r' ('\n' :: rest) = false := rfl
    rw [lineBreaks, hends, hfeed]
    simp
  · have hends : endsLine c rest = isLineTerminator c := by
      have hnot : (c == '\r' && rest.head? == some '\n') = false := by
        rw [← Bool.not_eq_true, Bool.and_eq_true, beq_iff_eq, beq_iff_eq]
        exact hpair
      rw [endsLine, hnot, Bool.not_false, Bool.and_true]
    rw [lineBreaks, hends]
    · split <;> omega
    · rintro tail rfl rfl
      exact hpair ⟨rfl, rfl⟩

theorem lineBreaks_append {before rest : List Char} (h : ¬ Splits before rest) :
    lineBreaks (before ++ rest) = lineBreaks before + lineBreaks rest := by
  induction before with
  | nil => simp [lineBreaks]
  | cons c before ih =>
    have hbehind : ¬ Splits before rest := by
      rintro ⟨hlast, hhead⟩
      refine h ⟨?_, hhead⟩
      rw [List.getLast?_cons, hlast]
      rfl
    have hends : endsLine c (before ++ rest) = endsLine c before := by
      cases before with
      | nil =>
        have hnot : ¬ (c = '\r' ∧ rest.head? = some '\n') := by
          rintro ⟨rfl, hhead⟩
          exact h ⟨rfl, hhead⟩
        have hfalse : (c == '\r' && rest.head? == some '\n') = false := by
          rw [← Bool.not_eq_true, Bool.and_eq_true, beq_iff_eq, beq_iff_eq]
          exact hnot
        simp [endsLine, hfalse]
      | cons d before => rfl
    rw [List.cons_append, lineBreaks_cons, lineBreaks_cons, hends, ih hbehind, Nat.add_assoc]

theorem sinceBreak_concat (before : List Char) (c : Char) :
    sinceBreak (before ++ [c]) = if isLineTerminator c then 0 else sinceBreak before + 1 := by
  unfold sinceBreak
  rw [List.reverse_append, List.reverse_singleton, List.singleton_append, List.takeWhile_cons]
  cases isLineTerminator c <;> simp

/-- A cursor stands behind some text. Between a carriage return and its line feed no line is ended
yet, and there the column means nothing. -/
structure Cursor.Behind (c : Cursor) (before : List Char) : Prop where
  offset : c.offset = width before
  line : (c.line.val + lineBreaks c.rest) % 4294967296 = (1 + lineBreaks (before ++ c.rest)) % 4294967296
  column : ¬ Splits before c.rest → c.column.val = (1 + sinceBreak before) % 4294967296

namespace Cursor.Behind

variable {c : Cursor} {before : List Char}

theorem ofText (source : String) : (Cursor.ofText source).Behind [] :=
  ⟨rfl, rfl, fun _ => rfl⟩

theorem line_eq (h : c.Behind before) (hwhole : ¬ Splits before c.rest) :
    c.line.val = (1 + lineBreaks before) % 4294967296 := by
  have hline := h.line
  have hlt := c.line.isLt
  rw [lineBreaks_append hwhole] at hline
  omega

theorem bump {ch : Char} {rest : List Char} (h : c.Behind before) (hrest : c.rest = ch :: rest) :
    c.bump.Behind (before ++ [ch]) := by
  have hline := h.line
  have hbumped : c.bump.rest = rest := by rw [rest_bump, hrest, List.drop_one, List.tail_cons]
  have htext : before ++ [ch] ++ rest = before ++ ch :: rest := by simp
  rw [hrest, lineBreaks_cons] at hline
  have heq := bump_of_cons hrest
  constructor
  case offset => rw [offset_bump hrest, h.offset, width_append, width_cons, width_nil, Nat.add_zero]
  case line =>
    rw [hbumped, htext, ← hline, heq]
    split
    · rw [Count.val_succ]
      omega
    · simp
  case column =>
    intro hwhole
    rw [sinceBreak_concat, heq]
    cases hterminator : isLineTerminator ch with
    | true =>
      have hends : endsLine ch rest = true := by
        rw [endsLine, hterminator, Bool.true_and, Bool.not_eq_true', ← Bool.not_eq_true,
          Bool.and_eq_true, beq_iff_eq, beq_iff_eq]
        rintro ⟨rfl, hhead⟩
        exact hwhole ⟨by simp, hbumped ▸ hhead⟩
      rw [if_pos hends]
      rfl
    | false =>
      have hends : endsLine ch rest = false := by rw [endsLine, hterminator, Bool.false_and]
      have hsame : ¬ Splits before c.rest := by
        rintro ⟨-, hhead⟩
        rw [hrest] at hhead
        cases hhead
        cases hterminator
      simp only [hends, Bool.false_eq_true, if_false]
      rw [Count.val_succ, h.column hsame]
      omega

theorem skip (h : c.Behind before) (n : Nat) : (skip n c).Behind (before ++ c.rest.take n) := by
  induction n generalizing c before with
  | zero => simpa [Cursor.skip] using h
  | succ n ih =>
    cases hrest : c.rest with
    | nil =>
      have hmoved := ih h
      rw [hrest, List.take_nil] at hmoved
      rw [List.take_nil]
      rwa [Cursor.skip, bump_of_nil hrest]
    | cons ch rest =>
      have hmoved := ih (h.bump hrest)
      rw [rest_bump, hrest, List.drop_one, List.tail_cons, List.append_assoc,
        List.singleton_append] at hmoved
      exact hmoved

end Cursor.Behind

/-! ## Between tokens -/

/-- What may stand in front of a token or of the end of the text: blanks, line ends and whole
comments. A comment that begins with two slashes goes up to the end of its line, and one that begins
with a slash and a star up to the first star and slash. -/
inductive Trivia (after : List Char) : List Char → Prop
  | nil : Trivia after []
  | blank {c : Char} {rest : List Char} (hc : isBlank c = true) (hrest : Trivia after rest) :
    Trivia after (c :: rest)
  | lineEnd {c : Char} {rest : List Char} (hc : isLineTerminator c = true)
    (hrest : Trivia after rest) : Trivia after (c :: rest)
  | lineComment {text rest : List Char} (htext : ∀ c ∈ text, isLineTerminator c = false)
    (hwhole : ∀ c ∈ (rest ++ after).head?, isLineTerminator c = true)
    (hrest : Trivia after rest) : Trivia after ('/' :: '/' :: text ++ rest)
  | blockComment {text rest : List Char} (htext : ¬ ['*', '/'] <:+: text)
    (hrest : Trivia after rest) : Trivia after ('/' :: '*' :: text ++ '*' :: '/' :: rest)

/-- A block comment is closed where it is first possible. -/
theorem commentLength_eq_some {body : List Char} {n : Nat} (h : commentLength body = some n) :
    ∃ text rest, body = text ++ '*' :: '/' :: rest ∧ n = text.length + 2 ∧
      ¬ ['*', '/'] <:+: text := by
  fun_induction commentLength body generalizing n with
  | case1 => cases h
  | case2 rest =>
    cases h
    exact ⟨[], rest, rfl, rfl, by simp⟩
  | case3 c rest hopen ih =>
    obtain ⟨k, hk, rfl⟩ := Option.map_eq_some_iff.1 h
    obtain ⟨text, behind, rfl, rfl, htext⟩ := ih hk
    refine ⟨c :: text, behind, rfl, rfl, fun hinfix => ?_⟩
    rcases List.infix_cons_iff.1 hinfix with hinitial | hinner
    · obtain ⟨rfl, hslash⟩ := List.cons_prefix_cons.1 hinitial
      cases text with
      | nil => cases List.prefix_nil.1 hslash
      | cons d text =>
        obtain ⟨rfl, -⟩ := List.cons_prefix_cons.1 hslash
        exact hopen _ rfl rfl
    · exact htext hinner

/-- What is taken for a comment is one in the grammar, and the flag tells whether a line ends in
it. -/
theorem trivia_of_comment {cs : List Char} {n : Nat} {ended : Bool}
    (h : comment? cs = .ok (some (n, ended))) :
    ended = (cs.take (n + 1)).any isLineTerminator ∧ ∀ {gap after : List Char},
      cs.drop (n + 1) = gap ++ after → Trivia after gap →
        Trivia after (cs.take (n + 1) ++ gap) := by
  have hslash : isLineTerminator '/' = false := by decide
  have hstar : isLineTerminator '*' = false := by decide
  unfold comment? at h
  split at h
  case h_1 body =>
    cases h
    have htaken : ('/' :: '/' :: body).take
        (1 + (body.takeWhile fun d => !isLineTerminator d).length + 1) =
          '/' :: '/' :: body.takeWhile fun d => !isLineTerminator d := by
      rw [Nat.add_comm 1, List.take_succ_cons, List.take_succ_cons]
      congr 2
      exact (List.prefix_iff_eq_take.1 (List.takeWhile_prefix _)).symm
    have hplain : ∀ x ∈ body.takeWhile fun d => !isLineTerminator d,
        isLineTerminator x = false := by
      intro x hx
      simpa using List.mem_takeWhile_imp hx
    have hsplit : body.drop (body.takeWhile fun d => !isLineTerminator d).length =
        body.dropWhile fun d => !isLineTerminator d :=
      List.append_cancel_left ((List.prefix_iff_eq_append.1 (List.takeWhile_prefix _)).trans
        List.takeWhile_append_dropWhile.symm)
    rw [htaken]
    constructor
    · have hnone : (body.takeWhile fun d => !isLineTerminator d).any isLineTerminator = false :=
        List.any_eq_false.2 fun x hx => by simp [hplain x hx]
      simp [hnone, hslash]
    · intro gap after hbehind hgap
      refine .lineComment hplain (fun x hx => ?_) hgap
      have hends := List.head?_dropWhile_not (fun d => !isLineTerminator d) body
      rw [← hbehind, Nat.add_comm 1, List.drop_succ_cons, List.drop_succ_cons, hsplit] at hx
      rw [Option.mem_def.1 hx] at hends
      simpa using hends
  case h_2 body =>
    split at h
    · cases h
    · rename_i k hlength
      cases h
      obtain ⟨text, behind, rfl, rfl, htext⟩ := commentLength_eq_some hlength
      have htaken : (text ++ '*' :: '/' :: behind).take (text.length + 2) = text ++ ['*', '/'] := by
        rw [List.take_append, List.take_of_length_le (by omega), Nat.add_sub_cancel_left]
        rfl
      rw [Nat.add_comm 1, List.take_succ_cons, List.take_succ_cons, htaken]
      refine ⟨by simp [hslash, hstar], fun {gap after} _ hgap => ?_⟩
      have hcomment : Trivia after ('/' :: '*' :: text ++ '*' :: '/' :: gap) :=
        .blockComment htext hgap
      simpa using hcomment
  case h_3 => cases h

/-- What is moved over in front of a token is read by the grammar, and the flag tells whether a line
ends there. -/
theorem trivia_of_skipTrivia {c d : Cursor} {newline flag : Bool} {before : List Char}
    (h : skipTrivia c newline = .ok (d, flag)) (hc : c.Behind before) :
    ∃ gap, c.rest = gap ++ d.rest ∧ Trivia d.rest gap ∧ d.Behind (before ++ gap) ∧
      flag = (newline || gap.any isLineTerminator) ∧
      ∀ ch ∈ d.rest.head?, isLineTerminator ch = false := by
  -- What is moved over in one step goes in front of what is moved over behind it.
  have hstep {k : Nat} {c : Cursor} {before piece : List Char} {ended newline : Bool}
      (hpiece : c.rest.take k = piece) (hends : ended = (newline || piece.any isLineTerminator))
      (hbehind : ∃ gap, (c.skip k).rest = gap ++ d.rest ∧ Trivia d.rest gap ∧
        d.Behind (before ++ c.rest.take k ++ gap) ∧ flag = (ended || gap.any isLineTerminator) ∧
        ∀ ch ∈ d.rest.head?, isLineTerminator ch = false)
      (hgrammar : ∀ gap, (c.skip k).rest = gap ++ d.rest → Trivia d.rest gap →
        Trivia d.rest (piece ++ gap)) :
      ∃ gap, c.rest = gap ++ d.rest ∧ Trivia d.rest gap ∧ d.Behind (before ++ gap) ∧
        flag = (newline || gap.any isLineTerminator) ∧
        ∀ ch ∈ d.rest.head?, isLineTerminator ch = false := by
    obtain ⟨gap, hrest, hgap, hplaced, hflag, hhead⟩ := hbehind
    refine ⟨piece ++ gap, ?_, hgrammar gap hrest hgap, ?_, ?_, hhead⟩
    · rw [rest_skip] at hrest
      rw [List.append_assoc, ← hrest, ← hpiece, List.take_append_drop]
    · rwa [← List.append_assoc, ← hpiece]
    · rw [hflag, hends, List.any_append, Bool.or_assoc]
  fun_induction skipTrivia c newline generalizing before with
  | case1 c newline hrest =>
    cases h
    refine ⟨[], by simp, .nil, by simpa using hc, by simp, ?_⟩
    rw [hrest]
    exact fun _ hch => by cases hch
  | case2 c newline ch rest hrest hline ih =>
    have hpiece : c.rest.take 1 = [ch] := by rw [hrest, List.take_succ_cons, List.take_zero]
    apply hstep hpiece _ (ih h (hc.skip 1))
    · exact fun gap _ hgap => .lineEnd hline hgap
    · simp [hline]
  | case3 c newline ch rest hrest hline hblank ih =>
    have hpiece : c.rest.take 1 = [ch] := by rw [hrest, List.take_succ_cons, List.take_zero]
    apply hstep hpiece _ (ih h (hc.skip 1))
    · exact fun gap _ hgap => .blank hblank hgap
    · simp [Bool.not_eq_true _ ▸ hline]
  | case4 => cases h
  | case5 c newline ch rest hrest hline hblank hcomment =>
    cases h
    refine ⟨[], by simp, .nil, by simpa using hc, by simp, ?_⟩
    rw [hrest]
    intro ch' hch'
    obtain rfl := Option.some.inj hch'
    exact Bool.not_eq_true _ ▸ hline
  | case6 c newline ch rest hrest hline hblank n ended hcomment ih =>
    obtain ⟨hends, hgrammar⟩ := trivia_of_comment hcomment
    apply hstep (k := n + 1) rfl _ (ih h (hc.skip (n + 1)))
    · intro gap hbehind hgap
      rw [rest_skip, hrest] at hbehind
      rw [hrest]
      exact hgrammar hbehind hgap
    · rw [hrest, hends]

/-! ## Tokens -/

/-- A token takes up some text behind other text. Its line and its column are counted from one, up to
what 32 bits hold. -/
structure Token.Stands (t : Token) (before lexeme : List Char) : Prop where
  start : t.span.start = width before
  stop : t.span.stop = width (before ++ lexeme)
  line : t.span.line.val = (1 + lineBreaks before) % 4294967296
  column : t.span.column.val = (1 + sinceBreak before) % 4294967296

/-- Behind some text, tokens and what stands between them make up the rest. -/
inductive Tiles : List Char → List Char → List Token → Prop
  | last {before gap : List Char} {t : Token} (hkind : t.kind = .eof) (hgap : Trivia [] gap)
    (hnewline : t.newlineBefore = gap.any isLineTerminator)
    (hstands : t.Stands (before ++ gap) []) : Tiles before gap [t]
  | cons {before gap lexeme after : List Char} {t : Token} {ts : List Token} (hkind : t.kind ≠ .eof)
    (hgap : Trivia (lexeme ++ after) gap) (hnewline : t.newlineBefore = gap.any isLineTerminator)
    (hlexeme : lexeme ≠ []) (hstands : t.Stands (before ++ gap) lexeme)
    (hrest : Tiles (before ++ gap ++ lexeme) after ts) :
    Tiles before (gap ++ lexeme ++ after) (t :: ts)

theorem tiles_of_tokensFrom {acc ts : List Token} {c : Cursor} {before : List Char}
    (h : tokensFrom acc c = .ok ts) (hc : c.Behind before) :
    ∃ scanned, ts = acc.reverse ++ scanned ∧ Tiles before c.rest scanned := by
  fun_induction tokensFrom acc c generalizing before with
  | case1 | case3 => cases h
  | case2 acc c here newline htrivia hrest =>
    cases h
    obtain ⟨gap, htext, hgap, hplaced, hnewline, -⟩ := trivia_of_skipTrivia htrivia hc
    have hwhole : ¬ Splits (before ++ gap) here.rest := fun h => by
      rw [hrest] at h
      cases h.2
    rw [hrest, List.append_nil] at htext
    refine ⟨_, List.reverse_cons, htext ▸ .last rfl (hrest ▸ hgap) hnewline ⟨?_, ?_, ?_, ?_⟩⟩
    · exact hplaced.offset
    · rw [List.append_nil]
      exact hplaced.offset
    · exact hplaced.line_eq hwhole
    · exact hplaced.column hwhole
  | case4 acc c here newline htrivia first rest hrest kind n hscan next =>
    rename_i ih
    obtain ⟨gap, htext, hgap, hplaced, hnewline, hfirst⟩ := trivia_of_skipTrivia htrivia hc
    have hwhole : ¬ Splits (before ++ gap) here.rest := by
      rintro ⟨-, hhead⟩
      cases hfirst _ hhead
    have hnext := hplaced.skip (n + 1)
    obtain ⟨scanned, rfl, htiles⟩ := ih h hnext
    refine ⟨⟨kind, ⟨here.offset, next.offset, here.line, here.column⟩, newline⟩ :: scanned,
      by simp, ?_⟩
    have hlexeme : here.rest.take (n + 1) ++ here.rest.drop (n + 1) = here.rest :=
      List.take_append_drop _ _
    rw [rest_skip] at htiles
    rw [htext, ← hlexeme, ← List.append_assoc]
    rw [← hlexeme] at hgap
    refine .cons (kind_ne_eof_of_scanToken hscan) hgap hnewline ?_ ⟨?_, ?_, ?_, ?_⟩ htiles
    · rw [hrest, List.take_succ_cons]
      exact List.cons_ne_nil _ _
    · exact hplaced.offset
    · exact hnext.offset
    · exact hplaced.line_eq hwhole
    · exact hplaced.column hwhole

theorem width_pos {cs : List Char} (h : cs ≠ []) : 0 < width cs := by
  cases cs with
  | nil => exact absurd rfl h
  | cons c cs =>
    rw [width_cons]
    exact Nat.add_pos_left c.utf8Size_pos _

namespace Tiles

variable {before rest : List Char} {ts : List Token}

/-- Only the last token is the end of the text, and it stands there. -/
theorem exists_last (h : Tiles before rest ts) : ∃ front t, ts = front ++ [t] ∧
    (∀ u ∈ front, u.kind ≠ .eof) ∧ t.kind = .eof ∧ t.span.start = width (before ++ rest) ∧
    t.span.stop = width (before ++ rest) := by
  induction h with
  | @last before gap t hkind hgap hnewline hstands =>
    refine ⟨[], t, rfl, fun u hu => absurd hu List.not_mem_nil, hkind, hstands.start, ?_⟩
    rw [hstands.stop, List.append_nil]
  | @cons before gap lexeme after t ts hkind _ _ _ _ _ ih =>
    obtain ⟨front, u, rfl, hfront, hlast, hstart, hstop⟩ := ih
    have htext : before ++ (gap ++ lexeme ++ after) = before ++ gap ++ lexeme ++ after := by simp
    rw [htext]
    exact ⟨t :: front, u, rfl, List.forall_mem_cons.2 ⟨hkind, hfront⟩, hlast, hstart, hstop⟩

/-- Every token takes up a stretch of the text, and only the last one an empty one. -/
theorem stands (h : Tiles before rest ts) : ∀ t ∈ ts, ∃ front lexeme after,
    before ++ rest = front ++ lexeme ++ after ∧ t.Stands front lexeme ∧
      (lexeme = [] ↔ t.kind = .eof) := by
  induction h with
  | @last before gap t hkind hgap hnewline hstands =>
    intro u hu
    obtain rfl := List.mem_singleton.1 hu
    exact ⟨before ++ gap, [], [], by simp, hstands, iff_of_true rfl hkind⟩
  | @cons before gap lexeme after t ts hkind _ _ hlexeme hstands _ ih =>
    intro u hu
    rcases List.mem_cons.1 hu with rfl | hu
    · exact ⟨before ++ gap, lexeme, after, by simp, hstands, iff_of_false hlexeme hkind⟩
    · rw [show before ++ (gap ++ lexeme ++ after) = before ++ gap ++ lexeme ++ after by simp]
      exact ih u hu

theorem le_start (h : Tiles before rest ts) : ∀ t ∈ ts, width before ≤ t.span.start := by
  induction h with
  | last _ _ _ hstands =>
    intro u hu
    obtain rfl := List.mem_singleton.1 hu
    rw [hstands.start, width_append]
    exact Nat.le_add_right _ _
  | cons _ _ _ _ hstands _ ih =>
    intro u hu
    rcases List.mem_cons.1 hu with rfl | hu
    · rw [hstands.start, width_append]
      exact Nat.le_add_right _ _
    · have := ih u hu
      rw [width_append, width_append] at this
      omega

/-- Each token ends before the next ones start. -/
theorem ordered (h : Tiles before rest ts) :
    ts.Pairwise fun t u => t.span.start < u.span.start ∧ t.span.stop ≤ u.span.start := by
  induction h with
  | last => exact List.pairwise_singleton _ _
  | @cons before gap lexeme after t ts _ _ _ hlexeme hstands hrest ih =>
    refine List.pairwise_cons.2 ⟨fun u hu => ?_, ih⟩
    have hle := hrest.le_start u hu
    have hpos := width_pos hlexeme
    rw [hstands.start, hstands.stop]
    refine ⟨?_, hle⟩
    rw [width_append _ lexeme] at hle
    omega

/-- Where some tokens end, the last one first; behind none of them, where they start. -/
def stopOf (start : Nat) (front : List Token) : Nat := (front.getLast?.map (·.span.stop)).getD start

theorem between (h : Tiles before rest ts) : ∀ front t back, ts = front ++ t :: back →
    ∃ start gap after, before ++ rest = start ++ gap ++ after ∧
      width start = stopOf (width before) front ∧ width (start ++ gap) = t.span.start ∧
      Trivia after gap ∧ t.newlineBefore = gap.any isLineTerminator := by
  induction h with
  | @last before gap u hkind hgap hnewline hstands =>
    intro front t back hsplit
    cases front with
    | nil =>
      obtain ⟨rfl, rfl⟩ := List.cons_eq_cons.1 hsplit
      exact ⟨before, gap, [], by simp, rfl, hstands.start.symm, hgap, hnewline⟩
    | cons v front =>
      have hlength := congrArg List.length hsplit
      simp at hlength
  | @cons before gap lexeme after u ts hkind hgap hnewline hlexeme hstands hrest ih =>
    intro front t back hsplit
    have htext : before ++ (gap ++ lexeme ++ after) = before ++ gap ++ lexeme ++ after := by simp
    cases front with
    | nil =>
      obtain ⟨rfl, rfl⟩ := List.cons_eq_cons.1 hsplit
      exact ⟨before, gap, lexeme ++ after, by simp, rfl, hstands.start.symm, hgap, hnewline⟩
    | cons v front =>
      obtain ⟨rfl, htail⟩ := List.cons_eq_cons.1 hsplit
      obtain ⟨start, inner, behind, hwhole, hstart, hstop, htrivia, hflag⟩ :=
        ih front t back htail
      refine ⟨start, inner, behind, htext.trans hwhole, ?_, hstop, htrivia, hflag⟩
      rw [hstart, ← hstands.stop, stopOf, stopOf, List.getLast?_cons]
      cases front.getLast? <;> rfl

end Tiles

/-- The tokens of a text tile it: each takes up a stretch of it behind what comes before, the last
one is its end, and between them there is nothing but blanks, line ends and whole comments. -/
structure Tiling (source : String) (ts : List Token) : Prop where
  last : ∃ front t, ts = front ++ [t] ∧ (∀ u ∈ front, u.kind ≠ .eof) ∧ t.kind = .eof ∧
    t.span.start = width source.toList ∧ t.span.stop = width source.toList
  stands : ∀ t ∈ ts, ∃ before lexeme after, source.toList = before ++ lexeme ++ after ∧
    t.Stands before lexeme ∧ (lexeme = [] ↔ t.kind = .eof)
  ordered : ts.Pairwise fun t u => t.span.start < u.span.start ∧ t.span.stop ≤ u.span.start
  between : ∀ front t back, ts = front ++ t :: back → ∃ before gap after,
    source.toList = before ++ gap ++ after ∧ width before = Tiles.stopOf 0 front ∧
      width (before ++ gap) = t.span.start ∧ Trivia after gap ∧
      t.newlineBefore = gap.any isLineTerminator

theorem tiling_of_tokens {source : String} {ts : List Token} (h : tokens source = .ok ts) :
    Tiling source ts := by
  obtain ⟨scanned, rfl, htiles⟩ := tiles_of_tokensFrom h (Cursor.Behind.ofText source)
  exact ⟨htiles.exists_last, htiles.stands, htiles.ordered, htiles.between⟩

/-- Line breaks of two characters, comments over several lines and wide characters. -/
theorem tiling_of_commented_text : ∃ ts, tokens "é /* a\r\n */ += // b\r\n 'ü'" = .ok ts ∧
    ts.map (fun t => (t.span, t.newlineBefore)) =
      [(⟨0, 2, 1, 1⟩, false), (⟨13, 15, 2, 5⟩, true), (⟨23, 27, 3, 2⟩, true),
        (⟨27, 27, 3, 5⟩, false)] ∧
    Tiling "é /* a\r\n */ += // b\r\n 'ü'" ts := by
  have hspans : (tokens "é /* a\r\n */ += // b\r\n 'ü'").toOption.map (fun ts =>
      ts.map fun t => (t.span, t.newlineBefore)) =
        some [(⟨0, 2, 1, 1⟩, false), (⟨13, 15, 2, 5⟩, true), (⟨23, 27, 3, 2⟩, true),
          (⟨27, 27, 3, 5⟩, false)] := by
    decide +kernel
  cases h : tokens "é /* a\r\n */ += // b\r\n 'ü'" with
  | error e =>
    rw [h] at hspans
    cases hspans
  | ok ts =>
    rw [h] at hspans
    exact ⟨ts, rfl, Option.some.inj hspans, tiling_of_tokens h⟩

end ScriptMachine.Source
