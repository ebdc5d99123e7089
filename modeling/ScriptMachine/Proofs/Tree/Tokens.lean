import ScriptMachine.Source.Lexer

/-!
# Where tokens stand

The tokens of a text stand one behind the other between characters, each of them but the last takes
up some of the text, and the last one is the only one that ends it.
-/

namespace ScriptMachine.Source

/-- How many bytes characters take up. -/
def width : List Char → Nat
  | [] => 0
  | c :: rest => c.utf8Size + width rest

@[simp] theorem width_nil : width [] = 0 := rfl

@[simp] theorem width_cons (c : Char) (rest : List Char) :
    width (c :: rest) = c.utf8Size + width rest := rfl

@[simp] theorem width_append (xs ys : List Char) : width (xs ++ ys) = width xs + width ys := by
  induction xs with
  | nil => simp
  | cons c rest ih => simp [ih, Nat.add_assoc]

/-- A byte offset falls between two characters of a text, or on one of its ends. -/
def Boundary (source : String) (offset : Nat) : Prop :=
  ∃ before after, source.toList = before ++ after ∧ width before = offset

/-- A character ends its line in front of others. -/
def endsLine (c : Char) (rest : List Char) : Bool :=
  Text.isLineTerminator c && !(c == '\r' && rest.head? == some '\n')

namespace Cursor

/-- A cursor stands in a text behind as many bytes as it says. -/
def At (c : Cursor) (source : String) : Prop :=
  ∃ before, source.toList = before ++ c.rest ∧ width before = c.offset

variable {c d : Cursor} {source : String}

theorem At.boundary (h : c.At source) : Boundary source c.offset :=
  let ⟨before, htext, hwidth⟩ := h
  ⟨before, c.rest, htext, hwidth⟩

theorem at_ofText (source : String) : (ofText source).At source := ⟨[], rfl, rfl⟩

theorem offset_bump {ch : Char} {rest : List Char} (h : c.rest = ch :: rest) :
    c.bump.offset = c.offset + ch.utf8Size := by
  unfold bump
  rw [h]
  dsimp only
  split <;> rfl

theorem bump_of_cons {ch : Char} {rest : List Char} (h : c.rest = ch :: rest) :
    c.bump = if endsLine ch rest then ⟨rest, c.offset + ch.utf8Size, c.line + 1, 1⟩
      else ⟨rest, c.offset + ch.utf8Size, c.line, c.column + 1⟩ := by
  unfold bump
  rw [h]
  rfl

theorem bump_of_nil (h : c.rest = []) : c.bump = c := by
  unfold bump
  rw [h]

theorem At.bump (h : c.At source) : c.bump.At source := by
  cases hrest : c.rest with
  | nil =>
    rw [bump_of_nil hrest]
    exact h
  | cons ch rest =>
    obtain ⟨before, htext, hwidth⟩ := h
    refine ⟨before ++ [ch], ?_, ?_⟩
    · rw [rest_bump, htext, hrest]
      simp
    · rw [offset_bump hrest]
      simp [hwidth]

theorem At.skip (h : c.At source) (n : Nat) : (skip n c).At source := by
  induction n generalizing c with
  | zero => exact h
  | succ n ih => exact ih h.bump

theorem offset_le_bump (c : Cursor) : c.offset ≤ c.bump.offset := by
  cases hrest : c.rest with
  | nil => exact Nat.le_of_eq (congrArg Cursor.offset (bump_of_nil hrest).symm)
  | cons ch rest =>
    rw [offset_bump hrest]
    exact Nat.le_add_right _ _

theorem offset_le_skip (c : Cursor) (n : Nat) : c.offset ≤ (skip n c).offset := by
  induction n generalizing c with
  | zero => exact Nat.le_refl _
  | succ n ih => exact Nat.le_trans (offset_le_bump c) (ih c.bump)

/-- Moving over at least one character moves on. -/
theorem offset_lt_skip {ch : Char} {rest : List Char} (h : c.rest = ch :: rest) (n : Nat) :
    c.offset < (skip (n + 1) c).offset := by
  have hbump : c.offset < c.bump.offset := by
    rw [offset_bump h]
    exact Nat.lt_add_of_pos_right ch.utf8Size_pos
  exact Nat.lt_of_lt_of_le hbump (offset_le_skip c.bump n)

end Cursor

open Cursor

theorem at_of_skipTrivia {c d : Cursor} {source : String} {newline flag : Bool}
    (h : skipTrivia c newline = .ok (d, flag)) (hc : c.At source) :
    d.At source ∧ c.offset ≤ d.offset := by
  fun_induction skipTrivia c newline with
  | case1 | case5 =>
    cases h
    exact ⟨hc, Nat.le_refl _⟩
  | case2 c newline ch rest hrest hline ih =>
    obtain ⟨hd, hle⟩ := ih h (hc.skip 1)
    exact ⟨hd, Nat.le_trans (offset_le_skip c 1) hle⟩
  | case3 c newline ch rest hrest hline hblank ih =>
    obtain ⟨hd, hle⟩ := ih h (hc.skip 1)
    exact ⟨hd, Nat.le_trans (offset_le_skip c 1) hle⟩
  | case4 => cases h
  | case6 c newline ch rest hrest hline hblank n ended hcomment ih =>
    obtain ⟨hd, hle⟩ := ih h (hc.skip (n + 1))
    exact ⟨hd, Nat.le_trans (offset_le_skip c (n + 1)) hle⟩

theorem wordKind_ne_eof (word : String) : wordKind word ≠ .eof := by
  unfold wordKind
  split
  · exact fun h => by cases h
  · split <;> exact fun h => by cases h

/-- A token that is scanned does not end the text. -/
theorem kind_ne_eof_of_scanToken {first : Char} {rest : List Char} {kind : TokenKind} {n : Nat}
    (h : scanToken first rest = .ok (kind, n)) : kind ≠ .eof := by
  have hmap {α : Type} {r : Except SyntaxCause (α × Nat)} {f : α × Nat → TokenKind × Nat}
      (hf : ∀ a, (f a).1 ≠ .eof) (hr : r.map f = .ok (kind, n)) : kind ≠ .eof := by
    cases r with
    | error cause => cases hr
    | ok a =>
      have hkind : (f a).1 = kind := congrArg Prod.fst (Except.ok.inj hr)
      exact hkind ▸ hf a
  unfold scanToken at h
  split at h
  · exact hmap (fun _ h => by cases h) h
  split at h
  · exact hmap (fun _ h => by cases h) h
  split at h
  · cases h
    exact wordKind_ne_eof _
  · split at h
    · cases h
      exact fun h => by cases h
    · cases h

/-- Tokens stand one behind the other from an offset on, between characters; all but the last take
up some of the text, and only the last one ends it. -/
inductive Spaced (source : String) : Nat → List Token → Prop
  | last {past : Nat} {t : Token} (hkind : t.kind = .eof) (hpast : past ≤ t.span.start)
      (hstart : Boundary source t.span.start) : Spaced source past [t]
  | cons {past : Nat} {t : Token} {rest : List Token} (hkind : t.kind ≠ .eof)
      (hpast : past ≤ t.span.start) (hlt : t.span.start < t.span.stop)
      (hstart : Boundary source t.span.start) (hstop : Boundary source t.span.stop)
      (hrest : Spaced source t.span.stop rest) : Spaced source past (t :: rest)

/-- What is scanned from a cursor on comes behind the tokens there are, and is spaced. -/
theorem spaced_of_tokensFrom {acc ts : List Token} {c : Cursor} {source : String}
    (h : tokensFrom acc c = .ok ts) (hc : c.At source) :
    ∃ scanned, ts = acc.reverse ++ scanned ∧ Spaced source c.offset scanned := by
  fun_induction tokensFrom acc c with
  | case1 | case3 => cases h
  | case2 acc c here newline htrivia hrest =>
    cases h
    obtain ⟨hhere, hle⟩ := at_of_skipTrivia htrivia hc
    exact ⟨_, List.reverse_cons, .last rfl hle hhere.boundary⟩
  | case4 acc c here newline htrivia first rest hrest kind n hscan next ih =>
    obtain ⟨hhere, hle⟩ := at_of_skipTrivia htrivia hc
    obtain ⟨scanned, rfl, hspaced⟩ := ih h (hhere.skip (n + 1))
    let span : Span := ⟨here.offset, next.offset, here.line, here.column⟩
    refine ⟨⟨kind, span, newline⟩ :: scanned, by simp [span], ?_⟩
    exact .cons (kind_ne_eof_of_scanToken hscan) hle (offset_lt_skip hrest n) hhere.boundary
      (hhere.skip (n + 1)).boundary hspaced

/-- The tokens of a text are spaced in it. -/
theorem spaced_of_tokens {source : String} {ts : List Token} (h : tokens source = .ok ts) :
    Spaced source 0 ts := by
  obtain ⟨scanned, rfl, hspaced⟩ := spaced_of_tokensFrom h (at_ofText source)
  exact hspaced

end ScriptMachine.Source
