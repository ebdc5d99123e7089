import ScriptMachine.Proofs.Tree.WellFormed
import ScriptMachine.Tree.Parser.Basic

/-!
# Parsing the same tokens elsewhere

A stretch of tokens that ends with a closing brace is parsed in the same way wherever it stands: a
parse that stays in front of the last token of the stretch looks at no token behind it. The second
parse starts with other nodes, so its indices differ from those of the first by a fixed number.

When a stretch of a text is taken out and put in parentheses, its tokens start elsewhere, and when
some nodes of a program are put at the front of another one, their indices are smaller. Everything
else about them stays.
-/

namespace ScriptMachine

namespace Source

/-- The first offset from `start` on at which a line ends, in a text that starts at another offset. -/
def lineEnd (start : Nat) : Nat → List Char → Nat
  | offset, [] => offset
  | offset, c :: rest =>
    if start ≤ offset ∧ endsLine c rest then offset else lineEnd start (offset + c.utf8Size) rest

/-- Where some text starts, and where its first line ends. -/
structure Onset where
  start : Nat
  line : Count
  column : Count
  lineEnd : Nat

/-- Where a stretch of a text starts. -/
def Span.onset (source : String) (s : Span) : Onset where
  start := s.start
  line := s.line
  column := s.column
  lineEnd := Source.lineEnd s.start 0 source.toList

/-- A place behind the start of some text, once the text stands behind an opening parenthesis. Only on
the line where the text starts do the columns change. -/
def Span.moved (s : Span) (origin : Onset) : Span where
  start := s.start + 1 - origin.start
  stop := s.stop + 1 - origin.start
  line := s.line + 1 - origin.line
  column := if s.start ≤ origin.lineEnd then s.column + 2 - origin.column else s.column

def Token.moved (origin : Onset) (t : Token) : Token := { t with span := t.span.moved origin }

@[simp] theorem Token.kind_moved (origin : Onset) (t : Token) : (t.moved origin).kind = t.kind := rfl

end Source

namespace Tree

open Source

def Hoisted.moved (base : NodeId) (h : Hoisted) : Hoisted :=
  { h with functions := h.functions.map (· - base) }

def FunctionNode.moved (base : NodeId) (f : FunctionNode) : FunctionNode :=
  { f with body := f.body - base, hoisted := f.hoisted.moved base }

def CatchClause.moved (base : NodeId) (c : CatchClause) : CatchClause :=
  { c with body := c.body - base }

def SwitchCase.moved (base : NodeId) (c : SwitchCase) : SwitchCase where
  test := c.test.map (· - base)
  consequent := c.consequent.map (· - base)

def PropertyInit.moved (base : NodeId) (p : PropertyInit) : PropertyInit :=
  { p with value := p.value - base }

def MemberProperty.moved (base : NodeId) : MemberProperty → MemberProperty
  | .named name => .named name
  | .computed key => .computed (key - base)

/-- A node that names others by their index, once the nodes in front of a base are gone. -/
def NodeKind.moved (base : NodeId) : NodeKind → NodeKind
  | .program body hoisted => .program (body.map (· - base)) (hoisted.moved base)
  | .expressionStatement expression => .expressionStatement (expression - base)
  | .block body => .block (body.map (· - base))
  | .empty => .empty
  | .debugger => .debugger
  | .varDeclaration declarations => .varDeclaration (declarations.map (· - base))
  | .varDeclarator name init => .varDeclarator name (init.map (· - base))
  | .functionDeclaration function => .functionDeclaration (function.moved base)
  | .ifStatement test consequent alternate =>
    .ifStatement (test - base) (consequent - base) (alternate.map (· - base))
  | .labeled label body => .labeled label (body - base)
  | .breakStatement label => .breakStatement label
  | .continueStatement label => .continueStatement label
  | .returnStatement argument => .returnStatement (argument.map (· - base))
  | .throwStatement argument => .throwStatement (argument - base)
  | .tryStatement body handler finalizer =>
    .tryStatement (body - base) (handler.map (·.moved base)) (finalizer.map (· - base))
  | .switchStatement discriminant cases =>
    .switchStatement (discriminant - base) (cases.map (·.moved base))
  | .whileStatement test body => .whileStatement (test - base) (body - base)
  | .doWhileStatement body test => .doWhileStatement (body - base) (test - base)
  | .forStatement init test next body =>
    .forStatement (init.map (· - base)) (test.map (· - base)) (next.map (· - base)) (body - base)
  | .forInStatement left right body => .forInStatement (left - base) (right - base) (body - base)
  | .identifier name => .identifier name
  | .literal value => .literal value
  | .this => .this
  | .array elements => .array (elements.map (·.map (· - base)))
  | .object properties => .object (properties.map (·.moved base))
  | .functionExpression function => .functionExpression (function.moved base)
  | .unary operator argument => .unary operator (argument - base)
  | .update operator before argument => .update operator before (argument - base)
  | .binary operator left right => .binary operator (left - base) (right - base)
  | .logical operator left right => .logical operator (left - base) (right - base)
  | .assignment operator target value => .assignment operator (target - base) (value - base)
  | .conditional test consequent alternate =>
    .conditional (test - base) (consequent - base) (alternate - base)
  | .call callee arguments => .call (callee - base) (arguments.map (· - base))
  | .new callee arguments => .new (callee - base) (arguments.map (· - base))
  | .member owner property => .member (owner - base) (property.moved base)
  | .sequence expressions => .sequence (expressions.map (· - base))

def Node.moved (origin : Onset) (base : NodeId) (n : Node) : Node where
  kind := n.kind.moved base
  span := n.span.moved origin

/-! ## Parsing the same tokens elsewhere -/

namespace Parser

variable {α β : Type}

/-- A stretch of tokens in two places: where its text starts in the first, how many nodes are there
before it, its last token, and what stands behind it in the first place and in the second. If `exact`
holds the names hoisted in the two places are compared too. -/
structure Window where
  origin : Onset
  base : Nat
  last : Token
  behind : List Token
  behind' : List Token
  exact : Bool
  brace : last.kind = .punct .rBrace
  nonempty : behind ≠ []
  nonempty' : behind' ≠ []

/-- The index of a node in the second place. -/
def Window.move (w : Window) (id : NodeId) : NodeId := id - w.base

/-- Two states have the same tokens left in front of the last one of the stretch, and that many, and
the nodes built since its start are the same. -/
structure Twin (w : Window) (k : Nat) (s s' : State) : Prop where
  tokens : ∃ ts : List Token, ts.length = k ∧ s.rest = ts ++ w.last :: w.behind ∧
    s'.rest = ts.map (Token.moved w.origin) ++ w.last.moved w.origin :: w.behind'
  previousEnd : s'.previousEnd = s.previousEnd + 1 - w.origin.start
  base : w.base ≤ s.nodes.size
  nodes : ∀ i, s'.nodes[i]? = (s.nodes[w.base + i]?).map (Node.moved w.origin w.base)
  hoisted : w.exact = true → s'.hoisted = s.hoisted.moved w.base

/-- Where one part of a parse succeeds in front of the last token of the stretch, so does another one
in the second place, with the result moved. The first part never gives tokens back. -/
structure Mirrors (w : Window) (H : Prop) (k : Nat) (m : α → α) (Q : α → Nat → Prop)
    (x x' : Parsing α) : Prop where
  shrinks : ∀ s a t, x s = .ok (a, t) → t.rest <:+ s.rest
  follows : H → ∀ s s' a t, Twin w k s s' → x s = .ok (a, t) →
    w.behind.length < t.rest.length →
      ∃ j t', j ≤ k ∧ Q a j ∧ x' s' = .ok (m a, t') ∧ Twin w j t t'

variable {w : Window} {H H' : Prop} {j k : Nat} {m : α → α} {m' : β → β}
  {Q Q' : α → Nat → Prop} {R : β → Nat → Prop} {s s' : State}

namespace Twin

theorem length (h : Twin w k s s') : s.rest.length = k + 1 + w.behind.length := by
  obtain ⟨ts, rfl, hrest, -⟩ := h.tokens
  rw [hrest, List.length_append, List.length_cons]
  omega

theorem length' (h : Twin w k s s') : s'.rest.length = k + 1 + w.behind'.length := by
  obtain ⟨ts, rfl, -, hrest⟩ := h.tokens
  rw [hrest, List.length_append, List.length_map, List.length_cons]
  omega

theorem current (h : Twin w k s s') : s'.current = s.current.moved w.origin := by
  obtain ⟨ts, -, hrest, hrest'⟩ := h.tokens
  unfold State.current
  rw [hrest, hrest']
  cases ts <;> rfl

theorem size (h : Twin w k s s') : s'.nodes.size = w.move s.nodes.size := by
  have hbase := h.base
  have hlast := h.nodes (s.nodes.size - w.base)
  rw [Nat.add_sub_cancel' hbase, Array.getElem?_eq_none (Nat.le_refl _)] at hlast
  have hle : s'.nodes.size ≤ s.nodes.size - w.base := Array.getElem?_eq_none_iff.1 hlast
  have hge : s.nodes.size - w.base ≤ s'.nodes.size := by
    refine Nat.le_of_not_lt fun hlt => ?_
    have hnone := h.nodes s'.nodes.size
    rw [Array.getElem?_eq_none (Nat.le_refl _)] at hnone
    have hnone := Option.map_eq_none_iff.1 hnone.symm
    have := Array.getElem?_eq_none_iff.1 hnone
    exact absurd this (by omega)
  exact Nat.le_antisymm hle hge

end Twin

/-! ## Putting parts together -/

namespace Mirrors

variable {x x' : Parsing α}

theorem post (h : Mirrors w H k m Q x x') (hQ : ∀ a j, H → j ≤ k → Q a j → Q' a j) :
    Mirrors w H k m Q' x x' where
  shrinks := h.shrinks
  follows hH s s' a t hs hrun ht := by
    obtain ⟨j, t', hj, ha, hrun', htwin⟩ := h.follows hH s s' a t hs hrun ht
    exact ⟨j, t', hj, hQ a j hH hj ha, hrun', htwin⟩

theorem pre (h : Mirrors w H k m Q x x') (hH : H' → H) : Mirrors w H' k m Q x x' where
  shrinks := h.shrinks
  follows hH' := h.follows (hH hH')

theorem bind {f f' : α → Parsing β} (hx : Mirrors w H k m Q x x')
    (hf : ∀ a j, Mirrors w (H ∧ j ≤ k ∧ Q a j) j m' R (f a) (f' (m a))) :
    Mirrors w H k m' R (x >>= f) (x' >>= f') where
  shrinks s b t hrun := by
    obtain ⟨a, mid, hxrun, hfrun⟩ := bind_eq_ok hrun
    exact ((hf a 0).shrinks mid b t hfrun).trans (hx.shrinks s a mid hxrun)
  follows hH s s' b t hs hrun ht := by
    obtain ⟨a, mid, hxrun, hfrun⟩ := bind_eq_ok hrun
    have hmid := Nat.lt_of_lt_of_le ht ((hf a 0).shrinks mid b t hfrun).length_le
    obtain ⟨j, mid', hj, ha, hxrun', htwin⟩ := hx.follows hH s s' a mid hs hxrun hmid
    obtain ⟨i, t', hi, hb, hfrun', htwin'⟩ :=
      (hf a j).follows ⟨hH, hj, ha⟩ mid mid' b t htwin hfrun ht
    refine ⟨i, t', Nat.le_trans hi hj, hb, ?_, htwin'⟩
    rw [bind_run, hxrun']
    exact hfrun'

/-- A result that is no node is not moved. -/
theorem bindSame {f f' : α → Parsing β} (hx : Mirrors w H k id Q x x')
    (hf : ∀ a j, Mirrors w (H ∧ j ≤ k ∧ Q a j) j m' R (f a) (f' a)) :
    Mirrors w H k m' R (x >>= f) (x' >>= f') :=
  hx.bind hf

end Mirrors

theorem mirrors_pure (a : α) (ha : H → Q a k) :
    Mirrors w H k m Q (pure a) (pure (m a)) where
  shrinks s b t hrun := by
    cases hrun
    exact List.suffix_refl _
  follows hH s s' b t hs hrun _ := by
    cases hrun
    exact ⟨k, s', Nat.le_refl k, ha hH, rfl, hs⟩

theorem mirrors_same (a : α) (ha : H → Q a k) : Mirrors w H k id Q (pure a) (pure a) :=
  mirrors_pure a ha

/-- What is refused in the first place need not be compared. -/
theorem Refuses.mirrors {x x' : Parsing α} (h : Refuses x) : Mirrors w H k m Q x x' where
  shrinks s a t hrun := by
    obtain ⟨e, he⟩ := h s
    cases he.symm.trans hrun
  follows _ s s' a t _ hrun _ := by
    obtain ⟨e, he⟩ := h s
    cases he.symm.trans hrun

/-- What only looks at the state finds the same in both places. -/
theorem mirrors_look {x x' : Parsing α} (view view' : State → α) (hx : ∀ s, x s = .ok (view s, s))
    (hx' : ∀ s, x' s = .ok (view' s, s))
    (hview : H → ∀ s s', Twin w k s s' → view' s' = m (view s)) :
    Mirrors w H k m (fun _ j => j = k) x x' where
  shrinks s a t hrun := by
    cases (hx s).symm.trans hrun
    exact List.suffix_refl _
  follows hH s s' a t hs hrun _ := by
    cases (hx s).symm.trans hrun
    refine ⟨k, s', Nat.le_refl k, rfl, ?_, hs⟩
    rw [hx', hview hH s s' hs]

/-! ## Tokens -/

theorem mirrors_current :
    Mirrors w H k (Token.moved w.origin) (fun _ j => j = k) current current :=
  mirrors_look State.current State.current (fun _ => rfl) (fun _ => rfl) fun _ _ _ hs => hs.current

theorem advance_eq (s : State) :
    advance s = .ok ((), match s.rest with
      | t :: next :: rest => { s with rest := next :: rest, previousEnd := t.span.stop }
      | _ => s) :=
  rfl

theorem advance_cons {token : Token} {rest : List Token} (hrest : s.rest = token :: rest)
    (hne : rest ≠ []) :
    advance s = .ok ((), { s with rest, previousEnd := token.span.stop }) := by
  obtain ⟨next, rest, rfl⟩ := List.exists_cons_of_ne_nil hne
  rw [advance_eq, hrest]

/-- A token that is taken in front of the last one is taken in both places. -/
theorem mirrors_advance : Mirrors w H k id (fun _ j => j + 1 = k) advance advance where
  shrinks s a t hrun := by
    rw [advance_eq] at hrun
    cases hrun
    split
    · rename_i hrest
      rw [hrest]
      exact List.suffix_cons _ _
    · exact List.suffix_refl _
  follows _ s s' a t hs hrun ht := by
    obtain ⟨ts, rfl, hrest, hrest'⟩ := hs.tokens
    cases ts with
    | nil =>
      rw [advance_cons hrest w.nonempty] at hrun
      cases hrun
      exact absurd ht (Nat.lt_irrefl _)
    | cons token ts =>
      rw [advance_cons hrest (by simp)] at hrun
      cases hrun
      refine ⟨ts.length, _, Nat.le_succ _, rfl, advance_cons hrest' (by simp), ?_⟩
      exact ⟨⟨ts, rfl, rfl, rfl⟩, rfl, hs.base, hs.nodes, hs.hoisted⟩

theorem mirrors_checkPunct (p : Punctuator) :
    Mirrors w H k id (fun _ j => j = k) (checkPunct p) (checkPunct p) :=
  mirrors_current.bind fun _ _ => mirrors_same _ fun h => h.2.2

theorem mirrors_checkKeyword (word : Keyword) :
    Mirrors w H k id (fun _ j => j = k) (checkKeyword word) (checkKeyword word) :=
  mirrors_current.bind fun _ _ => mirrors_same _ fun h => h.2.2

theorem mirrors_atEnd : Mirrors w H k id (fun _ j => j = k) atEnd atEnd :=
  mirrors_current.bind fun _ _ => mirrors_same _ fun h => h.2.2

/-- A token may have been taken. -/
def Took (k : Nat) (found : Bool) (j : Nat) : Prop := if found then j + 1 = k else j = k

theorem mirrors_accept {check : Parsing Bool}
    (hcheck : ∀ H : Prop, Mirrors w H k id (fun _ j => j = k) check check) :
    Mirrors w H k id (Took k) (do
      if ← check then
        advance
        return true
      return false) (do
      if ← check then
        advance
        return true
      return false) := by
  refine (hcheck H).bindSame fun found j => ?_
  cases found with
  | true =>
    refine mirrors_advance.bindSame fun _ i => mirrors_same true fun h => ?_
    have htook : i + 1 = k := by omega
    exact htook
  | false => exact mirrors_same false fun h => h.2.2

theorem mirrors_acceptPunct (p : Punctuator) :
    Mirrors w H k id (Took k) (acceptPunct p) (acceptPunct p) :=
  mirrors_accept fun _ => mirrors_checkPunct p

theorem mirrors_acceptKeyword (word : Keyword) :
    Mirrors w H k id (Took k) (acceptKeyword word) (acceptKeyword word) :=
  mirrors_accept fun _ => mirrors_checkKeyword word

theorem mirrors_requirePunct (p : Punctuator) :
    Mirrors w H k id (fun _ j => j + 1 = k) (requirePunct p) (requirePunct p) := by
  refine (mirrors_acceptPunct p).bindSame fun found j => ?_
  cases found with
  | true => exact mirrors_same () fun h => h.2.2
  | false => exact (refuses_unexpected _).mirrors

theorem mirrors_requireKeyword (word : Keyword) :
    Mirrors w H k id (fun _ j => j + 1 = k) (requireKeyword word) (requireKeyword word) := by
  refine (mirrors_acceptKeyword word).bindSame fun found j => ?_
  cases found with
  | true => exact mirrors_same () fun h => h.2.2
  | false => exact (refuses_unexpected _).mirrors

theorem mirrors_atStatementEnd :
    Mirrors w H k id (fun _ j => j = k) atStatementEnd atStatementEnd :=
  mirrors_current.bind fun _ _ => mirrors_same _ fun h => h.2.2

theorem mirrors_endStatement :
    Mirrors w H k id (fun _ _ => True) endStatement endStatement := by
  refine (mirrors_acceptPunct _).bindSame fun found j => ?_
  cases found with
  | true => exact mirrors_same () fun _ => trivial
  | false =>
    refine mirrors_atStatementEnd.bindSame fun ended i => ?_
    cases ended with
    | true => exact mirrors_same () fun _ => trivial
    | false => exact (refuses_unexpected _).mirrors

theorem mirrors_bindingName :
    Mirrors w H k id (fun _ j => j + 1 = k) bindingName bindingName := by
  refine mirrors_current.bind fun t j => ?_
  obtain ⟨kind, span, newline⟩ := t
  cases kind with
  | identifier name =>
    dsimp only [Token.moved]
    cases isRestricted name with
    | true => exact ((refuses_fail _).bind _).mirrors
    | false =>
      refine mirrors_advance.bindSame fun _ i => mirrors_same name fun h => ?_
      omega
  | reserved word => exact (refuses_fail _).mirrors
  | _ => exact (refuses_unexpected _).mirrors

theorem mirrors_propertyName :
    Mirrors w H k id (fun _ j => j + 1 = k) propertyName propertyName := by
  refine mirrors_current.bind fun t j => ?_
  have htake (name : String) : Mirrors w (H ∧ j ≤ k ∧ j = k) j id (fun _ i => i + 1 = k)
      (advance >>= fun _ => pure name) (advance >>= fun _ => pure name) := by
    refine mirrors_advance.bindSame fun _ i => mirrors_same name fun h => ?_
    omega
  obtain ⟨kind, span, newline⟩ := t
  cases kind with
  | identifier name => exact htake name
  | reserved word => exact htake word
  | keyword word => exact htake word.text
  | _ => exact (refuses_unexpected _).mirrors

/-! ## Nodes -/

theorem Twin.push (h : Twin w k s s') (kind : NodeKind) (span : Span) :
    Twin w k { s with nodes := s.nodes.push ⟨kind, span⟩ }
      { s' with nodes := s'.nodes.push ⟨kind.moved w.base, span.moved w.origin⟩ } where
  tokens := h.tokens
  previousEnd := h.previousEnd
  base := by
    rw [Array.size_push]
    exact Nat.le_succ_of_le h.base
  nodes i := by
    have hsize : w.base + s'.nodes.size = s.nodes.size := by
      rw [h.size]
      exact Nat.add_sub_cancel' h.base
    rw [Array.getElem?_push, Array.getElem?_push]
    by_cases hi : i = s'.nodes.size
    · rw [if_pos hi, if_pos (hi ▸ hsize)]
      rfl
    · rw [if_neg hi, if_neg fun heq => hi (by omega), h.nodes i]
  hoisted := h.hoisted

theorem mirrors_push (kind : NodeKind) (span : Span) :
    Mirrors w H k w.move (fun id j => w.base ≤ id ∧ j = k) (push kind span)
      (push (kind.moved w.base) (span.moved w.origin)) where
  shrinks s a t hrun := by
    cases hrun
    exact List.suffix_refl _
  follows _ s s' a t hs hrun _ := by
    cases hrun
    refine ⟨k, _, Nat.le_refl k, ⟨hs.base, rfl⟩, ?_, hs.push kind span⟩
    rw [← hs.size]
    rfl

/-- The stretch up to an offset is moved with its start. -/
theorem moved_upTo (start : Span) (origin : Onset) (past : Nat) :
    Span.moved { start with stop := max past start.start } origin =
      { start.moved origin with
        stop := max (past + 1 - origin.start) (start.moved origin).start } := by
  have hstop : max past start.start + 1 - origin.start =
      max (past + 1 - origin.start) (start.start + 1 - origin.start) := by omega
  simp only [Span.moved, hstop]

theorem mirrors_spanFrom (start : Span) :
    Mirrors w H k (fun span => span.moved w.origin) (fun _ j => j = k) (spanFrom start)
      (spanFrom (start.moved w.origin)) := by
  apply mirrors_look (fun s => ({ start with stop := max s.previousEnd start.start } : Span))
    (fun s => { start.moved w.origin with stop := max s.previousEnd (start.moved w.origin).start })
    (fun _ => rfl) (fun _ => rfl)
  intro _ s s' hs
  rw [moved_upTo, hs.previousEnd]

theorem mirrors_pushFrom (start : Span) (kind : NodeKind) :
    Mirrors w H k w.move (fun id j => w.base ≤ id ∧ j = k) (pushFrom start kind)
      (pushFrom (start.moved w.origin) (kind.moved w.base)) := by
  refine (mirrors_spanFrom start).bind fun span j => ?_
  exact (mirrors_push kind span).post fun id i h _ hi => ⟨hi.1, hi.2.trans h.2.2⟩

theorem mirrors_kindOf? {target : NodeId} (htarget : H → w.base ≤ target) :
    Mirrors w H k (Option.map (NodeKind.moved w.base)) (fun _ j => j = k) (kindOf? target)
      (kindOf? (w.move target)) := by
  apply mirrors_look (fun s => s.nodes[target]?.map Node.kind)
    (fun s => s.nodes[w.move target]?.map Node.kind) (fun _ => rfl) (fun _ => rfl)
  intro hH s s' hs
  have hsame : w.base + w.move target = target := Nat.add_sub_cancel' (htarget hH)
  rw [hs.nodes, hsame, Option.map_map, Option.map_map]
  rfl

/-! ## Hoisting -/

theorem mirrors_modify {f f' : State → State} (hrest : ∀ s, (f s).rest = s.rest)
    (htwin : H → ∀ s s', Twin w k s s' → Twin w k (f s) (f' s')) :
    Mirrors w H k id (fun _ j => j = k) (modify f) (modify f') where
  shrinks s a t hrun := by
    cases hrun
    exact hrest s ▸ List.suffix_refl _
  follows hH s s' a t hs hrun _ := by
    cases hrun
    exact ⟨k, _, Nat.le_refl k, rfl, rfl, htwin hH s s' hs⟩

theorem moved_declare (hoisted : Hoisted) (name : String) (base : NodeId) :
    (hoisted.moved base).declare name = (hoisted.declare name).moved base := by
  unfold Hoisted.declare Hoisted.moved
  split <;> rfl

theorem mirrors_hoistVar (name : String) :
    Mirrors w H k id (fun _ j => j = k) (hoistVar name) (hoistVar name) := by
  rw [hoistVar_eq]
  apply mirrors_modify
  · exact fun _ => rfl
  · intro _ s s' hs
    refine { hs with hoisted := fun hexact => ?_ }
    dsimp only
    rw [hs.hoisted hexact, moved_declare]

theorem mirrors_hoistFunction (target : NodeId) :
    Mirrors w H k id (fun _ j => j = k) (hoistFunction target) (hoistFunction (w.move target)) := by
  apply mirrors_modify
  · exact fun _ => rfl
  · intro _ s s' hs
    refine { hs with hoisted := fun hexact => ?_ }
    dsimp only
    rw [hs.hoisted hexact]
    simp only [Hoisted.moved, List.map_append, List.map_cons, List.map_nil]
    rfl

/-! ## Repetition -/

/-- A step that declines leaves what there is, and one that goes on takes a token. -/
def Goes (P : α → Nat → Prop) (k : Nat) (a : α) : Option α → Nat → Prop
  | none, j => P a j
  | some b, j => j < k ∧ P b j

variable {P : α → Nat → Prop}

/-- Every step that goes on takes a token, so the tokens that are left bound the repetition in the
second place too. -/
theorem mirrors_iterate {step step' : α → Parsing (Option α)}
    (hstep : ∀ a k, Mirrors w (P a k) k (Option.map m) (Goes P k a) (step a) (step' (m a)))
    {bound bound' : List Token} (a : α) (hbound : k < bound'.length) :
    Mirrors w (P a k) k m P (iterate step bound a) (iterate step' bound' (m a)) := by
  induction bound generalizing bound' a k with
  | nil => exact (refuses_fail _).mirrors
  | cons token bound ih =>
    cases bound' with
    | nil => exact absurd hbound (Nat.not_lt_zero k)
    | cons token' bound' =>
      refine (hstep a k).bind fun next j => ?_
      cases next with
      | none => exact mirrors_pure a fun h => h.2.2
      | some b =>
        constructor
        · have hone : 0 < [token'].length := Nat.one_pos
          exact (ih b hone).shrinks
        · intro h
          have hlt : j < bound'.length :=
            Nat.lt_of_lt_of_le h.2.2.1 (Nat.le_of_lt_succ hbound)
          exact (ih b hlt).follows h.2.2.2

theorem mirrors_loop {step step' : α → Parsing (Option α)}
    (hstep : ∀ a k, Mirrors w (P a k) k (Option.map m) (Goes P k a) (step a) (step' (m a)))
    {a : α} (hstart : H → P a k) :
    Mirrors w H k m P (loop a step) (loop (m a) step') where
  shrinks s b t hrun := by
    obtain ⟨u, mid, hget, hrun⟩ := bind_eq_ok hrun
    cases hget
    have hone : 0 < [endToken].length := Nat.one_pos
    exact (mirrors_iterate hstep a hone).shrinks s b t hrun
  follows hH s s' b t hs hrun ht := by
    obtain ⟨u, mid, hget, hrun⟩ := bind_eq_ok hrun
    cases hget
    have hbound : k < (endToken :: s'.rest).length := by
      rw [List.length_cons, hs.length']
      omega
    exact (mirrors_iterate hstep a hbound).follows (hstart hH) s s' b t hs hrun ht

/-- A step may give an item, and then takes a token. -/
def Gave (k : Nat) (next : Option α) (j : Nat) : Prop := next ≠ none → j < k

theorem mirrors_many {step step' : Parsing (Option α)}
    (hstep : ∀ j, Mirrors w (H ∧ j ≤ k) j (Option.map m) (Gave j) step step') :
    Mirrors w H k (List.map m) (fun _ _ => True) (many step) (many step') := by
  let P (_ : List α) (j : Nat) : Prop := H ∧ j ≤ k
  have hcollected (acc : List α) (j : Nat) :
      Mirrors w (H ∧ j ≤ k ∧ P acc j) j (List.map m) (fun _ _ => True) (pure acc.reverse)
        (pure (acc.map m).reverse) := by
    rw [← List.map_reverse]
    exact mirrors_pure acc.reverse fun _ => trivial
  refine Mirrors.bind ?_ hcollected
  refine mirrors_loop (a := []) (fun acc j => ?_) fun hH => ⟨hH, Nat.le_refl k⟩
  refine (hstep j).bind fun next i => ?_
  cases next with
  | none => exact mirrors_pure none fun h => ⟨h.1.1, Nat.le_trans h.2.1 h.1.2⟩
  | some a =>
    refine mirrors_pure (some (a :: acc)) fun h => ?_
    have hlt : i < j := h.2.2 (Option.some_ne_none a)
    exact ⟨hlt, h.1.1, Nat.le_trans h.2.1 h.1.2⟩

theorem mirrors_commaSeparated {item item' : Parsing α}
    (hitem : ∀ j, Mirrors w (H ∧ j ≤ k) j m (fun _ i => i < j) item item') :
    Mirrors w H k (List.map m) (fun _ j => j < k) (commaSeparated item) (commaSeparated item') := by
  refine ((hitem k).pre fun hH => ⟨hH, Nat.le_refl k⟩).bind fun first j => ?_
  refine (mirrors_many (m := m) fun i => ?_).bind fun rest i =>
    mirrors_pure (first :: rest) fun h => Nat.lt_of_le_of_lt h.2.1 h.1.2.2
  refine (mirrors_acceptPunct .comma).bindSame fun found l => ?_
  cases found with
  | true =>
    refine ((hitem l).pre fun h => ?_).bind fun a m => mirrors_pure (some a) fun h _ => ?_
    · exact ⟨h.1.1.1, Nat.le_trans h.2.1 (Nat.le_trans h.1.2 h.1.1.2.1)⟩
    · exact Nat.lt_of_lt_of_le h.2.2 h.1.2.1
  | false => exact mirrors_pure none fun _ hnone => absurd rfl hnone

end Parser

end Tree

end ScriptMachine
