import ScriptMachine.Proofs.Reparse.Statement

/-!
# A function elsewhere

What is behind the head of a function is a stretch of tokens that ends with the closing brace of its
body. Read from the same tokens in another place, it gives the same function.
-/

namespace ScriptMachine.Tree.Parser

open ScriptMachine.Source

variable {s t : State} {name : Option String} {function : FunctionNode}

/-! ## Required punctuators -/

theorem checkPunct_of_kind {p : Punctuator} (h : s.current.kind = .punct p) :
    checkPunct p s = .ok (true, s) := by
  have hfound : (s.current.kind == .punct p) = true := beq_iff_eq.2 h
  rw [← hfound]
  rfl

theorem checkPunct_of_ne {p : Punctuator} (h : s.current.kind ≠ .punct p) :
    checkPunct p s = .ok (false, s) := by
  have hother : (s.current.kind == .punct p) = false := beq_eq_false_iff_ne.2 h
  rw [← hother]
  rfl

theorem acceptPunct_of_ne {p : Punctuator} (h : s.current.kind ≠ .punct p) :
    acceptPunct p s = .ok (false, s) := by
  rw [acceptPunct, bind_run, checkPunct_of_ne h]
  rfl

theorem requirePunct_of_kind {p : Punctuator} (h : s.current.kind = .punct p) :
    requirePunct p s = advance s := by
  have haccept : acceptPunct p s = (advance >>= fun _ => pure true) s := by
    rw [acceptPunct, bind_run, checkPunct_of_kind h]
    rfl
  rw [requirePunct, bind_run, haccept]
  rfl

theorem kind_of_requirePunct {p : Punctuator} {u : Unit} (h : requirePunct p s = .ok (u, t)) :
    s.current.kind = .punct p := by
  by_contra hkind
  rw [requirePunct, bind_run, acceptPunct_of_ne hkind] at h
  obtain ⟨e, he⟩ := refuses_unexpected (α := Unit) p.label s
  cases he.symm.trans h

/-- A punctuator that is required is taken, unless it is the last token. -/
theorem requirePunct_cons {p : Punctuator} {token : Token} {rest : List Token}
    (hrest : s.rest = token :: rest) (hne : rest ≠ []) (hkind : token.kind = .punct p) :
    requirePunct p s = .ok ((), { s with rest, previousEnd := token.span.stop }) := by
  have hcurrent : s.current.kind = .punct p := by
    rw [State.current, hrest]
    exact hkind
  rw [requirePunct_of_kind hcurrent, advance_cons hrest hne]

theorem taken_of_requirePunct {p : Punctuator} {u : Unit} (h : requirePunct p s = .ok (u, t))
    (hlength : 1 < s.rest.length) :
    ∃ token, token.kind = .punct p ∧ s.rest = token :: t.rest ∧ t.rest ≠ [] ∧
      t = { s with rest := t.rest, previousEnd := token.span.stop } := by
  have hkind := kind_of_requirePunct h
  cases hrest : s.rest with
  | nil =>
    rw [hrest] at hlength
    exact absurd hlength (by decide)
  | cons token rest =>
    have hne : rest ≠ [] := by
      rintro rfl
      rw [hrest] at hlength
      exact absurd hlength (Nat.lt_irrefl 1)
    rw [State.current, hrest] at hkind
    cases (requirePunct_cons hrest hne hkind).symm.trans h
    exact ⟨token, hkind, rfl, hne, rfl⟩

/-- What is taken in front of spaced tokens is not the last token. -/
theorem lt_of_requirePunct {p : Punctuator} {u : Unit} {source : String} {past : Nat}
    (h : requirePunct p s = .ok (u, t)) (ht : Spaced source past t.rest) : 1 < s.rest.length := by
  have hkind := kind_of_requirePunct h
  rw [requirePunct_of_kind hkind, advance_eq] at h
  cases hrest : s.rest with
  | nil =>
    rw [State.current, hrest] at hkind
    cases hkind
  | cons token rest =>
    cases rest with
    | cons next rest => exact Nat.lt_of_sub_pos (Nat.succ_pos _)
    | nil =>
      rw [hrest] at h
      cases h
      rw [hrest] at ht
      rw [State.current, hrest] at hkind
      cases ht with
      | last heof => cases hkind.symm.trans heof
      | cons _ _ _ _ _ hnone => cases hnone

/-! ## The parts of a function -/

theorem blockStatement_eq_ok {sub : Sub} {scope : JumpScope} {id : NodeId} :
    blockStatement sub scope s = .ok (id, t) ↔
      ∃ opened body closing closed, requirePunct .lBrace s = .ok ((), opened) ∧
        blockBody sub scope opened = .ok (body, closing) ∧
        requirePunct .rBrace closing = .ok ((), closed) ∧ id = closed.nodes.size ∧
        t = { closed with nodes := closed.nodes.push ⟨.block body, s.spanTo closed⟩ } := by
  rw [blockStatement_eq]
  constructor
  · intro h
    obtain ⟨start, u, hcurrent, h⟩ := bind_eq_ok h
    cases hcurrent
    obtain ⟨_, opened, hopen, h⟩ := bind_eq_ok h
    obtain ⟨body, closing, hbody, h⟩ := bind_eq_ok h
    obtain ⟨_, closed, hclose, h⟩ := bind_eq_ok h
    cases h
    exact ⟨opened, body, closing, closed, hopen, hbody, hclose, rfl, rfl⟩
  · rintro ⟨opened, body, closing, closed, hopen, hbody, hclose, rfl, rfl⟩
    have hrun : (do
        let start := (← current).span
        requirePunct .lBrace
        let body ← blockBody sub scope
        requirePunct .rBrace
        pushFrom start (.block body)) s = (requirePunct .lBrace >>= fun _ => blockBody sub scope >>=
          fun body => requirePunct .rBrace >>= fun _ => pushFrom s.current.span (.block body)) s := rfl
    rw [hrun, bind_run, hopen]
    dsimp only
    rw [bind_run, hbody]
    dsimp only
    rw [bind_run, hclose]
    rfl

/-- The parts of a function were read between some states: its parameters, the opening brace, the
statements of its body, and what is left then starts with the closing brace. -/
structure FunctionParts (deep : Nat) (before : State) (params : List String) (mid opened : State)
    (statements : List NodeId) (closing : State) (brace : Token) (behind : List Token) : Prop where
  parameters : parameterList before = .ok (params, mid)
  opens : requirePunct .lBrace { mid with hoisted := {} } = .ok ((), opened)
  body : blockBody (parseGoal deep) { inFunction := true } opened = .ok (statements, closing)
  rest : closing.rest = brace :: behind
  kind : brace.kind = .punct .rBrace
  goes : behind ≠ []

/-- The state behind the parts of a function. -/
def closeBody (mid : State) (statements : List NodeId) (closing : State) (brace : Token)
    (behind : List Token) : State :=
  { closing with
    rest := behind
    previousEnd := brace.span.stop
    nodes := closing.nodes.push
      ⟨.block statements, { mid.current.span with stop := max brace.span.stop mid.here }⟩
    hoisted := mid.hoisted }

variable {deep : Nat} {before after mid opened closing : State} {params : List String}
  {statements : List NodeId} {ts behind : List Token} {brace : Token}

/-- A function is read if its parts are. -/
theorem FunctionParts.functionRest
    (h : FunctionParts deep before params mid opened statements closing brace behind)
    (name : Option String) :
    functionRest (parseGoal (deep + 1)) name before =
      .ok (⟨name, params, closing.nodes.size, closing.hoisted⟩,
        closeBody mid statements closing brace behind) := by
  rw [functionRest_eq, bind_run, h.parameters]
  apply functionBody_eq_ok.2
  refine ⟨closing.nodes.size,
    { closeBody mid statements closing brace behind with hoisted := closing.hoisted }, ?_, rfl, rfl⟩
  apply blockStatement_eq_ok.2
  exact ⟨opened, statements, closing, _, h.opens, h.body, requirePunct_cons h.rest h.goes h.kind,
    rfl, rfl⟩

/-- What is left gets shorter from part to part. -/
theorem suffix_of_parts {params : List String} {brace : Token} {behind : List Token}
    (hparams : parameterList before = .ok (params, mid))
    (hopens : requirePunct .lBrace { mid with hoisted := {} } = .ok ((), opened))
    (hbody : blockBody (parseGoal deep) { inFunction := true } opened = .ok (statements, closing))
    (hkind : brace.kind = .punct .rBrace) (hbehind : behind ≠ []) :
    closing.rest <:+ opened.rest ∧ opened.rest <:+ mid.rest ∧ mid.rest <:+ before.rest := by
  let w : Window := ⟨⟨0, 0, 0, 0⟩, 0, brace, behind, behind, true, hkind, hbehind, hbehind⟩
  have hall : SubMirrors w 0 0 (parseGoal deep) (parseGoal 0) :=
    subMirrors_parseGoal rfl (Nat.le_refl 0)
  have hopened : opened.rest <:+ ({ mid with hoisted := {} } : State).rest :=
    (mirrors_requirePunct (w := w) (H := True) (k := 0) _).shrinks _ _ _ hopens
  refine ⟨(mirrors_blockBody (k := 0) hall _).shrinks _ _ _ hbody, hopened, ?_⟩
  exact (mirrors_parameterList (w := w) (H := True) (k := 0)).shrinks _ _ _ hparams

/-- Every function that is read has parts, and what is behind its head is some tokens, the closing
brace, and what is behind the function. -/
theorem parts_of_functionRest {depth : Nat} (hready : before.Ready)
    (hrun : functionRest (parseGoal depth) name before = .ok (function, after)) :
    ∃ deep params mid opened statements closing brace ts,
      FunctionParts deep before params mid opened statements closing brace after.rest ∧
      before.rest = ts ++ brace :: after.rest ∧
      function = ⟨name, params, closing.nodes.size, closing.hoisted⟩ ∧
      after = closeBody mid statements closing brace after.rest := by
  have hread := ensures_functionRest (gives_parseGoal depth) (.refl hready) name function after hrun
  have hspaced := hread.laid.ready.spaced
  rw [functionRest_eq] at hrun
  obtain ⟨params, mid, hparams, hrun⟩ := bind_eq_ok hrun
  obtain ⟨body, u, hblock, rfl, rfl⟩ := functionBody_eq_ok.1 hrun
  cases depth with
  | zero =>
    obtain ⟨e, he⟩ := refuses_fail (α := NodeId) .tooDeep { mid with hoisted := {} }
    cases he.symm.trans hblock
  | succ deep =>
    obtain ⟨opened, statements, closing, closed, hopens, hbody, hcloses, rfl, rfl⟩ :=
      blockStatement_eq_ok.1 hblock
    have hlength := lt_of_requirePunct hcloses hspaced
    obtain ⟨brace, hkind, hrest, hne, hclosed⟩ := taken_of_requirePunct hcloses hlength
    obtain ⟨hclosing, hopened, hmid⟩ := suffix_of_parts hparams hopens hbody hkind hne
    obtain ⟨ts, hts⟩ := hclosing.trans (hopened.trans hmid)
    refine ⟨deep, params, mid, opened, statements, closing, brace, ts,
      ⟨hparams, hopens, hbody, hrest, hkind, hne⟩, ?_, ?_, ?_⟩
    · rw [← hts, hrest]
    · rw [hclosed]
    · rw [hclosed]
      rfl

/-! ## The same parts elsewhere -/

/-- The end of the last token does not matter in front of the parameters. -/
theorem parameterList_past {token : Token} {rest : List Token} (hrest : s.rest = token :: rest)
    (hne : rest ≠ []) (hkind : token.kind = .punct .lParen) (past : Nat) :
    parameterList { s with previousEnd := past } = parameterList s := by
  have hrest' : ({ s with previousEnd := past } : State).rest = token :: rest := hrest
  rw [parameterList, bind_run, bind_run, requirePunct_cons hrest hne hkind,
    requirePunct_cons hrest' hne hkind]

/-- A state behind a function in one place and in the other. -/
structure Echoes (origin : Onset) (base : Nat) (t t' : State) : Prop where
  previousEnd : t'.previousEnd = t.previousEnd + 1 - origin.start
  nodes : ∀ i, t'.nodes[i]? = (t.nodes[base + i]?).map (Node.moved origin base)

/-- What is behind the head of a function starts with a parenthesis. -/
theorem cons_of_parameters (hparams : parameterList before = .ok (params, mid))
    (htokens : before.rest = ts ++ brace :: behind) (hbrace : brace.kind = .punct .rBrace) :
    ∃ paren rest, ts = paren :: rest ∧ paren.kind = .punct .lParen := by
  obtain ⟨_, u, hparen, -⟩ := bind_eq_ok hparams
  have hkind := kind_of_requirePunct hparen
  rw [State.current, htokens] at hkind
  cases ts with
  | nil => cases hbrace.symm.trans hkind
  | cons paren rest => exact ⟨paren, rest, rfl, hkind⟩

/-- The parameters are read in front of the same tokens elsewhere. -/
theorem parameterList_elsewhere {w : Window} {s' : State}
    (hparams : parameterList before = .ok (params, mid)) (hexact : w.exact = false)
    (htokens : before.rest = ts ++ w.last :: w.behind)
    (htokens' : s'.rest = ts.map (Token.moved w.origin) ++ w.last.moved w.origin :: w.behind')
    (hbase : w.base = before.nodes.size) (hempty : s'.nodes = #[])
    (hmid : w.behind.length < mid.rest.length) :
    ∃ j mid', j ≤ ts.length ∧ parameterList s' = .ok (params, mid') ∧ Twin w j mid mid' := by
  obtain ⟨token, ts, rfl, hkind⟩ := cons_of_parameters hparams htokens w.brace
  have hne : ts ++ w.last :: w.behind ≠ [] := by simp
  have hne' : ts.map (Token.moved w.origin) ++ w.last.moved w.origin :: w.behind' ≠ [] := by simp
  rw [← parameterList_past htokens hne hkind w.origin.start] at hparams
  have htwin : Twin w (token :: ts).length { before with previousEnd := w.origin.start }
      { s' with previousEnd := 1 } := by
    constructor
    case tokens => exact ⟨token :: ts, rfl, htokens, htokens'⟩
    case previousEnd => exact (Nat.add_sub_cancel_left w.origin.start 1).symm
    case base => exact Nat.le_of_eq hbase
    case nodes =>
      intro i
      have hnone : before.nodes[w.base + i]? = none :=
        Array.getElem?_eq_none (hbase ▸ Nat.le_add_right _ _)
      rw [hempty, hnone]
      rfl
    case hoisted => exact fun h => absurd (h.symm.trans hexact) (by decide)
  obtain ⟨j, mid', hj, -, hrun, hmid'⟩ :=
    (mirrors_parameterList (H := True)).follows trivial _ _ _ _ htwin hparams hmid
  rw [parameterList_past htokens' hne' hkind] at hrun
  exact ⟨j, mid', hj, hrun, hmid'⟩

theorem FunctionParts.elsewhere
    (h : FunctionParts deep before params mid opened statements closing brace behind)
    (htokens : before.rest = ts ++ brace :: behind) {origin : Onset} {s' : State}
    {behind' : List Token} {deep' : Nat} (hbehind' : behind' ≠ []) (hdeep : 8 * ts.length ≤ deep')
    (hempty : s'.nodes = #[])
    (htokens' : s'.rest = ts.map (Token.moved origin) ++ brace.moved origin :: behind') :
    ∃ mid' opened' statements' closing',
      FunctionParts deep' s' params mid' opened' statements' closing' (brace.moved origin) behind' ∧
      FunctionNode.moved before.nodes.size ⟨name, params, closing.nodes.size, closing.hoisted⟩ =
        ⟨name, params, closing'.nodes.size, closing'.hoisted⟩ ∧
      Echoes origin before.nodes.size (closeBody mid statements closing brace behind)
        (closeBody mid' statements' closing' (brace.moved origin) behind') := by
  have hlast : behind.length < closing.rest.length := by
    rw [h.rest]
    exact Nat.lt_succ_self _
  obtain ⟨hclosing, hopened, -⟩ := suffix_of_parts h.parameters h.opens h.body h.kind h.goes
  have hopenedLast := Nat.lt_of_lt_of_le hlast hclosing.length_le
  have hmidLast := Nat.lt_of_lt_of_le hopenedLast hopened.length_le
  let w (exact : Bool) : Window :=
    ⟨origin, before.nodes.size, brace, behind, behind', exact, h.kind, h.goes, hbehind'⟩
  obtain ⟨j, mid', hj, hparams, hmid⟩ := parameterList_elsewhere (w := w false) h.parameters rfl
    htokens htokens' rfl hempty hmidLast
  -- From here on nothing is hoisted yet in either place, so what is hoisted can be compared too.
  have hinner : Twin (w true) j { mid with hoisted := {} } { mid' with hoisted := {} } :=
    ⟨hmid.tokens, hmid.previousEnd, hmid.base, hmid.nodes, fun _ => rfl⟩
  obtain ⟨i, opened', -, hi, hopens, hopened⟩ := (mirrors_requirePunct (H := True) _).follows trivial
    _ _ _ _ hinner h.opens hopenedLast
  have hsub : SubMirrors (w true) j 0 (parseGoal deep) (parseGoal deep') :=
    subMirrors_parseGoal rfl (by omega)
  obtain ⟨l, closing', -, -, hbody, hclosing⟩ :=
    (mirrors_blockBody hsub _).follows (Nat.lt_of_succ_le (Nat.le_of_eq hi)) _ _ _ _ hopened h.body hlast
  have hcount := hclosing.length
  rw [h.rest, List.length_cons] at hcount
  obtain rfl : l = 0 := by
    have hsame : (w true).behind.length = behind.length := rfl
    omega
  obtain ⟨rest, hnil, -, hrest⟩ := hclosing.tokens
  obtain rfl := List.length_eq_zero_iff.1 hnil
  refine ⟨mid', opened', _, closing', ⟨hparams, hopens, hbody, hrest, h.kind, hbehind'⟩, ?_, ?_⟩
  · rw [hclosing.size, hclosing.hoisted rfl]
    rfl
  · constructor
    · rfl
    · have hspan : ({ mid'.current.span with
          stop := max (brace.moved origin).span.stop mid'.here } : Span) =
          Span.moved { mid.current.span with stop := max brace.span.stop mid.here } origin := by
        rw [State.here, State.here, hmid.current]
        exact (moved_upTo mid.current.span origin brace.span.stop).symm
      intro i
      unfold closeBody
      rw [hspan]
      exact (hclosing.push (.block statements) _).nodes i

/-- A function is read from the same tokens elsewhere. -/
theorem functionRest_elsewhere {depth : Nat} (hready : before.Ready)
    (hrun : functionRest (parseGoal depth) name before = .ok (function, after)) :
    ∃ paren ts brace, paren.kind = .punct .lParen ∧ brace.kind = .punct .rBrace ∧
      before.rest = paren :: ts ++ brace :: after.rest ∧ after.rest ≠ [] ∧
      after.previousEnd = brace.span.stop ∧
      ∀ (origin : Onset) (s' : State) (behind' : List Token) (deep' : Nat), behind' ≠ [] →
        8 * (ts.length + 1) ≤ deep' → s'.nodes = #[] →
        s'.rest = (paren :: ts).map (Token.moved origin) ++ brace.moved origin :: behind' →
          ∃ t', functionRest (parseGoal (deep' + 1)) name s' =
              .ok (function.moved before.nodes.size, t') ∧
            t'.rest = behind' ∧ Echoes origin before.nodes.size after t' := by
  obtain ⟨deep, params, mid, opened, statements, closing, brace, ts, hparts, htokens, rfl, hafter⟩ :=
    parts_of_functionRest hready hrun
  obtain ⟨paren, rest, rfl, hparen⟩ := cons_of_parameters hparts.parameters htokens hparts.kind
  refine ⟨paren, rest, brace, hparen, hparts.kind, htokens, hparts.goes, by rw [hafter]; rfl, ?_⟩
  intro origin s' behind' deep' hbehind' hdeep hempty htokens'
  obtain ⟨mid', opened', statements', closing', hparts', hfunction, hechoes⟩ :=
    hparts.elsewhere htokens hbehind' hdeep hempty htokens'
  rw [hfunction, hafter]
  exact ⟨_, hparts'.functionRest name, rfl, hechoes⟩

/-!
## An operand alone in parentheses

Between an operand and a closing parenthesis, or the end of the text, no operator is found. So an
operand that a parse finds there is the whole expression, and a text that is one operand in
parentheses is one statement.
-/

variable {α β : Type} {s t u : State} {x : Parsing α} {f : α → Parsing β} {a : α} {id : NodeId}

theorem bind_of_ok (h : x s = .ok (a, t)) : (x >>= f) s = f a t := by
  rw [bind_run, h]

/-! ## What does not come next -/

theorem acceptKeyword_of_ne {word : Keyword} (h : s.current.kind ≠ .keyword word) :
    acceptKeyword word s = .ok (false, s) := by
  have hcheck : checkKeyword word s = .ok (false, s) := by
    have hother : (s.current.kind == .keyword word) = false := beq_eq_false_iff_ne.2 h
    rw [← hother]
    rfl
  exact bind_of_ok hcheck

/-- A step that declines at once leaves what there is. -/
theorem loop_of_none {step : α → Parsing (Option α)} (h : step a s = .ok (none, s)) :
    loop a step s = .ok (a, s) := by
  have hiterate : iterate step (endToken :: s.rest) a s = .ok (a, s) := bind_of_ok h
  exact (bind_of_ok (x := get) rfl).trans hiterate

/-! ## Around an operand -/

/-- An operand may start here. -/
def Opens (t : Token) : Prop := t.kind = .punct .lParen ∨ t.kind = .keyword .function

/-- Nothing goes on here. -/
def Closes (t : Token) : Prop := t.kind = .punct .rParen ∨ t.kind = .eof

theorem Closes.ne_punct {token : Token} (h : Closes token) {p : Punctuator} (hp : p ≠ .rParen) :
    token.kind ≠ .punct p := by
  rcases h with h | h
  · rw [h]
    exact fun heq => hp (TokenKind.punct.inj heq).symm
  · rw [h]
    exact fun heq => by cases heq

variable {deep : Nat}

theorem memberStep_of_closes {sub : Sub} (start : Span) (owner : NodeId) (ht : Closes t.current) :
    memberStep sub start owner t = .ok (none, t) := by
  refine (bind_of_ok (acceptPunct_of_ne (ht.ne_punct (by decide)))).trans ?_
  exact bind_of_ok (acceptPunct_of_ne (ht.ne_punct (by decide)))

theorem member_of_primary (hs : Opens s.current) (ht : Closes t.current)
    (h : primary (parseGoal deep) s = .ok (id, t)) :
    parseGoal (deep + 1) .member s = .ok (id, t) := by
  have hnew : s.current.kind ≠ .keyword .new := by
    rcases hs with hs | hs <;> rw [hs] <;> exact fun heq => by cases heq
  refine (bind_of_ok (x := current) rfl).trans ?_
  refine (bind_of_ok (a := id) (t := t) ?_).trans ?_
  · exact (bind_of_ok (acceptKeyword_of_ne hnew)).trans h
  · exact loop_of_none (memberStep_of_closes _ _ ht)

theorem unary_of_member (hs : Opens s.current) (ht : Closes t.current)
    (h : parseGoal deep .member s = .ok (id, t)) :
    parseGoal (deep + 1) .unary s = .ok (id, t) := by
  have hcall : callExpression (parseGoal deep) s = .ok (id, t) := by
    refine (bind_of_ok (x := current) rfl).trans ((bind_of_ok h).trans ?_)
    apply loop_of_none
    refine (bind_of_ok (checkPunct_of_ne (ht.ne_punct (by decide)))).trans ?_
    exact memberStep_of_closes _ _ ht
  have hpostfixed : postfixed (parseGoal deep) s = .ok (id, t) := by
    refine (bind_of_ok (x := current) rfl).trans ((bind_of_ok hcall).trans ?_)
    refine (bind_of_ok (x := current) rfl).trans ?_
    rcases ht with ht | ht <;> rw [ht] <;> rfl
  refine (bind_of_ok (x := current) rfl).trans ?_
  rcases hs with hs | hs <;> rw [hs] <;> exact hpostfixed

theorem binary_of_unary (ht : Closes t.current) (least : Nat) (noIn : Bool)
    (h : parseGoal deep .unary s = .ok (id, t)) :
    parseGoal (deep + 1) (.binary least noIn) s = .ok (id, t) := by
  refine (bind_of_ok (x := current) rfl).trans ((bind_of_ok h).trans ?_)
  apply loop_of_none
  refine (bind_of_ok (x := current) rfl).trans ?_
  rcases ht with ht | ht <;> rw [ht] <;> rfl

theorem assignment_of_binary (ht : Closes t.current) (noIn : Bool)
    (h : parseGoal deep (.binary 1 noIn) s = .ok (id, t)) :
    parseGoal (deep + 1) (.assignment noIn) s = .ok (id, t) := by
  have hconditional : conditionalExpression (parseGoal deep) noIn s = .ok (id, t) := by
    refine (bind_of_ok (x := current) rfl).trans ((bind_of_ok h).trans ?_)
    exact bind_of_ok (acceptPunct_of_ne (ht.ne_punct (by decide)))
  refine (bind_of_ok (x := current) rfl).trans ((bind_of_ok hconditional).trans ?_)
  refine (bind_of_ok (x := current) rfl).trans ?_
  rcases ht with ht | ht <;> rw [ht] <;> rfl

theorem expression_of_assignment (ht : Closes t.current) (noIn : Bool)
    (h : parseGoal deep (.assignment noIn) s = .ok (id, t)) :
    parseGoal (deep + 1) (.expression noIn) s = .ok (id, t) := by
  refine (bind_of_ok (x := current) rfl).trans ((bind_of_ok h).trans ?_)
  exact bind_of_ok (checkPunct_of_ne (ht.ne_punct (by decide)))

/-- An operand with nothing behind it is a whole expression. -/
theorem expression_of_primary (hs : Opens s.current) (ht : Closes t.current) (noIn : Bool)
    (h : primary (parseGoal deep) s = .ok (id, t)) :
    parseGoal (deep + 5) (.expression noIn) s = .ok (id, t) := by
  have hmember := member_of_primary hs ht h
  have hunary := unary_of_member hs ht hmember
  have hbinary := binary_of_unary ht 1 noIn hunary
  have hassignment := assignment_of_binary ht noIn hbinary
  exact expression_of_assignment ht noIn hassignment

/-- What is in parentheses is an operand. -/
theorem primary_of_parens {left right next : Token} {rest behind : List Token}
    (hrest : s.rest = left :: rest) (hleft : left.kind = .punct .lParen) (hne : rest ≠ [])
    (h : parseGoal deep (.expression false) { s with rest, previousEnd := left.span.stop } =
      .ok (id, t)) (ht : t.rest = right :: next :: behind) (hright : right.kind = .punct .rParen) :
    primary (parseGoal deep) s =
      .ok (id, { t with rest := next :: behind, previousEnd := right.span.stop }) := by
  have hkind : s.current.kind = .punct .lParen := by
    rw [State.current, hrest]
    exact hleft
  refine (bind_of_ok (x := current) rfl).trans ?_
  rw [hkind]
  refine (bind_of_ok (advance_cons hrest hne)).trans ((bind_of_ok h).trans ?_)
  exact bind_of_ok (requirePunct_cons ht (List.cons_ne_nil _ _) hright)

theorem primary_of_function (h : s.current.kind = .keyword .function) :
    primary (parseGoal deep) s = functionExpression (parseGoal deep) s := by
  refine (bind_of_ok (x := current) rfl).trans ?_
  rw [h]

theorem bindingName_cons {word : Token} {name : String} {rest : List Token}
    (hrest : s.rest = word :: rest) (hne : rest ≠ []) (hword : word.kind = .identifier name)
    (hname : isRestricted name = false) :
    bindingName s = .ok (name, { s with rest, previousEnd := word.span.stop }) := by
  have hkind : s.current.kind = .identifier name := by
    rw [State.current, hrest]
    exact hword
  refine (bind_of_ok (x := current) rfl).trans ?_
  rw [hkind]
  dsimp only
  rw [hname]
  exact bind_of_ok (advance_cons hrest hne)

/-- A function stands behind its head. -/
theorem functionExpression_of_rest {name : Option String} {head rest : List Token} {paren : Token}
    {function : FunctionNode} {P : State → Prop} (hhead : Head name head)
    (hrest : s.rest = head ++ paren :: rest) (hparen : paren.kind = .punct .lParen)
    (h : ∀ past, ∃ t, functionRest (parseGoal deep) name
      { s with rest := paren :: rest, previousEnd := past } = .ok (function, t) ∧ P t) :
    ∃ t, P t ∧ functionExpression (parseGoal deep) s = .ok (t.nodes.size,
      { t with nodes := t.nodes.push ⟨.functionExpression function, s.spanTo t⟩ }) := by
  have hpush {name : Option String} {s' : State} {t : State}
      (hrun : functionRest (parseGoal deep) name s' = .ok (function, t)) :
      (functionRest (parseGoal deep) name >>= fun function =>
        pushFrom s.current.span (.functionExpression function)) s' = .ok (t.nodes.size,
          { t with nodes := t.nodes.push ⟨.functionExpression function, s.spanTo t⟩ }) :=
    bind_of_ok hrun
  cases hhead with
  | @anonymous keyword hkeyword =>
    obtain ⟨t, hrun, ht⟩ := h keyword.span.stop
    refine ⟨t, ht, ?_⟩
    refine (bind_of_ok (x := current) rfl).trans ?_
    refine (bind_of_ok (advance_cons hrest (List.cons_ne_nil _ _))).trans ?_
    refine Eq.trans (bind_of_ok (a := none) ?_) (hpush hrun)
    exact bind_of_ok
      (checkPunct_of_kind (s := { s with rest := paren :: rest, previousEnd := _ }) hparen)
  | @named keyword word name hkeyword hword hname =>
    obtain ⟨t, hrun, ht⟩ := h word.span.stop
    refine ⟨t, ht, ?_⟩
    refine (bind_of_ok (x := current) rfl).trans ?_
    refine (bind_of_ok (advance_cons hrest (List.cons_ne_nil _ _))).trans ?_
    refine Eq.trans (bind_of_ok (a := some name) ?_) (hpush hrun)
    have hother : word.kind ≠ .punct .lParen := hword ▸ fun heq => by cases heq
    refine (bind_of_ok (checkPunct_of_ne
      (s := { s with rest := word :: paren :: rest, previousEnd := _ }) hother)).trans ?_
    exact bind_of_ok (bindingName_cons rfl (List.cons_ne_nil _ _) hword hname)

/-! ## A text of one expression -/

/-- A step that is taken once and then declines. -/
theorem iterate_of_one {β : Type} {step : β → Parsing (Option β)} {first last : β} {token : Token}
    {rest : List Token} (h : step first s = .ok (some last, t))
    (hend : step last t = .ok (none, t)) :
    iterate step (endToken :: token :: rest) first s = .ok (last, t) :=
  (bind_of_ok (a := some last) h).trans (bind_of_ok (a := none) hend)

theorem many_of_one {step : Parsing (Option α)} (hne : s.rest ≠ [])
    (h : step s = .ok (some a, t)) (hend : step t = .ok (none, t)) :
    many step s = .ok ([a], t) := by
  obtain ⟨token, rest, hrest⟩ := List.exists_cons_of_ne_nil hne
  refine bind_of_ok (a := [a]) (t := t) ((bind_of_ok (x := get) rfl).trans ?_)
  rw [hrest]
  exact iterate_of_one (bind_of_ok h) (bind_of_ok hend)

/-- Without a semicolon a statement ends where the text does. -/
theorem endStatement_of_eof (ht : t.current.kind = .eof) : endStatement t = .ok ((), t) := by
  have hsemicolon : t.current.kind ≠ .punct .semicolon := ht ▸ fun heq => by cases heq
  have hend : atStatementEnd t = .ok (true, t) := by
    have hended : (t.current.newlineBefore || t.current.kind == .punct .semicolon ||
        t.current.kind == .punct .rBrace || t.current.kind == .eof) = true := by
      rw [ht]
      simp
    rw [← hended]
    rfl
  exact (bind_of_ok (acceptPunct_of_ne hsemicolon)).trans (bind_of_ok hend)

theorem atEnd_of_kind (ht : t.current.kind = .eof) : atEnd t = .ok (true, t) := by
  have hended : (t.current.kind == .eof) = true := beq_iff_eq.2 ht
  rw [← hended]
  rfl

theorem atEnd_of_ne (ht : t.current.kind ≠ .eof) : atEnd t = .ok (false, t) := by
  have hother : (t.current.kind == .eof) = false := beq_eq_false_iff_ne.2 ht
  rw [← hother]
  rfl

/-- A text that is an expression in parentheses is one statement. -/
theorem programRoot_of_expression {left ended : Token} {rest : List Token} {expression : NodeId}
    (hrest : s.rest = left :: rest) (hleft : left.kind = .punct .lParen)
    (h : parseGoal deep (.expression false) s = .ok (expression, t)) (ht : t.rest = [ended])
    (hended : ended.kind = .eof) :
    programRoot (parseGoal (deep + 1)) s = .ok (t.nodes.size + 1, { t with
      nodes := (t.nodes.push ⟨.expressionStatement expression, s.spanTo t⟩).push
        ⟨.program [t.nodes.size] t.hoisted, s.spanTo t⟩ }) := by
  have hs : s.current.kind = .punct .lParen := by
    rw [State.current, hrest]
    exact hleft
  have hcurrent : t.current.kind = .eof := by
    rw [State.current, ht]
    exact hended
  have hlabel : atLabel s = .ok (false, s) := by
    obtain ⟨kind, span, newline⟩ := left
    cases hleft
    rw [atLabel_eq, hrest]
    rfl
  let u : State := { t with nodes := t.nodes.push ⟨.expressionStatement expression, s.spanTo t⟩ }
  have hstatement : parseGoal (deep + 1) (.statement {}) s = .ok (t.nodes.size, u) := by
    refine (bind_of_ok (x := current) rfl).trans ?_
    rw [hs]
    refine (bind_of_ok hlabel).trans ?_
    refine (bind_of_ok (x := current) rfl).trans ((bind_of_ok h).trans ?_)
    exact bind_of_ok (endStatement_of_eof hcurrent)
  have hbegins : s.current.kind ≠ .eof := hs ▸ fun heq => by cases heq
  have hne : s.rest ≠ [] := hrest ▸ List.cons_ne_nil _ _
  refine (bind_of_ok (x := current) rfl).trans ?_
  refine (bind_of_ok (a := [t.nodes.size]) (t := u) ?_).trans ?_
  · apply many_of_one hne
    · exact (bind_of_ok (atEnd_of_ne hbegins)).trans (bind_of_ok hstatement)
    · exact bind_of_ok (atEnd_of_kind (t := u) hcurrent)
  · have hsize : u.nodes.size = t.nodes.size + 1 := Array.size_push _
    rw [← hsize]
    rfl

/-- A text that is a function in parentheses is one statement, and three nodes are put on top of those
of the function. -/
theorem programRoot_of_function {left paren right ended : Token} {head rest : List Token}
    {name : Option String} {function : FunctionNode} {P : Array Node → Prop}
    (hrest : s.rest = left :: (head ++ paren :: rest)) (hleft : left.kind = .punct .lParen)
    (hhead : Head name head) (hparen : paren.kind = .punct .lParen)
    (hright : right.kind = .punct .rParen) (hended : ended.kind = .eof)
    (h : ∀ s' : State, s'.rest = paren :: rest → s'.nodes = s.nodes →
      ∃ t, functionRest (parseGoal deep) name s' = .ok (function, t) ∧ t.rest = [right, ended] ∧
        P t.nodes) :
    ∃ (nodes : Array Node) (hoisted : Hoisted) (inner outer whole : Span) (u : State), P nodes ∧
      programRoot (parseGoal (deep + 11)) s = .ok (nodes.size + 2, u) ∧
      u.nodes = ((nodes.push ⟨.functionExpression function, inner⟩).push
        ⟨.expressionStatement nodes.size, outer⟩).push ⟨.program [nodes.size + 1] hoisted, whole⟩ := by
  let inside : State := { s with rest := head ++ paren :: rest, previousEnd := left.span.stop }
  obtain ⟨t, ⟨ht, hP⟩, hfunction⟩ := functionExpression_of_rest (s := inside) hhead rfl hparen
    (P := fun t => t.rest = [right, ended] ∧ P t.nodes) fun past => h _ rfl rfl
  let read : State :=
    { t with nodes := t.nodes.push ⟨.functionExpression function, inside.spanTo t⟩ }
  have hkind : inside.current.kind = .keyword .function := by
    cases hhead with
    | anonymous hkeyword => exact hkeyword
    | named hkeyword _ _ => exact hkeyword
  have hinner : Closes read.current := by
    left
    change (t.rest.headD endToken).kind = _
    rw [ht]
    exact hright
  have hread : parseGoal (deep + 5) (.expression false) inside = .ok (t.nodes.size, read) :=
    expression_of_primary (.inr hkind) hinner false ((primary_of_function hkind).trans hfunction)
  have hprimary := primary_of_parens hrest hleft (by simp) hread ht hright
  have hopens : Opens s.current := by
    left
    rw [State.current, hrest]
    exact hleft
  have hcloses : Closes ({ read with rest := [ended], previousEnd := right.span.stop } : State).current :=
    .inr hended
  have houter := expression_of_primary hopens hcloses false hprimary
  have hroot := programRoot_of_expression hrest hleft houter rfl hended
  have hsize : read.nodes.size = t.nodes.size + 1 := Array.size_push _
  dsimp only at hroot
  rw [hsize] at hroot
  exact ⟨t.nodes, _, _, _, _, _, hP, hroot, rfl⟩

end ScriptMachine.Tree.Parser
