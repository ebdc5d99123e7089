import ScriptMachine.Proofs.Reparse.Expression

/-!
# Statements elsewhere

The productions of statements, and the whole recursion: a stretch of tokens that ends with a closing
brace is read in the same way in both places if the second parse may go as deep as the tokens of the
stretch need.
-/

namespace ScriptMachine.Tree.Parser

open ScriptMachine.Source

variable {w : Window} {H : Prop} {n r j k : Nat} {sub sub' : Sub}

/-- The statements of a block. -/
def blockBody (sub : Sub) (scope : JumpScope) : Parsing (List NodeId) :=
  many do
    if (← checkPunct .rBrace) || (← atEnd) then return none
    return some (← sub (.statement scope))

theorem blockStatement_eq (sub : Sub) (scope : JumpScope) :
    blockStatement sub scope = (do
      let start := (← current).span
      requirePunct .lBrace
      let body ← blockBody sub scope
      requirePunct .rBrace
      pushFrom start (.block body)) :=
  rfl

theorem mirrors_blockBody (hsub : SubMirrors w n r sub sub') (scope : JumpScope) :
    Mirrors w (k < n) k (List.map w.move) (fun _ _ => True) (blockBody sub scope)
      (blockBody sub' scope) := by
  refine mirrors_many fun l => ?_
  refine (mirrors_checkPunct .rBrace).bindSame fun closed a => mirrors_atEnd.bindSame fun ended b => ?_
  cases closed || ended with
  | true => exact mirrors_pure none fun _ hnone => absurd rfl hnone
  | false =>
    refine (hsub.behind (.statement scope) fun h => ?_).bind fun id c =>
      mirrors_pure (some id) fun h _ => ?_
    · omega
    · omega

theorem mirrors_blockStatement (hsub : SubMirrors w n r sub sub') (scope : JumpScope) :
    Mirrors w (k ≤ n) k w.move (w.Read k) (blockStatement sub scope) (blockStatement sub' scope) := by
  rw [blockStatement_eq, blockStatement_eq]
  refine mirrors_current.bind fun t i => (mirrors_requirePunct .lBrace).bindSame fun _ j => ?_
  refine ((mirrors_blockBody hsub scope).pre fun h => ?_).bind fun body l =>
    (mirrors_requirePunct .rBrace).bindSame fun _ a =>
      mirrors_node t.span (.block body) fun h => by omega
  omega

theorem mirrors_varDeclaration (hsub : SubMirrors w n r sub sub') (noIn : Bool) :
    Mirrors w (k ≤ n) k w.move (w.Read k) (varDeclaration sub noIn) (varDeclaration sub' noIn) := by
  refine mirrors_current.bind fun t i => (mirrors_requireKeyword .var).bindSame fun _ j => ?_
  refine (mirrors_commaSeparated (m := w.move) fun l => ?_).bind fun declarations l =>
    mirrors_node t.span (.varDeclaration declarations) fun h => by omega
  refine mirrors_current.bind fun place a => mirrors_bindingName.bindSame fun name b =>
    (mirrors_hoistVar name).bindSame fun _ c => ?_
  refine Mirrors.bind (m := Option.map w.move) (Q := fun _ d => d ≤ c) ?_ fun init d =>
    (mirrors_pushFrom place.span (.varDeclarator name init)).post fun id e h he _ => ?_
  · refine (mirrors_acceptPunct .eq).bindSame fun found d => ?_
    cases found with
    | true =>
      refine (hsub.behind (.assignment noIn) fun h => ?_).optional.post fun _ e h he _ => ?_
      · omega
      · omega
    | false => exact mirrors_pure none fun h => h.2.1
  · omega

theorem mirrors_functionDeclaration (hexact : w.exact = true) (hsub : SubMirrors w n r sub sub') :
    Mirrors w (k ≤ n) k w.move (w.Read k) (functionDeclaration sub) (functionDeclaration sub') := by
  refine mirrors_current.bind fun t i => (mirrors_requireKeyword .function).bindSame fun _ j =>
    mirrors_bindingName.bindSame fun name l => ?_
  refine ((mirrors_functionRest hexact hsub (some name)).pre fun h => ?_).bind fun function a => ?_
  · omega
  refine (mirrors_pushFrom t.span (.functionDeclaration function)).bind fun id b =>
    (mirrors_hoistFunction id).bindSame fun _ c => mirrors_pure id fun h => ?_
  exact ⟨h.1.2.2.1, by omega⟩

theorem mirrors_parenthesized (hsub : SubMirrors w n r sub sub') :
    Mirrors w (k ≤ n) k w.move (w.Read k) (parenthesized sub) (parenthesized sub') := by
  refine (mirrors_requirePunct .lParen).bindSame fun _ i => ?_
  refine (hsub.behind (.expression false) fun h => ?_).bind fun inner j =>
    (mirrors_requirePunct .rParen).bindSame fun _ l => mirrors_pure inner fun h => ?_
  · omega
  · exact ⟨h.1.2.2.1, by omega⟩

theorem mirrors_ifStatement (hsub : SubMirrors w n r sub sub') (scope : JumpScope) :
    Mirrors w (k ≤ n) k w.move (w.Read k) (ifStatement sub scope) (ifStatement sub' scope) := by
  refine mirrors_current.bind fun t i => (mirrors_requireKeyword .if).bindSame fun _ j => ?_
  refine ((mirrors_parenthesized hsub).pre fun h => ?_).bind fun test l =>
    (hsub.behind (.statement scope) fun h => ?_).bind fun consequent a => ?_
  · omega
  · omega
  refine Mirrors.bind (m := Option.map w.move) (Q := fun _ b => b ≤ a) ?_ fun alternate b =>
    mirrors_node t.span (.ifStatement test consequent alternate) fun h => by omega
  refine (mirrors_acceptKeyword .else).bindSame fun found b => ?_
  cases found with
  | true =>
    refine (hsub.behind (.statement scope) fun h => ?_).optional.post fun _ c h hc _ => ?_
    · omega
    · omega
  | false => exact mirrors_pure none fun h => h.2.1

theorem mirrors_checkForInTarget {left : NodeId} (hleft : H → w.base ≤ left) :
    Mirrors w H k id (fun _ j => j = k) (checkForInTarget left) (checkForInTarget (w.move left)) := by
  refine (mirrors_kindOf? hleft).bind fun kind j => ?_
  cases kind with
  | none => exact (refuses_fail _).mirrors
  | some kind =>
    cases kind with
    | varDeclaration declarations =>
      dsimp only [Option.map, NodeKind.moved]
      rw [List.length_map]
      cases declarations.length == 1 with
      | true => exact mirrors_same () fun h => h.2.2
      | false => exact (refuses_fail _).mirrors
    | identifier name => exact mirrors_same () fun h => h.2.2
    | member owner property => exact mirrors_same () fun h => h.2.2
    | _ => exact (refuses_fail _).mirrors

theorem mirrors_optionalExpression (hsub : SubMirrors w n r sub sub') (close : Punctuator) :
    Mirrors w (k < n) k (Option.map w.move) (fun _ j => j ≤ k) (optionalExpression sub close)
      (optionalExpression sub' close) := by
  refine (mirrors_checkPunct close).bindSame fun found j => ?_
  cases found with
  | true => exact mirrors_pure none fun h => h.2.1
  | false =>
    refine (hsub.behind (.expression false) fun h => ?_).optional.post fun _ i h hi _ => ?_
    · omega
    · omega

/-- The head of a loop behind its first part, and the body. -/
def forRest (sub : Sub) (scope : JumpScope) (start : Span) (init : Option NodeId) :
    Parsing NodeId := do
  requirePunct .semicolon
  let test ← optionalExpression sub .semicolon
  requirePunct .semicolon
  let update ← optionalExpression sub .rParen
  requirePunct .rParen
  let body ← loopBody sub scope
  pushFrom start (.forStatement init test update body)

theorem mirrors_forRest (hsub : SubMirrors w n r sub sub') (scope : JumpScope) (start : Span)
    (init : Option NodeId) :
    Mirrors w (k ≤ n) k w.move (w.Read k) (forRest sub scope start init)
      (forRest sub' scope (start.moved w.origin) (init.map w.move)) := by
  refine (mirrors_requirePunct .semicolon).bindSame fun _ i =>
    ((mirrors_optionalExpression hsub .semicolon).pre fun h => ?_).bind fun test j =>
      (mirrors_requirePunct .semicolon).bindSame fun _ l =>
        ((mirrors_optionalExpression hsub .rParen).pre fun h => ?_).bind fun next a =>
          (mirrors_requirePunct .rParen).bindSame fun _ b =>
            (hsub.behind (.statement { scope with inLoop := true }) fun h => ?_).bind fun body c =>
              mirrors_node start (.forStatement init test next body) fun h => by omega
  · omega
  · omega
  · omega

theorem mirrors_forStatement (hsub : SubMirrors w n r sub sub') (scope : JumpScope) :
    Mirrors w (k ≤ n) k w.move (w.Read k) (forStatement sub scope) (forStatement sub' scope) := by
  refine mirrors_current.bind fun t i => (mirrors_requireKeyword .for).bindSame fun _ j =>
    (mirrors_requirePunct .lParen).bindSame fun _ l => ?_
  refine Mirrors.bind (m := Option.map w.move)
    (Q := fun left a => a ≤ l ∧ ∀ id, left = some id → w.base ≤ id) ?_ fun left a =>
      (mirrors_checkKeyword .in).bindSame fun found b => ?_
  · refine (mirrors_checkPunct .semicolon).bindSame fun found a => ?_
    cases found with
    | true => exact mirrors_pure none fun h => ⟨h.2.1, by simp⟩
    | false =>
      refine (mirrors_checkKeyword .var).bindSame fun found b => ?_
      cases found with
      | true =>
        refine ((mirrors_varDeclaration hsub true).pre fun h => ?_).bind fun id c =>
          mirrors_pure (some id) fun h => ⟨by omega, ?_⟩
        · omega
        · rintro _ ⟨⟩
          exact h.2.2.1
      | false =>
        refine (hsub.behind (.expression true) fun h => ?_).bind fun id c =>
          mirrors_pure (some id) fun h => ⟨by omega, ?_⟩
        · omega
        · rintro _ ⟨⟩
          exact h.2.2.1
  · have hrest : Mirrors w
        (((((k ≤ n ∧ i ≤ k ∧ i = k) ∧ j ≤ i ∧ j + 1 = i) ∧ l ≤ j ∧ l + 1 = j) ∧
          a ≤ l ∧ a ≤ l ∧ ∀ id, left = some id → w.base ≤ id) ∧ b ≤ a ∧ b = a) b w.move (w.Read k)
        (forRest sub scope t.span left)
        (forRest sub' scope (t.span.moved w.origin) (left.map w.move)) := by
      refine ((mirrors_forRest hsub scope t.span left).pre fun h => ?_).post
        fun id c h _ hread => ⟨hread.1, ?_⟩
      · omega
      · omega
    cases found with
    | true =>
      cases left with
      | none => exact hrest
      | some left =>
        refine mirrors_advance.bindSame fun _ c =>
          (mirrors_checkForInTarget fun h => ?_).bindSame fun _ d =>
            (hsub.behind (.expression false) fun h => ?_).bind fun right e =>
              (mirrors_requirePunct .rParen).bindSame fun _ f =>
                (hsub.behind (.statement { scope with inLoop := true }) fun h => ?_).bind fun body q =>
                  mirrors_node t.span (.forInStatement left right body) fun h => by omega
        · exact h.1.1.2.2.2 left rfl
        · omega
        · omega
    | false => cases left <;> exact hrest

theorem mirrors_whileStatement (hsub : SubMirrors w n r sub sub') (scope : JumpScope) :
    Mirrors w (k ≤ n) k w.move (w.Read k) (whileStatement sub scope) (whileStatement sub' scope) := by
  refine mirrors_current.bind fun t i => (mirrors_requireKeyword .while).bindSame fun _ j => ?_
  refine ((mirrors_parenthesized hsub).pre fun h => ?_).bind fun test l =>
    (hsub.behind (.statement { scope with inLoop := true }) fun h => ?_).bind fun body a =>
      mirrors_node t.span (.whileStatement test body) fun h => by omega
  · omega
  · omega

theorem mirrors_doWhileStatement (hsub : SubMirrors w n r sub sub') (scope : JumpScope) :
    Mirrors w (k ≤ n) k w.move (w.Read k) (doWhileStatement sub scope)
      (doWhileStatement sub' scope) := by
  refine mirrors_current.bind fun t i => (mirrors_requireKeyword .do).bindSame fun _ j => ?_
  refine (hsub.behind (.statement { scope with inLoop := true }) fun h => ?_).bind fun body l =>
    (mirrors_requireKeyword .while).bindSame fun _ a =>
      ((mirrors_parenthesized hsub).pre fun h => ?_).bind fun test b =>
        (mirrors_acceptPunct .semicolon).bindSame fun _ c =>
          mirrors_node t.span (.doWhileStatement body test) fun h => by omega
  · omega
  · omega

theorem mirrors_atClauseEnd : Mirrors w H k id (fun _ j => j = k) atClauseEnd atClauseEnd :=
  mirrors_current.bind fun _ _ => mirrors_same _ fun h => h.2.2

theorem any_test_moved (seen : List SwitchCase) (base : NodeId) :
    (seen.map (SwitchCase.moved base)).any (fun c => c.test.isNone) =
      seen.any (fun c => c.test.isNone) := by
  rw [List.any_map]
  congr
  funext c
  exact Option.isNone_map

theorem mirrors_switchCases (hsub : SubMirrors w n r sub sub') (scope : JumpScope) :
    Mirrors w (k < n) k (List.map (SwitchCase.moved w.base)) (fun _ j => j ≤ k)
      (switchCases sub scope) (switchCases sub' scope) := by
  have hreverse (cases : List SwitchCase) (l : Nat) :
      Mirrors w (k < n ∧ l ≤ k ∧ l ≤ k) l (List.map (SwitchCase.moved w.base)) (fun _ j => j ≤ k)
        (pure cases.reverse) (pure (cases.map (SwitchCase.moved w.base)).reverse) := by
    rw [← List.map_reverse]
    exact mirrors_pure cases.reverse fun h => h.2.1
  refine Mirrors.bind (Q := fun _ l => l ≤ k) ?_ hreverse
  refine (mirrors_loop (P := fun (_ : List SwitchCase) l => l ≤ k ∧ k < n) (a := []) (fun seen l => ?_)
    fun h => ?_).post fun _ l _ hl _ => hl
  · refine (mirrors_acceptPunct .rBrace).bindSame fun closed a => ?_
    cases closed with
    | true => exact mirrors_pure none fun h => ⟨by omega, by omega⟩
    | false =>
      refine Mirrors.bind (m := Option.map w.move) (Q := fun _ b => b < a) ?_ fun test b =>
        (mirrors_requirePunct .colon).bindSame fun _ c => ?_
      · refine (mirrors_acceptKeyword .case).bindSame fun found b => ?_
        cases found with
        | true =>
          refine (hsub.behind (.expression false) fun h => ?_).bind fun id c =>
            mirrors_pure (some id) fun h => ?_
          · omega
          · omega
        | false =>
          refine (mirrors_checkKeyword .default).bindSame fun found c => ?_
          cases found with
          | true =>
            rw [any_test_moved]
            cases seen.any fun c => c.test.isNone with
            | true => exact ((refuses_fail _).bind _).mirrors
            | false =>
              refine mirrors_advance.bindSame fun _ d => mirrors_pure none fun h => ?_
              omega
          | false => exact (refuses_unexpected _).mirrors
      · refine (mirrors_many (m := w.move) fun d => ?_).bind fun consequent d =>
          mirrors_pure (some (⟨test, consequent⟩ :: seen)) fun h => ⟨by omega, by omega⟩
        refine mirrors_atClauseEnd.bindSame fun ended e => ?_
        cases ended with
        | true => exact mirrors_pure none fun _ hnone => absurd rfl hnone
        | false =>
          refine (hsub.behind (.statement scope) fun h => ?_).bind fun id f =>
            mirrors_pure (some id) fun h _ => ?_
          · omega
          · omega
  · omega

theorem mirrors_switchStatement (hsub : SubMirrors w n r sub sub') (scope : JumpScope) :
    Mirrors w (k ≤ n) k w.move (w.Read k) (switchStatement sub scope)
      (switchStatement sub' scope) := by
  refine mirrors_current.bind fun t i => (mirrors_requireKeyword .switch).bindSame fun _ j => ?_
  refine ((mirrors_parenthesized hsub).pre fun h => ?_).bind fun discriminant l =>
    (mirrors_requirePunct .lBrace).bindSame fun _ a =>
      ((mirrors_switchCases hsub _).pre fun h => ?_).bind fun cases b =>
        mirrors_node t.span (.switchStatement discriminant cases) fun h => by omega
  · omega
  · omega

theorem mirrors_tryStatement (hsub : SubMirrors w n r sub sub') (scope : JumpScope) :
    Mirrors w (k ≤ n) k w.move (w.Read k) (tryStatement sub scope) (tryStatement sub' scope) := by
  refine mirrors_current.bind fun t i => (mirrors_requireKeyword .try).bindSame fun _ j =>
    (hsub.behind (.block scope) fun h => ?_).bind fun block l => ?_
  · omega
  refine Mirrors.bind (m := Option.map (CatchClause.moved w.base)) (Q := fun _ a => a ≤ l) ?_
    fun handler a => Mirrors.bind (m := Option.map w.move) (Q := fun _ b => b ≤ a) ?_
      fun finalizer b => ?_
  · refine (mirrors_acceptKeyword .catch).bindSame fun found a => ?_
    cases found with
    | true =>
      refine (mirrors_requirePunct .lParen).bindSame fun _ b =>
        mirrors_bindingName.bindSame fun param c =>
          (mirrors_requirePunct .rParen).bindSame fun _ d =>
            (hsub.behind (.block scope) fun h => ?_).bind fun body e =>
              mirrors_pure (some (CatchClause.mk param body)) fun h => ?_
      · omega
      · omega
    | false => exact mirrors_pure none fun h => h.2.1
  · refine (mirrors_acceptKeyword .finally).bindSame fun found b => ?_
    cases found with
    | true =>
      refine (hsub.behind (.block scope) fun h => ?_).optional.post fun _ c h hc _ => ?_
      · omega
      · omega
    | false => exact mirrors_pure none fun h => h.2.1
  · rw [Option.isNone_map, Option.isNone_map]
    cases handler.isNone && finalizer.isNone with
    | true => exact ((refuses_fail _).bind _).mirrors
    | false => exact mirrors_node t.span (.tryStatement block handler finalizer) fun h => by omega

theorem mirrors_returnStatement (hsub : SubMirrors w n r sub sub') (scope : JumpScope) :
    Mirrors w (k ≤ n) k w.move (w.Read k) (returnStatement sub scope)
      (returnStatement sub' scope) := by
  refine mirrors_current.bind fun t i => ?_
  cases scope.inFunction with
  | false => exact ((refuses_fail _).bind _).mirrors
  | true =>
    refine (mirrors_requireKeyword .return).bindSame fun _ j => ?_
    refine Mirrors.bind (m := Option.map w.move) (Q := fun _ l => l ≤ j) ?_ fun argument l =>
      mirrors_endStatement.bindSame fun _ a =>
        mirrors_node t.span (.returnStatement argument) fun h => by omega
    refine mirrors_atStatementEnd.bindSame fun ended l => ?_
    cases ended with
    | true => exact mirrors_pure none fun h => h.2.1
    | false =>
      refine (hsub.behind (.expression false) fun h => ?_).optional.post fun _ a h ha _ => ?_
      · omega
      · omega

theorem mirrors_jumpLabel : Mirrors w H k id (fun _ j => j ≤ k) jumpLabel jumpLabel := by
  refine mirrors_current.bind fun t j => ?_
  obtain ⟨kind, span, newline⟩ := t
  cases newline with
  | true => exact mirrors_same none fun h => h.2.1
  | false =>
    cases kind with
    | identifier name =>
      refine mirrors_advance.bindSame fun _ i => mirrors_same (some name) fun h => ?_
      omega
    | _ => exact mirrors_same none fun h => h.2.1

/-- A jump ends behind its label. -/
theorem mirrors_jumpEnd (start : Span) (kind : NodeKind) (hkind : kind.moved w.base = kind)
    (h : H → k < j) :
    Mirrors w H k w.move (w.Read j) (endStatement >>= fun _ => pushFrom start kind)
      (endStatement >>= fun _ => pushFrom (start.moved w.origin) kind) := by
  refine mirrors_endStatement.bindSame fun _ i => ?_
  have hnode := mirrors_node (w := w) (H := H ∧ i ≤ k ∧ True) (k := i) (j := j) start kind
    fun h' => Nat.lt_of_le_of_lt h'.2.1 (h h'.1)
  rw [hkind] at hnode
  exact hnode

theorem mirrors_breakStatement (scope : JumpScope) :
    Mirrors w H k w.move (w.Read k) (breakStatement scope) (breakStatement scope) := by
  refine mirrors_current.bind fun t i => (mirrors_requireKeyword .break).bindSame fun _ j =>
    mirrors_jumpLabel.bindSame fun label l => ?_
  cases label with
  | some name =>
    dsimp only [id]
    cases scope.labels.any fun label => label.1 == name with
    | true => exact mirrors_jumpEnd t.span _ rfl fun h => by omega
    | false => exact ((refuses_fail _).bind _).mirrors
  | none =>
    dsimp only [id]
    cases scope.inLoop || scope.inSwitch with
    | true => exact mirrors_jumpEnd t.span _ rfl fun h => by omega
    | false => exact ((refuses_fail _).bind _).mirrors

theorem mirrors_continueStatement (scope : JumpScope) :
    Mirrors w H k w.move (w.Read k) (continueStatement scope) (continueStatement scope) := by
  refine mirrors_current.bind fun t i => (mirrors_requireKeyword .continue).bindSame fun _ j =>
    mirrors_jumpLabel.bindSame fun label l => ?_
  cases label with
  | some name =>
    dsimp only [id]
    cases scope.labels.contains (name, true) with
    | true => exact mirrors_jumpEnd t.span _ rfl fun h => by omega
    | false => exact ((refuses_fail _).bind _).mirrors
  | none =>
    dsimp only [id]
    cases scope.inLoop with
    | true => exact mirrors_jumpEnd t.span _ rfl fun h => by omega
    | false => exact ((refuses_fail _).bind _).mirrors

theorem mirrors_throwStatement (hsub : SubMirrors w n r sub sub') :
    Mirrors w (k ≤ n) k w.move (w.Read k) (throwStatement sub) (throwStatement sub') := by
  refine mirrors_current.bind fun t i => (mirrors_requireKeyword .throw).bindSame fun _ j =>
    mirrors_current.bind fun next l => ?_
  have hnewline : (next.moved w.origin).newlineBefore = next.newlineBefore := rfl
  rw [hnewline]
  cases next.newlineBefore with
  | true => exact ((refuses_fail _).bind _).mirrors
  | false =>
    refine (hsub.behind (.expression false) fun h => ?_).bind fun argument a =>
      mirrors_endStatement.bindSame fun _ b =>
        mirrors_node t.span (.throwStatement argument) fun h => by omega
    omega

/-! ## Labels -/

section Labels
variable (origin : Onset) (span span' : Span) (newline newline' : Bool) (behind behind' : List Token)

/-- Whether labels stand in front of a loop is decided in front of the closing brace. -/
theorem labelsLoop_moved : ∀ ts : List Token,
    labelsLoop (ts.map (Token.moved origin) ++ ⟨.punct .rBrace, span', newline'⟩ :: behind') =
      labelsLoop (ts ++ ⟨.punct .rBrace, span, newline⟩ :: behind)
  | [] => rfl
  | ⟨kind, _, _⟩ :: ts => by
      cases kind with
      | keyword word => cases word <;> rfl
      | identifier name =>
        cases ts with
        | nil => rfl
        | cons next ts =>
          obtain ⟨kind, _, _⟩ := next
          cases kind with
          | punct p =>
            cases p with
            | colon => exact labelsLoop_moved ts
            | _ => rfl
          | _ => rfl
      | _ => rfl

/-- Whether the tokens start with a name in front of a colon. -/
def startsLabel : List Token → Bool
  | ⟨.identifier _, _, _⟩ :: ⟨.punct .colon, _, _⟩ :: _ => true
  | _ => false

theorem startsLabel_moved : ∀ ts : List Token,
    startsLabel (ts.map (Token.moved origin) ++ ⟨.punct .rBrace, span', newline'⟩ :: behind') =
      startsLabel (ts ++ ⟨.punct .rBrace, span, newline⟩ :: behind)
  | [] => rfl
  | [⟨kind, _, _⟩] => by cases kind <;> rfl
  | ⟨kind, _, _⟩ :: ⟨kind', _, _⟩ :: ts => by
      cases kind with
      | identifier name =>
        cases kind' with
        | punct p => cases p <;> rfl
        | _ => rfl
      | _ => rfl

end Labels

theorem atLabel_eq (s : State) : atLabel s = .ok (startsLabel s.rest, s) := by
  obtain ⟨source, rest, past, nodes, hoisted⟩ := s
  change (match rest with
    | ⟨.identifier _, _, _⟩ :: ⟨.punct .colon, _, _⟩ :: _ => pure true
    | _ => pure false : Parsing Bool) ⟨source, rest, past, nodes, hoisted⟩ = _
  unfold startsLabel
  split <;> rfl

theorem Window.last_eq (w : Window) :
    w.last = ⟨.punct .rBrace, w.last.span, w.last.newlineBefore⟩ := by
  rw [← w.brace]

theorem mirrors_atLabel : Mirrors w H k id (fun _ j => j = k) atLabel atLabel := by
  apply mirrors_look (fun s => startsLabel s.rest) (fun s => startsLabel s.rest) atLabel_eq atLabel_eq
  intro _ s s' hs
  obtain ⟨ts, -, hrest, hrest'⟩ := hs.tokens
  rw [hrest, hrest', w.last_eq]
  apply startsLabel_moved

theorem mirrors_labelsLoop :
    Mirrors w H k id (fun _ j => j = k) (do return labelsLoop (← get).rest)
      (do return labelsLoop (← get).rest) := by
  apply mirrors_look (fun s => labelsLoop s.rest) (fun s => labelsLoop s.rest) (fun _ => rfl)
    (fun _ => rfl)
  intro _ s s' hs
  obtain ⟨ts, -, hrest, hrest'⟩ := hs.tokens
  rw [hrest, hrest', w.last_eq]
  apply labelsLoop_moved

theorem labeledStatement_eq (sub : Sub) (scope : JumpScope) :
    labeledStatement sub scope = (do
      let start := (← current).span
      let label ← bindingName
      requirePunct .colon
      if scope.labels.any (fun known => known.1 == label) then failAt start (.duplicateLabel label)
      let isLoop ← (do return labelsLoop (← get).rest)
      let body ← sub (.statement { scope with labels := scope.labels ++ [(label, isLoop)] })
      pushFrom start (.labeled label body)) :=
  rfl

theorem mirrors_labeledStatement (hsub : SubMirrors w n r sub sub') (scope : JumpScope) :
    Mirrors w (k ≤ n) k w.move (w.Read k) (labeledStatement sub scope)
      (labeledStatement sub' scope) := by
  rw [labeledStatement_eq, labeledStatement_eq]
  refine mirrors_current.bind fun t i => mirrors_bindingName.bindSame fun label j =>
    (mirrors_requirePunct .colon).bindSame fun _ l => ?_
  dsimp only [id]
  cases scope.labels.any fun known => known.1 == label with
  | true => exact ((refuses_failAt _ _).bind _).mirrors
  | false =>
    refine mirrors_labelsLoop.bindSame fun isLoop a => ?_
    refine (hsub.behind (.statement _) fun h => ?_).bind fun body b =>
      mirrors_node t.span (.labeled label body) fun h => by omega
    omega

theorem mirrors_expressionStatement (hsub : SubMirrors w n r sub sub') (hrank : 5 < r) :
    Mirrors w (k = n) k w.move (w.Read k) (expressionStatement sub) (expressionStatement sub') := by
  refine mirrors_current.bind fun t i => (hsub.below (.expression false) hrank fun h => ?_).bind
    fun inner j => mirrors_endStatement.bindSame fun _ l =>
      mirrors_node t.span (.expressionStatement inner) fun h => by omega
  omega

theorem mirrors_statement (hexact : w.exact = true) (hsub : SubMirrors w n r sub sub')
    (hrank : 5 < r) (scope : JumpScope) :
    Mirrors w (k = n) k w.move (w.Read k) (statement sub scope) (statement sub' scope) := by
  refine mirrors_current.bind fun t i => ?_
  have hbelow {x x' : Parsing NodeId} (h : Mirrors w (i ≤ n) i w.move (w.Read i) x x') :
      Mirrors w (k = n ∧ i ≤ k ∧ i = k) i w.move (w.Read k) x x' := by
    refine (h.pre fun h => ?_).post fun id j h _ hread => ⟨hread.1, ?_⟩
    · omega
    · omega
  have hother : Mirrors w (k = n ∧ i ≤ k ∧ i = k) i w.move (w.Read k)
      (atLabel >>= fun found => if found then labeledStatement sub scope else expressionStatement sub)
      (atLabel >>= fun found =>
        if found then labeledStatement sub' scope else expressionStatement sub') := by
    refine mirrors_atLabel.bindSame fun found j => ?_
    cases found with
    | true =>
      refine ((mirrors_labeledStatement hsub scope).pre fun h => ?_).post
        fun id l h _ hread => ⟨hread.1, ?_⟩
      · omega
      · omega
    | false =>
      refine ((mirrors_expressionStatement hsub hrank).pre fun h => ?_).post
        fun id l h _ hread => ⟨hread.1, ?_⟩
      · omega
      · omega
  obtain ⟨kind, span, newline⟩ := t
  cases kind with
  | punct p =>
    cases p with
    | lBrace =>
      refine (hsub.below (.block scope) (Nat.zero_lt_of_lt hrank) fun h => ?_).post
        fun id j h _ hread => ⟨hread.1, ?_⟩
      · omega
      · omega
    | semicolon =>
      refine mirrors_advance.bindSame fun _ j => ?_
      exact (mirrors_push .empty span).post fun id l h _ hpush => ⟨hpush.1, by omega⟩
    | _ => exact hother
  | keyword word =>
    cases word with
    | var =>
      refine ((mirrors_varDeclaration hsub false).pre fun h => ?_).bind fun declaration j =>
        mirrors_endStatement.bindSame fun _ l => mirrors_pure declaration fun h => ?_
      · omega
      · exact ⟨h.1.2.2.1, by omega⟩
    | function => exact hbelow (mirrors_functionDeclaration hexact hsub)
    | «if» => exact hbelow (mirrors_ifStatement hsub scope)
    | «for» => exact hbelow (mirrors_forStatement hsub scope)
    | «while» => exact hbelow (mirrors_whileStatement hsub scope)
    | «do» => exact hbelow (mirrors_doWhileStatement hsub scope)
    | switch => exact hbelow (mirrors_switchStatement hsub scope)
    | «try» => exact hbelow (mirrors_tryStatement hsub scope)
    | «return» => exact hbelow (mirrors_returnStatement hsub scope)
    | «break» => exact hbelow (mirrors_breakStatement scope)
    | «continue» => exact hbelow (mirrors_continueStatement scope)
    | throw => exact hbelow (mirrors_throwStatement hsub)
    | debugger =>
      refine mirrors_advance.bindSame fun _ j => mirrors_endStatement.bindSame fun _ l => ?_
      exact (mirrors_push .debugger span).post fun id l h _ hpush => ⟨hpush.1, by omega⟩
    | _ => exact hother
  | reserved word =>
    rw [Token.kind_moved]
    generalize hkind : (⟨.reserved word, span, newline⟩ : Token).kind = kind
    split <;> first | exact (refuses_fail _).mirrors | exact hother | cases hkind
  | _ => exact hother

/-- Smaller parts that go deep enough for the tokens that are left do the same in both places. -/
theorem subMirrors_of_all {depth' : Nat} (hdepth : 8 * n + r ≤ depth')
    (hall : ∀ (k depth' : Nat) (goal : Goal), 8 * k + goal.rank < depth' →
      Mirrors w True k w.move (w.Read k) (sub goal) (parseGoal depth' goal)) :
    SubMirrors w n r sub (parseGoal depth') := by
  constructor
  · intro goal
    have hshallow : 8 * 0 + goal.rank < goal.rank + 1 := by omega
    exact (hall 0 _ goal hshallow).shrinks
  · intro goal k hk
    have hrank : goal.rank ≤ 6 := by cases goal <;> simp [Goal.rank]
    exact hall k depth' goal (by omega)

/-- Every goal is read in the same way in both places, if the second parse may go deep enough. -/
theorem mirrors_parseGoal (hexact : w.exact = true) {depth depth' : Nat} (goal : Goal)
    (hdepth : 8 * k + goal.rank < depth') :
    Mirrors w True k w.move (w.Read k) (parseGoal depth goal) (parseGoal depth' goal) := by
  induction depth generalizing depth' k goal with
  | zero => exact (refuses_fail _).mirrors
  | succ depth ih =>
    obtain ⟨deep, rfl⟩ : ∃ deep, depth' = deep + 1 := ⟨depth' - 1, by omega⟩
    have hsub : SubMirrors w k goal.rank (parseGoal depth) (parseGoal deep) :=
      subMirrors_of_all (Nat.le_of_lt_succ hdepth) fun _ _ goal h => ih goal h
    cases goal with
    | statement scope =>
      exact (mirrors_statement hexact hsub (Nat.lt_succ_self 5) scope).pre fun _ => rfl
    | block scope => exact (mirrors_blockStatement hsub scope).pre fun _ => Nat.le_refl k
    | expression noIn =>
      exact (mirrors_expression hsub (Nat.lt_succ_self 4) noIn).pre fun _ => rfl
    | assignment noIn =>
      exact (mirrors_assignmentExpression hsub (Nat.lt_succ_self 3) noIn).pre fun _ => rfl
    | binary least noIn =>
      exact (mirrors_binaryExpression hsub (Nat.lt_succ_self 2) least noIn).pre fun _ => rfl
    | unary => exact (mirrors_unaryExpression hsub (Nat.lt_succ_self 1)).pre fun _ => rfl
    | member => exact (mirrors_memberExpression hexact hsub).pre fun _ => Nat.le_refl k

theorem subMirrors_parseGoal (hexact : w.exact = true) {depth depth' : Nat}
    (hdepth : 8 * n + r ≤ depth') : SubMirrors w n r (parseGoal depth) (parseGoal depth') :=
  subMirrors_of_all hdepth fun _ _ goal h => mirrors_parseGoal hexact goal h

end ScriptMachine.Tree.Parser
