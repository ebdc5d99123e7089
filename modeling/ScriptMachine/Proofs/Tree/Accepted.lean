import ScriptMachine.Proofs.Tree.Parsing

/-!
# Accepted programs

The productions of statements check each jump against the scope they are given, which is the scope
of the place they build. A label is marked as one of a loop by looking at the tokens behind it, so
the parser of statements is also shown to build a loop where these tokens start one.
-/

namespace ScriptMachine.Tree.Parser

open ScriptMachine.Source

variable {nodes : Array Node} {sub : Sub} {scope : JumpScope}

/-! ## Statements -/

/-- A statement whose children are built already. -/
theorem builds_statement {kind : NodeKind} {parts : List (Place × NodeId)}
    (hparts : kind.statementParts? scope false = some parts)
    (hformed : ∀ part ∈ parts, Formed nodes part.1 part.2) (hfunction : kind.function? = none)
    (start : Span) :
    Builds nodes (fun nodes' id => Formed nodes' (.statement scope) id) (pushFrom start kind) :=
  builds_pushFrom (.statement scope) hparts hformed hfunction start

/-- A statement without children. -/
theorem builds_plain {kind : NodeKind} (hparts : kind.statementParts? scope false = some [])
    (hfunction : kind.function? = none) (span : Span) :
    Builds nodes (fun nodes' id => Formed nodes' (.statement scope) id) (push kind span) := by
  refine (builds_push (.statement scope) _ hparts (fun h => by cases h) (fun _ h => by cases h) (fun f h => ?_) span).mono
    fun _ _ h => h.1
  rw [hfunction] at h
  cases h

theorem builds_many_statements (scope : JumpScope) (hsub : SubBuilds sub) {ended : Parsing Bool} (hended : Reads ended) :
    Builds nodes (fun nodes' l => ∀ n ∈ l, Formed nodes' (.statement scope) n)
      (many do
        if ← ended then return none
        return some (← sub (.statement scope))) := by
  refine builds_many (lasting_formed (.statement scope)) fun nodes' _ => ?_
  refine hended.bind fun isEnded => ?_
  split
  · exact builds_absent
  · exact Builds.optional (hsub nodes' (.statement scope))

theorem builds_blockStatement (hsub : SubBuilds sub) :
    Builds nodes (Goal.block scope).Built (blockStatement sub scope) := by
  refine reads_current.bind fun t => (reads_requirePunct _).bind fun _ => ?_
  refine Builds.bind (P := fun nodes' l => ∀ n ∈ l, Formed nodes' (.statement scope) n) ?_
    fun nodes₁ body _ hbody => ?_
  · refine builds_many (lasting_formed (.statement scope)) fun nodes' _ => ?_
    refine (reads_checkPunct _).bind fun closed => reads_atEnd.bind fun ended => ?_
    split
    · exact builds_absent
    · exact Builds.optional (hsub nodes' (.statement scope))
  · refine (reads_requirePunct _).bind fun _ => ?_
    refine (reads_get.bind_reads fun _ => reads_pure _).bind fun span => ?_
    refine (builds_push (.statement scope) false rfl (fun h => by cases h) (fun part hpart => ?_)
      (fun function h => ?_) span).mono fun _ _ h => ⟨h.1, body, h.2⟩
    · obtain ⟨n, hn, rfl⟩ := List.mem_map.1 hpart
      exact hbody n hn
    · cases h

theorem builds_varDeclaration (scope : JumpScope) (place : Place) (hsub : SubBuilds sub)
    (noIn : Bool)
    (hplace : ∀ declarations, (NodeKind.varDeclaration declarations).parts? false place =
      some (declarations.map fun n => (.statement scope, n))) :
    Builds nodes (fun nodes' id => Formed nodes' place id) (varDeclaration sub noIn) := by
  refine reads_current.bind fun t => (reads_requireKeyword _).bind fun _ => ?_
  refine (builds_commaSeparated (lasting_formed (.statement scope)) fun nodes' _ => ?_).bind
    fun nodes₁ declarations _ hdeclarations => ?_
  · refine reads_current.bind fun place => reads_bindingName.bind fun name => ?_
    refine (reads_hoistVar _).bind fun _ => ?_
    refine Builds.bind (P := fun nodes'' (init : Option NodeId) =>
      ∀ n ∈ init, Formed nodes'' .expression n) ?_ fun nodes₂ init _ hinit => ?_
    · refine (reads_acceptPunct _).bind fun assigned => ?_
      split
      · exact Builds.optional (hsub nodes' (.assignment noIn))
      · exact builds_absent
    · refine builds_statement rfl (fun part hpart => ?_) rfl _
      obtain ⟨n, hn, rfl⟩ := List.mem_map.1 hpart
      exact hinit n (Option.mem_toList.1 hn)
  · refine builds_pushFrom _ (hplace declarations) (fun part hpart => ?_) rfl _
    obtain ⟨n, hn, rfl⟩ := List.mem_map.1 hpart
    exact hdeclarations n hn

theorem builds_functionDeclaration (hsub : SubBuilds sub) :
    Builds nodes (fun nodes' id => Formed nodes' (.statement scope) id)
      (functionDeclaration sub) := by
  refine reads_current.bind fun t => (reads_requireKeyword _).bind fun _ => ?_
  refine reads_bindingName.bind fun name => ?_
  refine (builds_functionRest hsub _).bind fun nodes₁ function _ hfunction => ?_
  refine (builds_function (.statement scope) rfl rfl hfunction _).bind
    fun nodes₂ id _ hid => ?_
  exact (reads_hoistFunction id).bind fun _ => builds_pure fun _ h => hid.mono h

theorem builds_parenthesized (hsub : SubBuilds sub) :
    Builds nodes (fun nodes' id => Formed nodes' .expression id) (parenthesized sub) := by
  refine (reads_requirePunct _).bind fun _ => ?_
  refine (hsub nodes (.expression false)).bind fun nodes₁ inner _ hinner => ?_
  exact (reads_requirePunct _).bind fun _ => builds_pure fun _ h => Formed.mono hinner h

/-- A statement that is there or not. -/
theorem builds_optionalStatement (scope : JumpScope) (hsub : SubBuilds sub) {present : Parsing Bool}
    (hpresent : Reads present) (goal : Goal)
    (hgoal : ∀ nodes id, goal.Built nodes id → Formed nodes (.statement scope) id) :
    Builds nodes (fun nodes' (id : Option NodeId) => ∀ n ∈ id, Formed nodes' (.statement scope) n)
      (do
        if ← present then return some (← sub goal)
        return none) := by
  refine hpresent.bind fun isPresent => ?_
  split
  · exact Builds.optional ((hsub nodes goal).mono hgoal)
  · exact builds_absent

theorem builds_ifStatement (hsub : SubBuilds sub) :
    Builds nodes (fun nodes' id => Formed nodes' (.statement scope) id) (ifStatement sub scope) := by
  refine reads_current.bind fun t => (reads_requireKeyword _).bind fun _ => ?_
  refine (builds_parenthesized hsub).bind fun nodes₁ test _ htest => ?_
  refine (hsub nodes₁ (.statement scope)).bind fun nodes₂ consequent h₂ hconsequent => ?_
  refine (builds_optionalStatement scope hsub (reads_acceptKeyword _)
    (.statement scope) fun _ _ h => h).bind fun nodes₃ alternate h₃ halternate => ?_
  refine builds_statement rfl (fun part hpart => ?_) rfl _
  rcases List.mem_cons.1 hpart with rfl | hpart
  · exact htest.mono (h₂.trans h₃)
  obtain ⟨n, hn, rfl⟩ := List.mem_map.1 hpart
  rcases List.mem_cons.1 hn with rfl | hn
  · exact Formed.mono hconsequent h₃
  · exact halternate n (Option.mem_toList.1 hn)

/-! ## Loops -/

theorem reads_checkForInTarget (left : NodeId) : Reads (checkForInTarget left) := by
  refine (reads_kindOf? left).bind_reads fun kind => ?_
  extract_lets valid
  split
  · exact reads_pure _
  · exact (refuses_fail _).reads

theorem builds_optionalExpression (hsub : SubBuilds sub) (close : Punctuator) :
    Builds nodes (fun nodes' (id : Option NodeId) => ∀ n ∈ id, Formed nodes' .expression n)
      (optionalExpression sub close) := by
  refine (reads_checkPunct _).bind fun closed => ?_
  split
  · exact builds_absent
  · exact Builds.optional (hsub nodes (.expression false))

/-- An expression may stand in the head of a loop. -/
theorem Formed.head {id : NodeId} (h : Formed nodes .expression id) (scope : JumpScope) :
    Formed nodes (.head scope) id := by
  cases h with
  | @node _ _ kind loop parts hkind hloop hparts hformed =>
    refine .node hkind hloop ?_ hformed
    cases kind with
    | varDeclaration declarations => cases hparts
    | _ => exact hparts

theorem builds_forInit (scope : JumpScope) (hsub : SubBuilds sub) :
    Builds nodes (fun nodes' (id : Option NodeId) => ∀ n ∈ id, Formed nodes' (.head scope) n)
      (do
        if ← checkPunct .semicolon then return none
        if ← checkKeyword .var then return some (← varDeclaration sub true)
        return some (← sub (.expression true))) := by
  refine (reads_checkPunct _).bind fun closed => ?_
  split
  · exact builds_absent
  refine (reads_checkKeyword _).bind fun declares => ?_
  split
  · exact Builds.optional (builds_varDeclaration _ _ hsub true fun _ => rfl)
  · exact Builds.optional ((hsub nodes (.expression true)).mono fun _ _ h => Formed.head h scope)

theorem builds_forStatement (hsub : SubBuilds sub) :
    Builds nodes (fun nodes' id => Formed nodes' (.statement scope) id)
      (forStatement sub scope) := by
  refine reads_current.bind fun t => (reads_requireKeyword _).bind fun _ => ?_
  refine (reads_requirePunct _).bind fun _ => ?_
  refine (builds_forInit scope hsub).bind fun nodes₁ init _ hinit => ?_
  refine (reads_checkKeyword _).bind fun isIn => ?_
  split
  · rename_i left
    have hleft : Formed nodes₁ (.head scope) left := hinit left rfl
    refine reads_advance.bind fun _ => (reads_checkForInTarget _).bind fun _ => ?_
    refine (hsub nodes₁ (.expression false)).bind fun nodes₂ right h₂ hright => ?_
    refine (reads_requirePunct _).bind fun _ => ?_
    refine (hsub nodes₂ (.statement scope.loop)).bind fun nodes₃ body h₃ hbody => ?_
    have hright : Formed nodes₃ .expression right := Formed.mono hright h₃
    have hbody : Formed nodes₃ (.statement scope.loop) body := hbody
    refine builds_statement rfl ?_ rfl _
    simp [hleft.mono (h₂.trans h₃), hright, hbody]
  · refine (reads_requirePunct _).bind fun _ => ?_
    refine (builds_optionalExpression hsub _).bind fun nodes₂ test h₂ htest => ?_
    refine (reads_requirePunct _).bind fun _ => ?_
    refine (builds_optionalExpression hsub _).bind fun nodes₃ next h₃ hnext => ?_
    refine (reads_requirePunct _).bind fun _ => ?_
    refine (hsub nodes₃ (.statement scope.loop)).bind fun nodes₄ body h₄ hbody => ?_
    refine builds_statement rfl (fun part hpart => ?_) rfl _
    rcases List.mem_append.1 hpart with hpart | hpart
    · rcases List.mem_append.1 hpart with hpart | hpart
      · obtain ⟨n, hn, rfl⟩ := List.mem_map.1 hpart
        exact (hinit n (Option.mem_toList.1 hn)).mono (h₂.trans (h₃.trans h₄))
      · obtain ⟨n, hn, rfl⟩ := List.mem_map.1 hpart
        rcases List.mem_append.1 hn with hn | hn
        · exact (htest n (Option.mem_toList.1 hn)).mono (h₃.trans h₄)
        · exact (hnext n (Option.mem_toList.1 hn)).mono h₄
    · obtain rfl := List.mem_singleton.1 hpart
      exact hbody

theorem builds_whileStatement (hsub : SubBuilds sub) :
    Builds nodes (fun nodes' id => Formed nodes' (.statement scope) id)
      (whileStatement sub scope) := by
  refine reads_current.bind fun t => (reads_requireKeyword _).bind fun _ => ?_
  refine (builds_parenthesized hsub).bind fun nodes₁ test _ htest => ?_
  refine (hsub nodes₁ (.statement scope.loop)).bind fun nodes₂ body h₂ hbody => ?_
  have hbody : Formed nodes₂ (.statement scope.loop) body := hbody
  refine builds_statement rfl ?_ rfl _
  simp [htest.mono h₂, hbody]

theorem builds_doWhileStatement (hsub : SubBuilds sub) :
    Builds nodes (fun nodes' id => Formed nodes' (.statement scope) id)
      (doWhileStatement sub scope) := by
  refine reads_current.bind fun t => (reads_requireKeyword _).bind fun _ => ?_
  refine (hsub nodes (.statement scope.loop)).bind fun nodes₁ body _ hbody => ?_
  refine (reads_requireKeyword _).bind fun _ => ?_
  refine (builds_parenthesized hsub).bind fun nodes₂ test h₂ htest => ?_
  have hbody : Formed nodes₂ (.statement scope.loop) body := Formed.mono hbody h₂
  refine (reads_acceptPunct _).bind fun _ => builds_statement rfl ?_ rfl _
  simp [hbody, htest]

/-! ## Switches and handlers -/

/-- The parts of a clause of a switch are built. -/
def BuiltClause (scope : JumpScope) (nodes : Array Node) (c : SwitchCase) : Prop :=
  (∀ n ∈ c.test, Formed nodes .expression n) ∧
    ∀ n ∈ c.consequent, Formed nodes (.statement scope) n

theorem lasting_builtClause (scope : JumpScope) : Lasting (BuiltClause scope) :=
  fun _ _ _ h hc => ⟨fun n hn => (hc.1 n hn).mono h, fun n hn => (hc.2 n hn).mono h⟩

theorem reads_atClauseEnd : Reads atClauseEnd :=
  reads_current.bind_reads fun _ => reads_pure _

theorem builds_clauseTest (hsub : SubBuilds sub) (seen : List SwitchCase) :
    Builds nodes (fun nodes' (id : Option NodeId) => ∀ n ∈ id, Formed nodes' .expression n)
      (do
        if ← acceptKeyword .case then return some (← sub (.expression false))
        if ← checkKeyword .default then
          if seen.any (·.test.isNone) then fail .duplicateDefault
          advance
          return none
        unexpected "case, default or \x7d") := by
  refine (reads_acceptKeyword _).bind fun isCase => ?_
  split
  · exact Builds.optional (hsub nodes (.expression false))
  refine (reads_checkKeyword _).bind fun isDefault => ?_
  split
  · split
    · exact ((refuses_fail _).bind _).builds
    · exact reads_advance.bind fun _ => builds_absent
  · exact (refuses_unexpected _).builds

theorem builds_switchCases (scope : JumpScope) (hsub : SubBuilds sub) :
    Builds nodes (fun nodes' cases => ∀ c ∈ cases, BuiltClause scope nodes' c)
      (switchCases sub scope) := by
  refine (builds_loop (lasting_all (lasting_builtClause scope)) (fun nodes' seen _ hseen => ?_)
    fun _ h => absurd h List.not_mem_nil).bind fun nodes₁ cases _ hcases =>
      builds_pure fun _ h c hc =>
        lasting_builtClause scope _ _ c h (hcases c (List.mem_reverse.1 hc))
  refine (reads_acceptPunct _).bind fun closed => ?_
  split
  · exact builds_pure fun _ _ _ h => by cases h
  refine (builds_clauseTest hsub seen).bind fun nodes₁ test h₁ htest => ?_
  refine (reads_requirePunct _).bind fun _ => ?_
  refine (builds_many_statements _ hsub reads_atClauseEnd).bind
    fun nodes₂ consequent h₂ hconsequent => ?_
  refine builds_pure fun nodes₃ h₃ b hb c hc => ?_
  cases hb
  rcases List.mem_cons.1 hc with rfl | hc
  · exact ⟨fun n hn => (htest n hn).mono (h₂.trans h₃), fun n hn => (hconsequent n hn).mono h₃⟩
  · exact lasting_builtClause scope _ _ c (h₁.trans (h₂.trans h₃)) (hseen c hc)

theorem builds_switchStatement (hsub : SubBuilds sub) :
    Builds nodes (fun nodes' id => Formed nodes' (.statement scope) id)
      (switchStatement sub scope) := by
  refine reads_current.bind fun t => (reads_requireKeyword _).bind fun _ => ?_
  refine (builds_parenthesized hsub).bind fun nodes₁ discriminant _ hdiscriminant => ?_
  refine (reads_requirePunct _).bind fun _ => ?_
  refine (builds_switchCases scope.switch hsub).bind fun nodes₂ cases h₂ hcases => ?_
  refine builds_statement rfl (fun part hpart => ?_) rfl _
  rcases List.mem_cons.1 hpart with rfl | hpart
  · exact hdiscriminant.mono h₂
  obtain ⟨c, hc, hpart⟩ := List.mem_flatMap.1 hpart
  rcases List.mem_append.1 hpart with hpart | hpart
  · obtain ⟨n, hn, rfl⟩ := List.mem_map.1 hpart
    exact (hcases c hc).1 n (Option.mem_toList.1 hn)
  · obtain ⟨n, hn, rfl⟩ := List.mem_map.1 hpart
    exact (hcases c hc).2 n hn

theorem builds_catchClause (scope : JumpScope) (hsub : SubBuilds sub) :
    Builds nodes (fun nodes' (clause : Option CatchClause) =>
        ∀ c ∈ clause, Formed nodes' (.statement scope) c.body)
      (do
        if ← acceptKeyword .catch then
          requirePunct .lParen
          let param ← bindingName
          requirePunct .rParen
          return some (CatchClause.mk param (← sub (.block scope)))
        return none) := by
  refine (reads_acceptKeyword _).bind fun isCatch => ?_
  split
  · refine (reads_requirePunct _).bind fun _ => reads_bindingName.bind fun param => ?_
    refine (reads_requirePunct _).bind fun _ => ?_
    refine (hsub nodes (.block scope)).bind fun nodes₁ body _ hbody => ?_
    refine builds_pure fun nodes₂ h₂ c hc => ?_
    cases hc
    exact hbody.1.mono h₂
  · exact builds_pure fun _ _ _ h => by cases h

theorem builds_tryStatement (hsub : SubBuilds sub) :
    Builds nodes (fun nodes' id => Formed nodes' (.statement scope) id)
      (tryStatement sub scope) := by
  refine reads_current.bind fun t => (reads_requireKeyword _).bind fun _ => ?_
  refine (hsub nodes (.block scope)).bind fun nodes₁ block _ hblock => ?_
  refine (builds_catchClause scope hsub).bind fun nodes₂ handler h₂ hhandler => ?_
  refine (builds_optionalStatement scope hsub (reads_acceptKeyword _) (.block scope)
    fun _ _ h => h.1).bind fun nodes₃ finalizer h₃ hfinalizer => ?_
  have hpush : Builds nodes₃ (fun nodes' id => Formed nodes' (.statement scope) id)
      (pushFrom t.span (.tryStatement block handler finalizer)) := by
    refine builds_statement rfl (fun part hpart => ?_) rfl _
    obtain ⟨n, hn, rfl⟩ := List.mem_map.1 hpart
    rcases List.mem_cons.1 hn with rfl | hn
    · exact hblock.1.mono (h₂.trans h₃)
    rcases List.mem_append.1 hn with hn | hn
    · obtain ⟨c, hc, rfl⟩ := Option.map_eq_some_iff.1 (Option.mem_toList.1 hn)
      exact (hhandler c hc).mono h₃
    · exact hfinalizer n (Option.mem_toList.1 hn)
  dsimp only
  split
  · exact ((refuses_fail _).bind _).builds
  · exact hpush

/-! ## Jumps -/

theorem builds_returnStatement (hsub : SubBuilds sub) :
    Builds nodes (fun nodes' id => Formed nodes' (.statement scope) id)
      (returnStatement sub scope) := by
  refine reads_current.bind fun t => ?_
  split
  · rename_i hscope
    have hparts (argument : Option NodeId) :
        (NodeKind.returnStatement argument).statementParts? scope false =
          some (argument.toList.map fun n => (.expression, n)) := if_pos hscope
    refine (reads_requireKeyword _).bind fun _ => ?_
    refine Builds.bind (P := fun nodes' (argument : Option NodeId) =>
      ∀ n ∈ argument, Formed nodes' .expression n) ?_ fun nodes₁ argument _ hargument => ?_
    · refine reads_atStatementEnd.bind fun ended => ?_
      split
      · exact builds_absent
      · exact Builds.optional (hsub nodes (.expression false))
    · refine reads_endStatement.bind fun _ =>
        builds_statement (hparts argument) (fun part hpart => ?_) rfl _
      obtain ⟨n, hn, rfl⟩ := List.mem_map.1 hpart
      exact hargument n (Option.mem_toList.1 hn)
  · exact ((refuses_fail _).bind _).builds

theorem reads_jumpLabel : Reads jumpLabel := by
  refine reads_current.bind_reads fun t => ?_
  split
  · exact reads_advance.bind_reads fun _ => reads_pure _
  · exact reads_pure _

theorem builds_breakStatement :
    Builds nodes (fun nodes' id => Formed nodes' (.statement scope) id)
      (breakStatement scope) := by
  refine reads_current.bind fun t => (reads_requireKeyword _).bind fun _ => ?_
  refine reads_jumpLabel.bind fun label => ?_
  have hpush (h : scope.allowsBreak label = true) :
      Builds nodes (fun nodes' id => Formed nodes' (.statement scope) id)
        (endStatement >>= fun _ => pushFrom t.span (.breakStatement label)) := by
    have hparts : (NodeKind.breakStatement label).statementParts? scope false = some [] :=
      if_pos h
    exact reads_endStatement.bind fun _ => builds_statement hparts (fun _ h => by cases h) rfl _
  cases label with
  | some name =>
    dsimp only
    split
    · rename_i h
      exact hpush h
    · exact ((refuses_fail _).bind _).builds
  | none =>
    dsimp only
    split
    · rename_i h
      exact hpush h
    · exact ((refuses_fail _).bind _).builds

theorem builds_continueStatement :
    Builds nodes (fun nodes' id => Formed nodes' (.statement scope) id)
      (continueStatement scope) := by
  refine reads_current.bind fun t => (reads_requireKeyword _).bind fun _ => ?_
  refine reads_jumpLabel.bind fun label => ?_
  have hpush (h : scope.allowsContinue label = true) :
      Builds nodes (fun nodes' id => Formed nodes' (.statement scope) id)
        (endStatement >>= fun _ => pushFrom t.span (.continueStatement label)) := by
    have hparts : (NodeKind.continueStatement label).statementParts? scope false = some [] :=
      if_pos h
    exact reads_endStatement.bind fun _ => builds_statement hparts (fun _ h => by cases h) rfl _
  cases label with
  | some name =>
    dsimp only
    split
    · rename_i h
      exact hpush h
    · exact ((refuses_fail _).bind _).builds
  | none =>
    dsimp only
    split
    · rename_i h
      exact hpush h
    · exact ((refuses_fail _).bind _).builds

theorem builds_throwStatement (hsub : SubBuilds sub) :
    Builds nodes (fun nodes' id => Formed nodes' (.statement scope) id) (throwStatement sub) := by
  refine reads_current.bind fun t => (reads_requireKeyword _).bind fun _ => ?_
  refine reads_current.bind fun t' => ?_
  split
  · exact ((refuses_fail _).bind _).builds
  · refine (hsub nodes (.expression false)).bind fun nodes₁ argument _ hargument => ?_
    refine reads_endStatement.bind fun _ => builds_statement rfl ?_ rfl _
    exact List.forall_mem_singleton.2 hargument

theorem builds_expressionStatement (hsub : SubBuilds sub) :
    Builds nodes (fun nodes' id => Formed nodes' (.statement scope) id)
      (expressionStatement sub) := by
  refine reads_current.bind fun t => ?_
  refine (hsub nodes (.expression false)).bind fun nodes₁ inner _ hinner => ?_
  refine reads_endStatement.bind fun _ => builds_statement rfl ?_ rfl _
  exact List.forall_mem_singleton.2 hinner

/-! ## Labels -/

/-- Where the tokens start a loop behind any labels, the parser of statements builds one. -/
def Leads (sub : Sub) : Prop :=
  ∀ scope s id s', sub (.statement scope) s = .ok (id, s') → labelsLoop s.rest = true →
    Loops s'.nodes id

/-- A part of a parse whose result is a loop. -/
def EndsInLoop (x : Parsing NodeId) : Prop :=
  ∀ s id s', x s = .ok (id, s') → Loops s'.nodes id

theorem EndsInLoop.bind {α : Type} {x : Parsing α} {f : α → Parsing NodeId}
    (hf : ∀ a, EndsInLoop (f a)) : EndsInLoop (x >>= f) := by
  intro s id s' hrun
  obtain ⟨a, mid, -, hrun⟩ := bind_eq_ok hrun
  exact hf a mid id s' hrun

theorem endsInLoop_pushFrom {kind : NodeKind} (h : kind.isLoop = true) (start : Span) :
    EndsInLoop (pushFrom start kind) := by
  refine .bind fun span s id s' hrun => ?_
  cases hrun
  exact .loop (Grown.kind_push _ _) h

theorem endsInLoop_whileStatement : EndsInLoop (whileStatement sub scope) :=
  .bind fun _ => .bind fun _ => .bind fun _ => .bind fun _ => endsInLoop_pushFrom rfl _

theorem endsInLoop_doWhileStatement : EndsInLoop (doWhileStatement sub scope) :=
  .bind fun _ => .bind fun _ => .bind fun _ => .bind fun _ => .bind fun _ => .bind fun _ =>
    endsInLoop_pushFrom rfl _

theorem endsInLoop_forStatement : EndsInLoop (forStatement sub scope) := by
  refine .bind fun t => .bind fun _ => .bind fun _ => .bind fun init => .bind fun isIn => ?_
  split
  · exact .bind fun _ => .bind fun _ => .bind fun _ => .bind fun _ => .bind fun _ =>
      endsInLoop_pushFrom rfl _
  · exact .bind fun _ => .bind fun _ => .bind fun _ => .bind fun _ => .bind fun _ => .bind fun _ =>
      endsInLoop_pushFrom rfl _

/-- The token behind a name that is being bound comes next. -/
theorem rest_of_bindingName {t : Token} {rest : List Token} {s s' : State} {name : String}
    (hrest : s.rest = t :: rest) (hne : rest ≠ []) (hrun : bindingName s = .ok (name, s')) :
    s'.rest = rest := by
  obtain ⟨next, rest, rfl⟩ := List.exists_cons_of_ne_nil hne
  obtain ⟨t', mid, hcurrent, hrun⟩ := bind_eq_ok hrun
  cases hcurrent
  cases hkind : s.current.kind with
  | identifier found =>
    simp only [hkind] at hrun
    cases hrestricted : isRestricted found with
    | true =>
      simp only [hrestricted] at hrun
      cases hrun
    | false =>
      simp only [hrestricted] at hrun
      obtain ⟨u, mid, hadvance, hrun⟩ := bind_eq_ok hrun
      cases hadvance
      cases hrun
      simp [hrest]
  | _ =>
    simp only [hkind] at hrun
    cases hrun

/-- The token behind a punctuator that was required comes next. -/
theorem rest_of_requirePunct {p : Punctuator} {t : Token} {rest : List Token} {s s' : State}
    {u : Unit} (hrest : s.rest = t :: rest) (hne : rest ≠ [])
    (hrun : requirePunct p s = .ok (u, s')) : s'.rest = rest := by
  obtain ⟨next, rest, rfl⟩ := List.exists_cons_of_ne_nil hne
  obtain ⟨accepted, mid, haccept, hrun⟩ := bind_eq_ok hrun
  obtain ⟨found, mid', hcheck, haccept⟩ := bind_eq_ok haccept
  cases hcheck
  cases hfound : s.current.kind == .punct p with
  | true =>
    simp only [hfound] at haccept
    obtain ⟨u, mid, hadvance, haccept⟩ := bind_eq_ok haccept
    cases hadvance
    cases haccept
    cases hrun
    simp [hrest]
  | false =>
    simp only [hfound] at haccept
    cases haccept
    cases hrun

/-- What is behind a label is read as a loop exactly when the label is marked so. -/
theorem builds_labeledBody (hsub : SubBuilds sub) (hleads : Leads sub) (start : Span)
    (label : String) :
    Builds nodes (fun nodes' id => Formed nodes' (.statement scope) id)
      (do
        let isLoop := labelsLoop (← get).rest
        let body ← sub (.statement (scope.labeled label isLoop))
        pushFrom start (.labeled label body)) := by
  intro s id s' hs hbodied hrun
  obtain ⟨found, mid, hget, hrun⟩ := bind_eq_ok hrun
  cases hget
  obtain ⟨body, mid, hbodyRun, hrun⟩ := bind_eq_ok hrun
  obtain ⟨hgrown, hbodied', hbody⟩ := hsub nodes _ s body mid hs hbodied hbodyRun
  have hpush : Builds mid.nodes (fun nodes' id => Formed nodes' (.statement scope) id)
      (pushFrom start (.labeled label body)) := by
    refine (reads_get.bind_reads fun _ => reads_pure _).bind fun span => ?_
    refine (builds_push (.statement scope) (labelsLoop s.rest) rfl
      (fun h => ⟨label, body, rfl, hleads _ s body mid hbodyRun h⟩) (fun part hpart => ?_)
      (fun function h => ?_) span).mono fun _ _ h => h.1
    · obtain rfl := List.mem_singleton.1 hpart
      exact hbody
    · cases h
  obtain ⟨hgrown', hbodied'', hformed⟩ := hpush mid id s' (.refl _) hbodied' hrun
  exact ⟨hgrown.trans hgrown', hbodied'', hformed⟩

theorem builds_labeledStatement (hsub : SubBuilds sub) (hleads : Leads sub) :
    Builds nodes (fun nodes' id => Formed nodes' (.statement scope) id)
      (labeledStatement sub scope) := by
  refine reads_current.bind fun t => reads_bindingName.bind fun label => ?_
  refine (reads_requirePunct _).bind fun _ => ?_
  split
  · exact ((refuses_failAt _ _).bind _).builds
  · exact builds_labeledBody hsub hleads _ label

/-- A label in front of a loop is read together with the loop. -/
theorem loops_of_labeledStatement (hleads : Leads sub) {t colon : Token} {rest : List Token}
    {s s' : State} {id : NodeId} (hrest : s.rest = t :: colon :: rest)
    (hloop : labelsLoop rest = true) (hrun : labeledStatement sub scope s = .ok (id, s')) :
    Loops s'.nodes id := by
  have hne : rest ≠ [] := fun h => by
    rw [h] at hloop
    cases hloop
  obtain ⟨t', mid, hcurrent, hrun⟩ := bind_eq_ok hrun
  cases hcurrent
  obtain ⟨label, mid, hname, hrun⟩ := bind_eq_ok hrun
  have hmid := rest_of_bindingName hrest (List.cons_ne_nil _ _) hname
  obtain ⟨u, mid', hcolon, hrun⟩ := bind_eq_ok hrun
  have hmid' := rest_of_requirePunct hmid hne hcolon
  cases hduplicate : scope.labels.any (·.1 == label) with
  | true =>
    simp only [hduplicate] at hrun
    cases hrun
  | false =>
    simp only [hduplicate] at hrun
    obtain ⟨found, mid'', hget, hrun⟩ := bind_eq_ok hrun
    cases hget
    obtain ⟨body, last, hbody, hrun⟩ := bind_eq_ok hrun
    have hbody := hleads _ mid' body last hbody (hmid' ▸ hloop)
    obtain ⟨span, last', hspan, hrun⟩ := bind_eq_ok hrun
    cases hspan
    cases hrun
    exact .labeled (Grown.kind_push _ _) (hbody.mono (.push _ _))

/-! ## All statements -/

theorem builds_statementGoal (hsub : SubBuilds sub) (hleads : Leads sub) :
    Builds nodes (Goal.statement scope).Built (statement sub scope) := by
  refine reads_current.bind fun t => ?_
  split
  · exact (hsub nodes (.block scope)).mono fun _ _ h => h.1
  · exact reads_advance.bind fun _ => builds_plain rfl rfl _
  · refine (builds_varDeclaration scope (.statement scope) hsub false
      fun _ => rfl).bind fun nodes₁ id _ hid => ?_
    exact reads_endStatement.bind fun _ => builds_pure fun _ h => hid.mono h
  · exact builds_functionDeclaration hsub
  · exact builds_ifStatement hsub
  · exact builds_forStatement hsub
  · exact builds_whileStatement hsub
  · exact builds_doWhileStatement hsub
  · exact builds_switchStatement hsub
  · exact builds_tryStatement hsub
  · exact builds_returnStatement hsub
  · exact builds_breakStatement
  · exact builds_continueStatement
  · exact builds_throwStatement hsub
  · exact reads_advance.bind fun _ => reads_endStatement.bind fun _ => builds_plain rfl rfl _
  · exact (refuses_fail _).builds
  · refine (reads_get.bind_reads fun s => ?_).bind fun labeled => ?_
    · split <;> exact reads_pure _
    · split
      · exact builds_labeledStatement hsub hleads
      · exact builds_expressionStatement hsub

theorem leads_statement (hleads : Leads sub) {s s' : State} {id : NodeId}
    (hrun : statement sub scope s = .ok (id, s')) (hloop : labelsLoop s.rest = true) :
    Loops s'.nodes id := by
  obtain ⟨t, mid, hcurrent, hrun⟩ := bind_eq_ok hrun
  cases hcurrent
  have hkind {t : Token} {rest : List Token} (h : s.rest = t :: rest) :
      s.current.kind = t.kind := by
    rw [State.current, h]
    rfl
  unfold labelsLoop at hloop
  split at hloop
  · rename_i rest hrest
    have hlabel : atLabel s = .ok (true, s) := by
      unfold atLabel
      rw [bind_run]
      dsimp only [get, getThe, MonadStateOf.get, StateT.get, pure, Except.pure]
      rw [hrest]
      rfl
    simp only [hkind hrest, bind_run, hlabel] at hrun
    exact loops_of_labeledStatement hleads hrest hloop hrun
  · rename_i hrest
    simp only [hkind hrest] at hrun
    exact endsInLoop_whileStatement _ _ _ hrun
  · rename_i hrest
    simp only [hkind hrest] at hrun
    exact endsInLoop_doWhileStatement _ _ _ hrun
  · rename_i hrest
    simp only [hkind hrest] at hrun
    exact endsInLoop_forStatement _ _ _ hrun
  · cases hloop

/-! ## Whole programs -/

/-- At every depth of the recursion the parser builds what it is asked for. -/
theorem builds_parseGoal (depth : Nat) :
    SubBuilds (parseGoal depth) ∧ Leads (parseGoal depth) := by
  induction depth with
  | zero =>
    refine ⟨fun _ _ => (refuses_fail _).builds, fun scope s id s' hrun => ?_⟩
    cases hrun
  | succ depth ih =>
    obtain ⟨hsub, hleads⟩ := ih
    refine ⟨fun nodes goal => ?_, fun scope s id s' => leads_statement hleads⟩
    cases goal with
    | statement scope => exact builds_statementGoal hsub hleads
    | block scope => exact builds_blockStatement hsub
    | expression noIn => exact builds_wholeExpression hsub noIn
    | assignment noIn => exact builds_assignmentExpression hsub noIn
    | binary least noIn => exact builds_binaryExpression hsub least noIn
    | unary => exact builds_unaryExpression hsub
    | member => exact builds_memberExpression hsub

theorem builds_programRoot (hsub : SubBuilds sub) :
    Builds nodes (fun nodes' id => Formed nodes' .program id) (programRoot sub) := by
  refine reads_current.bind fun t => ?_
  refine (builds_many_statements {} hsub reads_atEnd).bind fun nodes₁ body _ hbody => ?_
  refine reads_get.bind fun s => builds_pushFrom .program rfl (fun part hpart => ?_) rfl _
  obtain ⟨n, hn, rfl⟩ := List.mem_map.1 hpart
  exact hbody n hn

end Parser

open Parser

/-- Every accepted text is a program of the grammar. -/
theorem proper_of_parse {source : String} {p : Program} (h : parse source = .ok p) : p.Proper := by
  unfold parse at h
  cases htokens : Source.tokens source with
  | error e =>
    rw [htokens] at h
    cases h
  | ok tokens =>
    rw [htokens] at h
    cases hrun : programRoot (parseGoal (8 * tokens.length + 16)) { source, rest := tokens } with
    | error e =>
      simp only [bind, Except.bind, StateT.run, hrun] at h
      cases h
    | ok result =>
      simp only [bind, Except.bind, StateT.run, hrun] at h
      cases h
      have hbodied : Bodied #[] := fun id kind function h => by cases h
      obtain ⟨-, hbodied, hroot⟩ := builds_programRoot (builds_parseGoal _).1
        { source, rest := tokens } result.1 result.2 (.refl _) hbodied hrun
      exact ⟨hroot, hbodied⟩

end ScriptMachine.Tree
