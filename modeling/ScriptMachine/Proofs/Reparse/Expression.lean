import ScriptMachine.Proofs.Reparse.Mirror

/-!
# Expressions elsewhere

Each production reads an expression of a stretch of tokens in the same way wherever the stretch
stands, if the smaller parts do. A smaller part starts behind a token of the production, or it is of
a lower rank.
-/

namespace ScriptMachine.Tree.Parser

open ScriptMachine.Source

/-- Goals that are asked for before a token is taken go down in rank. -/
def Goal.rank : Goal → Nat
  | .statement _ => 6
  | .block _ => 0
  | .expression _ => 5
  | .assignment _ => 4
  | .binary _ _ => 3
  | .unary => 2
  | .member => 1

/-- A node of the stretch was read, and a token taken. -/
abbrev Window.Read (w : Window) (k : Nat) (id : NodeId) (j : Nat) : Prop := w.base ≤ id ∧ j < k

/-- Two parsers of smaller parts do the same in both places, as long as fewer tokens are left than for
the production they are used in, or the goal is of a lower rank than the production. -/
structure SubMirrors (w : Window) (n r : Nat) (sub sub' : Sub) : Prop where
  shrinks : ∀ g s id t, sub g s = .ok (id, t) → t.rest <:+ s.rest
  mirrors : ∀ g k, k < n ∨ k = n ∧ g.rank < r →
    Mirrors w True k w.move (w.Read k) (sub g) (sub' g)

variable {α : Type} {w : Window} {H : Prop} {n r j k : Nat} {sub sub' : Sub}

theorem SubMirrors.goal (hsub : SubMirrors w n r sub sub') (g : Goal)
    (h : H → k < n ∨ k = n ∧ g.rank < r) : Mirrors w H k w.move (w.Read k) (sub g) (sub' g) where
  shrinks := hsub.shrinks g
  follows hH := (hsub.mirrors g k (h hH)).follows trivial

/-- A part behind a token of the production. -/
theorem SubMirrors.behind (hsub : SubMirrors w n r sub sub') (g : Goal) (h : H → k < n) :
    Mirrors w H k w.move (w.Read k) (sub g) (sub' g) :=
  hsub.goal g fun hH => .inl (h hH)

/-- A part of lower rank at the start of the production. -/
theorem SubMirrors.below (hsub : SubMirrors w n r sub sub') (g : Goal) (hrank : g.rank < r)
    (h : H → k = n) : Mirrors w H k w.move (w.Read k) (sub g) (sub' g) :=
  hsub.goal g fun hH => .inr ⟨h hH, hrank⟩

/-- A production ends with its node. -/
theorem mirrors_node (start : Span) (kind : NodeKind) (h : H → k < j) :
    Mirrors w H k w.move (w.Read j) (pushFrom start kind)
      (pushFrom (start.moved w.origin) (kind.moved w.base)) :=
  (mirrors_pushFrom start kind).post fun _ _ hH hle hpush =>
    ⟨hpush.1, Nat.lt_of_le_of_lt hle (h hH)⟩

/-- A part is moved in both places, whether it is there or not. -/
theorem Mirrors.optional {Q : α → Nat → Prop} {m : α → α} {x x' : Parsing α}
    (h : Mirrors w H k m Q x x') :
    Mirrors w H k (Option.map m) (fun _ j => j ≤ k) (x >>= fun a => pure (some a))
      (x' >>= fun a => pure (some a)) :=
  h.bind fun a _ => mirrors_pure (some a) fun h => h.2.1

theorem mirrors_checkTarget {target : NodeId} (htarget : H → w.base ≤ target) (place place' : Span)
    (use : TargetUse) :
    Mirrors w H k id (fun _ j => j = k) (checkTarget target place use)
      (checkTarget (w.move target) place' use) := by
  refine (mirrors_kindOf? htarget).bind fun kind j => ?_
  cases kind with
  | none => exact (refuses_failAt _ _).mirrors
  | some kind =>
    cases kind with
    | identifier name =>
      dsimp only [Option.map, NodeKind.moved]
      cases isRestricted name with
      | true => exact (refuses_failAt _ _).mirrors
      | false => exact mirrors_same () fun h => h.2.2
    | member owner property => exact mirrors_same () fun h => h.2.2
    | _ => exact (refuses_failAt _ _).mirrors

/-! ## Functions -/

/-- The parameters of a function in parentheses. -/
def parameterList : Parsing (List String) := do
  requirePunct .lParen
  let params ← (do
    if ← checkPunct .rParen then return []
    loop [] fun seen => do
      let separated ← (if seen.isEmpty then pure true else acceptPunct .comma)
      if !separated then return none
      let place := (← current).span
      let param ← bindingName
      if seen.contains param then failAt place .duplicateParameter
      return some (seen ++ [param]) : Parsing (List String))
  requirePunct .rParen
  return params

/-- The body of a function, behind its parameters. What it hoists is kept apart from what is hoisted
around it. -/
def functionBody (sub : Sub) (name : Option String) (params : List String) :
    Parsing FunctionNode := do
  let outer := (← get).hoisted
  modify fun s => { s with hoisted := {} }
  let body ← sub (.block { inFunction := true })
  let hoisted := (← get).hoisted
  modify fun s => { s with hoisted := outer }
  return ⟨name, params, body, hoisted⟩

theorem functionRest_eq (sub : Sub) (name : Option String) :
    functionRest sub name = parameterList >>= functionBody sub name := by
  simp only [functionRest, parameterList, bind_assoc]
  congr 1
  funext _
  congr 1
  funext found
  cases found <;> rfl

theorem functionBody_eq_ok {name : Option String} {params : List String} {s t : State}
    {function : FunctionNode} :
    functionBody sub name params s = .ok (function, t) ↔
      ∃ body u, sub (.block { inFunction := true }) { s with hoisted := {} } = .ok (body, u) ∧
        function = ⟨name, params, body, u.hoisted⟩ ∧ t = { u with hoisted := s.hoisted } := by
  constructor
  · intro h
    obtain ⟨outer, u, hget, h⟩ := bind_eq_ok h
    cases hget
    obtain ⟨_, u, hmodify, h⟩ := bind_eq_ok h
    cases hmodify
    obtain ⟨body, u, hbody, h⟩ := bind_eq_ok h
    cases h
    exact ⟨body, u, hbody, rfl, rfl⟩
  · rintro ⟨body, u, hbody, rfl, rfl⟩
    have hrun : functionBody sub name params s = (sub (.block { inFunction := true }) >>= fun body =>
        get >>= fun inner => modify (fun v => { v with hoisted := s.hoisted }) >>= fun _ =>
          pure ⟨name, params, body, inner.hoisted⟩) { s with hoisted := {} } := rfl
    rw [hrun, bind_run, hbody]
    rfl

theorem mirrors_parameterList :
    Mirrors w H k id (fun _ j => j + 1 < k) parameterList parameterList := by
  refine (mirrors_requirePunct .lParen).bindSame fun _ i => ?_
  refine Mirrors.bindSame (Q := fun _ j => j ≤ i) ?_ fun params j => ?_
  · refine (mirrors_checkPunct .rParen).bindSame fun found j => ?_
    cases found with
    | true => exact mirrors_same [] fun h => h.2.1
    | false =>
      refine mirrors_loop (P := fun (_ : List String) l => l ≤ i) (a := []) (fun seen l => ?_)
        fun h => h.2.1
      refine Mirrors.bindSame (Q := fun _ m => m ≤ l) ?_ fun separated m => ?_
      · cases seen with
        | nil => exact mirrors_same true fun _ => Nat.le_refl l
        | cons _ _ => exact (mirrors_acceptPunct .comma).post fun _ m _ hm _ => hm
      cases separated with
      | false => exact mirrors_pure none fun h => Nat.le_trans h.2.1 h.1
      | true =>
        refine mirrors_current.bind fun t m' => ?_
        refine mirrors_bindingName.bindSame fun param q => ?_
        rw [id_eq seen]
        cases seen.contains param with
        | true => exact ((refuses_failAt _ _).bind _).mirrors
        | false =>
          refine mirrors_pure (some (seen ++ [param])) fun h => ?_
          constructor <;> omega
  · refine (mirrors_requirePunct .rParen).bindSame fun _ l => mirrors_same params fun h => ?_
    omega

theorem mirrors_functionBody (hexact : w.exact = true) (hsub : SubMirrors w n r sub sub')
    (hbehind : H → k < n) (name : Option String) (params : List String) :
    Mirrors w H k (FunctionNode.moved w.base) (fun _ j => j < k) (functionBody sub name params)
      (functionBody sub' name params) where
  shrinks s function t hrun := by
    obtain ⟨body, u, hbody, -, rfl⟩ := functionBody_eq_ok.1 hrun
    have hrest := hsub.shrinks _ _ _ _ hbody
    exact hrest
  follows hH s s' function t hs hrun ht := by
    obtain ⟨body, u, hbody, rfl, rfl⟩ := functionBody_eq_ok.1 hrun
    have hinner : Twin w k { s with hoisted := {} } { s' with hoisted := {} } :=
      { hs with hoisted := fun _ => rfl }
    obtain ⟨j, u', hj, hread, hbody', hu⟩ :=
      (hsub.behind (.block { inFunction := true }) hbehind).follows hH _ _ _ _ hinner hbody ht
    refine ⟨j, { u' with hoisted := s'.hoisted }, hj, hread.2, ?_, ?_⟩
    · apply functionBody_eq_ok.2
      refine ⟨w.move body, u', hbody', ?_, rfl⟩
      rw [hu.hoisted hexact]
      rfl
    · exact { hu with hoisted := hs.hoisted }

theorem mirrors_functionRest (hexact : w.exact = true) (hsub : SubMirrors w n r sub sub')
    (name : Option String) :
    Mirrors w (k ≤ n) k (FunctionNode.moved w.base) (fun _ j => j < k) (functionRest sub name)
      (functionRest sub' name) := by
  rw [functionRest_eq, functionRest_eq]
  refine mirrors_parameterList.bindSame fun params j => ?_
  refine (mirrors_functionBody hexact hsub (fun h => ?_) name params).post fun _ i h hi _ => ?_
  · omega
  · omega

theorem mirrors_functionExpression (hexact : w.exact = true) (hsub : SubMirrors w n r sub sub') :
    Mirrors w (k ≤ n) k w.move (w.Read k) (functionExpression sub) (functionExpression sub') := by
  refine mirrors_current.bind fun t i => mirrors_advance.bindSame fun _ j => ?_
  refine Mirrors.bindSame (Q := fun _ l => l ≤ j) ?_ fun name l => ?_
  · refine (mirrors_checkPunct .lParen).bindSame fun found l => ?_
    cases found with
    | true => exact mirrors_same none fun h => h.2.1
    | false =>
      exact mirrors_bindingName.bindSame fun name m => mirrors_same (some name) fun h => by omega
  · refine ((mirrors_functionRest hexact hsub name).pre fun h => ?_).bind fun function m =>
      mirrors_node _ _ fun h => by omega
    omega

/-! ## Literals and operands -/

theorem mirrors_arguments (hsub : SubMirrors w n r sub sub') :
    Mirrors w (k ≤ n) k (List.map w.move) (fun _ j => j < k) (arguments sub) (arguments sub') := by
  refine (mirrors_requirePunct .lParen).bindSame fun _ i => ?_
  refine Mirrors.bind (m := List.map w.move) (Q := fun _ j => j ≤ i) ?_ fun args j =>
    (mirrors_requirePunct .rParen).bindSame fun _ l => mirrors_pure args fun h => by omega
  refine (mirrors_checkPunct .rParen).bindSame fun found j => ?_
  cases found with
  | true => exact mirrors_pure [] fun h => h.2.1
  | false =>
    refine (mirrors_commaSeparated (m := w.move) fun l => ?_).post fun _ l h hl _ => ?_
    · exact (hsub.behind (.assignment false) fun h => by omega).post fun _ _ _ _ hread => hread.2
    · omega

theorem mirrors_arrayLiteral (hsub : SubMirrors w n r sub sub') :
    Mirrors w (k ≤ n) k w.move (w.Read k) (arrayLiteral sub) (arrayLiteral sub') := by
  refine mirrors_current.bind fun t i => (mirrors_requirePunct .lBracket).bindSame fun _ j => ?_
  refine (mirrors_many (m := Option.map w.move) fun l => ?_).bind fun elements l =>
    mirrors_node _ _ fun h => by omega
  refine (mirrors_acceptPunct .rBracket).bindSame fun closed a => ?_
  cases closed with
  | true => exact mirrors_pure none fun _ hnone => absurd rfl hnone
  | false =>
    refine (mirrors_acceptPunct .comma).bindSame fun hole b => ?_
    cases hole with
    | true =>
      refine mirrors_pure (some none) fun h _ => ?_
      have htook : b + 1 = a := h.2.2
      omega
    | false =>
      refine (hsub.behind (.assignment false) fun h => ?_).bind fun element c => ?_
      · omega
      · refine (mirrors_checkPunct .rBracket).bindSame fun last d => ?_
        cases last with
        | true =>
          refine mirrors_pure (some (some element)) fun h _ => ?_
          omega
        | false =>
          refine (mirrors_requirePunct .comma).bindSame fun _ e =>
            mirrors_pure (some (some element)) fun h _ => ?_
          omega

theorem mirrors_propertyKey :
    Mirrors w H k id (fun _ j => j + 1 = k) propertyKey propertyKey := by
  refine mirrors_current.bind fun t j => ?_
  have htake (key : String) : Mirrors w (H ∧ j ≤ k ∧ j = k) j id (fun _ i => i + 1 = k)
      (advance >>= fun _ => pure key) (advance >>= fun _ => pure key) := by
    refine mirrors_advance.bindSame fun _ i => mirrors_same key fun h => ?_
    omega
  have hname : Mirrors w (H ∧ j ≤ k ∧ j = k) j id (fun _ i => i + 1 = k) propertyName propertyName :=
    mirrors_propertyName.post fun _ _ h _ hi => hi.trans h.2.2
  obtain ⟨kind, span, newline⟩ := t
  cases kind with
  | text key => exact htake key
  | number value => exact htake (Number.toText value)
  | _ => exact hname

theorem mirrors_leaf (kind : NodeKind) (hkind : kind.moved w.base = kind) :
    Mirrors w H k w.move (w.Read k) (leaf kind) (leaf kind) := by
  refine mirrors_current.bind fun t i => mirrors_advance.bindSame fun _ j => ?_
  have hnode := mirrors_node (w := w) (H := (H ∧ i ≤ k ∧ i = k) ∧ j ≤ i ∧ j + 1 = i) (k := j) (j := k)
    t.span kind fun h => by omega
  rw [hkind] at hnode
  exact hnode

theorem any_map_moved (seen : List PropertyInit) (key : String) (base : NodeId) :
    (seen.map (PropertyInit.moved base)).any (fun p => p.key == key) =
      seen.any (fun p => p.key == key) :=
  List.any_map

theorem mirrors_objectLiteral (hsub : SubMirrors w n r sub sub') :
    Mirrors w (k ≤ n) k w.move (w.Read k) (objectLiteral sub) (objectLiteral sub') := by
  refine mirrors_current.bind fun t i => (mirrors_requirePunct .lBrace).bindSame fun _ j => ?_
  have hpush (properties : List PropertyInit) (l : Nat) :
      Mirrors w (((k ≤ n ∧ i ≤ k ∧ i = k) ∧ j ≤ i ∧ j + 1 = i) ∧ l ≤ j ∧ l ≤ j ∧ j < n) l w.move
        (w.Read k) (pushFrom t.span (.object properties.reverse))
        (pushFrom (t.span.moved w.origin)
          (.object (properties.map (PropertyInit.moved w.base)).reverse)) := by
    rw [← List.map_reverse]
    exact mirrors_node t.span (.object properties.reverse) fun h => by omega
  refine Mirrors.bind (Q := fun _ l => l ≤ j ∧ j < n) ?_ hpush
  refine mirrors_loop (a := []) (fun seen l => ?_) fun h => ?_
  · refine (mirrors_acceptPunct .rBrace).bindSame fun closed a => ?_
    cases closed with
    | true => exact mirrors_pure none fun h => ⟨Nat.le_trans h.2.1 h.1.1, h.1.2⟩
    | false =>
      refine mirrors_current.bind fun place b => mirrors_propertyKey.bindSame fun key c => ?_
      refine (mirrors_checkPunct .colon).bindSame fun colon d => ?_
      rw [any_map_moved]
      cases (key == "get" || key == "set") && !colon with
      | true => exact ((refuses_fail _).bind _).mirrors
      | false =>
        cases seen.any fun p => p.key == key with
        | true => exact ((refuses_failAt _ _).bind _).mirrors
        | false =>
          refine (mirrors_requirePunct .colon).bindSame fun _ e => ?_
          refine (hsub.behind (.assignment false) fun h => ?_).bind fun value f => ?_
          · omega
          · refine (mirrors_checkPunct .rBrace).bindSame fun last q => ?_
            cases last with
            | true =>
              refine mirrors_pure (some (⟨key, value⟩ :: seen)) fun h => ?_
              constructor <;> omega
            | false =>
              refine (mirrors_requirePunct .comma).bindSame fun _ u =>
                mirrors_pure (some (⟨key, value⟩ :: seen)) fun h => ?_
              constructor <;> omega
  · constructor <;> omega

theorem mirrors_primary (hexact : w.exact = true) (hsub : SubMirrors w n r sub sub') :
    Mirrors w (k ≤ n) k w.move (w.Read k) (primary sub) (primary sub') := by
  refine mirrors_current.bind fun t i => ?_
  have hleaf (kind : NodeKind) (hkind : kind.moved w.base = kind) :
      Mirrors w (k ≤ n ∧ i ≤ k ∧ i = k) i w.move (w.Read k) (leaf kind) (leaf kind) := by
    refine (mirrors_leaf kind hkind).post fun id j h _ hread => ⟨hread.1, ?_⟩
    omega
  have hsmaller {x x' : Parsing NodeId} (h : Mirrors w (i ≤ n) i w.move (w.Read i) x x') :
      Mirrors w (k ≤ n ∧ i ≤ k ∧ i = k) i w.move (w.Read k) x x' := by
    refine (h.pre fun h => ?_).post fun id j h _ hread => ⟨hread.1, ?_⟩
    · omega
    · omega
  obtain ⟨kind, span, newline⟩ := t
  cases kind with
  | eof => exact (refuses_unexpected _).mirrors
  | reserved word => exact (refuses_fail _).mirrors
  | identifier name => exact hleaf (.identifier name) rfl
  | number value => exact hleaf (.literal (.number value)) rfl
  | text value => exact hleaf (.literal (.string value)) rfl
  | keyword word =>
    cases word with
    | this => exact hleaf .this rfl
    | true => exact hleaf (.literal (.bool true)) rfl
    | false => exact hleaf (.literal (.bool false)) rfl
    | null => exact hleaf (.literal .null) rfl
    | function => exact hsmaller (mirrors_functionExpression hexact hsub)
    | _ => exact (refuses_unexpected _).mirrors
  | punct p =>
    cases p with
    | lParen =>
      refine mirrors_advance.bindSame fun _ j => ?_
      refine (hsub.behind (.expression false) fun h => ?_).bind fun inner l =>
        (mirrors_requirePunct .rParen).bindSame fun _ a => mirrors_pure inner fun h => ?_
      · omega
      · exact ⟨h.1.2.2.1, by omega⟩
    | lBracket => exact hsmaller (mirrors_arrayLiteral hsub)
    | lBrace => exact hsmaller (mirrors_objectLiteral hsub)
    | slash | slashEq => exact (refuses_fail _).mirrors
    | _ => exact (refuses_unexpected _).mirrors

/-! ## Calls and operators -/

/-- What is built onto a node of the stretch. -/
theorem mirrors_memberStep (hsub : SubMirrors w n r sub sub') (start : Span) (owner : NodeId) :
    Mirrors w (k ≤ n ∧ w.base ≤ owner) k (Option.map w.move)
      (Goes (fun id j => j ≤ n ∧ w.base ≤ id) k owner) (memberStep sub start owner)
      (memberStep sub' (start.moved w.origin) (w.move owner)) := by
  refine (mirrors_acceptPunct .dot).bindSame fun dot i => ?_
  cases dot with
  | true =>
    refine mirrors_propertyName.bindSame fun name j => ?_
    refine (mirrors_pushFrom start (.member owner (.named name))).bind fun id l =>
      mirrors_pure (some id) fun h => ?_
    exact ⟨by omega, by omega, h.2.2.1⟩
  | false =>
    refine (mirrors_acceptPunct .lBracket).bindSame fun bracket j => ?_
    cases bracket with
    | true =>
      refine (hsub.behind (.expression false) fun h => ?_).bind fun key l =>
        (mirrors_requirePunct .rBracket).bindSame fun _ a => ?_
      · have htook : j + 1 = i := h.2.2
        omega
      · refine (mirrors_pushFrom start (.member owner (.computed key))).bind fun id l =>
          mirrors_pure (some id) fun h => ?_
        exact ⟨by omega, by omega, h.2.2.1⟩
    | false => exact mirrors_pure none fun h => ⟨by omega, h.1.1.2⟩

theorem mirrors_memberExpression (hexact : w.exact = true) (hsub : SubMirrors w n r sub sub') :
    Mirrors w (k ≤ n) k w.move (w.Read k) (memberExpression sub) (memberExpression sub') := by
  refine mirrors_current.bind fun t i => ?_
  refine Mirrors.bind (m := w.move) (Q := w.Read i) ?_ fun start j => ?_
  · refine (mirrors_acceptKeyword .new).bindSame fun found j => ?_
    cases found with
    | true =>
      refine (hsub.behind .member fun h => ?_).bind fun callee l => ?_
      · have htook : j + 1 = i := h.2.2
        omega
      refine Mirrors.bind (m := List.map w.move) (Q := fun _ a => a ≤ l) ?_ fun args a =>
        mirrors_node _ _ fun h => by omega
      refine (mirrors_checkPunct .lParen).bindSame fun found a => ?_
      cases found with
      | true =>
        refine ((mirrors_arguments hsub).pre fun h => ?_).post fun _ b h hb _ => ?_
        · omega
        · omega
      | false => exact mirrors_pure [] fun h => h.2.1
    | false =>
      have hprimary := mirrors_primary (k := j) hexact hsub
      refine (hprimary.pre fun h => ?_).post fun id l h _ hread => ⟨hread.1, ?_⟩
      · omega
      · omega
  · refine (mirrors_loop (P := fun id l => l ≤ n ∧ w.base ≤ id) (fun owner l =>
      mirrors_memberStep hsub t.span owner) fun h => ?_).post fun id l h hl hread => ?_
    · exact ⟨by omega, h.2.2.1⟩
    · exact ⟨hread.2, by omega⟩

theorem mirrors_callExpression (hsub : SubMirrors w n r sub sub') (hrank : 1 < r) :
    Mirrors w (k = n) k w.move (w.Read k) (callExpression sub) (callExpression sub') := by
  refine mirrors_current.bind fun t i => ?_
  refine (hsub.below .member hrank fun h => ?_).bind fun start j => ?_
  · omega
  refine (mirrors_loop (P := fun id l => l ≤ n ∧ w.base ≤ id) (fun callee l => ?_)
    fun h => ?_).post fun id l h hl hread => ?_
  · refine (mirrors_checkPunct .lParen).bindSame fun found a => ?_
    cases found with
    | true =>
      refine ((mirrors_arguments hsub).pre fun h => ?_).bind fun args b => ?_
      · omega
      · refine (mirrors_pushFrom t.span (.call callee args)).bind fun id c =>
          mirrors_pure (some id) fun h => ?_
        exact ⟨by omega, by omega, h.2.2.1⟩
    | false =>
      refine ((mirrors_memberStep hsub t.span callee).pre fun h => ?_).post fun next b h hb hgoes => ?_
      · exact ⟨by omega, h.1.2⟩
      · obtain rfl : a = l := h.2.2
        exact hgoes
  · exact ⟨by omega, h.2.2.1⟩
  · exact ⟨hread.2, by omega⟩

theorem mirrors_postfixed (hsub : SubMirrors w n r sub sub') (hrank : 1 < r) :
    Mirrors w (k = n) k w.move (w.Read k) (postfixed sub) (postfixed sub') := by
  refine mirrors_current.bind fun t i => ?_
  refine ((mirrors_callExpression hsub hrank).pre fun h => ?_).bind fun operand j => ?_
  · omega
  refine mirrors_current.bind fun next l => ?_
  have hoperand : Mirrors w (((k = n ∧ i ≤ k ∧ i = k) ∧ j ≤ i ∧ w.Read i operand j) ∧ l ≤ j ∧ l = j) l
      w.move (w.Read k) (pure operand) (pure (w.move operand)) :=
    mirrors_pure operand fun h => ⟨h.1.2.2.1, by omega⟩
  rw [Token.kind_moved]
  cases updateOp? next.kind with
  | none => exact hoperand
  | some op =>
    have hnewline : (next.moved w.origin).newlineBefore = next.newlineBefore := rfl
    dsimp only
    rw [hnewline]
    cases next.newlineBefore with
    | true => exact hoperand
    | false =>
      refine (mirrors_checkTarget (fun h => h.1.2.2.1) _ _ _).bindSame fun _ a =>
        mirrors_advance.bindSame fun _ b => ?_
      exact mirrors_node t.span (.update op false operand) fun h => by omega

theorem mirrors_unaryExpression (hsub : SubMirrors w n r sub sub') (hrank : 1 < r) :
    Mirrors w (k = n) k w.move (w.Read k) (unaryExpression sub) (unaryExpression sub') := by
  refine mirrors_current.bind fun t i => ?_
  rw [Token.kind_moved]
  cases unaryOp? t.kind with
  | some op =>
    refine mirrors_advance.bindSame fun _ j => (hsub.behind .unary fun h => ?_).bind fun argument l => ?_
    · omega
    have hnode (a : Nat) := mirrors_node (w := w) (H := a ≤ l ∧ l < k) (k := a) (j := k) t.span (.unary op argument)
      fun h => by omega
    dsimp only
    cases op == .delete with
    | false => exact (hnode l).pre fun h => by omega
    | true =>
      refine (mirrors_kindOf? fun h => h.2.2.1).bind fun kind a => ?_
      cases kind with
      | none => exact (hnode a).pre fun h => by omega
      | some kind =>
        cases kind with
        | identifier name => exact ((refuses_failAt _ _).bind _).mirrors
        | _ => exact (hnode a).pre fun h => by omega
  | none =>
    dsimp only
    cases updateOp? t.kind with
    | some op =>
      refine mirrors_advance.bindSame fun _ j => (hsub.behind .unary fun h => ?_).bind fun argument l => ?_
      · omega
      refine (mirrors_checkTarget (fun h => h.2.2.1) _ _ _).bindSame fun _ a =>
        mirrors_node t.span (.update op true argument) fun h => by omega
    | none =>
      refine ((mirrors_postfixed hsub hrank).pre fun h => ?_).post fun id j h _ hread => ⟨hread.1, ?_⟩
      · omega
      · omega

theorem mirrors_binaryExpression (hsub : SubMirrors w n r sub sub') (hrank : 2 < r) (least : Nat)
    (noIn : Bool) :
    Mirrors w (k = n) k w.move (w.Read k) (binaryExpression sub least noIn)
      (binaryExpression sub' least noIn) := by
  refine mirrors_current.bind fun t i => ?_
  refine (hsub.below .unary hrank fun h => ?_).bind fun first j => ?_
  · omega
  refine (mirrors_loop (P := fun id l => l ≤ n ∧ w.base ≤ id) (fun left l => ?_)
    fun h => ?_).post fun id l h hl hread => ?_
  · refine mirrors_current.bind fun next a => ?_
    rw [Token.kind_moved]
    cases infixed? noIn next.kind with
    | none => exact mirrors_pure none fun h => ⟨by omega, h.1.2⟩
    | some infixed =>
      obtain ⟨op, level⟩ := infixed
      dsimp only
      by_cases hlevel : level < least
      · rw [if_pos hlevel, if_pos hlevel]
        exact mirrors_pure none fun h => ⟨by omega, h.1.2⟩
      · rw [if_neg hlevel, if_neg hlevel]
        refine mirrors_advance.bindSame fun _ b =>
          (hsub.behind (.binary (level + 1) noIn) fun h => ?_).bind fun right c => ?_
        · omega
        cases op with
        | logical op =>
          refine (mirrors_pushFrom t.span (.logical op left right)).bind fun id d =>
            mirrors_pure (some id) fun h => ?_
          exact ⟨by omega, by omega, h.2.2.1⟩
        | binary op =>
          refine (mirrors_pushFrom t.span (.binary op left right)).bind fun id d =>
            mirrors_pure (some id) fun h => ?_
          exact ⟨by omega, by omega, h.2.2.1⟩
  · exact ⟨by omega, h.2.2.1⟩
  · exact ⟨hread.2, by omega⟩

theorem mirrors_conditionalExpression (hsub : SubMirrors w n r sub sub') (hrank : 3 < r)
    (noIn : Bool) :
    Mirrors w (k = n) k w.move (w.Read k) (conditionalExpression sub noIn)
      (conditionalExpression sub' noIn) := by
  refine mirrors_current.bind fun t i => ?_
  refine (hsub.below (.binary 1 noIn) hrank fun h => ?_).bind fun test j => ?_
  · omega
  refine (mirrors_acceptPunct .question).bindSame fun found l => ?_
  cases found with
  | true =>
    refine (hsub.behind (.assignment false) fun h => ?_).bind fun consequent a =>
      (mirrors_requirePunct .colon).bindSame fun _ b =>
        (hsub.behind (.assignment noIn) fun h => ?_).bind fun alternate c => ?_
    · omega
    · omega
    · exact mirrors_node t.span (.conditional test consequent alternate) fun h => by omega
  | false => exact mirrors_pure test fun h => ⟨h.1.2.2.1, by omega⟩

theorem mirrors_assignmentExpression (hsub : SubMirrors w n r sub sub') (hrank : 3 < r)
    (noIn : Bool) :
    Mirrors w (k = n) k w.move (w.Read k) (assignmentExpression sub noIn)
      (assignmentExpression sub' noIn) := by
  refine mirrors_current.bind fun t i => ?_
  refine ((mirrors_conditionalExpression hsub hrank noIn).pre fun h => ?_).bind fun target j => ?_
  · omega
  refine mirrors_current.bind fun next l => ?_
  rw [Token.kind_moved]
  cases assignmentOp? next.kind with
  | none => exact mirrors_pure target fun h => ⟨h.1.2.2.1, by omega⟩
  | some op =>
    refine (mirrors_checkTarget (fun h => h.1.2.2.1) _ _ _).bindSame fun _ a =>
      mirrors_advance.bindSame fun _ b =>
        (hsub.behind (.assignment noIn) fun h => ?_).bind fun value c => ?_
    · omega
    · exact mirrors_node t.span (.assignment op target value) fun h => by omega

theorem mirrors_expression (hsub : SubMirrors w n r sub sub') (hrank : 4 < r) (noIn : Bool) :
    Mirrors w (k = n) k w.move (w.Read k) (expression sub noIn) (expression sub' noIn) := by
  refine mirrors_current.bind fun t i => ?_
  refine (hsub.below (.assignment noIn) hrank fun h => ?_).bind fun first j => ?_
  · omega
  refine (mirrors_checkPunct .comma).bindSame fun found l => ?_
  cases found with
  | true =>
    refine (mirrors_many (m := w.move) fun a => ?_).bind fun rest a =>
      mirrors_node t.span (.sequence (first :: rest)) fun h => by omega
    refine (mirrors_acceptPunct .comma).bindSame fun found b => ?_
    cases found with
    | true =>
      refine (hsub.behind (.assignment noIn) fun h => ?_).bind fun id c =>
        mirrors_pure (some id) fun h _ => ?_
      · omega
      · omega
    | false => exact mirrors_pure none fun _ hnone => absurd rfl hnone
  | false => exact mirrors_pure first fun h => ⟨h.1.2.2.1, by omega⟩

end ScriptMachine.Tree.Parser
