import ScriptMachine.Proofs.Tree.Grammar
import ScriptMachine.Tree.Parser.Program

/-!
# What the parser builds

Parsing only adds nodes, each above nodes that are there. A production builds what the grammar has
in its place if the parser of the smaller parts does, so by induction on the depth of the recursion
every text that is accepted becomes a program of the grammar.
-/

namespace ScriptMachine.Tree.Parser

open ScriptMachine.Source

variable {α β : Type} {nodes : Array Node}

/-! ## Parts of a parse -/

/-- Started where some nodes are there already, a part of a parse adds nodes, and what it gives is
as described in the nodes there are then. -/
def Builds (nodes : Array Node) (Q : Array Node → α → Prop) (x : Parsing α) : Prop :=
  ∀ s a s', Grown nodes s.nodes → Bodied s.nodes → x s = .ok (a, s') →
    Grown s.nodes s'.nodes ∧ Bodied s'.nodes ∧ Q s'.nodes a

/-- A part of a parse that adds no nodes. -/
def Reads (x : Parsing α) : Prop :=
  ∀ s a s', x s = .ok (a, s') → s'.nodes = s.nodes

theorem bind_run (x : Parsing α) (f : α → Parsing β) (s : State) :
    (x >>= f) s = (match x s with
      | .ok (a, s') => f a s'
      | .error e => .error e) := by
  change StateT.bind x f s = _
  unfold StateT.bind
  cases x s <;> rfl

theorem bind_eq_ok {x : Parsing α} {f : α → Parsing β} {s s' : State} {b : β}
    (h : (x >>= f) s = .ok (b, s')) : ∃ a mid, x s = .ok (a, mid) ∧ f a mid = .ok (b, s') := by
  rw [bind_run] at h
  cases hx : x s with
  | error e =>
    rw [hx] at h
    cases h
  | ok r =>
    rw [hx] at h
    exact ⟨r.1, r.2, rfl, h⟩

theorem Builds.mono {P Q : Array Node → α → Prop} {x : Parsing α} (hx : Builds nodes P x)
    (h : ∀ nodes' a, P nodes' a → Q nodes' a) : Builds nodes Q x := by
  intro s a s' hs hbodied hrun
  obtain ⟨hgrown, hbodied', ha⟩ := hx s a s' hs hbodied hrun
  exact ⟨hgrown, hbodied', h _ a ha⟩

theorem Builds.bind {P : Array Node → α → Prop} {Q : Array Node → β → Prop} {x : Parsing α}
    {f : α → Parsing β} (hx : Builds nodes P x)
    (hf : ∀ nodes' a, Grown nodes nodes' → P nodes' a → Builds nodes' Q (f a)) :
    Builds nodes Q (x >>= f) := by
  intro s b s' hs hbodied hrun
  obtain ⟨a, mid, hxrun, hfrun⟩ := bind_eq_ok hrun
  obtain ⟨hgrown, hbodied', ha⟩ := hx s a mid hs hbodied hxrun
  obtain ⟨hgrown', hbodied'', hb⟩ :=
    hf mid.nodes a (hs.trans hgrown) ha mid b s' (.refl _) hbodied' hfrun
  exact ⟨hgrown.trans hgrown', hbodied'', hb⟩

theorem Reads.bind {Q : Array Node → β → Prop} {x : Parsing α} {f : α → Parsing β}
    (hx : Reads x) (hf : ∀ a, Builds nodes Q (f a)) : Builds nodes Q (x >>= f) := by
  intro s b s' hs hbodied hrun
  obtain ⟨a, mid, hxrun, hfrun⟩ := bind_eq_ok hrun
  have hmid := hx s a mid hxrun
  rw [← hmid] at hs hbodied ⊢
  exact hf a mid b s' hs hbodied hfrun

theorem Reads.bind_reads {x : Parsing α} {f : α → Parsing β} (hx : Reads x)
    (hf : ∀ a, Reads (f a)) : Reads (x >>= f) := by
  intro s b s' hrun
  obtain ⟨a, mid, hxrun, hfrun⟩ := bind_eq_ok hrun
  exact (hf a mid b s' hfrun).trans (hx s a mid hxrun)

theorem reads_pure (a : α) : Reads (pure a : Parsing α) := by
  intro s b s' hrun
  cases hrun
  rfl

theorem builds_pure {Q : Array Node → α → Prop} {a : α}
    (h : ∀ nodes', Grown nodes nodes' → Q nodes' a) : Builds nodes Q (pure a : Parsing α) := by
  intro s b s' hs hbodied hrun
  cases hrun
  exact ⟨.refl _, hbodied, h _ hs⟩

theorem reads_get : Reads (get : Parsing State) := by
  intro s a s' hrun
  cases hrun
  rfl

theorem reads_modify {f : State → State} (h : ∀ s, (f s).nodes = s.nodes) :
    Reads (modify f : Parsing Unit) := by
  intro s a s' hrun
  cases hrun
  exact h s

/-- A refusal builds whatever is asked. -/
def Refuses (x : Parsing α) : Prop := ∀ s, ∃ e, x s = .error e

theorem Refuses.reads {x : Parsing α} (h : Refuses x) : Reads x := by
  intro s a s' hrun
  obtain ⟨e, he⟩ := h s
  rw [he] at hrun
  cases hrun

theorem Refuses.builds {Q : Array Node → α → Prop} {x : Parsing α} (h : Refuses x) :
    Builds nodes Q x := by
  intro s a s' _ _ hrun
  obtain ⟨e, he⟩ := h s
  rw [he] at hrun
  cases hrun

theorem refuses_failAt (span : Span) (cause : SyntaxCause) :
    Refuses (failAt span cause : Parsing α) :=
  fun _ => ⟨_, rfl⟩

theorem refuses_fail (cause : SyntaxCause) : Refuses (fail cause : Parsing α) :=
  fun _ => ⟨_, rfl⟩

theorem refuses_unexpected (expected : String) : Refuses (unexpected expected : Parsing α) :=
  fun _ => ⟨_, rfl⟩

theorem Refuses.bind {x : Parsing α} (h : Refuses x) (f : α → Parsing β) :
    Refuses (x >>= f) := by
  intro s
  obtain ⟨e, he⟩ := h s
  exact ⟨e, by rw [bind_run, he]⟩

/-! ## Tokens and names -/

theorem reads_current : Reads current :=
  reads_get.bind_reads fun _ => reads_pure _

theorem reads_advance : Reads advance := by
  refine reads_modify fun s => ?_
  split <;> rfl

theorem reads_checkPunct (p : Punctuator) : Reads (checkPunct p) :=
  reads_current.bind_reads fun _ => reads_pure _

theorem reads_checkKeyword (k : Keyword) : Reads (checkKeyword k) :=
  reads_current.bind_reads fun _ => reads_pure _

theorem reads_atEnd : Reads atEnd :=
  reads_current.bind_reads fun _ => reads_pure _

theorem reads_acceptPunct (p : Punctuator) : Reads (acceptPunct p) := by
  refine (reads_checkPunct p).bind_reads fun found => ?_
  split
  · exact reads_advance.bind_reads fun _ => reads_pure _
  · exact reads_pure _

theorem reads_acceptKeyword (k : Keyword) : Reads (acceptKeyword k) := by
  refine (reads_checkKeyword k).bind_reads fun found => ?_
  split
  · exact reads_advance.bind_reads fun _ => reads_pure _
  · exact reads_pure _

theorem reads_requirePunct (p : Punctuator) : Reads (requirePunct p) := by
  refine (reads_acceptPunct p).bind_reads fun found => ?_
  split
  · exact reads_pure _
  · exact (refuses_unexpected _).reads

theorem reads_requireKeyword (k : Keyword) : Reads (requireKeyword k) := by
  refine (reads_acceptKeyword k).bind_reads fun found => ?_
  split
  · exact reads_pure _
  · exact (refuses_unexpected _).reads

theorem reads_atStatementEnd : Reads atStatementEnd :=
  reads_current.bind_reads fun _ => reads_pure _

theorem reads_endStatement : Reads endStatement := by
  refine (reads_acceptPunct _).bind_reads fun found => ?_
  split
  · exact reads_pure _
  · refine reads_atStatementEnd.bind_reads fun ended => ?_
    split
    · exact reads_pure _
    · exact (refuses_unexpected _).reads

theorem reads_kindOf? (id : NodeId) : Reads (kindOf? id) :=
  reads_get.bind_reads fun _ => reads_pure _

theorem reads_bindingName : Reads bindingName := by
  refine reads_current.bind_reads fun t => ?_
  split
  · split
    · exact ((refuses_fail _).bind _).reads
    · exact reads_advance.bind_reads fun _ => reads_pure _
  · exact (refuses_fail _).reads
  · exact (refuses_unexpected _).reads

theorem reads_propertyName : Reads propertyName := by
  refine reads_current.bind_reads fun t => ?_
  split
  · exact reads_advance.bind_reads fun _ => reads_pure _
  · exact reads_advance.bind_reads fun _ => reads_pure _
  · exact reads_advance.bind_reads fun _ => reads_pure _
  · exact (refuses_unexpected _).reads

theorem reads_hoistVar (name : String) : Reads (hoistVar name) := by
  refine reads_modify fun s => ?_
  dsimp only
  split <;> rfl

theorem reads_hoistFunction (id : NodeId) : Reads (hoistFunction id) :=
  reads_modify fun _ => rfl

/-! ## Nodes -/

theorem bodied_push {kind : NodeKind} {span : Span} (h : Bodied nodes)
    (hfunction : ∀ function, kind.function? = some function → function.Built nodes) :
    Bodied (nodes.push ⟨kind, span⟩) := by
  have hgrown := Grown.push nodes ⟨kind, span⟩
  intro id k function hk hk'
  rw [Array.getElem?_push] at hk
  split at hk
  · obtain rfl : kind = k := by simpa using hk
    exact (hfunction function hk').mono hgrown
  · exact (h id k function hk hk').mono hgrown

/-- A node whose parts are built already. -/
theorem builds_push (place : Place) (loop : Bool) {kind : NodeKind}
    {parts : List (Place × NodeId)} (hparts : kind.parts? loop place = some parts)
    (hloop : loop = true → ∃ label body, kind = .labeled label body ∧ Loops nodes body)
    (hformed : ∀ part ∈ parts, Formed nodes part.1 part.2)
    (hfunction : ∀ function, kind.function? = some function → function.Built nodes)
    (span : Span) :
    Builds nodes (fun nodes' id => Formed nodes' place id ∧
      nodes'[id]?.map Node.kind = some kind) (push kind span) := by
  intro s id s' hs hbodied hrun
  cases hrun
  have hgrown := Grown.push s.nodes ⟨kind, span⟩
  have hkind := Grown.kind_push s.nodes ⟨kind, span⟩
  refine ⟨hgrown, bodied_push hbodied fun function h => ?_,
    .node hkind (fun h => ?_) hparts fun part hpart => ?_, hkind⟩
  · exact (hfunction function h).mono hs
  · obtain ⟨label, body, rfl, hbody⟩ := hloop h
    exact .labeled hkind (hbody.mono (hs.trans hgrown))
  · exact (hformed part hpart).mono (hs.trans hgrown)

/-- A node that is no function. -/
theorem builds_pushFrom (place : Place) {kind : NodeKind} {parts : List (Place × NodeId)}
    (hparts : kind.parts? false place = some parts)
    (hformed : ∀ part ∈ parts, Formed nodes part.1 part.2) (hfunction : kind.function? = none)
    (start : Span) : Builds nodes (fun nodes' id => Formed nodes' place id) (pushFrom start kind) := by
  refine (reads_get.bind_reads fun _ => reads_pure _).bind fun span => ?_
  refine (builds_push _ _ hparts (fun h => by cases h) hformed (fun function h => ?_) span).mono fun _ _ h => h.1
  rw [hfunction] at h
  cases h

/-! ## Repetition -/

/-- What is said of a result stays true when nodes are added. -/
def Lasting (I : Array Node → α → Prop) : Prop :=
  ∀ nodes nodes' a, Grown nodes nodes' → I nodes a → I nodes' a

theorem lasting_all {I : Array Node → α → Prop} (hI : Lasting I) :
    Lasting fun nodes' (l : List α) => ∀ a ∈ l, I nodes' a :=
  fun _ _ _ h hl a ha => hI _ _ a h (hl a ha)

variable {I : Array Node → α → Prop}

theorem builds_iterate (hI : Lasting I)
    {step : α → Parsing (Option α)}
    (hstep : ∀ nodes' a, Grown nodes nodes' → I nodes' a →
      Builds nodes' (fun nodes'' next => ∀ b, next = some b → I nodes'' b) (step a))
    (bound : List Token) {a : α} (ha : I nodes a) : Builds nodes I (iterate step bound a) := by
  induction bound generalizing nodes a with
  | nil => exact (refuses_fail _).builds
  | cons t bound ih =>
    refine (hstep nodes a (.refl _) ha).bind fun nodes' next hgrown hnext => ?_
    cases next with
    | none => exact builds_pure fun nodes'' h => hI _ _ a (hgrown.trans h) ha
    | some b =>
      exact ih (fun nodes'' c h hc => hstep nodes'' c (hgrown.trans h) hc) (hnext b rfl)

theorem builds_loop (hI : Lasting I)
    {step : α → Parsing (Option α)}
    (hstep : ∀ nodes' a, Grown nodes nodes' → I nodes' a →
      Builds nodes' (fun nodes'' next => ∀ b, next = some b → I nodes'' b) (step a))
    {start : α} (hstart : I nodes start) : Builds nodes I (loop start step) :=
  reads_get.bind fun _ => builds_iterate (I := I) hI hstep _ hstart

theorem builds_many (hI : Lasting I)
    {step : Parsing (Option α)}
    (hstep : ∀ nodes', Grown nodes nodes' →
      Builds nodes' (fun nodes'' next => ∀ a, next = some a → I nodes'' a) step) :
    Builds nodes (fun nodes' l => ∀ a ∈ l, I nodes' a) (many step) := by
  refine Builds.bind (builds_loop (lasting_all hI) (fun nodes' acc hgrown hacc => ?_) ?_)
    fun nodes' acc _ hacc => builds_pure fun nodes'' h a ha =>
      hI _ _ a h (hacc a (List.mem_reverse.1 ha))
  · refine (hstep nodes' hgrown).bind fun nodes'' next h hnext => ?_
    cases next with
    | none => exact builds_pure fun _ _ _ h => by cases h
    | some a =>
      refine builds_pure fun nodes''' h' l hl => ?_
      cases hl
      intro b hb
      rcases List.mem_cons.1 hb with rfl | hb
      · exact hI _ _ b h' (hnext b rfl)
      · exact hI _ _ b (h.trans h') (hacc b hb)
  · exact fun _ h => by cases h

theorem reads_iterate {step : α → Parsing (Option α)} (hstep : ∀ a, Reads (step a))
    (bound : List Token) (a : α) : Reads (iterate step bound a) := by
  induction bound generalizing a with
  | nil => exact (refuses_fail _).reads
  | cons t bound ih =>
    refine (hstep a).bind_reads fun next => ?_
    cases next with
    | none => exact reads_pure a
    | some b => exact ih b

theorem reads_loop {step : α → Parsing (Option α)} (hstep : ∀ a, Reads (step a)) (start : α) :
    Reads (loop start step) :=
  reads_get.bind_reads fun _ => reads_iterate hstep _ start

theorem builds_commaSeparated
    (hI : Lasting I) {item : Parsing α}
    (hitem : ∀ nodes', Grown nodes nodes' → Builds nodes' I item) :
    Builds nodes (fun nodes' l => ∀ a ∈ l, I nodes' a) (commaSeparated item) := by
  refine (hitem nodes (.refl _)).bind fun nodes₁ first h₁ hfirst => ?_
  refine (builds_many (I := I) hI fun nodes' h => ?_).bind fun nodes₂ rest h₂ hrest => ?_
  · refine (reads_acceptPunct _).bind fun found => ?_
    split
    · refine (hitem nodes' (h₁.trans h)).bind fun nodes'' a _ ha => ?_
      refine builds_pure fun nodes''' h' b hb => ?_
      cases hb
      exact hI _ _ a h' ha
    · exact builds_pure fun _ _ _ h => by cases h
  · refine builds_pure fun nodes₃ h₃ a ha => ?_
    rcases List.mem_cons.1 ha with rfl | ha
    · exact hI _ _ a (h₂.trans h₃) hfirst
    · exact hI _ _ a h₃ (hrest a ha)

/-! ## Expressions -/

/-- What a part of the recursion is asked for. -/
def Goal.Built : Goal → Array Node → NodeId → Prop
  | .statement scope, nodes, id => Formed nodes (.statement scope) id
  | .block scope, nodes, id => Formed nodes (.statement scope) id ∧
    ∃ body, nodes[id]?.map Node.kind = some (.block body)
  | _, nodes, id => Formed nodes .expression id

/-- The parser of smaller parts builds what it is asked for. -/
def SubBuilds (sub : Sub) : Prop :=
  ∀ nodes goal, Builds nodes goal.Built (sub goal)

theorem lasting_formed (place : Place) : Lasting fun nodes id => Formed nodes place id :=
  fun _ _ _ h hid => hid.mono h

theorem lasting_formed? (place : Place) :
    Lasting fun nodes (id : Option NodeId) => ∀ n ∈ id, Formed nodes place n :=
  fun _ _ _ h hid n hn => (hid n hn).mono h

theorem builds_expression {kind : NodeKind} (hexpression : kind.isExpression = true)
    (hchildren : ∀ n ∈ kind.children, Formed nodes .expression n)
    (hfunction : kind.function? = none) (start : Span) :
    Builds nodes (fun nodes' id => Formed nodes' .expression id) (pushFrom start kind) := by
  refine builds_pushFrom .expression (if_pos hexpression) (fun part hpart => ?_) hfunction start
  obtain ⟨n, hn, rfl⟩ := List.mem_map.1 hpart
  exact hchildren n hn

/-- A part that is there or not. -/
theorem Builds.optional {x : Parsing NodeId} {place : Place}
    (h : Builds nodes (fun nodes' id => Formed nodes' place id) x) :
    Builds nodes (fun nodes' (id : Option NodeId) => ∀ n ∈ id, Formed nodes' place n)
      (x >>= fun id => pure (some id)) := by
  refine h.bind fun nodes₁ id _ hid => builds_pure fun nodes₂ h₂ n hn => ?_
  obtain rfl := Option.some.inj hn
  exact hid.mono h₂

theorem builds_absent {place : Place} :
    Builds nodes (fun nodes' (id : Option NodeId) => ∀ n ∈ id, Formed nodes' place n)
      (pure none) :=
  builds_pure fun _ _ _ h => by cases h

theorem reads_checkTarget (target : NodeId) (place : Span) (use : TargetUse) :
    Reads (checkTarget target place use) := by
  refine (reads_kindOf? target).bind_reads fun kind => ?_
  split
  · split
    · exact (refuses_failAt _ _).reads
    · exact reads_pure _
  · exact reads_pure _
  · exact (refuses_failAt _ _).reads

theorem builds_leaf {kind : NodeKind} (hexpression : kind.isExpression = true)
    (hchildren : kind.children = []) (hfunction : kind.function? = none) :
    Builds nodes (fun nodes' id => Formed nodes' .expression id) (leaf kind) := by
  refine reads_current.bind fun t => reads_advance.bind fun _ => ?_
  refine builds_expression hexpression (fun n hn => ?_) hfunction _
  rw [hchildren] at hn
  cases hn

variable {sub : Sub}

theorem builds_functionRest (hsub : SubBuilds sub) (name : Option String) :
    Builds nodes (fun nodes' function => function.Built nodes') (functionRest sub name) := by
  refine (reads_requirePunct _).bind fun _ => (reads_checkPunct _).bind fun closed => ?_
  extract_lets rest
  have hrest : ∀ u params, Builds nodes (fun nodes' function => function.Built nodes') (rest u params) := by
    intro u params
    refine (reads_requirePunct _).bind fun _ => reads_get.bind fun s => ?_
    refine Reads.bind (reads_modify fun _ => rfl) fun _ => ?_
    refine (hsub nodes (.block { inFunction := true })).bind fun nodes₁ body _ hbody => ?_
    refine reads_get.bind fun s' => Reads.bind (reads_modify fun _ => rfl) fun _ => ?_
    refine builds_pure fun nodes₂ h₂ => ?_
    obtain ⟨hformed, statements, hblock⟩ := hbody
    exact ⟨hformed.mono h₂, statements, h₂.kind hblock⟩
  split
  · exact hrest () _
  · refine (reads_loop (fun seen => ?_) _).bind fun params => hrest () params
    have hseparator : Reads (if seen.isEmpty = true then pure true else acceptPunct .comma) := by
      split
      · exact reads_pure _
      · exact reads_acceptPunct _
    refine hseparator.bind_reads fun separated => ?_
    split
    · exact reads_pure _
    · refine reads_current.bind_reads fun t => reads_bindingName.bind_reads fun param => ?_
      split
      · exact ((refuses_failAt _ _).bind _).reads
      · exact reads_pure _

theorem builds_function (place : Place) {kind : NodeKind} {function : FunctionNode}
    (hparts : kind.parts? false place = some []) (hkind : kind.function? = some function)
    (hfunction : function.Built nodes) (start : Span) :
    Builds nodes (fun nodes' id => Formed nodes' place id) (pushFrom start kind) := by
  refine (reads_get.bind_reads fun _ => reads_pure _).bind fun span => ?_
  refine (builds_push _ _ hparts (fun h => by cases h) (fun _ h => by cases h) (fun f h => ?_) span).mono fun _ _ h => h.1
  obtain rfl := Option.some.inj (hkind.symm.trans h)
  exact hfunction

theorem builds_arguments (hsub : SubBuilds sub) :
    Builds nodes (fun nodes' args => ∀ n ∈ args, Formed nodes' .expression n)
      (arguments sub) := by
  refine (reads_requirePunct _).bind fun _ => ?_
  refine Builds.bind (P := fun nodes' args => ∀ n ∈ args, Formed nodes' .expression n) ?_
    fun nodes₁ args _ hargs => (reads_requirePunct _).bind fun _ =>
      builds_pure fun _ h n hn => (hargs n hn).mono h
  refine (reads_checkPunct _).bind fun closed => ?_
  split
  · exact builds_pure fun _ _ _ h => by cases h
  · exact builds_commaSeparated (lasting_formed .expression) fun nodes' _ => hsub nodes' _

theorem builds_arrayLiteral (hsub : SubBuilds sub) :
    Builds nodes (fun nodes' id => Formed nodes' .expression id) (arrayLiteral sub) := by
  refine reads_current.bind fun t => (reads_requirePunct _).bind fun _ => ?_
  refine (builds_many (lasting_formed? .expression) fun nodes' _ => ?_).bind
    fun nodes₁ elements _ helements => ?_
  · refine (reads_acceptPunct _).bind fun closed => ?_
    split
    · exact builds_pure fun _ _ _ h => by cases h
    refine (reads_acceptPunct _).bind fun hole => ?_
    split
    · refine builds_pure fun _ _ element h => ?_
      cases h
      exact fun _ h => by cases h
    refine (hsub nodes' (.assignment false)).bind fun nodes₁ element _ helement => ?_
    refine (reads_checkPunct _).bind fun closed => ?_
    have hdone : Builds nodes₁ (fun nodes'' (next : Option (Option NodeId)) => ∀ a, next = some a →
        ∀ n ∈ a, Formed nodes'' .expression n) (pure (some (some element))) := by
      refine builds_pure fun nodes₂ h₂ a ha n hn => ?_
      cases ha
      cases hn
      exact Formed.mono helement h₂
    split
    · exact hdone
    · exact (reads_requirePunct _).bind fun _ => hdone
  · refine builds_expression rfl (fun n hn => ?_) rfl _
    obtain ⟨element, helement, rfl⟩ := List.mem_filterMap.1 hn
    exact helements _ helement n rfl

theorem reads_propertyKey : Reads propertyKey := by
  refine reads_current.bind_reads fun t => ?_
  split
  · exact reads_advance.bind_reads fun _ => reads_pure _
  · exact reads_advance.bind_reads fun _ => reads_pure _
  · exact reads_propertyName

theorem builds_objectLiteral (hsub : SubBuilds sub) :
    Builds nodes (fun nodes' id => Formed nodes' .expression id) (objectLiteral sub) := by
  have hlasting : Lasting fun nodes (seen : List PropertyInit) =>
      ∀ init ∈ seen, Formed nodes .expression init.value :=
    lasting_all fun _ _ _ h hinit => hinit.mono h
  refine reads_current.bind fun t => (reads_requirePunct _).bind fun _ => ?_
  refine (builds_loop hlasting (fun nodes' seen _ hseen => ?_)
    fun _ h => absurd h List.not_mem_nil).bind
    fun nodes₁ properties _ hproperties => ?_
  · refine (reads_acceptPunct _).bind fun closed => ?_
    split
    · exact builds_pure fun _ _ _ h => by cases h
    refine reads_current.bind fun place => reads_propertyKey.bind fun key => ?_
    refine (reads_checkPunct _).bind fun separated => ?_
    extract_lets written checked
    have hwritten : Builds nodes' (fun nodes'' (next : Option (List PropertyInit)) =>
        ∀ b, next = some b → ∀ init ∈ b, Formed nodes'' .expression init.value)
        (written ()) := by
      refine (reads_requirePunct _).bind fun _ => ?_
      refine (hsub nodes' (.assignment false)).bind fun nodes₁ value h₁ hvalue => ?_
      refine (reads_checkPunct _).bind fun closed => ?_
      have hdone : Builds nodes₁ (fun nodes'' (next : Option (List PropertyInit)) =>
          ∀ b, next = some b → ∀ init ∈ b, Formed nodes'' .expression init.value)
          (pure (some (⟨key, value⟩ :: seen))) := by
        refine builds_pure fun nodes₂ h₂ b hb init hinit => ?_
        cases hb
        rcases List.mem_cons.1 hinit with rfl | hinit
        · exact Formed.mono hvalue h₂
        · exact (hseen init hinit).mono (h₁.trans h₂)
      split
      · exact hdone
      · exact (reads_requirePunct _).bind fun _ => hdone
    have hchecked : Builds nodes' (fun nodes'' (next : Option (List PropertyInit)) =>
        ∀ b, next = some b → ∀ init ∈ b, Formed nodes'' .expression init.value)
        (checked ()) := by
      dsimp only [checked]
      split
      · exact ((refuses_failAt _ _).bind _).builds
      · exact hwritten
    split
    · exact ((refuses_fail _).bind _).builds
    · exact hchecked
  · refine builds_expression rfl (fun n hn => ?_) rfl _
    obtain ⟨init, hinit, rfl⟩ := List.mem_map.1 hn
    exact hproperties init (List.mem_reverse.1 hinit)

theorem builds_functionExpression (hsub : SubBuilds sub) :
    Builds nodes (fun nodes' id => Formed nodes' .expression id) (functionExpression sub) := by
  refine reads_current.bind fun t => reads_advance.bind fun _ => ?_
  refine Reads.bind ?_ fun name => ?_
  · refine (reads_checkPunct _).bind_reads fun anonymous => ?_
    split
    · exact reads_pure _
    · exact reads_bindingName.bind_reads fun _ => reads_pure _
  · refine (builds_functionRest hsub name).bind fun nodes₁ function _ hfunction => ?_
    exact builds_function _ rfl rfl hfunction _

theorem builds_primary (hsub : SubBuilds sub) :
    Builds nodes (fun nodes' id => Formed nodes' .expression id) (primary sub) := by
  refine reads_current.bind fun t => ?_
  split
  · exact builds_leaf rfl rfl rfl
  · exact builds_leaf rfl rfl rfl
  · exact builds_leaf rfl rfl rfl
  · exact builds_leaf rfl rfl rfl
  · exact builds_leaf rfl rfl rfl
  · exact builds_leaf rfl rfl rfl
  · exact builds_leaf rfl rfl rfl
  · refine reads_advance.bind fun _ => ?_
    refine (hsub nodes (.expression false)).bind fun nodes₁ inner _ hinner => ?_
    exact (reads_requirePunct _).bind fun _ => builds_pure fun _ h => Formed.mono hinner h
  · exact builds_arrayLiteral hsub
  · exact builds_objectLiteral hsub
  · exact builds_functionExpression hsub
  · exact (refuses_fail _).builds
  · exact (refuses_fail _).builds
  · exact (refuses_fail _).builds
  · exact (refuses_unexpected _).builds

theorem builds_memberStep (hsub : SubBuilds sub) (start : Span) {object : NodeId}
    (hobject : Formed nodes .expression object) :
    Builds nodes (fun nodes' next => ∀ id, next = some id → Formed nodes' .expression id)
      (memberStep sub start object) := by
  refine (reads_acceptPunct _).bind fun dot => ?_
  split
  · refine reads_propertyName.bind fun name => Builds.optional (builds_expression rfl ?_ rfl _)
    simp [NodeKind.children, hobject]
  refine (reads_acceptPunct _).bind fun bracket => ?_
  split
  · refine (hsub nodes (.expression false)).bind fun nodes₁ key h₁ hkey => ?_
    refine (reads_requirePunct _).bind fun _ => Builds.optional (builds_expression rfl ?_ rfl _)
    have hkey : Formed nodes₁ .expression key := hkey
    simp [NodeKind.children, hobject.mono h₁, hkey]
  · exact builds_absent

theorem builds_memberExpression (hsub : SubBuilds sub) :
    Builds nodes (fun nodes' id => Formed nodes' .expression id) (memberExpression sub) := by
  refine reads_current.bind fun t => ?_
  refine Builds.bind (P := fun nodes' id => Formed nodes' .expression id) ?_
    fun nodes₁ base h₁ hbase => builds_loop (lasting_formed .expression)
      (fun nodes' object _ hobject => builds_memberStep hsub _ hobject) hbase
  refine (reads_acceptKeyword _).bind fun isNew => ?_
  split
  · refine (hsub nodes .member).bind fun nodes₁ callee _ hcallee => ?_
    refine Builds.bind (P := fun nodes' args => ∀ n ∈ args, Formed nodes' .expression n) ?_
      fun nodes₂ args h₂ hargs => builds_expression rfl ?_ rfl _
    · refine (reads_checkPunct _).bind fun parenthesis => ?_
      split
      · exact builds_arguments hsub
      · exact builds_pure fun _ _ _ h => by cases h
    · have hcallee : Formed nodes₂ .expression callee := Formed.mono hcallee h₂
      simpa [NodeKind.children, hcallee] using hargs
  · exact builds_primary hsub

theorem builds_callExpression (hsub : SubBuilds sub) :
    Builds nodes (fun nodes' id => Formed nodes' .expression id) (callExpression sub) := by
  refine reads_current.bind fun t => (hsub nodes .member).bind fun nodes₁ base _ hbase => ?_
  refine builds_loop (lasting_formed .expression) (fun nodes' callee _ hcallee => ?_) hbase
  refine (reads_checkPunct _).bind fun parenthesis => ?_
  split
  · refine (builds_arguments hsub).bind fun nodes₂ args h₂ hargs => ?_
    refine Builds.optional (builds_expression rfl ?_ rfl _)
    simpa [NodeKind.children, hcallee.mono h₂] using hargs
  · exact builds_memberStep hsub _ hcallee

theorem builds_postfixed (hsub : SubBuilds sub) :
    Builds nodes (fun nodes' id => Formed nodes' .expression id) (postfixed sub) := by
  refine reads_current.bind fun t => ?_
  refine (builds_callExpression hsub).bind fun nodes₁ operand _ hoperand => ?_
  refine reads_current.bind fun t' => ?_
  split
  · split
    · exact builds_pure fun _ h => hoperand.mono h
    · refine (reads_checkTarget _ _ _).bind fun _ => reads_advance.bind fun _ => ?_
      refine builds_expression rfl ?_ rfl _
      simpa [NodeKind.children] using hoperand
  · exact builds_pure fun _ h => hoperand.mono h

theorem builds_unaryExpression (hsub : SubBuilds sub) :
    Builds nodes (fun nodes' id => Formed nodes' .expression id) (unaryExpression sub) := by
  refine reads_current.bind fun t => ?_
  split
  · refine reads_advance.bind fun _ => (hsub nodes .unary).bind fun nodes₁ argument _ hargument => ?_
    have hpush : ∀ op, Builds nodes₁ (fun nodes' id => Formed nodes' .expression id)
        (pushFrom t.span (.unary op argument)) := by
      intro op
      have hargument : Formed nodes₁ .expression argument := hargument
      refine builds_expression rfl ?_ rfl _
      simpa [NodeKind.children] using hargument
    dsimp only
    split
    · refine (reads_kindOf? _).bind fun kind => ?_
      split
      · exact ((refuses_failAt _ _).bind _).builds
      · exact hpush _
    · exact hpush _
  · split
    · refine reads_advance.bind fun _ => ?_
      refine (hsub nodes .unary).bind fun nodes₁ argument _ hargument => ?_
      have hargument : Formed nodes₁ .expression argument := hargument
      refine (reads_checkTarget _ _ _).bind fun _ => builds_expression rfl ?_ rfl _
      simpa [NodeKind.children] using hargument
    · exact builds_postfixed hsub

theorem builds_binaryExpression (hsub : SubBuilds sub) (least : Nat) (noIn : Bool) :
    Builds nodes (fun nodes' id => Formed nodes' .expression id)
      (binaryExpression sub least noIn) := by
  refine reads_current.bind fun t => (hsub nodes .unary).bind fun nodes₁ first _ hfirst => ?_
  refine builds_loop (lasting_formed .expression) (fun nodes' left _ hleft => ?_) hfirst
  refine reads_current.bind fun t' => ?_
  split
  · exact builds_absent
  · rename_i op level _
    split
    · exact builds_absent
    · refine reads_advance.bind fun _ => ?_
      refine (hsub nodes' (.binary (level + 1) noIn)).bind fun nodes₂ right h₂ hright => ?_
      have hright : Formed nodes₂ .expression right := hright
      split
      · refine Builds.optional (builds_expression rfl ?_ rfl _)
        simp [NodeKind.children, hleft.mono h₂, hright]
      · refine Builds.optional (builds_expression rfl ?_ rfl _)
        simp [NodeKind.children, hleft.mono h₂, hright]

theorem builds_conditionalExpression (hsub : SubBuilds sub) (noIn : Bool) :
    Builds nodes (fun nodes' id => Formed nodes' .expression id)
      (conditionalExpression sub noIn) := by
  refine reads_current.bind fun t => (hsub nodes (.binary 1 noIn)).bind fun nodes₁ test _ htest => ?_
  have htest : Formed nodes₁ .expression test := htest
  refine (reads_acceptPunct _).bind fun question => ?_
  split
  · refine (hsub nodes₁ (.assignment false)).bind fun nodes₂ consequent h₂ hconsequent => ?_
    refine (reads_requirePunct _).bind fun _ => ?_
    refine (hsub nodes₂ (.assignment noIn)).bind fun nodes₃ alternate h₃ halternate => ?_
    have hconsequent : Formed nodes₃ .expression consequent := Formed.mono hconsequent h₃
    have halternate : Formed nodes₃ .expression alternate := halternate
    refine builds_expression rfl ?_ rfl _
    simp [NodeKind.children, htest.mono (h₂.trans h₃), hconsequent, halternate]
  · exact builds_pure fun _ h => htest.mono h

theorem builds_assignmentExpression (hsub : SubBuilds sub) (noIn : Bool) :
    Builds nodes (fun nodes' id => Formed nodes' .expression id)
      (assignmentExpression sub noIn) := by
  refine reads_current.bind fun t => ?_
  refine (builds_conditionalExpression hsub noIn).bind fun nodes₁ target _ htarget => ?_
  refine reads_current.bind fun t' => ?_
  split
  · exact builds_pure fun _ h => htarget.mono h
  · refine (reads_checkTarget _ _ _).bind fun _ => reads_advance.bind fun _ => ?_
    refine (hsub nodes₁ (.assignment noIn)).bind fun nodes₂ value h₂ hvalue => ?_
    have hvalue : Formed nodes₂ .expression value := hvalue
    refine builds_expression rfl ?_ rfl _
    simp [NodeKind.children, htarget.mono h₂, hvalue]

theorem builds_wholeExpression (hsub : SubBuilds sub) (noIn : Bool) :
    Builds nodes (fun nodes' id => Formed nodes' .expression id) (expression sub noIn) := by
  refine reads_current.bind fun t => (hsub nodes (.assignment noIn)).bind fun nodes₁ first _ hfirst => ?_
  have hfirst : Formed nodes₁ .expression first := hfirst
  refine (reads_checkPunct _).bind fun comma => ?_
  split
  · refine (builds_many (lasting_formed .expression) fun nodes' _ => ?_).bind
      fun nodes₂ rest h₂ hrest => ?_
    · refine (reads_acceptPunct _).bind fun found => ?_
      split
      · exact Builds.optional (hsub nodes' (.assignment noIn))
      · exact builds_absent
    · refine builds_expression rfl ?_ rfl _
      simpa [NodeKind.children, hfirst.mono h₂] using hrest
  · exact builds_pure fun _ h => hfirst.mono h

end ScriptMachine.Tree.Parser
