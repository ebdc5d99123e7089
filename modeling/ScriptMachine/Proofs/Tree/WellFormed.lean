import ScriptMachine.Proofs.Tree.Building

/-!
# Accepted programs are trees

Every production that gives a node adds one tree with that node on top, if the parser of the smaller
parts does. The node is pushed last, above the trees of the parts in the order in which they were
read, and an operand that is assigned to has been checked before that.
-/

namespace ScriptMachine.Tree

open ScriptMachine.Source

namespace Parser

variable {s t u : State} {moved : Bool} {ids : List NodeId} {sub : Sub}
  {function : FunctionNode}

/-! ## Expressions -/

theorem ensures_checkTarget (target : NodeId) (place : Span) (use : TargetUse) :
    Ensures t (checkTarget target place use) fun _ u => u = t ∧ Assignable t.nodes target := by
  have hassignable {kind : NodeKind} (hkind : t.nodes[target]?.map Node.kind = some kind)
      (h : kind.isReference = true) : Assignable t.nodes target := by
    obtain ⟨n, hn, rfl⟩ := Option.map_eq_some_iff.1 hkind
    exact ⟨n, hn, h⟩
  refine ensures_look rfl ?_
  split
  · rename_i name hkind
    split
    · exact (refuses_failAt _ _).ensures
    · exact ensures_pure ⟨rfl, hassignable hkind rfl⟩
  · rename_i object property hkind
    exact ensures_pure ⟨rfl, hassignable hkind rfl⟩
  · exact (refuses_failAt _ _).ensures

/-- Behind some trees the parameters and the body of a function were read. -/
structure FunctionRead (s : State) (ids : List NodeId) (name : Option String)
    (function : FunctionNode) (t : State) : Prop where
  laid : Laid s true (ids ++ [function.body]) t
  hoisted : t.hoisted = s.hoisted.reading t.nodes ids
  functions : ∀ f ∈ function.hoisted.functions, f < t.nodes.size
  name : function.name = name
  recorded : function.Recorded t.nodes

theorem ensures_functionRest (hsub : ∀ goal, Gives (sub goal)) (h : Work s moved ids t)
    (name : Option String) :
    Ensures t (functionRest sub name) (FunctionRead s ids name) := by
  refine (ensures_requirePunct h _).bind fun _ u hu => ensures_look rfl ?_
  extract_lets rest
  have hrest (v : State) (hv : Work s true ids v) (x : Unit) (params : List String)
      (hparams : params.Nodup) :
      Ensures v (rest x params) (FunctionRead s ids name) := by
    refine (ensures_requirePunct hv _).bind fun _ w hw => ensures_look rfl ?_
    have houter := hw.ready.hoisted
    have hempty := hw.toLaid.hoist {} fun _ hf => by cases hf
    refine (ensures_modify (Q := fun _ w' => w' = { w with hoisted := {} }) rfl).bind
      fun _ w' hw' => ?_
    subst hw'
    refine (hsub _ _ hempty.ready).bind fun body v' hv' => ensures_look rfl ?_
    have hsize : w.nodes.size ≤ v'.nodes.size := hv'.forest.lo_le_hi
    have hrestored := (hempty.and hv'.toLaid).hoist w.hoisted
      fun f hf => Nat.lt_of_lt_of_le (houter f hf) hsize
    refine (ensures_modify (Q := fun _ v => v = { v' with hoisted := w.hoisted }) rfl).bind
      fun _ v hv => ensures_pure ?_
    subst hv
    have hbody : body < v'.nodes.size := hv'.toLaid.root_lt body List.mem_cons_self
    exact
      { laid := hrestored
        hoisted := hw.hoists.trans (Hoisted.reading_grown hv'.grown hw.toLaid.root_lt).symm
        functions := hv'.ready.hoisted
        name := rfl
        recorded := ⟨hparams, hbody, hv'.hoists⟩ }
  split
  · exact hrest u hu () _ List.nodup_nil
  · let Named (seen : List String) (v : State) : Prop := Work s true ids v ∧ seen.Nodup
    refine (ensures_loop (I := Named) (K := Named) (fun seen v hv => ?_)
      ⟨hu, List.nodup_nil⟩).bind fun params v hv => hrest v hv.1 () params hv.2
    have hseparator : Ensures v (if seen.isEmpty = true then pure true else acceptPunct .comma)
        fun _ w => Work s true ids w := by
      split
      · exact ensures_pure hv.1
      · refine (ensures_acceptPunct hv.1 _).mono fun found w hw => ?_
        cases found with
        | true => exact hw
        | false => exact (show w = v from hw) ▸ hv.1
    refine hseparator.bind fun separated w hw => ?_
    split
    · exact ensures_pure ⟨hw, hv.2⟩
    · refine ensures_look rfl ((ensures_bindingName hw).bind fun param x hx => ?_)
      split
      · exact ((refuses_failAt _ _).bind _).ensures
      · rename_i hnew
        have hfresh : param ∉ seen := fun hmem => hnew (List.contains_iff_mem.2 hmem)
        have hdistinct := hv.2.concat hfresh
        rw [List.concat_eq_append] at hdistinct
        exact ensures_pure ⟨hx, hdistinct⟩

/-- A part of a parse reads the keyword of a function, its name if there is one, and what is behind
them. -/
structure HeadRead (s : State) (name : Option String) (head : List Token) (t : State) : Prop where
  work : Work s true [] t
  leads : Head name head
  first : head.head? = some s.current
  rest : s.rest = head ++ t.rest

/-- A function is put above its body. -/
theorem ensures_function {name : Option String} {head : List Token} {depth : Nat}
    (hhead : HeadRead s name head t) (h : FunctionRead s [] name function u)
    (hrun : functionRest (parseGoal depth) name t = .ok (function, u)) {kind : NodeKind}
    (hchildren : kind.children = []) (hfunction : kind.function? = some function)
    (hkind : kind.hoistedFunctions = function.hoisted.functions) (haims : kind.Aims u.nodes) :
    Ensures u (pushFrom s.current.span kind) fun id v =>
      Laid s true [id] v ∧ v.hoisted = s.hoisted ∧ v.nodes[id]?.map Node.kind = some kind := by
  refine ensures_look rfl ?_
  intro id v hpush
  cases hpush
  have hbranches : kind.branches = [function.body] := by
    simp [NodeKind.branches, hchildren, hfunction]
  have hstop : (s.spanTo u).stop = u.previousEnd :=
    Nat.max_eq_left (Nat.le_of_lt (h.laid.moved rfl))
  refine ⟨h.laid.close hbranches (fun f hf => h.functions f (hkind ▸ hf)) haims ?_, h.hoisted,
    Grown.kind_push _ _⟩
  intro other hother
  obtain rfl := Option.some.inj (hfunction.symm.trans hother)
  refine ⟨head, t, u, ?_⟩
  exact
    { leads := h.name ▸ hhead.leads
      behind := hhead.rest ▸ List.suffix_refl _
      span := by rw [hhead.first, ← hstop]; rfl
      ready := hhead.work.ready
      run := ⟨depth, h.name ▸ hrun⟩
      here := rfl
      grown := .push _ _
      recorded := h.recorded.mono (.push _ _) }

theorem ensures_arguments (hsub : ∀ goal, Gives (sub goal)) (h : Work s moved ids t) :
    Ensures t (arguments sub) fun args u => Work s true (ids ++ args) u := by
  refine (ensures_requirePunct h _).bind fun _ u hu => ?_
  refine Ensures.bind (P := fun args u => Work s true (ids ++ args) u) ?_
    fun args v hv => (ensures_requirePunct hv _).bind fun _ w hw => ensures_pure hw
  refine ensures_look rfl ?_
  split
  · refine ensures_pure ?_
    simpa using hu
  · exact ensures_commaSeparated (hsub _) hu

theorem gives_arrayLiteral (hsub : ∀ goal, Gives (sub goal)) : Gives (arrayLiteral sub) := by
  intro s hs
  refine ensures_look rfl ((ensures_requirePunct (.refl hs) _).bind fun _ t ht => ?_)
  refine (ensures_many (I := fun (elements : List (Option NodeId)) u =>
      Work s true (elements.filterMap id) u)
    (K := fun elements u => Work s true (elements.filterMap id) u)
    (fun elements u hu => ?_) ht).bind fun elements u hu => ensures_node hu rfl rfl rfl trivial
  refine (ensures_acceptPunct hu _).found (fun v hv => ensures_pure hv) ?_
  refine (ensures_acceptPunct hu _).found (fun v hv => ensures_pure ?_) ?_
  · simpa using hv
  refine ((hsub _).ensures hu).bind fun element v hv => ensures_look rfl ?_
  have helements : Work s true ((elements ++ [some element]).filterMap id) v := by simpa using hv
  split
  · exact ensures_pure helements
  · exact (ensures_requirePunct helements _).bind fun _ w hw => ensures_pure hw

theorem ensures_propertyKey (h : Work s moved ids t) :
    Ensures t propertyKey fun _ u => Work s true ids u := by
  refine ensures_look rfl ?_
  split
  · rename_i htext
    refine (ensures_advance h fun h => ?_).bind fun _ u hu => ensures_pure hu
    cases htext.symm.trans h
  · rename_i hnumber
    refine (ensures_advance h fun h => ?_).bind fun _ u hu => ensures_pure hu
    cases hnumber.symm.trans h
  · exact ensures_propertyName h

theorem gives_objectLiteral (hsub : ∀ goal, Gives (sub goal)) : Gives (objectLiteral sub) := by
  intro s hs
  refine ensures_look rfl ((ensures_requirePunct (.refl hs) _).bind fun _ t ht => ?_)
  let Read (seen : List PropertyInit) (u : State) : Prop :=
    Work s true (seen.reverse.map PropertyInit.value) u
  refine (ensures_loop (I := Read) (K := Read) (fun seen u hu => ?_) (a := []) ht).bind
    fun seen u hu => ensures_node hu rfl rfl rfl trivial
  refine (ensures_acceptPunct hu _).found (fun v hv => ensures_pure hv) ?_
  refine ensures_look rfl ((ensures_propertyKey hu).bind fun key v hv => ensures_look rfl ?_)
  extract_lets written checked
  have hwritten : Ensures v (written ()) (Next Read Read seen) := by
    refine (ensures_requirePunct hv _).bind fun _ w hw => ?_
    refine ((hsub _).ensures hw).bind fun value x hx => ensures_look rfl ?_
    have hinits : Work s true (List.map PropertyInit.value (⟨key, value⟩ :: seen).reverse) x := by
      simpa using hx
    split
    · exact ensures_pure hinits
    · exact (ensures_requirePunct hinits _).bind fun _ y hy => ensures_pure hy
  have hchecked : Ensures v (checked ()) (Next Read Read seen) := by
    dsimp only [checked]
    split
    · exact ((refuses_failAt _ _).bind _).ensures
    · exact hwritten
  split
  · exact ((refuses_fail _).bind _).ensures
  · exact hchecked

theorem gives_functionExpression {depth : Nat} (hsub : ∀ goal, Gives (parseGoal depth goal))
    {s : State} (hs : s.Ready) (hkind : s.current.kind = .keyword .function) :
    Ensures s (functionExpression (parseGoal depth)) fun id t => Work s true [id] t := by
  have heof : s.current.kind ≠ .eof := fun h => by cases hkind.symm.trans h
  refine ensures_look rfl (((ensures_advance (.refl hs) heof).and
    (rest_of_advance hs heof)).bind fun _ t ht => ?_)
  obtain ⟨ht, htaken⟩ := ht
  refine Ensures.bind (P := fun name u => ∃ head, HeadRead s name head u) ?_
    fun name u hu => ?_
  · refine ensures_look rfl ?_
    split
    · exact ensures_pure ⟨_, ht, .anonymous hkind, rfl, htaken⟩
    · refine ((ensures_bindingName ht).and (rest_of_bindingName_ready ht.ready)).bind
        fun name u hu => ensures_pure ?_
      obtain ⟨hu, word, hword, hidentifier, hname⟩ := hu
      refine ⟨_, hu, .named hkind hidentifier hname, rfl, ?_⟩
      rw [htaken, hword]
      rfl
  · obtain ⟨head, hhead⟩ := hu
    refine ((ensures_functionRest hsub hhead.work name).and (ensures_run _ _)).bind
      fun function v hv => ?_
    refine Ensures.mono (ensures_function hhead hv.1 hv.2 rfl rfl rfl trivial) fun id w hw => ?_
    obtain ⟨hlaid, hhoisted, hkind⟩ := hw
    obtain ⟨n, hn, hkind⟩ := Option.map_eq_some_iff.1 hkind
    apply hlaid.work hn
    · rw [hkind]
      exact fun _ hchild => by cases hchild
    · rw [hkind]
      exact hhoisted

/-- A node made of the current token. -/
theorem ensures_leaf {s : State} (hs : s.Ready) (heof : s.current.kind ≠ .eof) {kind : NodeKind}
    (hchildren : kind.children = []) (hfunction : kind.function? = none)
    (hdeclares : kind.declares = false) (haims : ∀ nodes, kind.Aims nodes) :
    Ensures s (leaf kind) fun id t => Work s true [id] t :=
  ensures_look rfl ((ensures_advance (.refl hs) heof).bind fun _ t ht =>
    ensures_node ht hchildren hfunction hdeclares (haims t.nodes))

theorem gives_primary {depth : Nat} (hsub : ∀ goal, Gives (parseGoal depth goal)) :
    Gives (primary (parseGoal depth)) := by
  intro s hs
  refine ensures_look rfl ?_
  split
  · rename_i hkind
    exact ensures_leaf hs (fun h => by cases hkind.symm.trans h) rfl rfl rfl fun _ => trivial
  · rename_i hkind
    exact ensures_leaf hs (fun h => by cases hkind.symm.trans h) rfl rfl rfl fun _ => trivial
  · rename_i hkind
    exact ensures_leaf hs (fun h => by cases hkind.symm.trans h) rfl rfl rfl fun _ => trivial
  · rename_i hkind
    exact ensures_leaf hs (fun h => by cases hkind.symm.trans h) rfl rfl rfl fun _ => trivial
  · rename_i hkind
    exact ensures_leaf hs (fun h => by cases hkind.symm.trans h) rfl rfl rfl fun _ => trivial
  · rename_i hkind
    exact ensures_leaf hs (fun h => by cases hkind.symm.trans h) rfl rfl rfl fun _ => trivial
  · rename_i hkind
    exact ensures_leaf hs (fun h => by cases hkind.symm.trans h) rfl rfl rfl fun _ => trivial
  · -- An expression in parentheses leaves no node of its own.
    rename_i hkind
    refine (ensures_advance (.refl hs) fun h => by cases hkind.symm.trans h).bind fun _ t ht => ?_
    refine ((hsub _).ensures ht).bind fun inner u hu => ?_
    exact (ensures_requirePunct hu _).bind fun _ v hv => ensures_pure hv
  · exact gives_arrayLiteral hsub s hs
  · exact gives_objectLiteral hsub s hs
  · rename_i hkind
    exact gives_functionExpression hsub hs hkind
  · exact (refuses_fail _).ensures
  · exact (refuses_fail _).ensures
  · exact (refuses_fail _).ensures
  · exact (refuses_unexpected _).ensures

/-- One tree was added since a state. -/
def Single (s : State) (id : NodeId) (t : State) : Prop := Work s true [id] t

theorem ensures_memberStep (hsub : ∀ goal, Gives (sub goal)) {object : NodeId}
    (h : Work s true [object] t) :
    Ensures t (memberStep sub s.current.span object) (Next (Single s) (Single s) object) := by
  refine (ensures_acceptPunct h _).found (fun u hu => ?_) ?_
  · refine (ensures_propertyName hu).bind fun name v hv => ?_
    exact Ensures.bind (ensures_node hv rfl rfl rfl trivial) fun id w hw => ensures_pure hw
  refine (ensures_acceptPunct h _).found (fun u hu => ?_) (ensures_pure h)
  refine ((hsub _).ensures hu).bind fun key v hv => ?_
  refine (ensures_requirePunct hv _).bind fun _ w hw => ?_
  exact Ensures.bind (ensures_node hw rfl rfl rfl trivial) fun id x hx => ensures_pure hx

theorem gives_memberExpression {depth : Nat} (hsub : ∀ goal, Gives (parseGoal depth goal)) :
    Gives (memberExpression (parseGoal depth)) := by
  intro s hs
  refine ensures_look rfl ?_
  refine Ensures.bind (P := fun base t => Work s true [base] t) ?_ fun base t ht =>
    ensures_loop (I := Single s) (fun object u hu => ensures_memberStep hsub hu) ht
  refine (ensures_acceptKeyword (.refl hs) _).found (fun t ht => ?_) (gives_primary hsub s hs)
  refine ((hsub _).ensures ht).bind fun callee u hu => ?_
  refine Ensures.bind (P := fun args v => Work s true ([callee] ++ args) v) ?_
    fun args v hv => ensures_node hv rfl rfl rfl trivial
  refine ensures_look rfl ?_
  split
  · exact ensures_arguments hsub hu
  · exact ensures_pure hu

theorem gives_callExpression (hsub : ∀ goal, Gives (sub goal)) : Gives (callExpression sub) := by
  intro s hs
  refine ensures_look rfl ((hsub _ s hs).bind fun base t ht => ?_)
  refine ensures_loop (I := Single s) (fun callee u hu => ?_) ht
  refine ensures_look rfl ?_
  split
  · refine (ensures_arguments hsub hu).bind fun args v hv => ?_
    exact Ensures.bind (ensures_node hv rfl rfl rfl trivial) fun id w hw => ensures_pure hw
  · exact ensures_memberStep hsub hu

theorem gives_postfixed (hsub : ∀ goal, Gives (sub goal)) : Gives (postfixed sub) := by
  intro s hs
  refine ensures_look rfl ((gives_callExpression hsub s hs).bind fun operand t ht => ?_)
  refine ensures_look rfl ?_
  split
  · rename_i op hop
    split
    · exact ensures_pure ht
    · refine (ensures_checkTarget operand _ _).bind fun _ u hu => ?_
      obtain ⟨rfl, htarget⟩ := hu
      have heof : u.current.kind ≠ .eof := fun h => by
        rw [h] at hop
        cases hop
      refine (ensures_advance (.refl ht.ready) heof).bind fun _ v hv => ?_
      exact ensures_node (ht.and hv) rfl rfl rfl (htarget.mono hv.grown)
  · exact ensures_pure ht

theorem gives_unaryExpression (hsub : ∀ goal, Gives (sub goal)) : Gives (unaryExpression sub) := by
  intro s hs
  refine ensures_look rfl ?_
  split
  · rename_i op hop
    have heof : s.current.kind ≠ .eof := fun h => by
      rw [h] at hop
      cases hop
    refine (ensures_advance (.refl hs) heof).bind fun _ t ht => ?_
    refine ((hsub _).ensures ht).bind fun argument u hu => ?_
    have hpush (op : UnaryOp) : Ensures u (pushFrom s.current.span (.unary op argument))
        fun id v => Work s true [id] v := ensures_node hu rfl rfl rfl trivial
    dsimp only
    split
    · refine ensures_look rfl ?_
      split
      · exact ((refuses_failAt _ _).bind _).ensures
      · exact hpush _
    · exact hpush _
  · split
    · rename_i op hop
      have heof : s.current.kind ≠ .eof := fun h => by
        rw [h] at hop
        cases hop
      refine (ensures_advance (.refl hs) heof).bind fun _ t ht => ?_
      refine ((hsub _).ensures ht).bind fun argument u hu => ?_
      refine (ensures_checkTarget argument _ _).bind fun _ v hv => ?_
      obtain ⟨rfl, htarget⟩ := hv
      exact ensures_node hu rfl rfl rfl htarget
    · exact gives_postfixed hsub s hs

theorem gives_binaryExpression (hsub : ∀ goal, Gives (sub goal)) (least : Nat) (noIn : Bool) :
    Gives (binaryExpression sub least noIn) := by
  intro s hs
  refine ensures_look rfl ((hsub _ s hs).bind fun first t ht => ?_)
  refine ensures_loop (I := Single s) (K := Single s) (fun left u hu => ?_) ht
  refine ensures_look rfl ?_
  split
  · exact ensures_pure hu
  · rename_i op level hop
    have heof : u.current.kind ≠ .eof := fun h => by
      rw [h] at hop
      cases hop
    split
    · exact ensures_pure hu
    · refine (ensures_advance hu heof).bind fun _ v hv => ?_
      refine ((hsub _).ensures hv).bind fun right w hw => ?_
      split
      · exact Ensures.bind (ensures_node hw rfl rfl rfl trivial) fun id x hx => ensures_pure hx
      · exact Ensures.bind (ensures_node hw rfl rfl rfl trivial) fun id x hx => ensures_pure hx

theorem gives_conditionalExpression (hsub : ∀ goal, Gives (sub goal)) (noIn : Bool) :
    Gives (conditionalExpression sub noIn) := by
  intro s hs
  refine ensures_look rfl ((hsub _ s hs).bind fun test t ht => ?_)
  refine (ensures_acceptPunct ht _).found (fun u hu => ?_) (ensures_pure ht)
  refine ((hsub _).ensures hu).bind fun consequent v hv => ?_
  refine (ensures_requirePunct hv _).bind fun _ w hw => ?_
  refine ((hsub _).ensures hw).bind fun alternate x hx => ?_
  exact ensures_node hx rfl rfl rfl trivial

theorem gives_assignmentExpression (hsub : ∀ goal, Gives (sub goal)) (noIn : Bool) :
    Gives (assignmentExpression sub noIn) := by
  intro s hs
  refine ensures_look rfl ((gives_conditionalExpression hsub noIn s hs).bind fun target t ht => ?_)
  refine ensures_look rfl ?_
  split
  · exact ensures_pure ht
  · rename_i op hop
    refine (ensures_checkTarget target _ _).bind fun _ u hu => ?_
    obtain ⟨rfl, htarget⟩ := hu
    have heof : u.current.kind ≠ .eof := fun h => by
      rw [h] at hop
      cases hop
    refine (ensures_advance (.refl ht.ready) heof).bind fun _ v hv => ?_
    refine ((hsub _).ensures hv).bind fun value w hw => ?_
    exact ensures_node (ht.and hw) rfl rfl rfl (htarget.mono hw.grown)

theorem gives_expression (hsub : ∀ goal, Gives (sub goal)) (noIn : Bool) :
    Gives (expression sub noIn) := by
  intro s hs
  refine ensures_look rfl ((hsub _ s hs).bind fun first t ht => ensures_look rfl ?_)
  split
  · refine (ensures_many (I := fun rest u => Work s true ([first] ++ rest) u)
      (K := fun rest u => Work s true ([first] ++ rest) u) (fun rest u hu => ?_) ht).bind
      fun rest u hu => ensures_node hu rfl rfl rfl trivial
    refine (ensures_acceptPunct hu _).found (fun v hv => ?_) (ensures_pure hu)
    refine ((hsub _).ensures hv).bind fun next w hw => ensures_pure ?_
    simpa using hw
  · exact ensures_pure ht

/-!
## What statements add

Statements add one tree each, like expressions, so a program is one tree above the trees of its
statements.
-/

variable {s t u : State} {moved : Bool} {ids : List NodeId} {sub : Sub}

/-- Trees that are added one after the other until a look at the tokens ends it. -/
theorem ensures_collect {step : Parsing (Option NodeId)}
    (hstep : ∀ u : State, u.Ready → Ensures u step fun next v =>
      match next with
      | none => v = u
      | some id => Work u true [id] v)
    (h : Work s moved ids t) :
    Ensures t (many step) fun items u => Work s moved (ids ++ items) u := by
  refine ensures_many (I := fun items u => Work s moved (ids ++ items) u) (fun items u hu => ?_)
    (by simpa using h)
  refine (hstep u hu.ready).mono fun next v hv => ?_
  cases next with
  | none => exact (show v = u from hv) ▸ hu
  | some id =>
    have hand := (hu.and hv).weaken moved
    simpa using hand

/-! ## Statements -/

theorem gives_blockStatement (hsub : ∀ goal, Gives (sub goal)) (scope : JumpScope) :
    Gives (blockStatement sub scope) := by
  intro s hs
  refine ensures_look rfl ((ensures_requirePunct (.refl hs) _).bind fun _ t ht => ?_)
  refine (ensures_collect (fun u hu => ?_) ht).bind fun body u hu => ?_
  · refine ensures_look rfl (ensures_look rfl ?_)
    split
    · exact ensures_pure rfl
    · exact (hsub _ u hu).bind fun id v hv => ensures_pure hv
  · exact (ensures_requirePunct hu _).bind fun _ v hv => ensures_node hv rfl rfl rfl trivial

theorem hoistVar_eq (name : String) :
    hoistVar name = modify fun s => { s with hoisted := s.hoisted.declare name } := by
  apply congrArg modify
  funext s
  unfold Hoisted.declare
  split <;> rfl

theorem gives_varDeclaration (hsub : ∀ goal, Gives (sub goal)) (noIn : Bool) :
    Gives (varDeclaration sub noIn) := by
  intro s hs
  refine ensures_look rfl ((ensures_requireKeyword (.refl hs) _).bind fun _ t ht => ?_)
  refine (ensures_commaSeparated (fun u hu => ?_) ht).bind fun declarations v hv =>
    ensures_node hv rfl rfl rfl trivial
  refine ensures_look rfl ((ensures_bindingName (.refl hu)).bind fun name v hv => ?_)
  -- The name is hoisted in front of what its value hoists.
  let declared : State := { u with hoisted := u.hoisted.declare name }
  refine Ensures.bind (P := fun _ w => Work declared true [] w) ?_ fun _ w hw => ?_
  · rw [hoistVar_eq]
    exact ensures_modify (hv.declare name)
  refine Ensures.bind (P := fun (init : Option NodeId) x => Work declared true init.toList x) ?_
    fun init x hx => ensures_declaring hu hx rfl rfl rfl trivial
  refine (ensures_acceptPunct hw _).found (fun x hx => ?_) (ensures_pure hw)
  exact (hsub _).ensures_some hx

theorem gives_functionDeclaration {depth : Nat} (hsub : ∀ goal, Gives (parseGoal depth goal)) :
    Gives (functionDeclaration (parseGoal depth)) := by
  intro s hs
  refine ensures_look rfl ?_
  refine ((ensures_requireKeyword (.refl hs) _).and (rest_of_requireKeyword hs)).bind
    fun _ t ht => ?_
  obtain ⟨ht, hkeyword, htaken⟩ := ht
  refine ((ensures_bindingName ht).and (rest_of_bindingName_ready ht.ready)).bind
    fun name u hu => ?_
  obtain ⟨hu, word, hword, hidentifier, hname⟩ := hu
  have hhead : HeadRead s (some name) [s.current, word] u :=
    ⟨hu, .named hkeyword hidentifier hname, rfl, by rw [htaken, hword]; rfl⟩
  refine ((ensures_functionRest hsub hu _).and (ensures_run _ _)).bind fun function v hv => ?_
  refine Ensures.bind (ensures_function hhead hv.1 hv.2 rfl rfl rfl trivial) fun id w hw => ?_
  obtain ⟨hlaid, hhoisted, hkind⟩ := hw
  obtain ⟨n, hn, hkind⟩ := Option.map_eq_some_iff.1 hkind
  refine Ensures.bind (P := fun _ x => Work s true [id] x) ?_ fun _ x hx => ensures_pure hx
  refine ensures_modify ?_
  have hfunctions : ∀ f ∈ w.hoisted.functions ++ [id], f < w.nodes.size := by
    intro f hf
    rcases List.mem_append.1 hf with hf | hf
    · exact hlaid.ready.hoisted f hf
    · exact hlaid.root_lt f hf
  refine Laid.work (hlaid.hoist _ hfunctions) hn ?_ ?_
  · rw [hkind]
    exact fun _ hchild => by cases hchild
  · rw [hkind, hhoisted]
    rfl

theorem ensures_parenthesized (hsub : ∀ goal, Gives (sub goal)) (h : Work s moved ids t) :
    Ensures t (parenthesized sub) fun id u => Work s true (ids ++ [id]) u := by
  refine (ensures_requirePunct h _).bind fun _ u hu => ((hsub _).ensures hu).bind fun id v hv => ?_
  exact (ensures_requirePunct hv _).bind fun _ w hw => ensures_pure hw

theorem gives_ifStatement (hsub : ∀ goal, Gives (sub goal)) (scope : JumpScope) :
    Gives (ifStatement sub scope) := by
  intro s hs
  refine ensures_look rfl ((ensures_requireKeyword (.refl hs) _).bind fun _ t ht => ?_)
  refine (ensures_parenthesized hsub ht).bind fun test u hu => ?_
  refine ((hsub _).ensures hu).bind fun consequent v hv => ?_
  refine Ensures.bind (P := fun (alternate : Option NodeId) w =>
    Work s true ([test, consequent] ++ alternate.toList) w) ?_
    fun alternate w hw => ensures_node hw rfl rfl rfl trivial
  refine (ensures_acceptKeyword hv _).found (fun w hw => ?_) (ensures_pure hv)
  exact (hsub _).ensures_some hw

theorem ensures_checkForInTarget (left : NodeId) :
    Ensures t (checkForInTarget left) fun _ u => u = t ∧
      (Assignable t.nodes left ∨ ∃ (n : Node) (declarator : NodeId), t.nodes[left]? = some n ∧
        n.kind = .varDeclaration [declarator]) := by
  refine ensures_look rfl ?_
  split
  · rename_i declarations hkind
    extract_lets valid
    split
    · rename_i hlength
      obtain ⟨n, hn, hkind⟩ := Option.map_eq_some_iff.1 hkind
      obtain ⟨declarator, rfl⟩ := List.length_eq_one_iff.1 (eq_of_beq hlength)
      exact ensures_pure ⟨rfl, .inr ⟨n, declarator, hn, hkind⟩⟩
    · exact (refuses_fail _).ensures
  · rename_i kind _ hkind
    extract_lets valid
    split
    · rename_i hreference
      obtain ⟨n, hn, rfl⟩ := Option.map_eq_some_iff.1 hkind
      exact ensures_pure ⟨rfl, .inl ⟨n, hn, hreference⟩⟩
    · exact (refuses_fail _).ensures
  · exact (refuses_fail _).ensures

theorem ensures_optionalExpression (hsub : ∀ goal, Gives (sub goal)) (h : Work s moved ids t)
    (close : Punctuator) : Ensures t (optionalExpression sub close) fun id u =>
      Work s moved (ids ++ id.toList) u := by
  refine ensures_look rfl ?_
  split
  · refine ensures_pure ?_
    simpa using h
  · exact ((hsub _).ensures_some h).mono fun _ _ hu => hu.weaken moved

theorem gives_forStatement (hsub : ∀ goal, Gives (sub goal)) (scope : JumpScope) :
    Gives (forStatement sub scope) := by
  intro s hs
  refine ensures_look rfl ((ensures_requireKeyword (.refl hs) _).bind fun _ t ht => ?_)
  refine (ensures_requirePunct ht _).bind fun _ u hu => ?_
  refine Ensures.bind (P := fun (init : Option NodeId) v => Work s true init.toList v) ?_
    fun init v hv => ensures_look rfl ?_
  · refine ensures_look rfl ?_
    split
    · exact ensures_pure hu
    refine ensures_look rfl ?_
    split
    · exact (gives_varDeclaration hsub true).ensures_some hu
    · exact (hsub _).ensures_some hu
  split
  · rename_i left hkind
    refine (ensures_advance (.refl hv.ready) (ne_eof_of_keyword hkind)).bind fun _ w hw => ?_
    refine (ensures_checkForInTarget left).bind fun _ x hx => ?_
    obtain ⟨rfl, htarget⟩ := hx
    have hkeeps := Work.refl hw.ready
    refine ((hsub _).ensures hkeeps).bind fun iterated y hy => ?_
    refine (ensures_requirePunct hy _).bind fun _ y hy => ?_
    refine ((hsub _).ensures hy).bind fun body z hz => ?_
    refine ensures_node ((hv.and hw).and hz) rfl rfl rfl ?_
    have haims : (NodeKind.forInStatement left iterated body).Aims x.nodes := htarget
    exact haims.mono hz.grown
  · refine (ensures_requirePunct hv _).bind fun _ w hw => ?_
    refine (ensures_optionalExpression hsub hw _).bind fun test x hx => ?_
    refine (ensures_requirePunct hx _).bind fun _ x hx => ?_
    refine (ensures_optionalExpression hsub hx _).bind fun next y hy => ?_
    refine (ensures_requirePunct hy _).bind fun _ y hy => ?_
    refine ((hsub _).ensures hy).bind fun body z hz => ensures_node hz ?_ rfl rfl trivial
    simp [NodeKind.children]

theorem gives_whileStatement (hsub : ∀ goal, Gives (sub goal)) (scope : JumpScope) :
    Gives (whileStatement sub scope) := by
  intro s hs
  refine ensures_look rfl ((ensures_requireKeyword (.refl hs) _).bind fun _ t ht => ?_)
  refine (ensures_parenthesized hsub ht).bind fun test u hu => ?_
  exact ((hsub _).ensures hu).bind fun body v hv => ensures_node hv rfl rfl rfl trivial

theorem gives_doWhileStatement (hsub : ∀ goal, Gives (sub goal)) (scope : JumpScope) :
    Gives (doWhileStatement sub scope) := by
  intro s hs
  refine ensures_look rfl ((ensures_requireKeyword (.refl hs) _).bind fun _ t ht => ?_)
  refine ((hsub _).ensures ht).bind fun body u hu => ?_
  refine (ensures_requireKeyword hu _).bind fun _ v hv => ?_
  refine (ensures_parenthesized hsub hv).bind fun test w hw => ?_
  refine (ensures_acceptPunct hw _).bind fun found x hx => ?_
  have hall : Work s true ([body] ++ [test]) x := by
    cases found with
    | true => exact hx
    | false => exact (show x = w from hx) ▸ hw
  exact ensures_node hall rfl rfl rfl trivial

/-- The nodes of the clauses of a switch. -/
def clauseNodes (cases : List SwitchCase) : List NodeId :=
  cases.flatMap fun c => c.test.toList ++ c.consequent

theorem ensures_switchCases (hsub : ∀ goal, Gives (sub goal)) (scope : JumpScope)
    (h : Work s true ids t) : Ensures t (switchCases sub scope) fun cases u =>
      Work s true (ids ++ clauseNodes cases) u := by
  let Read (seen : List SwitchCase) (u : State) : Prop :=
    Work s true (ids ++ clauseNodes seen.reverse) u
  have hnil : Read [] t := by simpa [Read, clauseNodes] using h
  refine (ensures_loop (I := Read) (K := Read) (fun seen u hu => ?_) hnil).bind
    fun seen u hu => ensures_pure hu
  refine (ensures_acceptPunct hu _).found (fun v hv => ensures_pure hv) ?_
  let Tested (test : Option NodeId) (v : State) : Prop :=
    Work s true (ids ++ clauseNodes seen.reverse ++ test.toList) v
  refine Ensures.bind (P := Tested) ?_ fun test v hv => ?_
  · refine (ensures_acceptKeyword hu _).found (fun v hv => (hsub _).ensures_some hv) ?_
    refine ensures_look rfl ?_
    split
    · rename_i hdefault
      have htaken : Ensures u (do advance; return none) Tested := by
        refine (ensures_advance hu (ne_eof_of_keyword hdefault)).bind fun _ v hv => ensures_pure ?_
        simpa [Tested] using hv
      split
      · exact ((refuses_fail _).bind _).ensures
      · exact htaken
    · exact (refuses_unexpected _).ensures
  · refine (ensures_requirePunct hv _).bind fun _ w hw => ?_
    refine (ensures_collect (fun x hx => ensures_look rfl ?_) hw).bind fun consequent x hx =>
      ensures_pure ?_
    · split
      · exact ensures_pure rfl
      · exact (hsub _ x hx).bind fun id y hy => ensures_pure hy
    · simpa [Next, Read, clauseNodes] using hx

theorem gives_switchStatement (hsub : ∀ goal, Gives (sub goal)) (scope : JumpScope) :
    Gives (switchStatement sub scope) := by
  intro s hs
  refine ensures_look rfl ((ensures_requireKeyword (.refl hs) _).bind fun _ t ht => ?_)
  refine (ensures_parenthesized hsub ht).bind fun discriminant u hu => ?_
  refine (ensures_requirePunct hu _).bind fun _ v hv => ?_
  refine (ensures_switchCases hsub _ hv).bind fun cases w hw => ?_
  exact ensures_node hw rfl rfl rfl trivial

theorem gives_tryStatement (hsub : ∀ goal, Gives (sub goal)) (scope : JumpScope) :
    Gives (tryStatement sub scope) := by
  intro s hs
  refine ensures_look rfl ((ensures_requireKeyword (.refl hs) _).bind fun _ t ht => ?_)
  refine ((hsub _).ensures ht).bind fun block u hu => ?_
  let Caught (handler : Option CatchClause) (v : State) : Prop :=
    Work s true ([block] ++ (handler.map CatchClause.body).toList) v
  refine Ensures.bind (P := Caught) ?_ fun handler v hv => ?_
  · refine (ensures_acceptKeyword hu _).found (fun v hv => ?_) (ensures_pure hu)
    refine (ensures_requirePunct hv _).bind fun _ w hw => ?_
    refine (ensures_bindingName hw).bind fun param w hw => ?_
    refine (ensures_requirePunct hw _).bind fun _ w hw => ?_
    exact ((hsub _).ensures hw).bind fun body x hx => ensures_pure hx
  refine Ensures.bind (P := fun (finalizer : Option NodeId) w =>
    Work s true ([block] ++ (handler.map CatchClause.body).toList ++ finalizer.toList) w) ?_
    fun finalizer w hw => ?_
  · refine (ensures_acceptKeyword hv _).found (fun w hw => (hsub _).ensures_some hw) ?_
    refine ensures_pure ?_
    simpa [Caught] using hv
  · have hnode : Ensures w (pushFrom s.current.span (.tryStatement block handler finalizer))
        fun id x => Work s true [id] x :=
      ensures_node hw (by simp [NodeKind.children]) rfl rfl trivial
    split
    · exact ((refuses_fail _).bind _).ensures
    · exact hnode

theorem gives_returnStatement (hsub : ∀ goal, Gives (sub goal)) (scope : JumpScope) :
    Gives (returnStatement sub scope) := by
  intro s hs
  refine ensures_look rfl ?_
  split
  · refine (ensures_requireKeyword (.refl hs) _).bind fun _ t ht => ?_
    refine Ensures.bind (P := fun (argument : Option NodeId) u => Work s true argument.toList u) ?_
      fun argument u hu =>
        (ensures_endStatement hu).bind fun _ v hv => ensures_node hv rfl rfl rfl trivial
    refine ensures_look rfl ?_
    split
    · exact ensures_pure ht
    · exact (hsub _).ensures_some ht
  · exact ((refuses_fail _).bind _).ensures

theorem ensures_jumpLabel (h : Work s true ids t) :
    Ensures t jumpLabel fun _ u => Work s true ids u := by
  refine ensures_look rfl ?_
  split
  · rename_i name hname
    refine (ensures_advance h ?_).bind fun _ u hu => ensures_pure hu
    rw [hname]
    exact fun h => by cases h
  · exact ensures_pure h

theorem gives_breakStatement (scope : JumpScope) : Gives (breakStatement scope) := by
  intro s hs
  refine ensures_look rfl ((ensures_requireKeyword (.refl hs) _).bind fun _ t ht => ?_)
  refine (ensures_jumpLabel ht).bind fun label u hu => ?_
  have hend : Ensures u (do endStatement; pushFrom s.current.span (.breakStatement label))
      fun id v => Work s true [id] v :=
    (ensures_endStatement hu).bind fun _ v hv => ensures_node hv rfl rfl rfl trivial
  extract_lets rest
  split <;> split
  · exact hend
  · exact ((refuses_fail _).bind _).ensures
  · exact hend
  · exact ((refuses_fail _).bind _).ensures

theorem gives_continueStatement (scope : JumpScope) : Gives (continueStatement scope) := by
  intro s hs
  refine ensures_look rfl ((ensures_requireKeyword (.refl hs) _).bind fun _ t ht => ?_)
  refine (ensures_jumpLabel ht).bind fun label u hu => ?_
  have hend : Ensures u (do endStatement; pushFrom s.current.span (.continueStatement label))
      fun id v => Work s true [id] v :=
    (ensures_endStatement hu).bind fun _ v hv => ensures_node hv rfl rfl rfl trivial
  extract_lets rest
  split <;> split
  · exact hend
  · exact ((refuses_fail _).bind _).ensures
  · exact hend
  · exact ((refuses_fail _).bind _).ensures

theorem gives_throwStatement (hsub : ∀ goal, Gives (sub goal)) : Gives (throwStatement sub) := by
  intro s hs
  refine ensures_look rfl ((ensures_requireKeyword (.refl hs) _).bind fun _ t ht => ?_)
  refine ensures_look rfl ?_
  split
  · exact ((refuses_fail _).bind _).ensures
  · refine ((hsub _).ensures ht).bind fun argument u hu => ?_
    exact (ensures_endStatement hu).bind fun _ v hv => ensures_node hv rfl rfl rfl trivial

theorem gives_labeledStatement (hsub : ∀ goal, Gives (sub goal)) (scope : JumpScope) :
    Gives (labeledStatement sub scope) := by
  intro s hs
  refine ensures_look rfl ((ensures_bindingName (.refl hs)).bind fun label t ht => ?_)
  refine (ensures_requirePunct ht _).bind fun _ u hu => ?_
  split
  · exact ((refuses_failAt _ _).bind _).ensures
  · refine ensures_look rfl ?_
    exact ((hsub _).ensures hu).bind fun body v hv => ensures_node hv rfl rfl rfl trivial

theorem gives_expressionStatement (hsub : ∀ goal, Gives (sub goal)) :
    Gives (expressionStatement sub) := by
  intro s hs
  refine ensures_look rfl ((hsub _ s hs).bind fun inner t ht => ?_)
  exact (ensures_endStatement ht).bind fun _ u hu => ensures_node hu rfl rfl rfl trivial

/-- A token that is taken ends where the last one taken does. -/
theorem ensures_take (hs : s.Ready) (hkind : s.current.kind ≠ .eof) :
    Ensures s advance fun _ t => Work s true [] t ∧ s.current.span.stop ≤ t.previousEnd := by
  intro a t hrun
  refine ⟨ensures_advance (.refl hs) hkind a t hrun, ?_⟩
  obtain ⟨token, next, rest, hrest, -⟩ := hs.current_spaced hkind
  cases hrun
  simp [State.current, hrest]

/-- A node without parts stands on the token it was read from. -/
theorem ensures_pushToken (hs : s.Ready) (hkind : s.current.kind ≠ .eof) (h : Work s true [] t)
    (hpast : s.current.span.stop ≤ t.previousEnd) {kind : NodeKind} (hbranches : kind.branches = [])
    (hchildren : kind.children = []) (hhoisted : kind.hoistedFunctions = [])
    (hdeclares : kind.declares = false) (haims : kind.Aims t.nodes) :
    Ensures t (push kind s.current.span) fun id u => Work s true [id] u := by
  intro id u hrun
  cases hrun
  obtain ⟨token, next, rest, hrest, -, hlt, hstop, -⟩ := hs.current_spaced hkind
  have htoken : token = s.current := by simp [State.current, hrest]
  rw [htoken] at hlt hstop
  have hsize : s.nodes.size = t.nodes.size := h.forest.lo_eq_hi
  have hlaid : Laid s true [t.nodes.size]
      { t with nodes := t.nodes.push ⟨kind, s.current.span⟩ } := by
    refine h.toLaid.push hbranches ⟨hs.boundary_here, hstop, ?_, haims⟩ (Nat.le_refl _) ?_ hlt hpast ?_
    · rw [hhoisted]
      exact fun f hf => by cases hf
    · rw [hsize]
      exact .nil _ _ _
    · intro function hfunction
      rw [NodeKind.branches, hfunction] at hbranches
      simp at hbranches
  refine hlaid.work Array.getElem?_push_size ?_ ?_
  · rw [hchildren]
    exact fun _ hchild => by cases hchild
  · rw [hchildren, Hoisted.add_of_not_declares hdeclares]
    exact h.hoists

theorem gives_statement {depth : Nat} (hsub : ∀ goal, Gives (parseGoal depth goal))
    (scope : JumpScope) : Gives (statement (parseGoal depth) scope) := by
  intro s hs
  refine ensures_look rfl ?_
  split
  · exact hsub _ s hs
  · rename_i hsemicolon
    have hkind : s.current.kind ≠ .eof := fun h => by cases hsemicolon.symm.trans h
    exact (ensures_take hs hkind).bind fun _ t ht =>
      ensures_pushToken hs hkind ht.1 ht.2 rfl rfl rfl rfl trivial
  · refine (gives_varDeclaration hsub false s hs).bind fun declaration t ht => ?_
    exact (ensures_endStatement ht).bind fun _ u hu => ensures_pure hu
  · exact gives_functionDeclaration hsub s hs
  · exact gives_ifStatement hsub scope s hs
  · exact gives_forStatement hsub scope s hs
  · exact gives_whileStatement hsub scope s hs
  · exact gives_doWhileStatement hsub scope s hs
  · exact gives_switchStatement hsub scope s hs
  · exact gives_tryStatement hsub scope s hs
  · exact gives_returnStatement hsub scope s hs
  · exact gives_breakStatement scope s hs
  · exact gives_continueStatement scope s hs
  · exact gives_throwStatement hsub s hs
  · rename_i hdebugger
    have hkind : s.current.kind ≠ .eof := fun h => by cases hdebugger.symm.trans h
    refine (ensures_take hs hkind).bind fun _ t ht => ?_
    refine (ensures_endStatement (.refl ht.1.ready)).bind fun _ u hu => ?_
    have hall : Work s true [] u := ht.1.trans hu
    exact ensures_pushToken hs hkind hall (Nat.le_trans ht.2 hu.past) rfl rfl rfl rfl trivial
  · exact (refuses_fail _).ensures
  · refine Ensures.bind (P := fun _ t => t = s) ?_ fun label t ht => ?_
    · refine ensures_look rfl ?_
      split
      · exact ensures_pure rfl
      · exact ensures_pure rfl
    · subst ht
      split
      · exact gives_labeledStatement hsub scope t hs
      · exact gives_expressionStatement hsub t hs

/-! ## Programs -/

/-- Every goal gives a node, at any depth. -/
theorem gives_parseGoal (depth : Nat) (goal : Goal) : Gives (parseGoal depth goal) := by
  induction depth generalizing goal with
  | zero => exact fun s _ => (refuses_fail _).ensures
  | succ depth ih =>
    cases goal with
    | statement scope => exact gives_statement ih scope
    | block scope => exact gives_blockStatement ih scope
    | expression noIn => exact gives_expression ih noIn
    | assignment noIn => exact gives_assignmentExpression ih noIn
    | binary least noIn => exact gives_binaryExpression ih least noIn
    | unary => exact gives_unaryExpression ih
    | member => exact gives_memberExpression ih

/-- The root of a program is put above the trees of its statements and records what they hoist. -/
structure ProgramRead (s : State) (root : NodeId) (body : List NodeId) (t u : State) : Prop where
  work : Work s false body t
  root : root = t.nodes.size
  nodes : u.nodes = t.nodes.push ⟨.program body t.hoisted, s.spanTo t⟩

theorem ensures_programRoot (hsub : ∀ goal, Gives (sub goal)) (hs : s.Ready) :
    Ensures s (programRoot sub) fun root u => ∃ body t, ProgramRead s root body t u := by
  refine ensures_look rfl ?_
  refine (ensures_collect (fun u hu => ?_) (.refl hs)).bind fun body t ht => ensures_look rfl ?_
  · refine ensures_look rfl ?_
    split
    · exact ensures_pure rfl
    · exact (hsub _ u hu).bind fun id v hv => ensures_pure hv
  refine ensures_look rfl ?_
  intro root u hrun
  cases hrun
  exact ⟨body, t, ht, rfl, rfl⟩

/-- The statements of a text and the root above them are one tree. -/
theorem ProgramRead.rooted {root : NodeId} {body : List NodeId} (h : ProgramRead s root body t u)
    (hnodes : s.nodes = #[]) : (Program.mk s.source u.nodes root).Rooted := by
  obtain ⟨ht, rfl, hu⟩ := h
  have hs := ht.began
  have hgrown := Grown.push t.nodes ⟨.program body t.hoisted, s.spanTo t⟩
  have hstop : Boundary s.source (s.spanTo t).stop := by
    have hpast := ht.ready.past
    rw [ht.source] at hpast
    rcases Nat.le_total t.previousEnd s.here with hle | hle
    · rw [State.spanTo, Nat.max_eq_right hle]
      exact hs.boundary_here
    · rw [State.spanTo, Nat.max_eq_left hle]
      exact hpast
  rw [hu]
  refine ⟨(Array.size_push _).symm, ⟨.program body t.hoisted, s.spanTo t⟩,
    Array.getElem?_push_size, ⟨hs.boundary_here, hstop, ht.ready.hoisted, trivial⟩,
    Nat.le_max_right _ _, ?_⟩
  have hforest := ht.forest.mono_nodes hgrown
  rw [hnodes] at hforest
  have hbranches : (NodeKind.program body t.hoisted).branches = body :=
    branches_eq_children rfl
  rw [hbranches]
  exact hforest.mono (Nat.le_refl _) (Nat.le_max_left _ _)

end Parser

/-- Every accepted text was read as a program from its tokens. -/
theorem read_of_parse {source : String} {p : Program} (h : parse source = .ok p) :
    ∃ ts body t u, tokens source = .ok ts ∧
      Parser.ProgramRead { source, rest := ts } p.root body t u ∧ p = ⟨source, u.nodes, p.root⟩ := by
  unfold parse at h
  cases htokens : tokens source with
  | error e =>
    rw [htokens] at h
    cases h
  | ok ts =>
    rw [htokens] at h
    cases hrun : Parser.programRoot (Parser.parseGoal (8 * ts.length + 16))
        { source, rest := ts } with
    | error e =>
      simp only [bind, Except.bind, StateT.run, hrun] at h
      cases h
    | ok result =>
      simp only [bind, Except.bind, StateT.run, hrun] at h
      cases h
      have hready : Parser.State.Ready { source, rest := ts } :=
        ⟨spaced_of_tokens htokens, ⟨[], source.toList, rfl, rfl⟩, fun f hf => by cases hf⟩
      obtain ⟨body, t, hread⟩ :=
        Parser.ensures_programRoot (Parser.gives_parseGoal _) hready result.1 result.2 hrun
      exact ⟨ts, body, t, result.2, rfl, hread, rfl⟩

/-- Every function of an accepted text came there by being read. -/
theorem origin_of_parse {source : String} {p : Program} (h : parse source = .ok p) {id : NodeId}
    {n : Node} {function : FunctionNode} (hn : p.nodes[id]? = some n)
    (hfunction : n.kind.function? = some function) :
    ∃ ts head before after, tokens source = .ok ts ∧
      Parser.Origin ts p.nodes id n function head before after := by
  obtain ⟨ts, body, t, u, htokens, ⟨ht, -, hnodes⟩, hp⟩ := read_of_parse h
  generalize Parser.State.spanTo _ t = span at hnodes
  have hpnodes : p.nodes = t.nodes.push ⟨.program body t.hoisted, span⟩ := by
    rw [hp]
    exact hnodes
  have hgrown : Grown t.nodes p.nodes := hpnodes ▸ .push _ _
  rw [hpnodes, Array.getElem?_push] at hn
  split at hn
  · cases hn
    cases hfunction
  · obtain ⟨head, before, after, horigin⟩ :=
      ht.origins id n function (Nat.zero_le _) hn hfunction
    refine ⟨ts, head, before, after, htokens, ?_⟩
    exact { horigin with
      grown := horigin.grown.trans hgrown
      recorded := horigin.recorded.mono hgrown }

/-- Every accepted text is one tree. -/
theorem rooted_of_parse {source : String} {p : Program} (h : parse source = .ok p) : p.Rooted := by
  obtain ⟨ts, body, t, u, -, hread, hp⟩ := read_of_parse h
  rw [hp]
  exact hread.rooted rfl

/-- Every program that is accepted is a tree. -/
theorem wellFormed_of_parse {source : String} {p : Program} (h : parse source = .ok p) :
    p.WellFormed :=
  (rooted_of_parse h).wellFormed

theorem wellFormed_of_parse_forIn :
    ∃ p, parse "for (var k in o) \x7b o[k] += (k); \x7d" = .ok p ∧ p.nodes.size = 12 ∧
      p.WellFormed := by
  have hsize : (parse "for (var k in o) \x7b o[k] += (k); \x7d").toOption.map
      (fun p => p.nodes.size) = some 12 := by
    decide +kernel
  cases h : parse "for (var k in o) \x7b o[k] += (k); \x7d" with
  | error e =>
    rw [h] at hsize
    cases hsize
  | ok p =>
    rw [h] at hsize
    exact ⟨p, rfl, Option.some.inj hsize, wellFormed_of_parse h⟩

end ScriptMachine.Tree
