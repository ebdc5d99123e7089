import ScriptMachine.Proofs.Tree.Layout
import ScriptMachine.Proofs.Tree.Parsing

/-!
# What a part of a parse adds

Started where tokens are spaced, a part of a parse adds trees behind those that are there. They
stand in the text between the token it starts at and the end of the last token it takes. A
production that pushes a node puts it above the trees that were added for it, so what is added for a
production that gives a node is one tree with that node on top. What the trees declare is hoisted in
the order in which they were read, and every function among them records what its body hoisted.
-/

namespace ScriptMachine.Tree.Parser

open ScriptMachine.Source

variable {α β : Type}

/-! ## States -/

/-- Where the current token starts. -/
def State.here (s : State) : Nat := s.current.span.start

/-- The stretch from the current token to the last one taken in a later state. -/
def State.spanTo (s t : State) : Span := { s.current.span with stop := max t.previousEnd s.here }

/-- The tokens that are left are spaced behind the last one taken, and what is hoisted is there. -/
structure State.Ready (s : State) : Prop where
  spaced : Spaced s.source s.previousEnd s.rest
  past : Boundary s.source s.previousEnd
  hoisted : ∀ f ∈ s.hoisted.functions, f < s.nodes.size

variable {s t u : State}

theorem State.Ready.past_le_here (h : s.Ready) : s.previousEnd ≤ s.here := by
  have hspaced := h.spaced
  unfold here current
  cases hrest : s.rest with
  | nil =>
    rw [hrest] at hspaced
    cases hspaced
  | cons token rest =>
    rw [hrest] at hspaced
    cases hspaced with
    | last _ hpast _ => exact hpast
    | cons _ hpast _ _ _ _ => exact hpast

theorem State.Ready.boundary_here (h : s.Ready) : Boundary s.source s.here := by
  have hspaced := h.spaced
  unfold here current
  cases hrest : s.rest with
  | nil =>
    rw [hrest] at hspaced
    cases hspaced
  | cons token rest =>
    rw [hrest] at hspaced
    cases hspaced with
    | last _ _ hstart => exact hstart
    | cons _ _ _ hstart _ _ => exact hstart

/-- The tokens in front of the parameters of a function: the keyword, and the name if it has one. -/
inductive Head : Option String → List Token → Prop
  | anonymous {keyword : Token} (hkeyword : keyword.kind = .keyword .function) :
    Head none [keyword]
  | named {keyword word : Token} {name : String} (hkeyword : keyword.kind = .keyword .function)
    (hword : word.kind = .identifier name) (hname : isRestricted name = false) :
    Head (some name) [keyword, word]

/-- How a function came to stand among some nodes: behind its head, which is among some tokens, it
was read from one state to another, and its node was put on top. -/
structure Origin (tokens : List Token) (nodes : Array Node) (id : NodeId) (n : Node)
    (function : FunctionNode) (head : List Token) (before after : State) : Prop where
  leads : Head function.name head
  behind : head ++ before.rest <:+ tokens
  span : head.head?.map (fun t => { t.span with stop := after.previousEnd }) = some n.span
  ready : before.Ready
  run : ∃ depth, functionRest (parseGoal depth) function.name before = .ok (function, after)
  here : after.nodes.size = id
  grown : Grown after.nodes nodes
  recorded : function.Recorded nodes

/-- Every function behind an index came there by being read. -/
def Origins (tokens : List Token) (lo : Nat) (nodes : Array Node) : Prop :=
  ∀ (id : NodeId) (n : Node) (function : FunctionNode), lo ≤ id → nodes[id]? = some n →
    n.kind.function? = some function →
      ∃ head before after, Origin tokens nodes id n function head before after

/-- Between two states trees with some roots were added, and if `moved` holds a token was taken. -/
structure Laid (s : State) (moved : Bool) (ids : List NodeId) (t : State) : Prop where
  began : s.Ready
  source : t.source = s.source
  ready : t.Ready
  here : s.here ≤ t.here
  past : s.previousEnd ≤ t.previousEnd
  grown : Grown s.nodes t.nodes
  forest : Forest s.source t.nodes s.nodes.size s.here ids t.nodes.size t.previousEnd
  moved : moved = true → s.here < t.previousEnd
  rest : t.rest <:+ s.rest
  origins : Origins s.rest s.nodes.size t.nodes

/-- Between two states trees with some roots were added, and what they declare was hoisted. -/
structure Work (s : State) (moved : Bool) (ids : List NodeId) (t : State) : Prop
    extends Laid s moved ids t where
  hoists : t.hoisted = s.hoisted.reading t.nodes ids

namespace Origins

variable {tokens tokens' : List Token} {lo mid : Nat} {nodes nodes' : Array Node}

theorem nil (tokens : List Token) (nodes : Array Node) : Origins tokens nodes.size nodes := by
  intro id n function hid hn
  exact absurd (Array.getElem?_eq_some_iff.1 hn).1 (Nat.not_lt.2 hid)

/-- Functions that are there stay as they were read, and those that are added are read too. -/
theorem trans (h : Origins tokens lo nodes) (h' : Origins tokens' nodes.size nodes')
    (hgrown : Grown nodes nodes') (htokens : tokens' <:+ tokens) : Origins tokens lo nodes' := by
  intro id n function hid hn hfunction
  by_cases hlt : id < nodes.size
  · have hm : nodes[id]? = some nodes[id] := Array.getElem?_eq_getElem hlt
    obtain rfl := Option.some.inj ((hgrown _ _ hm).symm.trans hn)
    obtain ⟨head, before, after, horigin⟩ := h id _ function hid hm hfunction
    refine ⟨head, before, after, ?_⟩
    exact { horigin with
      grown := horigin.grown.trans hgrown
      recorded := horigin.recorded.mono hgrown }
  · obtain ⟨head, before, after, horigin⟩ :=
      h' id n function (Nat.le_of_not_lt hlt) hn hfunction
    exact ⟨head, before, after, { horigin with behind := horigin.behind.trans htokens }⟩

/-- One node is put on top. -/
theorem push (h : Origins tokens lo nodes) {n : Node}
    (hn : ∀ function, n.kind.function? = some function →
      ∃ head before after, Origin tokens (nodes.push n) nodes.size n function head before after) :
    Origins tokens lo (nodes.push n) := by
  refine h.trans ?_ (.push _ _) (List.suffix_refl tokens)
  intro id m function hid hm hfunction
  rw [Array.getElem?_push] at hm
  split at hm
  · rename_i heq
    subst heq
    obtain rfl := Option.some.inj hm
    exact hn function hfunction
  · exact absurd (Array.getElem?_eq_some_iff.1 hm).1 (Nat.not_lt.2 hid)

end Origins

namespace Laid

variable {moved moved' : Bool} {ids ids' : List NodeId}

theorem refl (h : s.Ready) : Laid s false [] s where
  began := h
  source := rfl
  ready := h
  here := Nat.le_refl _
  past := Nat.le_refl _
  grown := .refl _
  forest := .nil _ _ _
  moved hmoved := by cases hmoved
  rest := List.suffix_refl _
  origins := .nil _ _

theorem weaken (h : Laid s true ids t) (moved : Bool) : Laid s moved ids t :=
  { h with moved := fun _ => h.moved rfl }

theorem trans (h : Laid s moved ids t) (h' : Laid t moved' ids' u) :
    Laid s (moved || moved') (ids ++ ids') u where
  began := h.began
  source := h'.source.trans h.source
  ready := h'.ready
  here := Nat.le_trans h.here h'.here
  past := Nat.le_trans h.past h'.past
  grown := h.grown.trans h'.grown
  forest := by
    have hbehind := h'.forest
    rw [h.source] at hbehind
    exact (h.forest.mono_nodes h'.grown).append hbehind h.here h.ready.past_le_here h'.past
      (Nat.le_refl _)
  moved hmoved := by
    rcases Bool.or_eq_true_iff.1 hmoved with hmoved | hmoved
    · exact Nat.lt_of_lt_of_le (h.moved hmoved) h'.past
    · exact Nat.lt_of_le_of_lt h.here (h'.moved hmoved)
  rest := h'.rest.trans h.rest
  origins := h.origins.trans h'.origins h'.grown h.rest

/-- A tree is added. -/
theorem and (h : Laid s moved ids t) (h' : Laid t true ids' u) : Laid s true (ids ++ ids') u := by
  simpa using h.trans h'

/-- What is hoisted changes, to functions that are there. -/
theorem hoist (h : Laid s moved ids t) (hoisted : Hoisted)
    (hhoisted : ∀ f ∈ hoisted.functions, f < t.nodes.size) :
    Laid s moved ids { t with hoisted } :=
  { h with ready := { h.ready with hoisted := hhoisted } }

/-- What was added does not depend on what was hoisted before. -/
theorem unhoist {hoisted : Hoisted} (h : Laid { s with hoisted } moved ids t) (hs : s.Ready) :
    Laid s moved ids t :=
  { h with began := hs }

/-- The roots are there. -/
theorem root_lt (h : Laid s moved ids t) : ∀ id ∈ ids, id < t.nodes.size :=
  fun _ hid => (h.forest.mem_bounds hid).2

/-- A node is put above all the trees that were added. -/
theorem push (h : Laid s moved ids t) {n : Node} (hbranches : n.kind.branches = ids)
    (hsound : n.Sound s.source t.nodes t.nodes.size) (hleft : s.here ≤ n.span.start)
    (hforest : Forest s.source t.nodes s.nodes.size n.span.start ids t.nodes.size n.span.stop)
    (hlt : n.span.start < n.span.stop) (hright : n.span.stop ≤ t.previousEnd)
    (horigin : ∀ function, n.kind.function? = some function → ∃ head before after,
      Origin s.rest (t.nodes.push n) t.nodes.size n function head before after) :
    Laid s true [t.nodes.size] { t with nodes := t.nodes.push n } where
  began := h.began
  source := h.source
  ready := { h.ready with
    hoisted := fun f hf => by
      rw [Array.size_push]
      exact Nat.lt_succ_of_lt (h.ready.hoisted f hf) }
  here := h.here
  past := h.past
  grown := h.grown.trans (.push _ _)
  forest := by
    have hgrown := Grown.push t.nodes n
    rw [Array.size_push]
    refine Forest.snoc (.nil _ _ _) (by simp) (hbranches ▸ hforest.mono_nodes hgrown)
      { hsound with aims := hsound.aims.mono hgrown } hleft (Nat.zero_le _) hlt hright
  moved _ := Nat.lt_of_le_of_lt hleft (Nat.lt_of_lt_of_le hlt hright)
  rest := h.rest
  origins := h.origins.push horigin

/-- The node that is put on top reaches from the start to the end of the last token taken. -/
theorem close (h : Laid s true ids t) {kind : NodeKind} (hbranches : kind.branches = ids)
    (hhoisted : ∀ f ∈ kind.hoistedFunctions, f < t.nodes.size) (haims : kind.Aims t.nodes)
    (horigin : ∀ function, kind.function? = some function → ∃ head before after,
      Origin s.rest (t.nodes.push ⟨kind, s.spanTo t⟩) t.nodes.size ⟨kind, s.spanTo t⟩ function head
        before after) :
    Laid s true [t.nodes.size] { t with nodes := t.nodes.push ⟨kind, s.spanTo t⟩ } := by
  have hstop : (s.spanTo t).stop = t.previousEnd := Nat.max_eq_left (Nat.le_of_lt (h.moved rfl))
  refine h.push hbranches ⟨h.began.boundary_here, ?_, hhoisted, haims⟩ (Nat.le_refl _) ?_ ?_ ?_
    horigin
  · rw [hstop, ← h.source]
    exact h.ready.past
  · rw [hstop]
    exact h.forest
  · rw [hstop]
    exact h.moved rfl
  · exact Nat.le_of_eq hstop

end Laid

namespace Work

variable {moved moved' : Bool} {ids ids' : List NodeId}

theorem refl (h : s.Ready) : Work s false [] s :=
  { Laid.refl h with hoists := rfl }

theorem weaken (h : Work s true ids t) (moved : Bool) : Work s moved ids t :=
  { h.toLaid.weaken moved with hoists := h.hoists }

theorem trans (h : Work s moved ids t) (h' : Work t moved' ids' u) :
    Work s (moved || moved') (ids ++ ids') u :=
  { h.toLaid.trans h'.toLaid with
    hoists := by
      rw [h'.hoists, h.hoists, Hoisted.reading_append,
        Hoisted.reading_grown h'.grown h.toLaid.root_lt] }

/-- A tree is added. -/
theorem and (h : Work s moved ids t) (h' : Work t true ids' u) : Work s true (ids ++ ids') u := by
  simpa using h.trans h'

/-- A name that is declared before any tree is added might have been declared before. -/
theorem declare (h : Work s moved [] t) (name : String) :
    Work { s with hoisted := s.hoisted.declare name } moved []
      { t with hoisted := t.hoisted.declare name } := by
  have hbefore : State.Ready { s with hoisted := s.hoisted.declare name } :=
    { h.began with hoisted := by simpa using h.began.hoisted }
  have hlaid := h.toLaid.hoist (t.hoisted.declare name) (by simpa using h.ready.hoisted)
  exact { hlaid with
    began := hbefore
    hoists := congrArg (Hoisted.declare · name) h.hoists }

end Work

/-- One tree hoists what its root declares, then what the trees below it declare. -/
theorem Laid.work {moved : Bool} {id : NodeId} {n : Node} (h : Laid s moved [id] t)
    (hn : t.nodes[id]? = some n) (hlt : ∀ child ∈ n.kind.children, child < id)
    (hhoists : t.hoisted = (s.hoisted.add id n.kind).reading t.nodes n.kind.children) :
    Work s moved [id] t :=
  { h with hoists := hhoists.trans (Hoisted.reading_node hn hlt).symm }

/-! ## Running a part of a parse -/

/-- Whatever a part of a parse gives from a state is as described in the state it leaves. -/
def Ensures (t : State) (x : Parsing α) (Q : α → State → Prop) : Prop :=
  ∀ a u, x t = .ok (a, u) → Q a u

theorem Ensures.mono {P Q : α → State → Prop} {x : Parsing α} (hx : Ensures t x P)
    (h : ∀ a u, P a u → Q a u) : Ensures t x Q :=
  fun a u hrun => h a u (hx a u hrun)

theorem Ensures.bind {P : α → State → Prop} {Q : β → State → Prop} {x : Parsing α}
    {f : α → Parsing β} (hx : Ensures t x P) (hf : ∀ a u, P a u → Ensures u (f a) Q) :
    Ensures t (x >>= f) Q := by
  intro b v hrun
  obtain ⟨a, u, hxrun, hfrun⟩ := bind_eq_ok hrun
  exact hf a u (hx a u hxrun) b v hfrun

theorem Ensures.and {P Q : α → State → Prop} {x : Parsing α} (hP : Ensures t x P)
    (hQ : Ensures t x Q) : Ensures t x fun a u => P a u ∧ Q a u :=
  fun a u hrun => ⟨hP a u hrun, hQ a u hrun⟩

/-- A part of a parse gives what it gives. -/
theorem ensures_run (t : State) (x : Parsing α) : Ensures t x fun a u => x t = .ok (a, u) :=
  fun _ _ hrun => hrun

theorem ensures_pure {Q : α → State → Prop} {a : α} (h : Q a t) : Ensures t (pure a) Q := by
  intro b u hrun
  cases hrun
  exact h

/-- What only looks at the state leaves it. -/
theorem ensures_look {Q : β → State → Prop} {x : Parsing α} {f : α → Parsing β} {a : α}
    (hx : x t = .ok (a, t)) (h : Ensures t (f a) Q) : Ensures t (x >>= f) Q := by
  intro b u hrun
  rw [bind_run, hx] at hrun
  exact h b u hrun

theorem ensures_modify {Q : Unit → State → Prop} {f : State → State} (h : Q () (f t)) :
    Ensures t (modify f : Parsing Unit) Q := by
  intro a u hrun
  cases hrun
  exact h

theorem Refuses.ensures {Q : α → State → Prop} {x : Parsing α} (h : Refuses x) :
    Ensures t x Q := by
  intro a u hrun
  obtain ⟨e, he⟩ := h t
  rw [he] at hrun
  cases hrun

/-! ## Tokens -/

section Tokens

variable {moved : Bool} {ids : List NodeId}

/-- Behind every token but the last one there is another. -/
theorem State.Ready.current_spaced (h : t.Ready) (hkind : t.current.kind ≠ .eof) :
    ∃ token next rest, t.rest = token :: next :: rest ∧ t.previousEnd ≤ token.span.start ∧
      token.span.start < token.span.stop ∧ Boundary t.source token.span.stop ∧
      Spaced t.source token.span.stop (next :: rest) := by
  have hspaced := h.spaced
  unfold State.current at hkind
  cases hrest : t.rest with
  | nil =>
    rw [hrest] at hspaced
    cases hspaced
  | cons token rest =>
    rw [hrest] at hspaced hkind
    cases hspaced with
    | last heof _ _ => exact absurd heof hkind
    | cons _ hpast hlt _ hstop hrest' =>
      cases rest with
      | nil => cases hrest'
      | cons next rest => exact ⟨token, next, rest, rfl, hpast, hlt, hstop, hrest'⟩

/-- Every token but the last one can be taken. -/
theorem ensures_advance (h : Work s moved ids t) (hkind : t.current.kind ≠ .eof) :
    Ensures t advance fun _ u => Work s true ids u := by
  refine ensures_modify ?_
  obtain ⟨token, next, rest, hrest, hpast, hlt, hstop, hspaced⟩ := h.ready.current_spaced hkind
  rw [hrest]
  have hhere : t.here = token.span.start := by simp [State.here, State.current, hrest]
  have hready : State.Ready { t with rest := next :: rest, previousEnd := token.span.stop } :=
    ⟨hspaced, hstop, h.ready.hoisted⟩
  have hpast' : t.previousEnd ≤ token.span.stop := Nat.le_trans hpast (Nat.le_of_lt hlt)
  have hmoved : s.here < token.span.stop :=
    Nat.lt_of_le_of_lt (Nat.le_trans h.here (Nat.le_of_eq hhere)) hlt
  have hrest' : next :: rest <:+ t.rest := hrest ▸ List.suffix_cons _ _
  exact
    { began := h.began
      source := h.source
      ready := hready
      here := Nat.le_of_lt (Nat.lt_of_lt_of_le hmoved hready.past_le_here)
      past := Nat.le_trans h.past hpast'
      grown := h.grown
      forest := h.forest.mono (Nat.le_refl _) hpast'
      moved := fun _ => hmoved
      rest := hrest'.trans h.rest
      origins := h.origins
      hoists := h.hoists }

/-- The token that is taken is the current one. -/
theorem rest_of_advance (h : t.Ready) (hkind : t.current.kind ≠ .eof) :
    Ensures t advance fun _ u => t.rest = t.current :: u.rest := by
  refine ensures_modify ?_
  obtain ⟨token, next, rest, hrest, -⟩ := h.current_spaced hkind
  rw [State.current, hrest]
  rfl

theorem ne_eof_of_punct {token : Token} {p : Punctuator} (h : (token.kind == .punct p) = true) :
    token.kind ≠ .eof := by
  rw [eq_of_beq h]
  exact fun h => by cases h

theorem ne_eof_of_keyword {token : Token} {k : Keyword} (h : (token.kind == .keyword k) = true) :
    token.kind ≠ .eof := by
  rw [eq_of_beq h]
  exact fun h => by cases h

/-- Either a token is taken or nothing happens. -/
def Accepts (s : State) (ids : List NodeId) (t : State) (found : Bool) (u : State) : Prop :=
  if found then Work s true ids u else u = t

theorem ensures_acceptPunct (h : Work s moved ids t) (p : Punctuator) :
    Ensures t (acceptPunct p) (Accepts s ids t) := by
  refine ensures_look rfl ?_
  split
  · rename_i hpunct
    exact (ensures_advance h (ne_eof_of_punct hpunct)).bind fun _ u hu => ensures_pure hu
  · exact ensures_pure rfl

theorem ensures_acceptKeyword (h : Work s moved ids t) (k : Keyword) :
    Ensures t (acceptKeyword k) (Accepts s ids t) := by
  refine ensures_look rfl ?_
  split
  · rename_i hkeyword
    exact (ensures_advance h (ne_eof_of_keyword hkeyword)).bind fun _ u hu => ensures_pure hu
  · exact ensures_pure rfl

/-- What is done when a token is found, and when it is not. -/
theorem Ensures.found {Q : α → State → Prop} {x : Parsing Bool} {y z : Parsing α}
    (hx : Ensures t x (Accepts s ids t)) (hyes : ∀ u, Work s true ids u → Ensures u y Q)
    (hno : Ensures t z Q) : Ensures t (x >>= fun found => if found = true then y else z) Q := by
  refine hx.bind fun found u hu => ?_
  cases found with
  | true => exact hyes u hu
  | false =>
    obtain rfl : u = t := hu
    exact hno

theorem ensures_requirePunct (h : Work s moved ids t) (p : Punctuator) :
    Ensures t (requirePunct p) fun _ u => Work s true ids u :=
  (ensures_acceptPunct h p).found (fun _ hu => ensures_pure hu) (refuses_unexpected _).ensures

theorem ensures_requireKeyword (h : Work s moved ids t) (k : Keyword) :
    Ensures t (requireKeyword k) fun _ u => Work s true ids u :=
  (ensures_acceptKeyword h k).found (fun _ hu => ensures_pure hu) (refuses_unexpected _).ensures

theorem ensures_endStatement (h : Work s moved ids t) :
    Ensures t endStatement fun _ u => Work s moved ids u := by
  refine (ensures_acceptPunct h _).found (fun u hu => ensures_pure (hu.weaken moved)) ?_
  refine ensures_look rfl ?_
  split
  · exact ensures_pure h
  · exact (refuses_unexpected _).ensures

theorem ensures_bindingName (h : Work s moved ids t) :
    Ensures t bindingName fun _ u => Work s true ids u := by
  refine ensures_look rfl ?_
  split
  · rename_i name hname
    have hkind : t.current.kind ≠ .eof := by
      rw [hname]
      exact fun h => by cases h
    split
    · exact ((refuses_fail _).bind _).ensures
    · exact (ensures_advance h hkind).bind fun _ u hu => ensures_pure hu
  · exact (refuses_fail _).ensures
  · exact (refuses_unexpected _).ensures

/-- The keyword that is required is the current token. -/
theorem rest_of_requireKeyword (h : t.Ready) {k : Keyword} :
    Ensures t (requireKeyword k) fun _ u =>
      t.current.kind = .keyword k ∧ t.rest = t.current :: u.rest := by
  refine Ensures.bind (P := fun found u =>
    found = true → t.current.kind = .keyword k ∧ t.rest = t.current :: u.rest) ?_ fun found u hu => ?_
  · refine ensures_look rfl ?_
    split
    · rename_i hkeyword
      exact (rest_of_advance h (ne_eof_of_keyword hkeyword)).bind fun _ u hu =>
        ensures_pure fun _ => ⟨eq_of_beq hkeyword, hu⟩
    · exact ensures_pure fun h => by cases h
  · split
    · rename_i hfound
      exact ensures_pure (hu hfound)
    · exact (refuses_unexpected _).ensures

/-- The name that is bound is the current token. -/
theorem rest_of_bindingName_ready (h : t.Ready) :
    Ensures t bindingName fun name u => ∃ word, t.rest = word :: u.rest ∧
      word.kind = .identifier name ∧ isRestricted name = false := by
  refine ensures_look rfl ?_
  split
  · rename_i name hname
    have hkind : t.current.kind ≠ .eof := by
      rw [hname]
      exact fun h => by cases h
    split
    · exact ((refuses_fail _).bind _).ensures
    · rename_i hrestricted
      refine (rest_of_advance h hkind).bind fun _ u hu => ensures_pure ?_
      exact ⟨t.current, hu, hname, Bool.eq_false_iff.2 hrestricted⟩
  · exact (refuses_fail _).ensures
  · exact (refuses_unexpected _).ensures

theorem ensures_propertyName (h : Work s moved ids t) :
    Ensures t propertyName fun _ u => Work s true ids u := by
  refine ensures_look rfl ?_
  have htake {a : String} (hkind : t.current.kind ≠ .eof) :
      Ensures t (do advance; return a) fun _ u => Work s true ids u :=
    (ensures_advance h hkind).bind fun _ u hu => ensures_pure hu
  split
  · rename_i hname
    exact htake fun h => by cases hname.symm.trans h
  · rename_i hword
    exact htake fun h => by cases hword.symm.trans h
  · rename_i hkeyword
    exact htake fun h => by cases hkeyword.symm.trans h
  · exact (refuses_unexpected _).ensures

/-! ## Nodes -/

theorem branches_eq_children {kind : NodeKind} (h : kind.function? = none) :
    kind.branches = kind.children := by
  simp [NodeKind.branches, h]

/-- A node that is no function is put above its children. What it declares itself might have been
declared before them. -/
theorem ensures_declaring {kind : NodeKind} (hs : s.Ready)
    (h : Work { s with hoisted := s.hoisted.add t.nodes.size kind } true ids t)
    (hchildren : kind.children = ids) (hfunction : kind.function? = none)
    (hhoisted : kind.hoistedFunctions = []) (haims : kind.Aims t.nodes) :
    Ensures t (pushFrom s.current.span kind) fun id u => Work s true [id] u := by
  refine ensures_look rfl ?_
  intro id u hrun
  cases hrun
  have hlaid := (h.toLaid.unhoist hs).close ((branches_eq_children hfunction).trans hchildren)
    (fun f hf => by rw [hhoisted] at hf; cases hf) haims
    (fun function hsome => by rw [hfunction] at hsome; cases hsome)
  have hids : ∀ child ∈ kind.children, child < t.nodes.size := hchildren ▸ h.toLaid.root_lt
  refine hlaid.work Array.getElem?_push_size hids ?_
  rw [Hoisted.reading_grown (.push _ _) hids, hchildren]
  exact h.hoists

/-- A node that declares nothing is put above its children. -/
theorem ensures_node (h : Work s true ids t) {kind : NodeKind} (hchildren : kind.children = ids)
    (hfunction : kind.function? = none) (hdeclares : kind.declares = false)
    (haims : kind.Aims t.nodes) :
    Ensures t (pushFrom s.current.span kind) fun id u => Work s true [id] u := by
  have hhoisted : kind.hoistedFunctions = [] := by
    cases kind with
    | program body hoisted => cases hdeclares
    | functionDeclaration function => cases hdeclares
    | functionExpression function => cases hdeclares
    | _ => rfl
  apply ensures_declaring h.began _ hchildren hfunction hhoisted haims
  rw [Hoisted.add_of_not_declares hdeclares]
  exact h

/-- A part of a parse that takes a token and adds one tree with the node it gives on top. -/
def Gives (x : Parsing NodeId) : Prop :=
  ∀ s : State, s.Ready → Ensures s x fun id t => Work s true [id] t

theorem Gives.ensures {x : Parsing NodeId} (hx : Gives x) (h : Work s moved ids t) :
    Ensures t x fun id u => Work s true (ids ++ [id]) u :=
  (hx t h.ready).mono fun _ _ hu => h.and hu

/-- A node is given if it is there. -/
theorem Gives.ensures_some {x : Parsing NodeId} (hx : Gives x) (h : Work s moved ids t) :
    Ensures t (do return some (← x)) fun (id : Option NodeId) u =>
      Work s true (ids ++ id.toList) u :=
  (hx.ensures h).bind fun _ _ hu => ensures_pure hu

/-! ## Repetition -/

/-- A step declines, or goes on with something else. -/
def Next (I K : α → State → Prop) (a : α) : Option α → State → Prop
  | none, v => K a v
  | some b, v => I b v

theorem ensures_iterate {I K : α → State → Prop} {step : α → Parsing (Option α)}
    (hstep : ∀ a u, I a u → Ensures u (step a) (Next I K a)) (bound : List Token) {a : α}
    (ha : I a t) : Ensures t (iterate step bound a) K := by
  induction bound generalizing a t with
  | nil => exact (refuses_fail _).ensures
  | cons token bound ih =>
    refine (hstep a t ha).bind fun next v hv => ?_
    cases next with
    | none => exact ensures_pure hv
    | some b => exact ih hv

/-- What holds before every step holds after the last one, which declines. -/
theorem ensures_loop {I K : α → State → Prop} {step : α → Parsing (Option α)}
    (hstep : ∀ a u, I a u → Ensures u (step a) (Next I K a)) {a : α} (ha : I a t) :
    Ensures t (loop a step) K :=
  ensures_look rfl (ensures_iterate hstep _ ha)

/-- Items that are collected, each behind those before it. -/
theorem ensures_many {I K : List α → State → Prop} {step : Parsing (Option α)}
    (hstep : ∀ items u, I items u → Ensures u step fun next v =>
      match next with
      | none => K items v
      | some a => I (items ++ [a]) v)
    (hnil : I [] t) : Ensures t (many step) K := by
  refine (ensures_loop (I := fun items u => I items.reverse u)
    (K := fun items u => K items.reverse u) (fun items u hu => ?_) hnil).bind
    fun items u hu => ensures_pure hu
  refine (hstep items.reverse u hu).bind fun next v hv => ?_
  cases next with
  | none => exact ensures_pure hv
  | some a =>
    refine ensures_pure ?_
    simpa [Next] using hv

theorem ensures_commaSeparated {item : Parsing NodeId} (hitem : Gives item)
    (h : Work s moved ids t) :
    Ensures t (commaSeparated item) fun items u => Work s true (ids ++ items) u := by
  refine (hitem.ensures h).bind fun first u hu => ?_
  refine (ensures_many (I := fun rest v => Work s true (ids ++ first :: rest) v)
    (K := fun rest v => Work s true (ids ++ first :: rest) v) (fun rest v hv => ?_) hu).bind
    fun rest v hv => ensures_pure hv
  refine (ensures_acceptPunct hv _).found (fun w hw => ?_) (ensures_pure hv)
  refine (hitem.ensures hw).bind fun id w hw => ensures_pure ?_
  simpa using hw

end Tokens

end ScriptMachine.Tree.Parser
