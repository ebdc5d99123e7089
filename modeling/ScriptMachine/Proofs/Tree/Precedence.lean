import ScriptMachine.Proofs.Reparse.Wrapping

/-!
# Precedence

Operands with operators between them are read as one tree. Read from left to right its operands and
operators are those of the text, what stands to the left of an operator binds at least as tightly as
it does, and what stands to its right binds more tightly. No other tree does both.
-/

namespace ScriptMachine.Tree.Parser

open ScriptMachine.Source

/-! ## Operators -/

namespace Infixed

/-- How an operator is written. -/
def spelling : Infixed → TokenKind
  | .logical .or => .punct .pipePipe
  | .logical .and => .punct .ampAmp
  | .binary .bitOr => .punct .pipe
  | .binary .bitXor => .punct .caret
  | .binary .bitAnd => .punct .amp
  | .binary .eq => .punct .eqEq
  | .binary .notEq => .punct .bangEq
  | .binary .strictEq => .punct .eqEqEq
  | .binary .strictNotEq => .punct .bangEqEq
  | .binary .lt => .punct .lt
  | .binary .ltEq => .punct .ltEq
  | .binary .gt => .punct .gt
  | .binary .gtEq => .punct .gtEq
  | .binary .instanceof => .keyword .instanceof
  | .binary .in => .keyword .in
  | .binary .lShift => .punct .ltLt
  | .binary .rShift => .punct .gtGt
  | .binary .uRShift => .punct .gtGtGt
  | .binary .add => .punct .plus
  | .binary .sub => .punct .minus
  | .binary .mul => .punct .star
  | .binary .div => .punct .slash
  | .binary .mod => .punct .percent

/-- How tightly an operator binds: in order alternatives, conjunctions, the three operators on bits,
equality, comparison, shifts, sums and products. -/
def level : Infixed → Nat
  | .logical .or => 1
  | .logical .and => 2
  | .binary .bitOr => 3
  | .binary .bitXor => 4
  | .binary .bitAnd => 5
  | .binary .eq | .binary .notEq | .binary .strictEq | .binary .strictNotEq => 6
  | .binary .lt | .binary .ltEq | .binary .gt | .binary .gtEq => 7
  | .binary .instanceof | .binary .in => 7
  | .binary .lShift | .binary .rShift | .binary .uRShift => 8
  | .binary .add | .binary .sub => 9
  | .binary .mul | .binary .div | .binary .mod => 10

/-- The node of an operator over its operands. -/
def node (left right : NodeId) : Infixed → NodeKind
  | .logical op => .logical op left right
  | .binary op => .binary op left right

theorem level_pos (op : Infixed) : 0 < op.level := by
  rcases op with op | op <;> cases op <;> decide

theorem level_le (op : Infixed) : op.level ≤ 10 := by
  rcases op with op | op <;> cases op <;> decide

/-- In the head of a loop `in` is no operator. -/
def Allowed (noIn : Bool) (op : Infixed) : Prop := noIn = true → op ≠ .binary .in

end Infixed

theorem infixed?_spelling {noIn : Bool} {op : Infixed} (h : op.Allowed noIn) :
    infixed? noIn op.spelling = some (op, op.level) := by
  by_cases hin : op = .binary .in
  · subst hin
    cases noIn with
    | false => rfl
    | true => exact absurd rfl (h rfl)
  · rcases op with op | op <;> cases op <;> first | rfl | exact absurd rfl hin

theorem infixed?_eq_some {noIn : Bool} {kind : TokenKind} {op : Infixed} {level : Nat}
    (h : infixed? noIn kind = some (op, level)) : kind = op.spelling ∧ op.Allowed noIn := by
  unfold infixed? at h
  split at h
  case h_15 =>
    split at h
    · cases h
    · rename_i hnot
      cases h
      exact ⟨rfl, fun hin => absurd hin hnot⟩
  all_goals
    cases h
    try exact ⟨rfl, fun _ heq => by cases heq⟩

/-! ## Trees of operators -/

/-- Operators over operands. -/
inductive OperatorTree where
  | operand (id : NodeId)
  | operation (op : Infixed) (left right : OperatorTree)

namespace OperatorTree

/-- Operands and operators from left to right. -/
def inorder : OperatorTree → List (NodeId ⊕ Infixed)
  | operand id => [.inl id]
  | operation op left right => left.inorder ++ .inr op :: right.inorder

/-- To the left of an operator nothing binds less tightly than it does, and to its right everything
binds more tightly. -/
def Grouped : OperatorTree → Prop
  | operand _ => True
  | operation op left right =>
    (∀ o, .inr o ∈ left.inorder → op.level ≤ o.level) ∧
    (∀ o, .inr o ∈ right.inorder → op.level < o.level) ∧ left.Grouped ∧ right.Grouped

/-- Some nodes make up a tree with a root. -/
def Stands (nodes : Array Node) : OperatorTree → NodeId → Prop
  | operand id, root => root = id
  | operation op left right, root => ∃ l r, nodes[root]?.map Node.kind = some (op.node l r) ∧
    left.Stands nodes l ∧ right.Stands nodes r

variable {tree : OperatorTree} {nodes nodes' : Array Node} {root : NodeId}

theorem Stands.mono (h : tree.Stands nodes root) (hgrown : Grown nodes nodes') :
    tree.Stands nodes' root := by
  induction tree generalizing root with
  | operand id => exact h
  | operation op left right ihleft ihright =>
    obtain ⟨l, r, hroot, hleft, hright⟩ := h
    exact ⟨l, r, hgrown.kind hroot, ihleft hleft, ihright hright⟩

theorem inorder_ne_nil (tree : OperatorTree) : tree.inorder ≠ [] := by
  cases tree <;> simp [inorder]

/-- Nothing but an operand reads as an operand alone. -/
theorem inorder_operation_ne {op : Infixed} {left right : OperatorTree} {id : NodeId} :
    (operation op left right).inorder ≠ [.inl id] := by
  intro heq
  have hlength := congrArg List.length heq
  have hleft := List.length_pos_iff.2 left.inorder_ne_nil
  have hright := List.length_pos_iff.2 right.inorder_ne_nil
  rw [inorder, List.length_append, List.length_cons, List.length_singleton] at hlength
  omega

/-- Two operators cannot both be on top. The one that comes first in the text would be to the left
of the other, which then binds no more tightly, and the other to its right, where it does. -/
theorem not_both_on_top {op op' : Infixed} {left' right : OperatorTree}
    {before behind : List (NodeId ⊕ Infixed)} (hleft : left'.inorder = before ++ .inr op :: behind)
    (hright : ∃ rest, right.inorder = behind ++ .inr op' :: rest)
    (hmore : ∀ o, .inr o ∈ right.inorder → op.level < o.level)
    (hless : ∀ o, .inr o ∈ left'.inorder → op'.level ≤ o.level) : False := by
  obtain ⟨rest, hright⟩ := hright
  have hlt : op.level < op'.level := hmore op' (by simp [hright])
  have hle : op'.level ≤ op.level := hless op (by simp [hleft])
  exact absurd hlt (Nat.not_lt.2 hle)

/-- How operators bind leaves one tree for what is read from left to right. -/
theorem Grouped.eq_of_inorder {other : OperatorTree} (h : tree.Grouped) (hother : other.Grouped)
    (heq : tree.inorder = other.inorder) : tree = other := by
  induction tree generalizing other with
  | operand id =>
    cases other with
    | operand id' =>
      obtain rfl := Sum.inl.inj (List.singleton_inj.1 heq)
      rfl
    | operation op' left' right' => exact absurd heq.symm inorder_operation_ne
  | operation op left right ihleft ihright =>
    cases other with
    | operand id' => exact absurd heq inorder_operation_ne
    | operation op' left' right' =>
      obtain ⟨hless, hmore, hleft, hright⟩ := h
      obtain ⟨hless', hmore', hleft', hright'⟩ := hother
      rcases List.append_eq_append_iff.1 heq with ⟨middle, hfirst, hsecond⟩ |
        ⟨middle, hfirst, hsecond⟩
      · cases middle with
        | nil =>
          obtain ⟨hop, htail⟩ := List.cons_eq_cons.1 hsecond
          obtain rfl := Sum.inr.inj hop
          rw [List.append_nil] at hfirst
          rw [ihleft hleft hleft' hfirst.symm, ihright hright hright' htail]
        | cons o behind =>
          obtain ⟨rfl, htail⟩ := List.cons_eq_cons.1 hsecond
          exact (not_both_on_top hfirst ⟨_, htail⟩ hmore hless').elim
      · cases middle with
        | nil =>
          obtain ⟨hop, htail⟩ := List.cons_eq_cons.1 hsecond
          obtain rfl := Sum.inr.inj hop
          rw [List.append_nil] at hfirst
          rw [ihleft hleft hleft' hfirst, ihright hright hright' htail.symm]
        | cons o behind =>
          obtain ⟨rfl, htail⟩ := List.cons_eq_cons.1 hsecond
          exact (not_both_on_top hfirst ⟨_, htail⟩ hmore' hless).elim

end OperatorTree

/-! ## Chains of operands -/

/-- An operator and the operand behind it, with their tokens. -/
structure Link where
  op : Infixed
  token : Token
  group : List Token

/-- The tokens of some links, with others behind them. -/
def trail (behind : List Token) : List Link → List Token
  | [] => behind
  | link :: links => link.token :: (link.group ++ trail behind links)

/-- In front of other tokens a group is read as a unary expression wherever a parse meets it, if the
parse may go deep enough. -/
def ReadsUnary (enough : Nat) (group behind : List Token) : Prop :=
  ∀ depth ≥ enough, ∀ s : State, s.Ready → s.rest = group ++ behind →
    ∃ id t, parseGoal depth .unary s = .ok (id, t) ∧ t.rest = behind

/-- In front of other tokens a group is a unary expression. -/
def Operand (group behind : List Token) : Prop := ∃ enough, ReadsUnary enough group behind

/-- No operator comes next. -/
def Ends (noIn : Bool) (behind : List Token) : Prop :=
  ∀ op : Infixed, op.Allowed noIn → (behind.head?.map Token.kind) ≠ some op.spelling

/-- Links hold together in front of other tokens: operators are written as they should be, groups
are operands, and behind the last one there is no operator. -/
def Chain (operand : List Token → List Token → Prop) (noIn : Bool) (behind : List Token) :
    List Link → Prop
  | [] => Ends noIn behind
  | link :: links => link.token.kind = link.op.spelling ∧ link.op.Allowed noIn ∧
    operand link.group (trail behind links) ∧ Chain operand noIn behind links

/-- A node was read for an operand in front of other tokens. -/
def WasRead (nodes : Array Node) (group behind : List Token) (id : NodeId) : Prop :=
  ∃ depth s t, s.rest = group ++ behind ∧ parseGoal depth .unary s = .ok (id, t) ∧
    t.rest = behind ∧ Grown t.nodes nodes

/-- From left to right the operators of some links and the nodes read for their operands. -/
inductive Follows (nodes : Array Node) (behind : List Token) :
    List Link → List (NodeId ⊕ Infixed) → Prop
  | nil : Follows nodes behind [] []
  | cons {link : Link} {links : List Link} {id : NodeId} {items : List (NodeId ⊕ Infixed)}
    (hread : WasRead nodes link.group (trail behind links) id)
    (hrest : Follows nodes behind links items) :
    Follows nodes behind (link :: links) (.inr link.op :: .inl id :: items)

section

variable {enough : Nat} {noIn : Bool} {after behind group : List Token} {nodes nodes' : Array Node}
  {links taken left : List Link} {items items' : List (NodeId ⊕ Infixed)} {id : NodeId}

theorem trail_append (behind : List Token) (taken left : List Link) :
    trail behind (taken ++ left) = trail (trail behind left) taken := by
  induction taken with
  | nil => rfl
  | cons link taken ih => rw [List.cons_append, trail, trail, ih]

theorem ReadsUnary.mono {more : Nat} (h : ReadsUnary enough group behind) (hle : enough ≤ more) :
    ReadsUnary more group behind :=
  fun depth hdepth => h depth (Nat.le_trans hle hdepth)

theorem Chain.mono {p q : List Token → List Token → Prop} (h : Chain p noIn behind links)
    (hpq : ∀ group rest, p group rest → q group rest) : Chain q noIn behind links := by
  induction links with
  | nil => exact h
  | cons link links ih =>
    obtain ⟨hspelling, hallowed, hoperand, hrest⟩ := h
    exact ⟨hspelling, hallowed, hpq _ _ hoperand, ih hrest⟩

/-- One depth is enough for all operands. -/
theorem Chain.exists_enough (h : Chain Operand noIn behind links) :
    ∃ enough, Chain (ReadsUnary enough) noIn behind links := by
  induction links with
  | nil => exact ⟨0, h⟩
  | cons link links ih =>
    obtain ⟨hspelling, hallowed, ⟨first, hfirst⟩, hrest⟩ := h
    obtain ⟨enough, hchain⟩ := ih hrest
    refine ⟨max first enough, hspelling, hallowed, hfirst.mono (Nat.le_max_left _ _), ?_⟩
    exact hchain.mono fun group rest h => h.mono (Nat.le_max_right _ _)

theorem Chain.of_append {p : List Token → List Token → Prop}
    (h : Chain p noIn behind (taken ++ left)) : Chain p noIn behind left := by
  induction taken with
  | nil => exact h
  | cons link taken ih => exact ih h.2.2.2

theorem WasRead.mono (h : WasRead nodes group behind id) (hgrown : Grown nodes nodes') :
    WasRead nodes' group behind id := by
  obtain ⟨depth, s, t, hrest, hrun, hleft, ht⟩ := h
  exact ⟨depth, s, t, hrest, hrun, hleft, ht.trans hgrown⟩

theorem Follows.mono (h : Follows nodes behind links items) (hgrown : Grown nodes nodes') :
    Follows nodes' behind links items := by
  induction h with
  | nil => exact .nil
  | cons hread _ ih => exact .cons (hread.mono hgrown) ih

theorem Follows.append (h : Follows nodes (trail behind left) taken items)
    (h' : Follows nodes behind left items') :
    Follows nodes behind (taken ++ left) (items ++ items') := by
  induction h with
  | nil => exact h'
  | cons hread _ ih => exact .cons (trail_append behind _ left ▸ hread) ih

theorem Ends.infixed? (h : Ends noIn behind) :
    infixed? noIn (behind.headD endToken).kind = none := by
  cases hop : Parser.infixed? noIn (behind.headD endToken).kind with
  | none => rfl
  | some found =>
    obtain ⟨op, level⟩ := found
    obtain ⟨hspelling, hallowed⟩ := infixed?_eq_some hop
    cases behind with
    | nil => cases hop
    | cons token behind => exact absurd (congrArg some hspelling) (h op hallowed)

end

/-! ## Climbing -/

/-- One more operator and its right operand, if the operator binds tightly enough. -/
def infixStep (sub : Sub) (start : Span) (least : Nat) (noIn : Bool) (left : NodeId) :
    Parsing (Option NodeId) := do
  match infixed? noIn (← current).kind with
  | none => return none
  | some (op, level) =>
    if level < least then return none
    advance
    let right ← sub (.binary (level + 1) noIn)
    match op with
    | .logical op => return some (← pushFrom start (.logical op left right))
    | .binary op => return some (← pushFrom start (.binary op left right))

theorem binaryExpression_eq (sub : Sub) (least : Nat) (noIn : Bool) :
    binaryExpression sub least noIn = (do
      let start := (← current).span
      let first ← sub .unary
      loop first (infixStep sub start least noIn) : Parsing NodeId) :=
  rfl

/-- An operand and some links behind it have become a tree that ends in front of the others, the
first of which binds no more tightly than anything in it. -/
structure Climbed (after : List Token) (least : Nat) (first : NodeId) (links taken left : List Link)
    (tree : OperatorTree) (items : List (NodeId ⊕ Infixed)) (id : NodeId) (t : State) : Prop where
  links : links = taken ++ left
  rest : t.rest = trail after left
  stands : tree.Stands t.nodes id
  grouped : tree.Grouped
  bounded : ∀ op, .inr op ∈ tree.inorder → least ≤ op.level
  inorder : tree.inorder = .inl first :: items
  follows : Follows t.nodes (trail after left) taken items
  next : ∀ link ∈ left.head?, ∀ op, .inr op ∈ tree.inorder → link.op.level ≤ op.level

/-- Asked for a least precedence, a parse that may go to some depth takes an operand and all links
behind it up to the first that binds less tightly. -/
def Climbs (enough : Nat) (noIn : Bool) (after : List Token) (deep least : Nat) : Prop :=
  ∀ (group : List Token) (links : List Link) (s : State), s.Ready →
    s.rest = group ++ trail after links → ReadsUnary enough group (trail after links) →
    Chain (ReadsUnary enough) noIn after links →
    ∃ first taken left tree items id t, parseGoal deep (.binary least noIn) s = .ok (id, t) ∧
      Climbed after least first links taken left tree items id t ∧
      (∀ link ∈ left.head?, link.op.level < least) ∧
      WasRead t.nodes group (trail after links) first

section

variable {enough deep least : Nat} {noIn : Bool} {after : List Token} {first id right : NodeId}
  {links taken left more : List Link} {tree tree' : OperatorTree}
  {items items' : List (NodeId ⊕ Infixed)} {s t u w : State} {link : Link}

theorem infixStep_of_ends {sub : Sub} {start : Span} (h : infixed? noIn u.current.kind = none) :
    infixStep sub start least noIn id u = .ok (none, u) := by
  refine (bind_of_ok (x := current) rfl).trans ?_
  rw [h]
  rfl

theorem infixStep_of_lt {sub : Sub} {start : Span} {op : Infixed} {level : Nat}
    (h : infixed? noIn u.current.kind = some (op, level)) (hlt : level < least) :
    infixStep sub start least noIn id u = .ok (none, u) := by
  refine (bind_of_ok (x := current) rfl).trans ?_
  rw [h]
  dsimp only
  rw [if_pos hlt]
  rfl

theorem infixStep_of_le {sub : Sub} (start : Span) (id : NodeId) {op : Infixed} {level : Nat}
    (h : infixed? noIn u.current.kind = some (op, level)) (hle : least ≤ level)
    (hadvance : advance u = .ok ((), t))
    (hright : sub (.binary (level + 1) noIn) t = .ok (right, w)) :
    infixStep sub start least noIn id u =
      (pushFrom start (op.node id right) >>= fun top => pure (some top)) w := by
  refine (bind_of_ok (x := current) rfl).trans ?_
  rw [h]
  dsimp only
  rw [if_neg (Nat.not_lt.2 hle)]
  refine (bind_of_ok hadvance).trans ((bind_of_ok hright).trans ?_)
  cases op <;> rfl

theorem node_eq (op : Infixed) (id right : NodeId) : (op.node id right).children = [id, right] ∧
    (op.node id right).function? = none ∧ (op.node id right).declares = false := by
  cases op <;> exact ⟨rfl, rfl, rfl⟩

/-- A right operand that binds more tightly is put behind an operator. -/
theorem Climbed.operation
    (h : Climbed after least first links taken (link :: left) tree items id u)
    (hleast : least ≤ link.op.level) {first' : NodeId} {taken' left' : List Link}
    (h' : Climbed after (link.op.level + 1) first' left taken' left' tree' items' right w)
    (hstops : ∀ next ∈ left'.head?, next.op.level < link.op.level + 1)
    (hread : WasRead w.nodes link.group (trail after left) first')
    (hgrown : Grown u.nodes w.nodes) {x : State} (hrest : x.rest = w.rest)
    (hnodes : Grown w.nodes x.nodes) {top : NodeId}
    (htop : x.nodes[top]?.map Node.kind = some (link.op.node id right)) :
    Climbed after least first links (taken ++ link :: taken') left' (.operation link.op tree tree')
      (items ++ .inr link.op :: .inl first' :: items') top x where
  links := by rw [h.links, h'.links, List.append_assoc, List.cons_append]
  rest := hrest.trans h'.rest
  stands := ⟨id, right, htop, h.stands.mono (hgrown.trans hnodes), h'.stands.mono hnodes⟩
  grouped := by
    refine ⟨h.next link rfl, fun op hop => ?_, h.grouped, h'.grouped⟩
    exact Nat.lt_of_succ_le (h'.bounded op hop)
  bounded op hop := by
    rcases List.mem_append.1 hop with hop | hop
    · exact h.bounded op hop
    · rcases List.mem_cons.1 hop with hop | hop
      · rwa [Sum.inr.inj hop]
      · exact Nat.le_trans hleast (Nat.le_of_succ_le (h'.bounded op hop))
  inorder := by rw [OperatorTree.inorder, h.inorder, h'.inorder, List.cons_append]
  follows := by
    have hbehind : Follows w.nodes (trail after left') (link :: taken')
        (.inr link.op :: .inl first' :: items') := by
      refine .cons ?_ h'.follows
      rwa [← trail_append, ← h'.links]
    have hfront := h.follows.mono (hgrown.trans hnodes)
    rw [h'.links, ← List.cons_append, trail_append] at hfront
    exact hfront.append (hbehind.mono hnodes)
  next next hnext op hop := by
    have hlevel : next.op.level ≤ link.op.level := Nat.le_of_lt_succ (hstops next hnext)
    rcases List.mem_append.1 hop with hop | hop
    · exact Nat.le_trans hlevel (h.next link rfl op hop)
    · rcases List.mem_cons.1 hop with hop | hop
      · rwa [Sum.inr.inj hop]
      · exact Nat.le_trans hlevel (Nat.le_of_succ_le (h'.bounded op hop))

/-- The repetition takes links as long as they bind tightly enough. The invariant is that the next
one binds no more tightly than anything in the tree there is. -/
theorem iterate_climbs (hdeeper : ∀ level, least ≤ level → level ≤ 10 →
      Climbs enough noIn after deep (level + 1))
    {bound : List Token} (hbound : left.length < bound.length)
    (hchain : Chain (ReadsUnary enough) noIn after left) (hwork : Work s true [id] u)
    (h : Climbed after least first links taken left tree items id u) :
    ∃ taken left tree items top t,
      iterate (infixStep (parseGoal deep) s.current.span least noIn) bound id u = .ok (top, t) ∧
      Climbed after least first links taken left tree items top t ∧
      (∀ link ∈ left.head?, link.op.level < least) ∧ Grown u.nodes t.nodes := by
  induction bound generalizing taken left tree items id u with
  | nil => exact absurd hbound (Nat.not_lt_zero _)
  | cons token bound ih =>
    cases left with
    | nil =>
      have hends : infixed? noIn u.current.kind = none := by
        rw [State.current, h.rest]
        exact Ends.infixed? hchain
      exact ⟨taken, [], tree, items, id, u, bind_of_ok (infixStep_of_ends hends), h,
        (fun _ hnone => by cases hnone), .refl _⟩
    | cons link left =>
      obtain ⟨hspelling, hallowed, hoperand, hbehind⟩ := hchain
      have hrest : u.rest = link.token :: (link.group ++ trail after left) := h.rest
      have hkind : u.current.kind = link.op.spelling := by
        rw [State.current, hrest]
        exact hspelling
      have hop : infixed? noIn u.current.kind = some (link.op, link.op.level) := by
        rw [hkind]
        exact infixed?_spelling hallowed
      by_cases hlt : link.op.level < least
      · refine ⟨taken, link :: left, tree, items, id, u,
          bind_of_ok (infixStep_of_lt hop hlt), h, fun next hnext => ?_, .refl _⟩
        obtain rfl := Option.some.inj hnext
        exact hlt
      · have hleast := Nat.le_of_not_lt hlt
        have heof : u.current.kind ≠ .eof := fun heq => by
          rw [heq] at hop
          cases hop
        -- The operator is taken.
        obtain ⟨v, hadvance⟩ : ∃ v, advance u = .ok ((), v) := ⟨_, advance_eq u⟩
        have hv := ensures_advance hwork heof () v hadvance
        have hvrest : v.rest = link.group ++ trail after left := by
          have htaken := rest_of_advance hwork.ready heof () v hadvance
          rw [hrest] at htaken
          exact (List.cons_eq_cons.1 htaken).2.symm
        have hvgrown : Grown u.nodes v.nodes :=
          (ensures_advance (.refl hwork.ready) heof () v hadvance).grown
        -- Its right operand is read.
        obtain ⟨first', taken', left', tree', items', right, w, hrun, h', hstops, hread⟩ :=
          hdeeper link.op.level hleast link.op.level_le link.group left v hv.ready hvrest
            hoperand hbehind
        have hw := (gives_parseGoal deep _).ensures hv right w hrun
        have hwgrown : Grown v.nodes w.nodes :=
          (gives_parseGoal deep _ v hv.ready right w hrun).grown
        -- The operator is put above both operands.
        have hstep := infixStep_of_le s.current.span id hop hleast hadvance hrun
        obtain ⟨top, x, hpush⟩ : ∃ top x, pushFrom s.current.span (link.op.node id right) w =
            .ok (top, x) := ⟨_, _, rfl⟩
        obtain ⟨hchildren, hfunction, hdeclares⟩ := node_eq link.op id right
        have haims : (link.op.node id right).Aims w.nodes := by
          cases link.op <;> exact trivial
        have hx := ensures_node hw hchildren hfunction hdeclares haims top x hpush
        have hnodes : x.nodes = w.nodes.push ⟨link.op.node id right, s.spanTo w⟩ ∧
            top = w.nodes.size ∧ x.rest = w.rest := by
          cases hpush
          exact ⟨rfl, rfl, rfl⟩
        obtain ⟨hnodes, rfl, hxrest⟩ := hnodes
        have hxgrown : Grown w.nodes x.nodes := hnodes ▸ .push _ _
        have htree := h.operation hleast h' hstops hread (hvgrown.trans hwgrown) hxrest hxgrown
          (hnodes ▸ Grown.kind_push _ _)
        have hleft : left'.length < bound.length := by
          have hlength := congrArg List.length h'.links
          rw [List.length_append] at hlength
          have := Nat.lt_of_succ_lt_succ hbound
          omega
        obtain ⟨taken'', left'', tree'', items'', top', t, hloop, hclimbed, hlast, hgrown⟩ :=
          ih hleft (Chain.of_append (h'.links ▸ hbehind)) hx htree
        refine ⟨taken'', left'', tree'', items'', top', t, ?_, hclimbed, hlast,
          ((hvgrown.trans hwgrown).trans hxgrown).trans hgrown⟩
        have hsome : infixStep (parseGoal deep) s.current.span least noIn id u =
            .ok (some w.nodes.size, x) := by
          rw [hstep]
          exact bind_of_ok hpush
        exact (bind_of_ok hsome).trans hloop

theorem length_le_trail (behind : List Token) (links : List Link) :
    links.length ≤ (trail behind links).length := by
  induction links with
  | nil => exact Nat.zero_le _
  | cons link links ih =>
    rw [trail, List.length_cons, List.length_cons, List.length_append]
    omega

/-- Every deeper precedence takes one more level of recursion, and there are ten. -/
theorem climbs_of_gap {gap : Nat} (hgap : 11 ≤ least + gap) (hdeep : enough + gap < deep) :
    Climbs enough noIn after deep least := by
  induction gap generalizing least deep with
  | zero | succ gap ih =>
    intro group links s hs hrest hunary hchain
    obtain ⟨depth, rfl⟩ : ∃ depth, deep = depth + 1 := ⟨deep - 1, by omega⟩
    obtain ⟨first, t, hrun, ht⟩ := hunary depth (by omega) s hs hrest
    have hwork := gives_parseGoal depth .unary s hs first t hrun
    have hstart : Climbed after least first links [] links (.operand first) [] first t :=
      ⟨rfl, ht, rfl, trivial, fun op hop => by simp [OperatorTree.inorder] at hop, rfl, .nil,
        fun _ _ op hop => by simp [OperatorTree.inorder] at hop⟩
    have hbound : links.length < (endToken :: t.rest).length := by
      rw [ht, List.length_cons]
      exact Nat.lt_succ_of_le (length_le_trail after links)
    have hdeeper : ∀ level, least ≤ level → level ≤ 10 →
        Climbs enough noIn after depth (level + 1) := fun level hleast hlevel => by
      first | exact absurd hlevel (by omega) | exact ih (by omega) (by omega)
    obtain ⟨taken, left, tree, items, id, u, hloop, hclimbed, hstops, hgrown⟩ :=
      iterate_climbs hdeeper hbound hchain hwork hstart
    refine ⟨first, taken, left, tree, items, id, u, ?_, hclimbed, hstops,
      depth, s, t, hrest, hrun, ht, hgrown⟩
    change binaryExpression (parseGoal depth) least noIn s = _
    rw [binaryExpression_eq]
    refine (bind_of_ok (x := current) rfl).trans ((bind_of_ok hrun).trans ?_)
    exact (bind_of_ok (x := get) rfl).trans hloop

end

/-! ## Operands -/

/-- A token that is an operand by itself. -/
inductive Leaf : TokenKind → NodeKind → Prop
  | this : Leaf (.keyword .this) .this
  | identifier (name : String) : Leaf (.identifier name) (.identifier name)
  | number (n : Float) : Leaf (.number n) (.literal (.number n))
  | text (s : String) : Leaf (.text s) (.literal (.string s))
  | true : Leaf (.keyword .true) (.literal (.bool true))
  | false : Leaf (.keyword .false) (.literal (.bool false))
  | null : Leaf (.keyword .null) (.literal .null)

/-- A token that makes no more of the operand in front of it. -/
structure Apart (t : Token) : Prop where
  dot : t.kind ≠ .punct .dot
  bracket : t.kind ≠ .punct .lBracket
  paren : t.kind ≠ .punct .lParen
  update : updateOp? t.kind = none

section

variable {deep : Nat} {s t : State} {id : NodeId} {kind : NodeKind} {token next : Token}
  {group behind : List Token}

theorem memberStep_of_apart {sub : Sub} (start : Span) (owner : NodeId) (h : Apart t.current) :
    memberStep sub start owner t = .ok (none, t) := by
  refine (bind_of_ok (acceptPunct_of_ne h.dot)).trans ?_
  exact bind_of_ok (acceptPunct_of_ne h.bracket)

theorem primary_of_leaf {sub : Sub} (h : Leaf s.current.kind kind) :
    primary sub s = leaf kind s := by
  refine (bind_of_ok (x := current) rfl).trans ?_
  cases hkind : s.current.kind <;> rw [hkind] at h <;> cases h <;> rfl

theorem unary_of_leaf (hs : Leaf s.current.kind kind) (ht : Apart t.current)
    (h : leaf kind s = .ok (id, t)) : parseGoal (deep + 2) .unary s = .ok (id, t) := by
  have hnew : s.current.kind ≠ .keyword .new := fun heq => by
    rw [heq] at hs
    cases hs
  have hplain : unaryOp? s.current.kind = none ∧ updateOp? s.current.kind = none := by
    generalize s.current.kind = kind at hs
    cases hs <;> exact ⟨rfl, rfl⟩
  have hmember : parseGoal (deep + 1) .member s = .ok (id, t) := by
    refine (bind_of_ok (x := current) rfl).trans ?_
    refine (bind_of_ok (a := id) (t := t) ?_).trans (loop_of_none (memberStep_of_apart _ _ ht))
    exact (bind_of_ok (acceptKeyword_of_ne hnew)).trans ((primary_of_leaf hs).trans h)
  have hcall : callExpression (parseGoal (deep + 1)) s = .ok (id, t) := by
    refine (bind_of_ok (x := current) rfl).trans ((bind_of_ok hmember).trans ?_)
    apply loop_of_none
    refine (bind_of_ok (checkPunct_of_ne ht.paren)).trans ?_
    exact memberStep_of_apart _ _ ht
  have hpostfixed : postfixed (parseGoal (deep + 1)) s = .ok (id, t) := by
    refine (bind_of_ok (x := current) rfl).trans ((bind_of_ok hcall).trans ?_)
    refine (bind_of_ok (x := current) rfl).trans ?_
    rw [ht.update]
    rfl
  refine (bind_of_ok (x := current) rfl).trans ?_
  rw [hplain.1]
  dsimp only
  rw [hplain.2]
  exact hpostfixed

/-- A name, a literal or `this` is an operand in front of what makes no more of it. -/
theorem operand_of_leaf (hleaf : Leaf token.kind kind) (hnext : Apart next) :
    Operand [token] (next :: behind) := by
  refine ⟨2, fun depth hdepth s _ hrest => ?_⟩
  obtain ⟨deep, rfl⟩ : ∃ deep, depth = deep + 2 := ⟨depth - 2, by omega⟩
  have hadvance := advance_cons hrest (List.cons_ne_nil _ _)
  obtain ⟨t, hrun, ht⟩ : ∃ t, leaf kind s = .ok (s.nodes.size, t) ∧ t.rest = next :: behind := by
    refine ⟨_, (bind_of_ok (x := current) rfl).trans ((bind_of_ok hadvance).trans rfl), rfl⟩
  have hs : Leaf s.current.kind kind := by
    rw [State.current, hrest]
    exact hleaf
  have hcurrent : Apart t.current := by
    rw [State.current, ht]
    exact hnext
  exact ⟨_, t, unary_of_leaf hs hcurrent hrun, ht⟩

/-- An operand behind an operator that takes one is an operand. -/
theorem operand_of_prefix {op : UnaryOp} (hop : unaryOp? token.kind = some op) (hne : op ≠ .delete)
    (h : Operand group behind) : Operand (token :: group) behind := by
  obtain ⟨enough, h⟩ := h
  refine ⟨enough + 1, fun depth hdepth s hs hrest => ?_⟩
  obtain ⟨deep, rfl⟩ : ∃ deep, depth = deep + 1 := ⟨depth - 1, by omega⟩
  have hkind : unaryOp? s.current.kind = some op := by
    rw [State.current, hrest]
    exact hop
  have heof : s.current.kind ≠ .eof := fun heq => by
    rw [heq] at hkind
    cases hkind
  obtain ⟨t, hadvance⟩ : ∃ t, advance s = .ok ((), t) := ⟨_, advance_eq s⟩
  have ht := (ensures_advance (.refl hs) heof () t hadvance).ready
  have htrest : t.rest = group ++ behind := by
    have htaken := rest_of_advance hs heof () t hadvance
    rw [hrest, List.cons_append] at htaken
    exact (List.cons_eq_cons.1 htaken).2.symm
  obtain ⟨argument, u, hrun, hu⟩ := h deep (by omega) t ht htrest
  obtain ⟨v, hpush, hv⟩ : ∃ v, pushFrom s.current.span (.unary op argument) u =
      .ok (u.nodes.size, v) ∧ v.rest = u.rest := ⟨_, rfl, rfl⟩
  refine ⟨u.nodes.size, v, (bind_of_ok (x := current) rfl).trans ?_, hv.trans hu⟩
  rw [hkind]
  refine (bind_of_ok hadvance).trans ((bind_of_ok hrun).trans ?_)
  have hother : (op == .delete) = false := beq_eq_false_iff_ne.2 hne
  rw [if_neg (ne_true_of_eq_false hother)]
  exact hpush

end

/-! ## The tree of a chain -/

/-- A chain of operands is read to its end, as the only tree that has its operands and operators in
order and groups them as they bind. -/
theorem grouped_tree_of_chain {noIn : Bool} {group after : List Token} {links : List Link}
    (hfirst : Operand group (trail after links)) (hlinks : Chain Operand noIn after links) :
    ∃ enough, ∀ depth ≥ enough, ∀ s : State, s.Ready → s.rest = group ++ trail after links →
      ∃ id t tree first items, parseGoal depth (.binary 1 noIn) s = .ok (id, t) ∧ t.rest = after ∧
        tree.Stands t.nodes id ∧ tree.Grouped ∧ tree.inorder = .inl first :: items ∧
        WasRead t.nodes group (trail after links) first ∧ Follows t.nodes after links items ∧
        ∀ other : OperatorTree, other.Grouped → other.inorder = tree.inorder → other = tree := by
  obtain ⟨enough, hchain⟩ := hlinks.exists_enough
  obtain ⟨more, hunary⟩ := hfirst
  have hall := hchain.mono fun group rest h => h.mono (Nat.le_max_right more enough)
  have hgroup := hunary.mono (Nat.le_max_left more enough)
  refine ⟨max more enough + 11, fun depth hdepth s hs hrest => ?_⟩
  have hclimbs : Climbs (max more enough) noIn after depth 1 :=
    climbs_of_gap (by decide : 11 ≤ 1 + 10) hdepth
  obtain ⟨first, taken, left, tree, items, id, t, hrun, h, hstops, hread⟩ :=
    hclimbs group links s hs hrest hgroup hall
  have hleft : left = [] := by
    cases left with
    | nil => rfl
    | cons link left =>
      exact absurd (hstops link rfl) (Nat.not_lt.2 link.op.level_pos)
  subst hleft
  have hlinks := h.links
  rw [List.append_nil] at hlinks
  subst hlinks
  exact ⟨id, t, tree, first, items, hrun, h.rest, h.stands, h.grouped, h.inorder, hread, h.follows,
    fun other hother heq => hother.eq_of_inorder h.grouped heq⟩

/-- Operators of three precedences and an operand of two tokens, in the head of a loop. -/
theorem grouped_tree_of_difference : ∃ group links after,
    tokens "a - -b * c < d in e" = .ok (group ++ trail after links) ∧
    links.map Link.op = [.binary .sub, .binary .mul, .binary .lt] ∧
    Operand group (trail after links) ∧ Chain Operand true after links ∧
    ∃ enough, ∀ depth ≥ enough, ∃ id t tree first items,
      parseGoal depth (.binary 1 true)
        { source := "a - -b * c < d in e", rest := group ++ trail after links } = .ok (id, t) ∧
        t.rest = after ∧ tree.Stands t.nodes id ∧ tree.Grouped ∧
        tree.inorder = .inl first :: items ∧ WasRead t.nodes group (trail after links) first ∧
        Follows t.nodes after links items ∧
        ∀ other : OperatorTree, other.Grouped → other.inorder = tree.inorder → other = tree := by
  let word (name : String) (offset : Nat) : Token :=
    ⟨.identifier name, ⟨offset, offset + 1, 1, Fin.ofNat _ (offset + 1)⟩, false⟩
  let sign (p : Punctuator) (offset : Nat) : Token :=
    ⟨.punct p, ⟨offset, offset + 1, 1, Fin.ofNat _ (offset + 1)⟩, false⟩
  let after : List Token :=
    [⟨.keyword .in, ⟨15, 17, 1, 16⟩, false⟩, word "e" 18, ⟨.eof, ⟨19, 19, 1, 20⟩, false⟩]
  let links : List Link :=
    [⟨.binary .sub, sign .minus 2, [sign .minus 4, word "b" 5]⟩,
      ⟨.binary .mul, sign .star 7, [word "c" 9]⟩, ⟨.binary .lt, sign .lt 11, [word "d" 13]⟩]
  have htokens : tokens "a - -b * c < d in e" = .ok ([word "a" 0] ++ trail after links) := by
    have hsome : (tokens "a - -b * c < d in e").toOption =
        some ([word "a" 0] ++ trail after links) := by decide +kernel
    cases h : tokens "a - -b * c < d in e" with
    | error e =>
      rw [h] at hsome
      cases hsome
    | ok ts =>
      rw [h] at hsome
      exact congrArg Except.ok (Option.some.inj hsome)
  have hsign {p : Punctuator} {offset : Nat} (hp : (Punctuator.dot ≠ p ∧ .lBracket ≠ p ∧
      .lParen ≠ p) ∧ updateOp? (.punct p) = none) : Apart (sign p offset) :=
    ⟨fun h => hp.1.1 (TokenKind.punct.inj h).symm, fun h => hp.1.2.1 (TokenKind.punct.inj h).symm,
      fun h => hp.1.2.2 (TokenKind.punct.inj h).symm, hp.2⟩
  have hin : Apart ⟨.keyword .in, ⟨15, 17, 1, 16⟩, false⟩ :=
    ⟨(fun h => by cases h), (fun h => by cases h), (fun h => by cases h), rfl⟩
  have hfirst : Operand [word "a" 0] (trail after links) :=
    operand_of_leaf (.identifier "a") (hsign (by decide))
  have hnegated : Operand [sign .minus 4, word "b" 5] (trail after links.tail) :=
    operand_of_prefix (rfl : unaryOp? _ = some .minus) (by decide)
      (operand_of_leaf (.identifier "b") (hsign (by decide)))
  have hends : Ends true after := by
    intro op hallowed heq
    have hop : op = .binary .in := by
      rcases op with op | op <;> cases op <;> first | rfl | cases heq
    exact hallowed rfl hop
  have hlinks : Chain Operand true after links :=
    ⟨rfl, (fun _ h => by cases h), hnegated, rfl, (fun _ h => by cases h),
      operand_of_leaf (.identifier "c") (hsign (by decide)), rfl, (fun _ h => by cases h),
      operand_of_leaf (.identifier "d") hin, hends⟩
  have hready : State.Ready
      { source := "a - -b * c < d in e", rest := [word "a" 0] ++ trail after links } :=
    ⟨spaced_of_tokens htokens, ⟨[], _, rfl, rfl⟩, fun f hf => by cases hf⟩
  obtain ⟨enough, hread⟩ := grouped_tree_of_chain hfirst hlinks
  exact ⟨[word "a" 0], links, after, htokens, rfl, hfirst, hlinks, enough, fun depth hdepth =>
    hread depth hdepth _ hready rfl⟩

end ScriptMachine.Tree.Parser
