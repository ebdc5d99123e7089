import ScriptMachine.Tree.Parser.Basic

/-!
# The grammar of programs

A program is a tree: expressions stand where values are wanted and statements elsewhere, the body of
a function is a block, and a jump stands where the statements around it allow it. The nodes of an
array are read as such a tree by following the indices of children.
-/

namespace ScriptMachine.Tree

namespace Parser.JumpScope

/-- Whether a `break` may stand in a scope. -/
def allowsBreak (scope : JumpScope) : Option String → Bool
  | none => scope.inLoop || scope.inSwitch
  | some label => scope.labels.any (·.1 == label)

/-- Whether a `continue` may stand in a scope. -/
def allowsContinue (scope : JumpScope) : Option String → Bool
  | none => scope.inLoop
  | some label => scope.labels.contains (label, true)

/-- The scope of a statement behind a label. -/
def labeled (scope : JumpScope) (label : String) (loop : Bool) : JumpScope :=
  { scope with labels := scope.labels ++ [(label, loop)] }

/-- The scope of the body of a loop. -/
def loop (scope : JumpScope) : JumpScope := { scope with inLoop := true }

/-- The scope of the clauses of a switch. -/
def switch (scope : JumpScope) : JumpScope := { scope with inSwitch := true }

/-- The scope of the body of a function. -/
def function : JumpScope := { inFunction := true }

end Parser.JumpScope

open Parser (JumpScope)

/-- Where a node stands. -/
inductive Place where
  | program
  | expression
  | statement (scope : JumpScope)
  /-- The head of a `for` loop: an expression or a declaration of variables. -/
  | head (scope : JumpScope)

/-- The jumps that are allowed in a place. -/
def Place.scope : Place → JumpScope
  | program => {}
  | expression => {}
  | statement scope => scope
  | head scope => scope

namespace NodeKind

/-- The nodes that are evaluated for a node, on behalf of the same call. -/
def children : NodeKind → List NodeId
  | .program body _ => body
  | .expressionStatement expression => [expression]
  | .block body => body
  | .varDeclaration declarations => declarations
  | .varDeclarator _ init => init.toList
  | .ifStatement test consequent alternate => test :: consequent :: alternate.toList
  | .labeled _ body => [body]
  | .returnStatement argument => argument.toList
  | .throwStatement argument => [argument]
  | .tryStatement body handler finalizer =>
    body :: ((handler.map CatchClause.body).toList ++ finalizer.toList)
  | .switchStatement discriminant cases =>
    discriminant :: cases.flatMap fun c => c.test.toList ++ c.consequent
  | .whileStatement test body => [test, body]
  | .doWhileStatement body test => [body, test]
  | .forStatement init test next body =>
    init.toList ++ (test.toList ++ (next.toList ++ [body]))
  | .forInStatement left right body => [left, right, body]
  | .array elements => elements.filterMap id
  | .object properties => properties.map PropertyInit.value
  | .unary _ argument => [argument]
  | .update _ _ argument => [argument]
  | .binary _ left right => [left, right]
  | .logical _ left right => [left, right]
  | .assignment _ target value => [target, value]
  | .conditional test consequent alternate => [test, consequent, alternate]
  | .call callee arguments => callee :: arguments
  | .new callee arguments => callee :: arguments
  | .member base (.computed key) => [base, key]
  | .member base (.named _) => [base]
  | .sequence expressions => expressions
  | _ => []

def isTry : NodeKind → Bool
  | .tryStatement _ _ _ => true
  | _ => false

def isSwitch : NodeKind → Bool
  | .switchStatement _ _ => true
  | _ => false

def isExpression : NodeKind → Bool
  | .identifier _ => true
  | .literal _ => true
  | .this => true
  | .array _ => true
  | .object _ => true
  | .functionExpression _ => true
  | .unary _ _ => true
  | .update _ _ _ => true
  | .binary _ _ _ => true
  | .logical _ _ _ => true
  | .assignment _ _ _ => true
  | .conditional _ _ _ => true
  | .call _ _ => true
  | .new _ _ => true
  | .member _ _ => true
  | .sequence _ => true
  | _ => false

/-- The children of an expression, each with its place. -/
def expressionParts? (kind : NodeKind) : Option (List (Place × NodeId)) :=
  if kind.isExpression then some (kind.children.map fun n => (.expression, n)) else none

/-- The children of a statement, each with its place. A label is marked as one of a loop if `loop`
holds. -/
def statementParts? (scope : JumpScope) (loop : Bool) : NodeKind → Option (List (Place × NodeId))
  | .expressionStatement expression => some [(.expression, expression)]
  | .block body => some (body.map fun n => (.statement scope, n))
  | .empty => some []
  | .debugger => some []
  | .varDeclaration declarations => some (declarations.map fun n => (.statement scope, n))
  | .varDeclarator _ init => some (init.toList.map fun n => (.expression, n))
  | .functionDeclaration _ => some []
  | .ifStatement test consequent alternate =>
    some ((.expression, test) ::
      (consequent :: alternate.toList).map fun n => (.statement scope, n))
  | .labeled label body => some [(.statement (scope.labeled label loop), body)]
  | .breakStatement label => if scope.allowsBreak label then some [] else none
  | .continueStatement label => if scope.allowsContinue label then some [] else none
  | .returnStatement argument =>
    if scope.inFunction then some (argument.toList.map fun n => (.expression, n)) else none
  | .throwStatement argument => some [(.expression, argument)]
  | .tryStatement body handler finalizer =>
    some ((body :: ((handler.map CatchClause.body).toList ++ finalizer.toList)).map fun n =>
      (.statement scope, n))
  | .switchStatement discriminant cases =>
    some ((.expression, discriminant) :: cases.flatMap fun c =>
      (c.test.toList.map fun n => (.expression, n)) ++
        c.consequent.map fun n => (.statement scope.switch, n))
  | .whileStatement test body => some [(.expression, test), (.statement scope.loop, body)]
  | .doWhileStatement body test => some [(.statement scope.loop, body), (.expression, test)]
  | .forStatement init test next body =>
    some ((init.toList.map fun n => (.head scope, n)) ++
      (test.toList ++ next.toList).map (fun n => (.expression, n)) ++
        [(.statement scope.loop, body)])
  | .forInStatement left right body =>
    some [(.head scope, left), (.expression, right), (.statement scope.loop, body)]
  | _ => none

/-- The children of a node that may stand in a place, each with its own place. -/
def parts? (loop : Bool) : Place → NodeKind → Option (List (Place × NodeId))
  | .program, .program body _ => some (body.map fun n => (.statement {}, n))
  | .program, _ => none
  | .expression, kind => kind.expressionParts?
  | .statement scope, kind => kind.statementParts? scope loop
  | .head scope, .varDeclaration declarations =>
    some (declarations.map fun n => (.statement scope, n))
  | .head _, kind => kind.expressionParts?

/-- The function that a node is the literal of. -/
def function? : NodeKind → Option FunctionNode
  | .functionDeclaration function => some function
  | .functionExpression function => some function
  | _ => none

/-- The parts of a node are its children. -/
theorem map_snd_of_parts? {loop : Bool} {place : Place} {kind : NodeKind}
    {parts : List (Place × NodeId)} (h : kind.parts? loop place = some parts) :
    parts.map Prod.snd = kind.children := by
  have hexpression : kind.expressionParts? = some parts → parts.map Prod.snd = kind.children := by
    intro h
    unfold expressionParts? at h
    split at h
    · cases h
      rw [List.map_map]
      exact List.map_id _
    · cases h
  cases place with
  | program =>
    cases kind <;> cases h
    simp [children, Function.comp_def]
  | expression => exact hexpression h
  | statement scope =>
    -- A jump has parts only where it is allowed.
    cases kind with
    | breakStatement label =>
      obtain ⟨-, ⟨⟩⟩ := Option.ite_none_right_eq_some.1 h
      rfl
    | continueStatement label =>
      obtain ⟨-, ⟨⟩⟩ := Option.ite_none_right_eq_some.1 h
      rfl
    | returnStatement argument =>
      obtain ⟨-, ⟨⟩⟩ := Option.ite_none_right_eq_some.1 h
      simp [children, Function.comp_def]
    | _ => cases h <;> simp [children, Function.comp_def, List.map_flatMap]
  | head scope =>
    cases kind with
    | varDeclaration declarations =>
      cases h
      simp [children, Function.comp_def]
    | _ => exact hexpression h

/-- The jumps allowed in a part of a node are those allowed in the node, with a label, a loop or a
switch around the part; in an expression there are none. -/
theorem scope_of_mem_parts {loop : Bool} {place : Place} {kind : NodeKind}
    {parts : List (Place × NodeId)} (h : kind.parts? loop place = some parts)
    {part : Place × NodeId} (hpart : part ∈ parts) :
    part.1.scope = {} ∨ part.1.scope = place.scope ∨
      (∃ label body, kind = .labeled label body ∧ part.2 = body ∧
        part.1.scope = place.scope.labeled label loop) ∨
      (kind.isLoop = true ∧ part.1.scope = place.scope.loop) ∨
      (kind.isSwitch = true ∧ part.1.scope = place.scope.switch) := by
  have hexpression : kind.expressionParts? = some parts → part.1.scope = {} := by
    intro h
    unfold expressionParts? at h
    split at h
    · cases h
      obtain ⟨n, -, rfl⟩ := List.mem_map.1 hpart
      rfl
    · cases h
  cases place with
  | program =>
    cases kind <;> cases h
    obtain ⟨n, -, rfl⟩ := List.mem_map.1 hpart
    exact .inl rfl
  | expression => exact .inl (hexpression h)
  | statement scope =>
    cases kind with
    | breakStatement label =>
      obtain ⟨-, ⟨⟩⟩ := Option.ite_none_right_eq_some.1 h
      cases hpart
    | continueStatement label =>
      obtain ⟨-, ⟨⟩⟩ := Option.ite_none_right_eq_some.1 h
      cases hpart
    | returnStatement argument =>
      obtain ⟨-, ⟨⟩⟩ := Option.ite_none_right_eq_some.1 h
      obtain ⟨n, -, rfl⟩ := List.mem_map.1 hpart
      exact .inl rfl
    | _ => cases h <;> grind [Place.scope, isLoop, isSwitch]
  | head scope =>
    cases kind with
    | varDeclaration declarations =>
      cases h
      obtain ⟨n, -, rfl⟩ := List.mem_map.1 hpart
      exact .inr (.inl rfl)
    | _ => exact .inl (hexpression h)

/-- Outside any function, so are the parts of a node. -/
theorem inFunction_of_mem_parts {loop : Bool} {place : Place} {kind : NodeKind}
    {parts : List (Place × NodeId)} (h : kind.parts? loop place = some parts)
    (hplace : place.scope.inFunction = false) {part : Place × NodeId} (hpart : part ∈ parts) :
    part.1.scope.inFunction = false := by
  rcases scope_of_mem_parts h hpart with hscope | hscope | ⟨_, _, -, -, hscope⟩ | ⟨-, hscope⟩ |
    ⟨-, hscope⟩
  · rw [hscope]
  all_goals rwa [hscope]

end NodeKind

/-- A statement is a loop, behind any number of labels. -/
inductive Loops (nodes : Array Node) : NodeId → Prop where
  | loop {id : NodeId} {kind : NodeKind} (hkind : nodes[id]?.map Node.kind = some kind)
    (h : kind.isLoop = true) : Loops nodes id
  | labeled {id body : NodeId} {label : String}
    (hkind : nodes[id]?.map Node.kind = some (.labeled label body)) (h : Loops nodes body) :
    Loops nodes id

/-- A node and those below it are as the grammar has them in a place. -/
inductive Formed (nodes : Array Node) : Place → NodeId → Prop where
  | node {place : Place} {id : NodeId} {kind : NodeKind} {loop : Bool}
    {parts : List (Place × NodeId)} (hkind : nodes[id]?.map Node.kind = some kind)
    (hloop : loop = true → Loops nodes id) (hparts : kind.parts? loop place = some parts)
    (hformed : ∀ part ∈ parts, Formed nodes part.1 part.2) : Formed nodes place id

/-- Nodes that are there stay what they are. -/
def Grown (nodes nodes' : Array Node) : Prop :=
  ∀ (id : NodeId) (n : Node), nodes[id]? = some n → nodes'[id]? = some n

namespace Grown

variable {nodes nodes' nodes'' : Array Node}

theorem refl (nodes : Array Node) : Grown nodes nodes := fun _ _ h => h

theorem trans (h : Grown nodes nodes') (h' : Grown nodes' nodes'') : Grown nodes nodes'' :=
  fun id n hn => h' id n (h id n hn)

theorem push (nodes : Array Node) (n : Node) : Grown nodes (nodes.push n) := by
  intro id m hm
  obtain ⟨hlt, -⟩ := Array.getElem?_eq_some_iff.1 hm
  rw [Array.getElem?_push, if_neg (Nat.ne_of_lt hlt), hm]

theorem kind_push (nodes : Array Node) (n : Node) :
    (nodes.push n)[nodes.size]?.map Node.kind = some n.kind := by
  simp

theorem kind (h : Grown nodes nodes') {id : NodeId} {kind : NodeKind}
    (hkind : nodes[id]?.map Node.kind = some kind) : nodes'[id]?.map Node.kind = some kind := by
  obtain ⟨n, hn, rfl⟩ := Option.map_eq_some_iff.1 hkind
  rw [h id n hn]
  rfl

end Grown

theorem Loops.mono {nodes nodes' : Array Node} {id : NodeId} (h : Loops nodes id)
    (hgrown : Grown nodes nodes') : Loops nodes' id := by
  induction h with
  | loop hkind h => exact .loop (hgrown.kind hkind) h
  | labeled hkind _ ih => exact .labeled (hgrown.kind hkind) ih

theorem Formed.mono {nodes nodes' : Array Node} {place : Place} {id : NodeId}
    (h : Formed nodes place id) (hgrown : Grown nodes nodes') : Formed nodes' place id := by
  induction h with
  | node hkind hloop hparts _ ih =>
    exact .node (hgrown.kind hkind) (fun h => (hloop h).mono hgrown) hparts ih

/-- The body of a function is a block in which a `return` may stand. -/
structure FunctionNode.Built (function : FunctionNode) (nodes : Array Node) : Prop where
  formed : Formed nodes (.statement .function) function.body
  block : ∃ body, nodes[function.body]?.map Node.kind = some (.block body)

theorem FunctionNode.Built.mono {function : FunctionNode} {nodes nodes' : Array Node}
    (h : function.Built nodes) (hgrown : Grown nodes nodes') : function.Built nodes' where
  formed := h.formed.mono hgrown
  block :=
    let ⟨body, hbody⟩ := h.block
    ⟨body, hgrown.kind hbody⟩

/-- Every function among some nodes has its body among them. -/
def Bodied (nodes : Array Node) : Prop :=
  ∀ (id : NodeId) (kind : NodeKind) (function : FunctionNode),
    nodes[id]?.map Node.kind = some kind → kind.function? = some function → function.Built nodes

namespace Program

/-- A node is evaluated for another one, or is that node. -/
inductive Under (p : Program) (top : NodeId) : NodeId → Prop where
  | refl : Under p top top
  | child {id n : NodeId} {kind : NodeKind} (h : Under p top id) (hkind : p.kind? id = some kind)
    (hn : n ∈ kind.children) : Under p top n

/-- A program is as the grammar has it. -/
structure Proper (p : Program) : Prop where
  root : Formed p.nodes .program p.root
  bodied : Bodied p.nodes

variable {p : Program}

/-- What is under a node that stands outside any function stands outside any function. -/
theorem Under.formed {top id : NodeId} (h : Under p top id) {place : Place}
    (hformed : Formed p.nodes place top) (hplace : place.scope.inFunction = false) :
    ∃ place', place'.scope.inFunction = false ∧ Formed p.nodes place' id := by
  induction h with
  | refl => exact ⟨place, hplace, hformed⟩
  | @child id n kind _ hkind hn ih =>
    obtain ⟨place', hplace', hid⟩ := ih
    cases hid with
    | @node _ _ kind' loop parts hkind' hloop hparts hbelow =>
      obtain rfl : kind' = kind := Option.some.inj (hkind'.symm.trans hkind)
      rw [← NodeKind.map_snd_of_parts? hparts] at hn
      obtain ⟨part, hpart, rfl⟩ := List.mem_map.1 hn
      exact ⟨part.1, NodeKind.inFunction_of_mem_parts hparts hplace' hpart, hbelow part hpart⟩

/-- No `return` is evaluated for the root of a program. -/
theorem Proper.not_return_under_root (hp : p.Proper) {id : NodeId} (h : Under p p.root id)
    (argument : Option NodeId) : p.kind? id ≠ some (.returnStatement argument) := by
  obtain ⟨place, hplace, hid⟩ := h.formed hp.root rfl
  intro hreturn
  cases hid with
  | @node _ _ kind loop parts hkind hloop hparts _ =>
    obtain rfl : kind = .returnStatement argument := Option.some.inj (hkind.symm.trans hreturn)
    cases place with
    | program => cases hparts
    | expression => cases hparts
    | statement scope =>
      obtain ⟨hscope, -⟩ := Option.ite_none_right_eq_some.1 hparts
      rw [show scope.inFunction = false from hplace] at hscope
      cases hscope
    | head scope => cases hparts

end Program

end ScriptMachine.Tree
