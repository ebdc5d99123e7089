import Mathlib.Data.List.Basic
import Mathlib.Data.List.Count
import Mathlib.Data.List.Nodup
import Mathlib.Data.List.Perm.Basic
import ScriptMachine.Proofs.Tree.Grammar
import ScriptMachine.Proofs.Tree.Tokens

/-!
# What is read for a node

The outline of a node lists what is evaluated for it, the node itself first and its children in the
order of the text. A function contributes its node but not its body, so the names that a body
declares are those of the declarators in its outline.
-/

namespace ScriptMachine.Tree

/-- A node and what is evaluated for it, in the order of the text. Children have smaller indices
than their parent. -/
def outline (nodes : Array Node) (id : NodeId) : List NodeId :=
  match nodes[id]? with
  | none => [id]
  | some n => id :: n.kind.children.flatMap fun child =>
    if child < id then outline nodes child else []
termination_by id

namespace NodeKind

/-- The name that a node declares as a variable. -/
def declaredName? : NodeKind → Option String
  | .varDeclarator name _ => some name
  | _ => none

def isFunctionDeclaration : NodeKind → Bool
  | .functionDeclaration _ => true
  | _ => false

/-- Whether a node declares something or records what was hoisted. -/
def declares : NodeKind → Bool
  | .program _ _ => true
  | .varDeclarator _ _ => true
  | .functionDeclaration _ => true
  | .functionExpression _ => true
  | _ => false

end NodeKind

namespace Hoisted

/-- What is hoisted once a variable is declared: a name counts where it occurs first. -/
def declare (hoisted : Hoisted) (name : String) : Hoisted :=
  if hoisted.vars.contains name then hoisted
  else { hoisted with vars := hoisted.vars ++ [name] }

@[simp] theorem functions_declare (hoisted : Hoisted) (name : String) :
    (hoisted.declare name).functions = hoisted.functions := by
  unfold declare
  split <;> rfl

/-- The names that are declared are listed once each, where they occur first. -/
theorem vars_declare {hoisted : Hoisted} {names : List String}
    (h : hoisted.vars = names.eraseDups) (name : String) :
    (hoisted.declare name).vars = (names ++ [name]).eraseDups := by
  have hmem : hoisted.vars.contains name = names.contains name := by
    rw [h, Bool.eq_iff_iff, List.contains_iff_mem, List.contains_iff_mem, List.mem_eraseDups]
  have hremoved : [name].removeAll names = if names.contains name then [] else [name] := by
    simp only [List.removeAll, List.filter_singleton, List.elem_eq_contains]
    cases names.contains name <;> rfl
  rw [List.eraseDups_append, hremoved, declare, hmem, h]
  cases names.contains name with
  | true =>
    rw [if_pos rfl, if_pos rfl, h]
    exact (List.append_nil _).symm
  | false =>
    rw [if_neg Bool.false_ne_true, if_neg Bool.false_ne_true]
    rfl

/-- What is hoisted once a node is read. -/
def add (hoisted : Hoisted) (id : NodeId) : NodeKind → Hoisted
  | .varDeclarator name _ => hoisted.declare name
  | .functionDeclaration _ => { hoisted with functions := hoisted.functions ++ [id] }
  | _ => hoisted

/-- What is hoisted once some nodes are read. -/
def read (nodes : Array Node) (hoisted : Hoisted) (ids : List NodeId) : Hoisted :=
  ids.foldl (fun h id => (nodes[id]?.map Node.kind).elim h (h.add id)) hoisted

end Hoisted

variable {nodes nodes' : Array Node} {id : NodeId} {ids : List NodeId} {n : Node}

/-- Nodes that are there stay there. -/
theorem Grown.lt_size (h : Grown nodes nodes') (hid : id < nodes.size) : id < nodes'.size :=
  (Array.getElem?_eq_some_iff.1 (h id _ (Array.getElem?_eq_getElem hid))).1

/-! ## Outlines -/

theorem outline_eq (hn : nodes[id]? = some n) (hlt : ∀ child ∈ n.kind.children, child < id) :
    outline nodes id = id :: n.kind.children.flatMap (outline nodes) := by
  have hchildren : (n.kind.children.flatMap fun child =>
      if child < id then outline nodes child else []) = n.kind.children.flatMap (outline nodes) := by
    apply List.flatMap_congr
    intro child hchild
    exact if_pos (hlt child hchild)
  rw [outline, hn, ← hchildren]

/-- What is read for a node does not change when nodes are added. -/
theorem outline_grown (h : Grown nodes nodes') (hid : id < nodes.size) :
    outline nodes' id = outline nodes id := by
  induction id using Nat.strongRecOn with
  | ind id ih =>
    have hn : nodes[id]? = some nodes[id] := Array.getElem?_eq_getElem hid
    rw [outline, outline, hn, h _ _ hn]
    apply congrArg (List.cons id)
    apply List.flatMap_congr
    intro child _
    split
    · rename_i hlt
      exact ih child hlt (Nat.lt_trans hlt hid)
    · rfl

theorem mem_outline_lt {child : NodeId} (h : child ∈ outline nodes id) : child ≤ id := by
  induction id using Nat.strongRecOn with
  | ind id ih =>
    rw [outline] at h
    split at h
    · exact Nat.le_of_eq (List.mem_singleton.1 h)
    · rcases List.mem_cons.1 h with rfl | h
      · exact Nat.le_refl _
      obtain ⟨mid, -, h⟩ := List.mem_flatMap.1 h
      split at h
      · rename_i hlt
        exact Nat.le_of_lt (Nat.lt_of_le_of_lt (ih mid hlt h) hlt)
      · cases h

/-! ## Reading -/

namespace Hoisted

variable {hoisted : Hoisted}

@[simp] theorem read_nil : hoisted.read nodes [] = hoisted := rfl

theorem read_cons (hn : nodes[id]? = some n) :
    hoisted.read nodes (id :: ids) = (hoisted.add id n.kind).read nodes ids := by
  simp [read, hn]

theorem read_append (ids ids' : List NodeId) :
    hoisted.read nodes (ids ++ ids') = (hoisted.read nodes ids).read nodes ids' :=
  List.foldl_append

theorem read_grown (h : Grown nodes nodes') (hids : ∀ id ∈ ids, id < nodes.size) :
    hoisted.read nodes' ids = hoisted.read nodes ids := by
  induction ids generalizing hoisted with
  | nil => rfl
  | cons id ids ih =>
    have hid := hids id List.mem_cons_self
    have hn : nodes[id]? = some nodes[id] := Array.getElem?_eq_getElem hid
    rw [read_cons hn, read_cons (h _ _ hn)]
    exact ih fun other hother => hids other (List.mem_cons_of_mem _ hother)

/-- Nodes that declare nothing hoist nothing. -/
theorem add_of_not_declares {kind : NodeKind} (h : kind.declares = false) :
    hoisted.add id kind = hoisted := by
  cases kind with
  | varDeclarator name init => cases h
  | functionDeclaration function => cases h
  | _ => rfl

end Hoisted

/-- What is hoisted once trees with the given roots are read. -/
def Hoisted.reading (nodes : Array Node) (hoisted : Hoisted) (roots : List NodeId) : Hoisted :=
  hoisted.read nodes (roots.flatMap (outline nodes))

namespace Hoisted

variable {hoisted : Hoisted} {roots : List NodeId}

theorem reading_append (roots roots' : List NodeId) :
    hoisted.reading nodes (roots ++ roots') =
      (hoisted.reading nodes roots).reading nodes roots' := by
  rw [reading, List.flatMap_append, read_append]
  rfl

theorem reading_grown (h : Grown nodes nodes') (hroots : ∀ root ∈ roots, root < nodes.size) :
    hoisted.reading nodes' roots = hoisted.reading nodes roots := by
  have houtlines : roots.flatMap (outline nodes') = roots.flatMap (outline nodes) := by
    apply List.flatMap_congr
    intro root hroot
    exact outline_grown h (hroots root hroot)
  rw [reading, reading, houtlines]
  apply read_grown h
  intro id hid
  obtain ⟨root, hroot, hid⟩ := List.mem_flatMap.1 hid
  exact Nat.lt_of_le_of_lt (mem_outline_lt hid) (hroots root hroot)

/-- Reading a tree is reading its root, then the trees below it. -/
theorem reading_node (hn : nodes[id]? = some n) (hlt : ∀ child ∈ n.kind.children, child < id) :
    hoisted.reading nodes [id] = (hoisted.add id n.kind).reading nodes n.kind.children := by
  rw [reading, List.flatMap_singleton, outline_eq hn hlt, read_cons hn]
  rfl

end Hoisted

/-! ## Functions -/

/-- What a function records of its parameters and its body: no name is bound twice, and what the body
declares is hoisted. -/
structure FunctionNode.Recorded (function : FunctionNode) (nodes : Array Node) : Prop where
  params : function.params.Nodup
  body : function.body < nodes.size
  hoisted : function.hoisted = ({} : Hoisted).reading nodes [function.body]

theorem FunctionNode.Recorded.mono {function : FunctionNode} (h : function.Recorded nodes)
    (hgrown : Grown nodes nodes') : function.Recorded nodes' where
  params := h.params
  body := hgrown.lt_size h.body
  hoisted := by
    rw [h.hoisted, Hoisted.reading_grown hgrown]
    intro root hroot
    exact List.mem_singleton.1 hroot ▸ h.body

/-!
## Trees laid out in an array

A tree stands in an array in post-order: the trees of its children one behind the other, then the
node itself. In the text the children stand in the same order, apart from each other and within the
stretch of their parent.
-/

open ScriptMachine.Source

/-! ## What nodes name -/

/-- The node can be assigned to. -/
def Assignable (nodes : Array Node) (id : NodeId) : Prop :=
  ∃ n, nodes[id]? = some n ∧ n.kind.isReference = true

namespace NodeKind

/-- The nodes right below a node: its children, and the body of a function. -/
def branches (kind : NodeKind) : List NodeId :=
  kind.children ++ (kind.function?.map FunctionNode.body).toList

/-- The function declarations that a node hoists. -/
def hoistedFunctions : NodeKind → List NodeId
  | .program _ hoisted => hoisted.functions
  | .functionDeclaration function => function.hoisted.functions
  | .functionExpression function => function.hoisted.functions
  | _ => []

/-- Every index that a node stores. -/
def stored (kind : NodeKind) : List NodeId := kind.branches ++ kind.hoistedFunctions

/-- What a node assigns to is a name, a member or, in the head of a loop, the declaration of one
name. -/
def Aims (nodes : Array Node) : NodeKind → Prop
  | .assignment _ target _ => Assignable nodes target
  | .update _ _ argument => Assignable nodes argument
  | .forInStatement left _ _ =>
    Assignable nodes left ∨ ∃ n declarator, nodes[left]? = some n ∧ n.kind = .varDeclaration [declarator]
  | _ => True

end NodeKind

/-- What holds of a node by itself, apart from those below it. -/
structure Node.Sound (source : String) (nodes : Array Node) (id : NodeId) (n : Node) : Prop where
  start : Boundary source n.span.start
  stop : Boundary source n.span.stop
  hoisted : ∀ f ∈ n.kind.hoistedFunctions, f < id
  aims : n.kind.Aims nodes

/-! ## Forests -/

/-- The nodes from one index up to another are trees in post-order with the given roots, which
stand in the text between two offsets, one behind the other. -/
inductive Forest (source : String) (nodes : Array Node) :
    Nat → Nat → List NodeId → Nat → Nat → Prop
  | nil (lo left right : Nat) : Forest source nodes lo left [] lo right
  | snoc {lo mid id : Nat} {ids : List NodeId} {left here right : Nat} {n : Node}
      (hids : Forest source nodes lo left ids mid here) (hn : nodes[id]? = some n)
      (hbranches : Forest source nodes mid n.span.start n.kind.branches id n.span.stop)
      (hsound : n.Sound source nodes id) (hleft : left ≤ n.span.start)
      (hhere : here ≤ n.span.start) (hlt : n.span.start < n.span.stop)
      (hright : n.span.stop ≤ right) : Forest source nodes lo left (ids ++ [id]) (id + 1) right

variable {source : String} {nodes nodes' : Array Node} {id : NodeId} {ids : List NodeId}
  {lo mid hi left right : Nat}

theorem Assignable.mono (h : Assignable nodes id) (hgrown : Grown nodes nodes') :
    Assignable nodes' id :=
  let ⟨n, hn, hkind⟩ := h
  ⟨n, hgrown id n hn, hkind⟩

theorem NodeKind.Aims.mono {kind : NodeKind} (h : kind.Aims nodes) (hgrown : Grown nodes nodes') :
    kind.Aims nodes' := by
  cases kind with
  | assignment operator target value => exact Assignable.mono h hgrown
  | update operator before argument => exact Assignable.mono h hgrown
  | forInStatement target iterated body =>
    refine Or.imp (fun h => h.mono hgrown) (fun h => ?_) h
    obtain ⟨n, declarator, hn, hkind⟩ := h
    exact ⟨n, declarator, hgrown _ n hn, hkind⟩
  | _ => trivial

namespace Forest

theorem mono_nodes (h : Forest source nodes lo left ids hi right) (hgrown : Grown nodes nodes') :
    Forest source nodes' lo left ids hi right := by
  induction h with
  | nil => exact .nil _ _ _
  | snoc _ hn _ hsound hleft hhere hlt hright ih ihbranches =>
    exact .snoc ih (hgrown _ _ hn) ihbranches
      { hsound with aims := hsound.aims.mono hgrown } hleft hhere hlt hright

theorem mono (h : Forest source nodes lo left ids hi right) {left' right' : Nat}
    (hleft : left' ≤ left) (hright : right ≤ right') :
    Forest source nodes lo left' ids hi right' := by
  induction h generalizing right' with
  | nil => exact .nil _ _ _
  | snoc _ hn hbranches hsound hleft' hhere hlt hright' ih _ =>
    exact .snoc (ih hleft (Nat.le_refl _)) hn hbranches hsound (Nat.le_trans hleft hleft') hhere
      hlt (Nat.le_trans hright' hright)

/-- Trees behind trees are trees. -/
theorem append (h : Forest source nodes lo left ids mid right) {ids' : List NodeId}
    {left' right' : Nat} (h' : Forest source nodes mid left' ids' hi right') (hleft : left ≤ left')
    (hright : right ≤ left') {last : Nat} (hlast : right ≤ last) (hlast' : right' ≤ last) :
    Forest source nodes lo left (ids ++ ids') hi last := by
  induction h' generalizing last with
  | nil =>
    rw [List.append_nil]
    exact h.mono (Nat.le_refl _) hlast
  | @snoc _ _ _ _ _ here _ n _ hn hbranches hsound hleft' hhere hlt hright' ih _ =>
    rw [← List.append_assoc]
    have hbefore := ih h hleft hright (Nat.le_max_left right here) (Nat.le_max_right right here)
    exact .snoc hbefore hn hbranches hsound (Nat.le_trans hleft hleft')
      (Nat.max_le.2 ⟨Nat.le_trans hright hleft', hhere⟩) hlt (Nat.le_trans hright' hlast')

theorem lo_le_hi (h : Forest source nodes lo left ids hi right) : lo ≤ hi := by
  induction h with
  | nil => exact Nat.le_refl _
  | snoc _ _ _ _ _ _ _ _ ih ihbranches => exact Nat.le_succ_of_le (Nat.le_trans ih ihbranches)

/-- Where there are no roots there are no nodes. -/
theorem lo_eq_hi (h : Forest source nodes lo left [] hi right) : lo = hi := by
  generalize hids : ([] : List NodeId) = ids at h
  cases h with
  | nil => rfl
  | snoc => simp at hids

theorem mem_bounds (h : Forest source nodes lo left ids hi right) {id : Nat} (hid : id ∈ ids) :
    lo ≤ id ∧ id < hi := by
  induction h with
  | nil => cases hid
  | snoc hids _ hbranches _ _ _ _ _ ih _ =>
    have hlo := hids.lo_le_hi
    have hmid := hbranches.lo_le_hi
    rcases List.mem_append.1 hid with hid | hid
    · obtain ⟨hle, hlt⟩ := ih hid
      exact ⟨hle, by omega⟩
    · obtain rfl := List.mem_singleton.1 hid
      exact ⟨Nat.le_trans hlo hmid, Nat.lt_succ_self _⟩

/-- The roots stand between the two offsets. -/
theorem within (h : Forest source nodes lo left ids hi right) {id : Nat} (hid : id ∈ ids) :
    ∃ n, nodes[id]? = some n ∧ left ≤ n.span.start ∧ n.span.stop ≤ right := by
  induction h with
  | nil => cases hid
  | @snoc _ _ _ _ _ here right n _ hn _ _ hleft hhere hlt hright ih _ =>
    rcases List.mem_append.1 hid with hid | hid
    · obtain ⟨m, hm, hstart, hstop⟩ := ih hid
      exact ⟨m, hm, hstart, by omega⟩
    · obtain rfl := List.mem_singleton.1 hid
      exact ⟨n, hn, hleft, hright⟩

/-- One node ends before another one starts. -/
def Before (nodes : Array Node) (a b : NodeId) : Prop :=
  ∀ m n, nodes[a]? = some m → nodes[b]? = some n → m.span.stop ≤ n.span.start

/-- The roots stand one behind the other. -/
theorem pairwise_before (h : Forest source nodes lo left ids hi right) :
    ids.Pairwise (Before nodes) := by
  induction h with
  | nil => exact .nil
  | @snoc _ _ id _ _ here right n hids hn _ _ _ hhere _ _ ih _ =>
    refine List.pairwise_append.2 ⟨ih, List.pairwise_singleton _ _, fun a ha b hb => ?_⟩
    obtain rfl := List.mem_singleton.1 hb
    intro m n' hm hn'
    obtain ⟨m', hm', -, hstop⟩ := hids.within ha
    obtain rfl := Option.some.inj (hm.symm.trans hm')
    obtain rfl := Option.some.inj (hn.symm.trans hn')
    exact Nat.le_trans hstop hhere

/-- Every node among trees is sound, takes up some of the text and has its own trees below it. -/
theorem node (h : Forest source nodes lo left ids hi right) {id : Nat} (hlo : lo ≤ id)
    (hhi : id < hi) : ∃ n first, nodes[id]? = some n ∧ n.Sound source nodes id ∧
      n.span.start < n.span.stop ∧ lo ≤ first ∧
      Forest source nodes first n.span.start n.kind.branches id n.span.stop := by
  induction h with
  | nil => exact absurd hhi (Nat.not_lt.2 hlo)
  | @snoc _ mid root _ _ _ _ n hids hn hbranches hsound _ _ hlt _ ih ihbranches =>
    by_cases hmid : id < mid
    · exact ih hlo hmid
    by_cases hroot : id < root
    · obtain ⟨m, first, hm, hsound, hlt, hfirst, hforest⟩ :=
        ihbranches (Nat.le_of_not_lt hmid) hroot
      exact ⟨m, first, hm, hsound, hlt, Nat.le_trans hids.lo_le_hi hfirst, hforest⟩
    obtain rfl : id = root := by omega
    exact ⟨n, mid, hn, hsound, hlt, hids.lo_le_hi, hbranches⟩

/-- The nodes right below the node of an index. -/
def branchesAt (nodes : Array Node) (id : NodeId) : List NodeId :=
  match nodes[id]? with
  | some n => n.kind.branches
  | none => []

theorem range'_split {lo mid hi : Nat} (h : lo ≤ mid) (h' : mid ≤ hi) :
    List.range' lo (hi - lo) = List.range' lo (mid - lo) ++ List.range' mid (hi - mid) := by
  have hsum : hi - lo = (mid - lo) + (hi - mid) := by omega
  have hmid : mid = lo + 1 * (mid - lo) := by omega
  rw [hsum, ← List.range'_append, ← hmid]

/-- Every node among trees is a root or right below one node, and that once. -/
theorem perm (h : Forest source nodes lo left ids hi right) :
    (ids ++ (List.range' lo (hi - lo)).flatMap (branchesAt nodes)).Perm
      (List.range' lo (hi - lo)) := by
  induction h with
  | nil => simp
  | @snoc lo mid id ids _ _ _ n hids hn hbranches _ _ _ _ _ ih ihbranches =>
    have hlo := hids.lo_le_hi
    have hmid := hbranches.lo_le_hi
    have hlast : List.range' id (id + 1 - id) = [id] := by simp [List.range'_succ]
    have hat : branchesAt nodes id = n.kind.branches := by simp [branchesAt, hn]
    rw [range'_split (Nat.le_trans hlo hmid) (Nat.le_succ id), range'_split hlo hmid, hlast,
      List.flatMap_append, List.flatMap_append, List.flatMap_singleton, hat]
    have hall := (ih.append ihbranches).append (List.Perm.refl [id])
    refine List.Perm.trans ?_ hall
    refine List.perm_iff_count.2 fun a => ?_
    simp only [List.count_append]
    omega

/-- What is counted once along a list is counted in one item of it. -/
theorem count_flatMap_eq_one {f : Nat → List Nat} {items : List Nat} (hitems : items.Nodup) {a : Nat}
    (h : (items.flatMap f).count a = 1) : ∃ i ∈ items, (f i).count a = 1 ∧
      ∀ j ∈ items, a ∈ f j → j = i := by
  induction items with
  | nil => cases h
  | cons i rest ih =>
    obtain ⟨hi, hrest⟩ := List.nodup_cons.1 hitems
    rw [List.flatMap_cons, List.count_append] at h
    by_cases hzero : (rest.flatMap f).count a = 0
    · refine ⟨i, List.mem_cons_self, by omega, fun j hj ha => ?_⟩
      refine (List.mem_cons.1 hj).resolve_right fun hj => ?_
      exact List.count_eq_zero.1 hzero (List.mem_flatMap.2 ⟨j, hj, ha⟩)
    · obtain ⟨k, hk, hcount, hunique⟩ := ih hrest (by omega)
      refine ⟨k, List.mem_cons_of_mem _ hk, hcount, fun j hj ha => ?_⟩
      rcases List.mem_cons.1 hj with rfl | hj
      · exact absurd ha (List.count_eq_zero.1 (by omega))
      · exact hunique j hj ha

end Forest

/-! ## Whole programs -/

namespace Program

/-- A program is one tree, and its node of the root is the last one. -/
structure Rooted (p : Program) : Prop where
  last : p.root + 1 = p.nodes.size
  tree : ∃ n : Node, p.nodes[p.root]? = some n ∧ n.Sound p.source p.nodes p.root ∧
    n.span.start ≤ n.span.stop ∧
    Forest p.source p.nodes 0 n.span.start n.kind.branches p.root n.span.stop

/-- The root is the last node. Every index in a node is smaller than its own, every other node than
the root is right below one node, and that once. Nodes start and end between characters, stand
within the one they are below and apart from each other, and what they assign to can be assigned
to. -/
structure WellFormed (p : Program) : Prop where
  root : p.root + 1 = p.nodes.size
  stored : ∀ (id : NodeId) (n : Node), p.nodes[id]? = some n → ∀ i ∈ n.kind.stored, i < id
  parent : ∀ id : NodeId, id < p.nodes.size → id ≠ p.root →
    ∃ (parent : NodeId) (n : Node), p.nodes[parent]? = some n ∧ n.kind.branches.count id = 1 ∧
      ∀ (other : NodeId) (m : Node), p.nodes[other]? = some m → id ∈ m.kind.branches →
        other = parent
  boundaries : ∀ (id : NodeId) (n : Node), p.nodes[id]? = some n →
    Boundary p.source n.span.start ∧ Boundary p.source n.span.stop ∧ n.span.start ≤ n.span.stop
  within : ∀ (id : NodeId) (n : Node), p.nodes[id]? = some n →
    ∀ child ∈ n.kind.branches, ∀ m : Node, p.nodes[child]? = some m →
      n.span.start ≤ m.span.start ∧ m.span.stop ≤ n.span.stop
  apart : ∀ (id : NodeId) (n : Node), p.nodes[id]? = some n →
    n.kind.branches.Pairwise (Forest.Before p.nodes)
  aims : ∀ (id : NodeId) (n : Node), p.nodes[id]? = some n → n.kind.Aims p.nodes

variable {p : Program}

/-- Every node of a program has its trees below it. -/
theorem Rooted.node (h : p.Rooted) {id : Nat} {n : Node} (hn : p.nodes[id]? = some n) :
    n.Sound p.source p.nodes id ∧ n.span.start ≤ n.span.stop ∧
      ∃ first, Forest p.source p.nodes first n.span.start n.kind.branches id n.span.stop := by
  obtain ⟨r, hr, hsound, hle, hforest⟩ := h.tree
  obtain ⟨hlt, -⟩ := Array.getElem?_eq_some_iff.1 hn
  by_cases hroot : id = p.root
  · subst hroot
    obtain rfl := Option.some.inj (hn.symm.trans hr)
    exact ⟨hsound, hle, 0, hforest⟩
  · have hle : id ≤ p.root := Nat.le_of_lt_succ (Nat.lt_of_lt_of_eq hlt h.last.symm)
    obtain ⟨m, first, hm, hsound, hlt, -, hforest⟩ :=
      hforest.node (Nat.zero_le id) (Nat.lt_of_le_of_ne hle hroot)
    obtain rfl := Option.some.inj (hn.symm.trans hm)
    exact ⟨hsound, Nat.le_of_lt hlt, first, hforest⟩

/-- Every node but the root is listed once among the nodes right below the others. -/
theorem Rooted.count_branches (h : p.Rooted) {id : Nat} (hid : id < p.nodes.size)
    (hroot : id ≠ p.root) :
    ((List.range p.nodes.size).flatMap (Forest.branchesAt p.nodes)).count id = 1 := by
  obtain ⟨n, hn, -, -, hforest⟩ := h.tree
  have hlast := h.last
  have hperm := hforest.perm.count_eq id
  have hat : Forest.branchesAt p.nodes p.root = n.kind.branches := by simp [Forest.branchesAt, hn]
  have hle : id ≤ p.root := Nat.le_of_lt_succ (Nat.lt_of_lt_of_eq hid hlast.symm)
  have hlt : id < p.root := Nat.lt_of_le_of_ne hle hroot
  have hone : (List.range' 0 p.root).count id = 1 :=
    List.count_eq_one_of_mem List.nodup_range' (by simpa using hlt)
  rw [List.count_append, Nat.sub_zero, hone] at hperm
  rw [← hlast, List.range_eq_range', List.range'_concat, List.flatMap_append, List.flatMap_singleton,
    List.count_append, Nat.zero_add, Nat.one_mul, hat]
  omega

theorem Rooted.wellFormed (h : p.Rooted) : p.WellFormed where
  root := h.last
  stored id n hn i hi := by
    obtain ⟨hsound, -, first, hforest⟩ := h.node hn
    rcases List.mem_append.1 hi with hi | hi
    · exact (hforest.mem_bounds hi).2
    · exact hsound.hoisted i hi
  parent id hid hroot := by
    obtain ⟨parent, -, hcount, hunique⟩ :=
      Forest.count_flatMap_eq_one List.nodup_range (h.count_branches hid hroot)
    cases hn : p.nodes[parent]? with
    | none => simp [Forest.branchesAt, hn] at hcount
    | some n =>
      simp only [Forest.branchesAt, hn] at hcount
      refine ⟨parent, n, hn, hcount, fun other m hm hmem => ?_⟩
      refine hunique other (List.mem_range.2 (Array.getElem?_eq_some_iff.1 hm).1) ?_
      simpa only [Forest.branchesAt, hm] using hmem
  boundaries id n hn :=
    let ⟨hsound, hle, _⟩ := h.node hn
    ⟨hsound.start, hsound.stop, hle⟩
  within id n hn child hchild m hm := by
    obtain ⟨-, -, first, hforest⟩ := h.node hn
    obtain ⟨m', hm', hstart, hstop⟩ := hforest.within hchild
    obtain rfl := Option.some.inj (hm.symm.trans hm')
    exact ⟨hstart, hstop⟩
  apart id n hn :=
    let ⟨_, _, _, hforest⟩ := h.node hn
    hforest.pairwise_before
  aims id n hn := (h.node hn).1.aims

end Program

end ScriptMachine.Tree
