import Mathlib.Data.List.Induction
import ScriptMachine.Proofs.Tree.Accepted
import ScriptMachine.Proofs.Tree.WellFormed

/-!
# What an accepted program records of its scopes

A program and each of its functions has a body that is evaluated for one call. What is hoisted is
recorded while the body is read, in the order of the text, and the jumps in the body are checked
against the statements around them. So a machine that runs the program need not walk a body before
it enters it, and every jump it meets has a statement to end or to go on with.
-/

namespace ScriptMachine.Tree

/-- A node ends something that is evaluated around it. -/
def NodeKind.isJump : NodeKind → Bool
  | .breakStatement _ => true
  | .continueStatement _ => true
  | .returnStatement _ => true
  | _ => false

/-- A node declares a variable. -/
def NodeKind.isDeclarator (kind : NodeKind) : Bool := kind.declaredName?.isSome

namespace Program

/-- What is evaluated for one call, a function's body or the whole program, and what is hoisted in
it. -/
inductive Body (p : Program) : NodeId → Hoisted → Prop
  | program {body : List NodeId} {hoisted : Hoisted}
    (h : p.kind? p.root = some (.program body hoisted)) : Body p p.root hoisted
  | function {id : NodeId} {kind : NodeKind} {function : FunctionNode}
    (hkind : p.kind? id = some kind) (hfunction : kind.function? = some function) :
    Body p function.body function.hoisted

/-- Whether a node is of a certain kind. -/
def marked (p : Program) (P : NodeKind → Bool) (id : NodeId) : Bool := (p.kind? id).any P

/-- The name that a node of a program declares. -/
def declaredName? (p : Program) (id : NodeId) : Option String :=
  (p.kind? id).bind NodeKind.declaredName?

/-- A list has the nodes of some kind that are evaluated for a node, in the order of the text. -/
structure Lists (p : Program) (top : NodeId) (P : NodeKind → Bool) (ids : List NodeId) : Prop where
  mem : ∀ id, id ∈ ids ↔ p.Under top id ∧ p.marked P id = true
  order : ids.Pairwise (Forest.Before p.nodes)

/-- A node is a statement or stands behind its labels. -/
inductive Behind (p : Program) (top : NodeId) : NodeId → Prop
  | refl : Behind p top top
  | label {id body : NodeId} {label : String} (h : Behind p top id)
    (hkind : p.kind? id = some (.labeled label body)) : Behind p top body

/-- A node is evaluated for a statement of some kind, on behalf of the same call. -/
def InStatement (p : Program) (P : NodeKind → Prop) (id : NodeId) : Prop :=
  ∃ s kind, p.kind? s = some kind ∧ P kind ∧ p.Under s id

/-- What a program records of its scopes is what its text says, and every jump has a statement
around it that it ends or goes on with. -/
structure Scoped (p : Program) : Prop where
  root : ∃ body hoisted, p.kind? p.root = some (.program body hoisted)
  vars : ∀ top hoisted, p.Body top hoisted → ∃ declarators,
    p.Lists top NodeKind.isDeclarator declarators ∧
      hoisted.vars = (declarators.filterMap p.declaredName?).eraseDups
  distinct : ∀ top hoisted, p.Body top hoisted → hoisted.vars.Nodup
  functions : ∀ top hoisted, p.Body top hoisted →
    p.Lists top NodeKind.isFunctionDeclaration hoisted.functions
  params : ∀ id kind function, p.kind? id = some kind → kind.function? = some function →
    function.params.Nodup
  breaks : ∀ id, p.kind? id = some (.breakStatement none) →
    p.InStatement (fun kind => kind.isLoop = true ∨ kind.isSwitch = true) id
  continues : ∀ id, p.kind? id = some (.continueStatement none) →
    p.InStatement (fun kind => kind.isLoop = true) id
  labelledBreaks : ∀ id label, p.kind? id = some (.breakStatement (some label)) →
    p.InStatement (fun kind => ∃ body, kind = .labeled label body) id
  labelledContinues : ∀ id label, p.kind? id = some (.continueStatement (some label)) →
    ∃ s body loop kind, p.kind? s = some (.labeled label body) ∧ p.Behind body loop ∧
      p.kind? loop = some kind ∧ kind.isLoop = true ∧ p.Under loop id
  returns : ∀ id argument, p.kind? id = some (.returnStatement argument) →
    ∃ f kind function, p.kind? f = some kind ∧ kind.function? = some function ∧
      p.Under function.body id

variable {p : Program} {id top : NodeId} {n : Node} {kind : NodeKind}

theorem kind?_eq_some (h : p.kind? id = some kind) : ∃ n, p.nodes[id]? = some n ∧ n.kind = kind :=
  Option.map_eq_some_iff.1 h

theorem kind?_of_node (hn : p.nodes[id]? = some n) : p.kind? id = some n.kind := by
  rw [kind?, hn]
  rfl

/-! ## Nodes under a node -/

theorem Under.trans {a b c : NodeId} (h : p.Under a b) (h' : p.Under b c) : p.Under a c := by
  induction h' with
  | refl => exact h
  | child _ hkind hn ih => exact .child ih hkind hn

theorem Under.of_child {a b c : NodeId} (hkind : p.kind? a = some kind) (hb : b ∈ kind.children)
    (h : p.Under b c) : p.Under a c :=
  (Under.child .refl hkind hb).trans h

/-- What is under a node is that node or under one of its children. -/
theorem Under.eq_or_child {a b : NodeId} (h : p.Under a b) :
    b = a ∨ ∃ kind child, p.kind? a = some kind ∧ child ∈ kind.children ∧ p.Under child b := by
  induction h with
  | refl => exact .inl rfl
  | @child id n kind _ hkind hn ih =>
    rcases ih with rfl | ⟨kind', child, hkind', hchild, hunder⟩
    · exact .inr ⟨kind, n, hkind, hn, .refl⟩
    · exact .inr ⟨kind', child, hkind', hchild, .child hunder hkind hn⟩

namespace WellFormed

variable (hp : p.WellFormed)

include hp

theorem child_lt (hn : p.nodes[id]? = some n) : ∀ child ∈ n.kind.children, child < id := by
  intro child hchild
  exact hp.stored id n hn child (List.mem_append_left _ (List.mem_append_left _ hchild))

/-- The outline of a node lists what is evaluated for it. -/
theorem mem_outline_iff {x : NodeId} : x ∈ outline p.nodes top ↔ p.Under top x := by
  induction top using Nat.strongRecOn with
  | ind top ih =>
    cases hn : p.nodes[top]? with
    | none =>
      rw [outline, hn, List.mem_singleton]
      constructor
      · rintro rfl
        exact .refl
      · intro h
        rcases h.eq_or_child with rfl | ⟨kind, child, hkind, -, -⟩
        · rfl
        · obtain ⟨n, hn', -⟩ := kind?_eq_some hkind
          cases hn.symm.trans hn'
    | some n =>
      have hlt := hp.child_lt hn
      rw [outline_eq hn hlt, List.mem_cons, List.mem_flatMap]
      constructor
      · rintro (rfl | ⟨child, hchild, h⟩)
        · exact .refl
        · exact .of_child (kind?_of_node hn) hchild ((ih child (hlt child hchild)).1 h)
      · intro h
        rcases h.eq_or_child with rfl | ⟨kind, child, hkind, hchild, h⟩
        · exact .inl rfl
        · obtain rfl := Option.some.inj ((kind?_of_node hn).symm.trans hkind)
          exact .inr ⟨child, hchild, (ih child (hlt child hchild)).2 h⟩

/-- What is evaluated for a node stands within it. -/
theorem within_under {x : NodeId} (h : p.Under top x) {m : Node} (hm : p.nodes[x]? = some m) :
    ∃ n, p.nodes[top]? = some n ∧ n.span.start ≤ m.span.start ∧ m.span.stop ≤ n.span.stop := by
  induction h generalizing m with
  | refl => exact ⟨m, hm, Nat.le_refl _, Nat.le_refl _⟩
  | child _ hkind hchild ih =>
    obtain ⟨k, hk, rfl⟩ := kind?_eq_some hkind
    obtain ⟨n, hn, hstart, hstop⟩ := ih hk
    obtain ⟨hstart', hstop'⟩ := hp.within _ k hk _ (List.mem_append_left _ hchild) m hm
    exact ⟨n, hn, Nat.le_trans hstart hstart', Nat.le_trans hstop' hstop⟩

/-- What is evaluated for one node ends before what is evaluated for a later one starts. -/
theorem before_under {a b x y : NodeId} (h : Forest.Before p.nodes a b) (hx : p.Under a x)
    (hy : p.Under b y) : Forest.Before p.nodes x y := by
  intro m n hm hn
  obtain ⟨ma, hma, -, hstop⟩ := hp.within_under hx hm
  obtain ⟨nb, hnb, hstart, -⟩ := hp.within_under hy hn
  exact Nat.le_trans hstop (Nat.le_trans (h ma nb hma hnb) hstart)

/-- Where nodes of some kind have none of that kind below them, those in an outline stand one behind
the other. -/
theorem pairwise_marked {P : NodeKind → Bool}
    (hflat : ∀ x y, p.Under top x → p.marked P x = true → p.Under x y → p.marked P y = true → y = x) :
    ((outline p.nodes top).filter (p.marked P)).Pairwise (Forest.Before p.nodes) := by
  induction top using Nat.strongRecOn with
  | ind top ih =>
    cases hn : p.nodes[top]? with
    | none =>
      rw [outline, hn]
      exact (List.pairwise_singleton _ top).sublist List.filter_sublist
    | some n =>
      have hlt := hp.child_lt hn
      have hkind := kind?_of_node hn
      rw [outline_eq hn hlt]
      by_cases htop : p.marked P top = true
      · -- Nothing else is marked.
        have hnone : (n.kind.children.flatMap (outline p.nodes)).filter (p.marked P) = [] := by
          rw [List.filter_eq_nil_iff]
          intro y hy hmarked
          obtain ⟨child, hchild, hy⟩ := List.mem_flatMap.1 hy
          have hunder := hp.mem_outline_iff.1 hy
          have heq := hflat top y .refl htop (.of_child hkind hchild hunder) hmarked
          exact absurd (mem_outline_lt hy) (Nat.not_le.2 (heq ▸ hlt child hchild))
        rw [List.filter_cons_of_pos htop, hnone]
        exact List.pairwise_singleton _ _
      · rw [List.filter_cons_of_neg htop, List.filter_flatMap, List.pairwise_flatMap]
        constructor
        · intro child hchild
          apply ih child (hlt child hchild)
          intro x y hx
          exact hflat x y (.of_child hkind hchild hx)
        · have hapart : n.kind.children.Pairwise (Forest.Before p.nodes) :=
            (hp.apart top n hn).sublist (List.sublist_append_left _ _)
          apply hapart.imp
          intro a b hbefore x hx y hy
          exact hp.before_under hbefore (hp.mem_outline_iff.1 (List.mem_of_mem_filter hx))
            (hp.mem_outline_iff.1 (List.mem_of_mem_filter hy))

/-- The marked nodes of an outline are the nodes of their kind. -/
theorem lists_outline {P : NodeKind → Bool}
    (hflat : ∀ x y, p.Under top x → p.marked P x = true → p.Under x y → p.marked P y = true → y = x) :
    p.Lists top P ((outline p.nodes top).filter (p.marked P)) where
  mem x := by rw [List.mem_filter, hp.mem_outline_iff]
  order := hp.pairwise_marked hflat

/-- Every node is evaluated for one call of some body. -/
theorem exists_body (hroot : ∃ body hoisted, p.kind? p.root = some (.program body hoisted))
    (hid : id < p.nodes.size) : ∃ top hoisted, p.Body top hoisted ∧ p.Under top id := by
  -- A parent comes behind its node, so the induction is on how many nodes are behind.
  induction hrest : p.nodes.size - id using Nat.strongRecOn generalizing id with
  | ind rest ih =>
    subst hrest
    by_cases heq : id = p.root
    · obtain ⟨body, hoisted, hkind⟩ := hroot
      exact ⟨p.root, hoisted, .program hkind, heq ▸ .refl⟩
    obtain ⟨parent, n, hn, hcount, -⟩ := hp.parent id hid heq
    have hmem : id ∈ n.kind.branches := List.count_pos_iff.1 (hcount ▸ Nat.one_pos)
    have hlt : id < parent := hp.stored parent n hn id (List.mem_append_left _ hmem)
    have hparent : parent < p.nodes.size := (Array.getElem?_eq_some_iff.1 hn).1
    rcases List.mem_append.1 hmem with hchild | hbody
    · obtain ⟨top, hoisted, hbody, hunder⟩ := ih (p.nodes.size - parent)
        (Nat.sub_lt_sub_left hid hlt) hparent rfl
      exact ⟨top, hoisted, hbody, .child hunder (kind?_of_node hn) hchild⟩
    · obtain ⟨function, hfunction, rfl⟩ := Option.map_eq_some_iff.1 (Option.mem_toList.1 hbody)
      exact ⟨function.body, function.hoisted, .function (kind?_of_node hn) hfunction, .refl⟩

end WellFormed

/-! ## Declarations do not nest -/

/-- What is evaluated for an expression is an expression. -/
theorem Under.isExpression {x : NodeId} (h : p.Under top x)
    (hformed : Formed p.nodes .expression top) : Formed p.nodes .expression x := by
  induction h with
  | refl => exact hformed
  | @child id n kind _ hkind hn ih =>
    cases ih with
    | @node _ _ kind' loop parts hkind' hloop hparts hbelow =>
      obtain rfl : kind' = kind := Option.some.inj (hkind'.symm.trans hkind)
      rw [← NodeKind.map_snd_of_parts? hparts] at hn
      obtain ⟨part, hpart, rfl⟩ := List.mem_map.1 hn
      have hplace : part.1 = .expression := by
        obtain ⟨-, hparts⟩ := Option.ite_none_right_eq_some.1 hparts
        cases hparts
        obtain ⟨m, -, rfl⟩ := List.mem_map.1 hpart
        rfl
      exact hplace ▸ hbelow part hpart

theorem not_isDeclarator_of_expression {x : NodeId} (h : Formed p.nodes .expression x) :
    p.marked NodeKind.isDeclarator x = false := by
  cases h with
  | @node _ _ kind loop parts hkind hloop hparts hbelow =>
    obtain ⟨hexpression, -⟩ := Option.ite_none_right_eq_some.1 hparts
    have hkind : p.kind? x = some kind := hkind
    rw [marked, hkind]
    cases kind with
    | varDeclarator name init => cases hexpression
    | _ => rfl

/-- What a node of a body is, it is in some place. -/
theorem Under.place {x : NodeId} (h : p.Under top x) {place : Place}
    (hformed : Formed p.nodes place top) : ∃ place', Formed p.nodes place' x := by
  induction h with
  | refl => exact ⟨place, hformed⟩
  | @child id n kind _ hkind hn ih =>
    obtain ⟨place', hid⟩ := ih
    cases hid with
    | @node _ _ kind' loop parts hkind' hloop hparts hbelow =>
      obtain rfl : kind' = kind := Option.some.inj (hkind'.symm.trans hkind)
      rw [← NodeKind.map_snd_of_parts? hparts] at hn
      obtain ⟨part, hpart, rfl⟩ := List.mem_map.1 hn
      exact ⟨part.1, hbelow part hpart⟩

/-- A declarator has no declarator below it. -/
theorem declarators_flat {place : Place} (hformed : Formed p.nodes place top) (x y : NodeId)
    (hx : p.Under top x) (hmarked : p.marked NodeKind.isDeclarator x = true) (hy : p.Under x y)
    (hmarked' : p.marked NodeKind.isDeclarator y = true) : y = x := by
  rcases hy.eq_or_child with heq | ⟨kind, child, hkind, hchild, hy⟩
  · exact heq
  obtain ⟨place', hplace⟩ := hx.place hformed
  cases hplace with
  | @node _ _ kind' loop parts hkind' hloop hparts hbelow =>
    obtain rfl : kind' = kind := Option.some.inj (hkind'.symm.trans hkind)
    rw [marked, hkind] at hmarked
    cases kind' with
    | varDeclarator name init =>
      have hexpression : Formed p.nodes .expression child := by
        rw [← NodeKind.map_snd_of_parts? hparts] at hchild
        obtain ⟨part, hpart, rfl⟩ := List.mem_map.1 hchild
        have hplace : part.1 = .expression := by
          cases place' with
          | program => cases hparts
          | expression => cases hparts
          | statement scope =>
            cases hparts
            obtain ⟨m, -, rfl⟩ := List.mem_map.1 hpart
            rfl
          | head scope => cases hparts
        exact hplace ▸ hbelow part hpart
      have hnot := not_isDeclarator_of_expression (hy.isExpression hexpression)
      rw [hmarked'] at hnot
      cases hnot
    | _ => cases hmarked

/-- The declaration of a function is evaluated without anything below it. -/
theorem functionDeclarations_flat (x y : NodeId)
    (hmarked : p.marked NodeKind.isFunctionDeclaration x = true) (hy : p.Under x y) : y = x := by
  rcases hy.eq_or_child with heq | ⟨kind, child, hkind, hchild, -⟩
  · exact heq
  rw [marked, hkind] at hmarked
  cases kind with
  | functionDeclaration function => cases hchild
  | _ => cases hmarked

/-! ## What is hoisted -/

theorem vars_read (ids : List NodeId) :
    (({} : Hoisted).read p.nodes ids).vars = (ids.filterMap p.declaredName?).eraseDups := by
  induction ids using List.reverseRecOn with
  | nil => rfl
  | append_singleton ids id ih =>
    rw [Hoisted.read_append, List.filterMap_append]
    generalize ({} : Hoisted).read p.nodes ids = hoisted at ih ⊢
    cases hn : p.nodes[id]? with
    | none => simpa [Hoisted.read, declaredName?, kind?, hn] using ih
    | some n =>
      rw [Hoisted.read_cons hn, Hoisted.read_nil]
      cases hkind : n.kind with
      | varDeclarator name init =>
        have hname : [id].filterMap p.declaredName? = [name] := by
          simp [declaredName?, kind?, hn, hkind, NodeKind.declaredName?]
        rw [hname]
        exact Hoisted.vars_declare ih name
      | _ => simpa [Hoisted.add, declaredName?, kind?, hn, hkind, NodeKind.declaredName?] using ih

theorem functions_read (ids : List NodeId) :
    (({} : Hoisted).read p.nodes ids).functions =
      ids.filter (p.marked NodeKind.isFunctionDeclaration) := by
  induction ids using List.reverseRecOn with
  | nil => rfl
  | append_singleton ids id ih =>
    rw [Hoisted.read_append, List.filter_append, ← ih]
    generalize ({} : Hoisted).read p.nodes ids = hoisted
    cases hn : p.nodes[id]? with
    | none => simp [Hoisted.read, marked, kind?, hn]
    | some n =>
      rw [Hoisted.read_cons hn, Hoisted.read_nil]
      cases hkind : n.kind <;>
        simp [Hoisted.add, marked, kind?, hn, hkind, NodeKind.isFunctionDeclaration]

/-- Names are listed once each. -/
theorem nodup_eraseDups (names : List String) : names.eraseDups.Nodup := by
  induction names using List.reverseRecOn with
  | nil => exact List.nodup_nil
  | append_singleton names name ih =>
    have hdeclare : (Hoisted.declare ⟨names.eraseDups, []⟩ name).vars =
        (names ++ [name]).eraseDups := Hoisted.vars_declare rfl name
    rw [← hdeclare, Hoisted.declare]
    split
    · exact ih
    · rename_i hnew
      have hdistinct := ih.concat fun h => hnew (List.contains_iff_mem.2 h)
      rwa [List.concat_eq_append] at hdistinct

/-! ## Jumps -/

/-- The statements around a node allow the jumps of a scope. -/
structure Encloses (p : Program) (scope : Parser.JumpScope) (id : NodeId) : Prop where
  loop : scope.inLoop = true → p.InStatement (fun kind => kind.isLoop = true) id
  switch : scope.inSwitch = true → p.InStatement (fun kind => kind.isSwitch = true) id
  label : ∀ label loop, (label, loop) ∈ scope.labels → ∃ s body,
    p.kind? s = some (.labeled label body) ∧ p.Under s id ∧ (loop = true → Loops p.nodes body)

theorem InStatement.child {P : NodeKind → Prop} (h : p.InStatement P id)
    (hkind : p.kind? id = some kind) {child : NodeId} (hchild : child ∈ kind.children) :
    p.InStatement P child :=
  let ⟨s, kind', hkind', hP, hunder⟩ := h
  ⟨s, kind', hkind', hP, .child hunder hkind hchild⟩

namespace Encloses

variable {scope : Parser.JumpScope}

/-- Where no jumps are allowed nothing is asked for. -/
theorem of_plain (hloop : scope.inLoop = false) (hswitch : scope.inSwitch = false)
    (hlabels : scope.labels = []) : p.Encloses scope id where
  loop h := by cases hloop.symm.trans h
  switch h := by cases hswitch.symm.trans h
  label label loop h := by
    rw [hlabels] at h
    cases h

theorem child (h : p.Encloses scope id) (hkind : p.kind? id = some kind) {child : NodeId}
    (hchild : child ∈ kind.children) : p.Encloses scope child where
  loop hloop := (h.loop hloop).child hkind hchild
  switch hswitch := (h.switch hswitch).child hkind hchild
  label label loop hlabel :=
    let ⟨s, body, hs, hunder, hloops⟩ := h.label label loop hlabel
    ⟨s, body, hs, .child hunder hkind hchild, hloops⟩

/-- A part of a node is enclosed as its place says. -/
theorem part {place : Place} (h : p.Encloses place.scope id) (hkind : p.kind? id = some kind)
    {loop : Bool} (hloop : loop = true → Loops p.nodes id) {parts : List (Place × NodeId)}
    (hparts : kind.parts? loop place = some parts) {part : Place × NodeId} (hpart : part ∈ parts) :
    p.Encloses part.1.scope part.2 := by
  have hchild : part.2 ∈ kind.children := by
    rw [← NodeKind.map_snd_of_parts? hparts]
    exact List.mem_map_of_mem hpart
  have hbelow := h.child hkind hchild
  rcases NodeKind.scope_of_mem_parts hparts hpart with hscope | hscope |
    ⟨label, body, rfl, hbody, hscope⟩ | ⟨hisLoop, hscope⟩ | ⟨hisSwitch, hscope⟩
  · rw [hscope]
    exact of_plain rfl rfl rfl
  · rw [hscope]
    exact hbelow
  · rw [hscope]
    refine { hbelow with label := fun other marks hother => ?_ }
    rcases List.mem_append.1 hother with hother | hother
    · exact hbelow.label other marks hother
    obtain ⟨rfl, rfl⟩ := Prod.mk.inj (List.mem_singleton.1 hother)
    refine ⟨id, body, hkind, .child .refl hkind hchild, fun hmarks => ?_⟩
    cases hloop hmarks with
    | loop hkind' hisLoop =>
      obtain rfl := Option.some.inj (hkind'.symm.trans hkind)
      cases hisLoop
    | labeled hkind' hloops =>
      cases Option.some.inj (hkind'.symm.trans hkind)
      exact hloops
  · rw [hscope]
    exact { hbelow with loop := fun _ => ⟨id, kind, hkind, hisLoop, .child .refl hkind hchild⟩ }
  · rw [hscope]
    exact { hbelow with
      switch := fun _ => ⟨id, kind, hkind, hisSwitch, .child .refl hkind hchild⟩ }

end Encloses

/-- Every node of a body stands in a place whose jumps the statements around it allow. -/
theorem Under.enclosed (h : p.Under top id) {place : Place} (hformed : Formed p.nodes place top)
    (hplace : p.Encloses place.scope top) :
    ∃ place', Formed p.nodes place' id ∧ p.Encloses place'.scope id := by
  induction h with
  | refl => exact ⟨place, hformed, hplace⟩
  | @child id n kind _ hkind hn ih =>
    obtain ⟨place', hid, hencloses⟩ := ih
    cases hid with
    | @node _ _ kind' loop parts hkind' hloop hparts hbelow =>
      obtain rfl : kind' = kind := Option.some.inj (hkind'.symm.trans hkind)
      rw [← NodeKind.map_snd_of_parts? hparts] at hn
      obtain ⟨part, hpart, rfl⟩ := List.mem_map.1 hn
      exact ⟨part.1, hbelow part hpart, hencloses.part hkind hloop hparts hpart⟩

/-- What is under a statement that is no jump label of its own is under the loop that its labels
carry. -/
theorem exists_loop_behind {body : NodeId} (hloops : Loops p.nodes body) (h : p.Under body id)
    (hid : ∀ label inner, p.kind? id ≠ some (.labeled label inner)) :
    ∃ loop kind, p.Behind body loop ∧ p.kind? loop = some kind ∧ kind.isLoop = true ∧
      p.Under loop id := by
  induction hloops with
  | @loop body kind hkind hisLoop => exact ⟨body, kind, .refl, hkind, hisLoop, h⟩
  | @labeled body inner label hkind _ ih =>
    rcases h.eq_or_child with rfl | ⟨kind, child, hkind', hchild, hunder⟩
    · exact absurd hkind (hid label inner)
    obtain rfl := Option.some.inj (hkind'.symm.trans hkind)
    obtain rfl := List.mem_singleton.1 hchild
    obtain ⟨loop, kind, hbehind, hloop, hisLoop, hunder⟩ := ih hunder
    refine ⟨loop, kind, ?_, hloop, hisLoop, hunder⟩
    clear hunder hloop
    induction hbehind with
    | refl => exact .label .refl hkind
    | label _ hkind'' ih => exact .label ih hkind''

/-- A body stands where no jump of another body is allowed. -/
theorem Body.formed {hoisted : Hoisted} (h : p.Body top hoisted) (hp : p.Proper) :
    ∃ place, Formed p.nodes place top ∧ p.Encloses place.scope top := by
  cases h with
  | program hkind => exact ⟨.program, hp.root, .of_plain rfl rfl rfl⟩
  | function hkind hfunction =>
    exact ⟨_, (hp.bodied _ _ _ hkind hfunction).formed, .of_plain rfl rfl rfl⟩

/-- Where a jump stands, the statements around it allow it. -/
theorem enclosed_jump (hproper : p.Proper) (hp : p.WellFormed)
    (hroot : ∃ body hoisted, p.kind? p.root = some (.program body hoisted))
    (hkind : p.kind? id = some kind) (hjump : kind.isJump = true) :
    ∃ scope loop parts, p.Encloses scope id ∧ kind.statementParts? scope loop = some parts := by
  obtain ⟨n, hn, -⟩ := kind?_eq_some hkind
  obtain ⟨top, hoisted, hbody, hunder⟩ :=
    hp.exists_body hroot (Array.getElem?_eq_some_iff.1 hn).1
  obtain ⟨place, hformed, hplace⟩ := hbody.formed hproper
  obtain ⟨place', hid, hencloses⟩ := hunder.enclosed hformed hplace
  cases hid with
  | @node _ _ kind' loop parts hkind' hloop hparts hbelow =>
    obtain rfl : kind' = kind := Option.some.inj (hkind'.symm.trans hkind)
    cases place' with
    | statement scope => exact ⟨scope, loop, parts, hencloses, hparts⟩
    | _ =>
      cases kind' with
      | breakStatement label => cases hparts
      | continueStatement label => cases hparts
      | returnStatement argument => cases hparts
      | _ => cases hjump

end Program

open Program

/-- What the parser read is what it hoisted. -/
theorem recorded_of_parse {source : String} {p : Program} (h : parse source = .ok p) :
    (∃ body hoisted, p.kind? p.root = some (.program body hoisted)) ∧
      (∀ top hoisted, p.Body top hoisted → hoisted = ({} : Hoisted).reading p.nodes [top]) ∧
      ∀ id kind function, p.kind? id = some kind → kind.function? = some function →
        function.Recorded p.nodes := by
  obtain ⟨ts, body, t, u, -, ⟨ht, hroot, hnodes⟩, hp⟩ := read_of_parse h
  have hpnodes : p.nodes = u.nodes := by
    rw [hp]
  rw [hnodes] at hpnodes
  generalize Parser.State.spanTo _ t = span at hpnodes
  have hgrown : Grown t.nodes p.nodes := hpnodes ▸ .push _ _
  have hat : p.nodes[p.root]? = some ⟨.program body t.hoisted, span⟩ := by
    rw [hpnodes, hroot]
    exact Array.getElem?_push_size
  have hkind := kind?_of_node hat
  have hrecorded (id : NodeId) (kind : NodeKind) (function : FunctionNode)
      (hk : p.kind? id = some kind) (hfunction : kind.function? = some function) :
      function.Recorded p.nodes := by
    obtain ⟨n, hn, rfl⟩ := kind?_eq_some hk
    obtain ⟨_, _, _, _, -, horigin⟩ := origin_of_parse h hn hfunction
    exact horigin.recorded
  refine ⟨⟨body, t.hoisted, hkind⟩, fun top hoisted hbody => ?_, hrecorded⟩
  cases hbody with
  | program hk =>
    cases Option.some.inj (hk.symm.trans hkind)
    have hlt : ∀ child ∈ body, child < t.nodes.size := ht.toLaid.root_lt
    rw [Hoisted.reading_node hat (hroot ▸ hlt), ht.hoists, ← Hoisted.reading_grown hgrown hlt]
    rfl
  | function hk hfunction => exact (hrecorded _ _ _ hk hfunction).hoisted

/-- Every accepted program records of its scopes what its text says. -/
theorem scoped_of_parse {source : String} {p : Program} (h : parse source = .ok p) : p.Scoped := by
  have hproper := proper_of_parse h
  have hp := (rooted_of_parse h).wellFormed
  obtain ⟨hroot, hhoisted, hrecorded⟩ := recorded_of_parse h
  have hvars {top : NodeId} {hoisted : Hoisted} (hbody : p.Body top hoisted) :
      hoisted.vars = ((outline p.nodes top).filterMap p.declaredName?).eraseDups := by
    rw [hhoisted top hoisted hbody, Hoisted.reading, List.flatMap_singleton, vars_read]
  have hmarked (ids : List NodeId) : (ids.filter (p.marked NodeKind.isDeclarator)).filterMap
      p.declaredName? = ids.filterMap p.declaredName? := by
    rw [List.filterMap_filter]
    apply List.filterMap_congr
    intro id _
    unfold marked declaredName? NodeKind.isDeclarator
    cases p.kind? id with
    | none => rfl
    | some kind => cases hname : kind.declaredName? <;> simp [hname]
  constructor
  case root => exact hroot
  case vars =>
    intro top hoisted hbody
    obtain ⟨place, hformed, -⟩ := hbody.formed hproper
    refine ⟨_, hp.lists_outline (declarators_flat hformed), ?_⟩
    rw [hvars hbody, hmarked]
  case distinct =>
    intro top hoisted hbody
    rw [hvars hbody]
    exact nodup_eraseDups _
  case functions =>
    intro top hoisted hbody
    have hfunctions : hoisted.functions =
        (outline p.nodes top).filter (p.marked NodeKind.isFunctionDeclaration) := by
      rw [hhoisted top hoisted hbody, Hoisted.reading, List.flatMap_singleton, functions_read]
    rw [hfunctions]
    exact hp.lists_outline fun x y _ hmarked hy _ => functionDeclarations_flat x y hmarked hy
  case params => exact fun id kind function hkind hfunction => (hrecorded _ _ _ hkind hfunction).params
  case breaks =>
    intro id hkind
    obtain ⟨scope, loop, parts, hencloses, hparts⟩ := enclosed_jump hproper hp hroot hkind rfl
    obtain ⟨hallowed, -⟩ := Option.ite_none_right_eq_some.1 hparts
    rcases Bool.or_eq_true_iff.1 hallowed with hloop | hswitch
    · obtain ⟨s, kind, hs, hP, hunder⟩ := hencloses.loop hloop
      exact ⟨s, kind, hs, .inl hP, hunder⟩
    · obtain ⟨s, kind, hs, hP, hunder⟩ := hencloses.switch hswitch
      exact ⟨s, kind, hs, .inr hP, hunder⟩
  case continues =>
    intro id hkind
    obtain ⟨scope, loop, parts, hencloses, hparts⟩ := enclosed_jump hproper hp hroot hkind rfl
    obtain ⟨hallowed, -⟩ := Option.ite_none_right_eq_some.1 hparts
    exact hencloses.loop hallowed
  case labelledBreaks =>
    intro id label hkind
    obtain ⟨scope, loop, parts, hencloses, hparts⟩ := enclosed_jump hproper hp hroot hkind rfl
    obtain ⟨hallowed, -⟩ := Option.ite_none_right_eq_some.1 hparts
    obtain ⟨⟨other, marks⟩, hmem, heq⟩ := List.any_eq_true.1 hallowed
    obtain rfl := eq_of_beq heq
    obtain ⟨s, body, hs, hunder, -⟩ := hencloses.label _ marks hmem
    exact ⟨s, _, hs, ⟨body, rfl⟩, hunder⟩
  case labelledContinues =>
    intro id label hkind
    obtain ⟨scope, loop, parts, hencloses, hparts⟩ := enclosed_jump hproper hp hroot hkind rfl
    obtain ⟨hallowed, -⟩ := Option.ite_none_right_eq_some.1 hparts
    obtain ⟨s, body, hs, hunder, hloops⟩ :=
      hencloses.label label true (List.contains_iff_mem.1 hallowed)
    have hid (other : String) (inner : NodeId) : p.kind? id ≠ some (.labeled other inner) := by
      rw [hkind]
      exact fun h => by cases h
    have hbelow : p.Under body id := by
      rcases hunder.eq_or_child with rfl | ⟨kind, child, hs', hchild, hunder⟩
      · exact absurd hs (hid label body)
      · cases Option.some.inj (hs'.symm.trans hs)
        exact List.mem_singleton.1 hchild ▸ hunder
    obtain ⟨loop, kind, hbehind, hloop, hisLoop, hunder⟩ :=
      exists_loop_behind (hloops rfl) hbelow hid
    exact ⟨s, body, loop, kind, hs, hbehind, hloop, hisLoop, hunder⟩
  case returns =>
    intro id argument hkind
    obtain ⟨n, hn, -⟩ := kind?_eq_some hkind
    obtain ⟨top, hoisted, hbody, hunder⟩ :=
      hp.exists_body hroot (Array.getElem?_eq_some_iff.1 hn).1
    cases hbody with
    | program _ => exact absurd hkind (hproper.not_return_under_root hunder argument)
    | function hf hfunction => exact ⟨_, _, _, hf, hfunction, hunder⟩

theorem scoped_of_parse_labelled :
    ∃ p body, parse "var a; f: for (var k in a) \x7b continue f; var a \x7d function g(x) \x7b var z \x7d" =
        .ok p ∧
      p.kind? p.root = some (.program body ⟨["a", "k"], [14]⟩) ∧ p.Scoped := by
  have hroot : (parse
      "var a; f: for (var k in a) \x7b continue f; var a \x7d function g(x) \x7b var z \x7d").toOption.bind
        (fun p => p.kind? p.root) = some (.program [1, 10, 14] ⟨["a", "k"], [14]⟩) := by
    decide +kernel
  cases h : parse
      "var a; f: for (var k in a) \x7b continue f; var a \x7d function g(x) \x7b var z \x7d" with
  | error e =>
    rw [h] at hroot
    cases hroot
  | ok p =>
    rw [h] at hroot
    exact ⟨p, _, rfl, hroot, scoped_of_parse h⟩

end ScriptMachine.Tree
