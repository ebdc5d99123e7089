import ScriptMachine.Proofs.Plain
import ScriptMachine.Proofs.Tree.Grammar

/-!
# What a step leaves of its frame

A frame that is stepped goes on with the node that it evaluates, in its scope and for the same use:
only a frame that is asked for a place gives one. What a node has evaluated runs in that scope too, but
for a handler, which gets a scope of its own. The frame of an array or object literal holds the object
that it is building.
-/

namespace ScriptMachine

open Exec
open Tree (NodeId NodeKind)

/-- The frame is building an object for a literal. -/
def Frame.Builds (f : Frame) (id : ObjectId) : Prop := f.info = .object id

/-- A frame evaluates what another one evaluates, in the same scope and for the same use. What it
builds is what the other one builds, or new. -/
structure Frame.GoesOn (made : ObjectId → Prop) (f g : Frame) : Prop where
  node : g.node = f.node
  wantRef : g.wantRef = f.wantRef
  scope : g.scope = f.scope
  builds : ∀ id, g.Builds id → f.Builds id ∨ made id

namespace Frame

variable {made : ObjectId → Prop} {f g : Frame} {id : ObjectId}

/-- A frame that has just been made for a node. -/
theorem not_builds_of_none (h : f.info = .none) (id : ObjectId) : ¬ f.Builds id := by
  intro hid
  cases h.symm.trans hid

theorem not_builds_of_call {call : CallInfo} (h : f.info = .call call) (id : ObjectId) :
    ¬ f.Builds id := by
  intro hid
  cases h.symm.trans hid

namespace GoesOn

/-- The frame is as far as it is, whatever value and place it was handed. -/
theorem of_info (h : g = { f with
    step := g.step, value := g.value, reference := g.reference, isLoop := g.isLoop
    isSwitch := g.isSwitch }) : f.GoesOn made g := by
  rw [h]
  exact ⟨rfl, rfl, rfl, fun _ => .inl⟩

theorem trans {e : Frame} (h : f.GoesOn made g) (h' : g.GoesOn made e) : f.GoesOn made e where
  node := h'.node.trans h.node
  wantRef := h'.wantRef.trans h.wantRef
  scope := h'.scope.trans h.scope
  builds := fun id hid => (h'.builds id hid).elim (h.builds id) .inr

end GoesOn

end Frame

namespace Step

/-- The frames that a step leaves on the stack. -/
def frames : Step → List Frame
  | push f child => [child, f]
  | stay f => [f]
  | suspend f => [f]
  | _ => []

/-- A step leaves frames that go on for the frame that is stepped, and gives a place only if that was
asked for one. What it has evaluated runs in a scope of a kind. -/
def Leads (made : ObjectId → Prop) (inside : ScopeId → Prop) (f : Frame) : Step → Prop
  | push g child => f.GoesOn made g ∧ inside child.scope ∧ ∀ id, ¬ child.Builds id
  | stay g => f.GoesOn made g
  | suspend g => f.GoesOn made g
  | ref _ => f.wantRef = true
  | done _ => True
  | unwind _ => True

variable {made : ObjectId → Prop} {inside : ScopeId → Prop} {f g child : Frame}

theorem leads_push (hg : f.GoesOn made g) (hscope : inside child.scope)
    (hchild : ∀ id, ¬ child.Builds id) : (push g child).Leads made inside f := ⟨hg, hscope, hchild⟩

theorem leads_enter (hg : f.GoesOn made g) (here : NodeRef) (node : Tree.NodeId) :
    (enter g here node).Leads made (· = f.scope) f :=
  leads_push hg hg.scope (Frame.not_builds_of_none rfl)

theorem Leads.mono {made' : ObjectId → Prop} {inside' : ScopeId → Prop} {step : Step}
    (h : step.Leads made inside f) (hmade : ∀ id, made id → made' id)
    (hinside : ∀ id, inside id → inside' id) : step.Leads made' inside' f := by
  have hgoes {g : Frame} (hg : f.GoesOn made g) : f.GoesOn made' g :=
    ⟨hg.node, hg.wantRef, hg.scope, fun id hid => (hg.builds id hid).imp_right (hmade id)⟩
  cases step with
  | push g child => exact ⟨hgoes h.1, hinside _ h.2.1, h.2.2⟩
  | stay g => exact hgoes h
  | suspend g => exact hgoes h
  | _ => exact h

/-- A step of a frame that goes on for another one. -/
theorem Leads.of_goesOn {step : Step} (h : step.Leads made inside g) (hg : f.GoesOn made g) :
    step.Leads made inside f := by
  cases step with
  | push e child => exact ⟨hg.trans h.1, h.2⟩
  | stay e => exact hg.trans h
  | suspend e => exact hg.trans h
  | ref r => exact hg.wantRef.symm.trans h
  | done v => exact trivial
  | unwind c => exact trivial

theorem Leads.away {step : Step} (h : step.Leads made inside f) : step.Leads made (fun _ => True) f :=
  h.mono (fun _ => id) fun _ _ => trivial

theorem leads_done (v : Value) : (done v).Leads made inside f := trivial

theorem leads_unwind (c : Completion) : (unwind c).Leads made inside f := trivial

end Step

/-! ## What an operation gives -/

namespace Exec

variable {α β : Type} {P : α → Prop} {Q : β → Prop}

/-- Whatever an operation gives is as described. -/
def Provides (P : α → Prop) (x : Exec α) : Prop := ∀ m a m', x m = .ok a m' → P a

theorem provides_pure {a : α} (h : P a) : Provides P (pure a) := by
  intro m b m' hrun
  cases hrun
  exact h

theorem provides_throw (e : Failure) : Provides P (throw e) := by
  intro m a m' hrun
  cases hrun

theorem Provides.bind {x : Exec α} {k : α → Exec β} (hx : Provides P x)
    (hk : ∀ a, P a → Provides Q (k a)) : Provides Q (x >>= k) := by
  intro m b m' hrun
  obtain ⟨a, n, hrun, hlast⟩ := bind_eq_ok_iff.1 hrun
  exact hk a (hx m a n hrun) n b m' hlast

theorem Provides.mono {Q : α → Prop} {x : Exec α} (hx : Provides P x) (h : ∀ a, P a → Q a) :
    Provides Q x := fun m a m' hrun => h a (hx m a m' hrun)

theorem provides_bind (x : Exec α) {k : α → Exec β} (hk : ∀ a, Provides Q (k a)) :
    Provides Q (x >>= k) := by
  have hx : Provides (fun _ => True) x := fun _ _ _ _ => trivial
  exact hx.bind fun a _ => hk a

/-- What comes second depends on what the first gave. -/
theorem provided_by_bind {x : Exec α} {k : α → Exec β} {m m' : Machine} {b : β}
    (hrun : (x >>= k) m = .ok b m') (hk : ∀ a n, x m = .ok a n → Provides Q (k a)) : Q b := by
  obtain ⟨a, n, hx, hlast⟩ := bind_eq_ok_iff.1 hrun
  exact hk a n hx n b m' hlast

theorem provides_query {r : Machine → Except Failure α} (h : ∀ m a, r m = .ok a → P a) :
    Provides P (query r) :=
  fun m a _ hrun => h m a (query_eq_ok_iff.1 hrun).1

end Exec

/-! ## What the step of a node asks for -/

/-- What the frame of a node may hold, but for the progress of a try statement. -/
def FrameInfo.isPlain : FrameInfo → Bool
  | .call _ => false
  | .try _ _ => false
  | _ => true

/-- The labels of a child: the body of a labelled statement carries the labels of all statements
around it. -/
def Stack.childLabels : NodeKind → List String → List String
  | .labeled label _, labels => labels ++ [label]
  | _, _ => []

/-- The completions that a jump raises. -/
def Tree.NodeKind.Raises (kind : NodeKind) (c : Completion) : Prop :=
  match kind with
  | .breakStatement label => c.kind = .break ∧ c.label = label
  | .continueStatement label => c.kind = .continue ∧ c.label = label
  | .returnStatement _ => c.kind = .return
  | _ => False

namespace Frame

/-- The frame goes on in its place. -/
structure Continues (f g : Frame) : Prop where
  node : g.node = f.node
  scope : g.scope = f.scope
  labels : g.labels = f.labels

/-- A frame goes on in its place: what it holds, but for the progress of a try statement, may have
changed. -/
structure Moves (f g : Frame) : Prop extends f.Continues g where
  info : g.info = f.info ∨ g.info.isPlain = true
  isLoop : g.isLoop = f.isLoop
  isSwitch : g.isSwitch = f.isSwitch

/-- The frame of a call in a scope. -/
def IsCall (scope : ScopeId) (g : Frame) : Prop := ∃ info, g = .ofCall scope info

/-- The frame of a node that has not been stepped. -/
structure Begins (node : NodeRef) (scope : ScopeId) (labels : List String) (g : Frame) : Prop where
  node : g.node = some node
  scope : g.scope = scope
  labels : g.labels = labels
  step : g.step = 0
  info : g.info = .none
  isLoop : g.isLoop = false
  isSwitch : g.isSwitch = false

/-- A frame with the marks by which jumps find loops and switches: those it has, and those that the
first step of a node gives it. -/
def marked (kind : NodeKind) (f : Frame) : Frame :=
  { f with
    isLoop := kind.isLoop && f.step == 0 || f.isLoop
    isSwitch := kind.isSwitch && f.step == 0 || f.isSwitch }

/-- The frame of a node of some kind goes on in its place, with the marks of a first step and for the
use that it has. What it builds it has been building, or it is new. -/
structure Advances (made : ObjectId → Prop) (kind : NodeKind) (f g : Frame) : Prop
    extends (f.marked kind).Moves g where
  wantRef : g.wantRef = f.wantRef
  builds : ∀ id, g.Builds id → f.Builds id ∨ made id

variable {made : ObjectId → Prop} {kind : NodeKind} {f g : Frame}

/-- Only a first step gives marks. -/
theorem marked_of_step (h : f.step ≠ 0) : f.marked kind = f := by
  simp only [marked, beq_eq_false_iff_ne.2 h, Bool.and_false, Bool.false_or]

namespace Advances

theorem refl (h : f.marked kind = f) : f.Advances made kind f where
  toMoves := by
    rw [h]
    exact ⟨⟨rfl, rfl, rfl⟩, .inl rfl, rfl, rfl⟩
  wantRef := rfl
  builds _ := .inl

theorem loop (h : f.step = 0) (hloop : kind.isLoop = true)
    (hswitch : kind.isSwitch = false) :
    f.Advances made kind { f with isLoop := true } :=
  ⟨⟨⟨rfl, rfl, rfl⟩, .inl rfl, by simp [marked, h, hloop], by simp [marked, hswitch]⟩, rfl,
    fun _ => .inl⟩

theorem switch (h : f.step = 0) (hloop : kind.isLoop = false)
    (hswitch : kind.isSwitch = true) :
    f.Advances made kind { f with isSwitch := true } :=
  ⟨⟨⟨rfl, rfl, rfl⟩, .inl rfl, by simp [marked, hloop], by simp [marked, h, hswitch]⟩, rfl,
    fun _ => .inl⟩

/-- The step count and what the last child gave do not matter. -/
theorem set (h : f.Advances made kind g) (step : Nat) (value : Value)
    (reference : Option Reference) : f.Advances made kind { g with step, value, reference } :=
  ⟨⟨⟨h.node, h.scope, h.labels⟩, h.info, h.isLoop, h.isSwitch⟩, h.wantRef, h.builds⟩

theorem hold (h : f.Advances made kind g) {info : FrameInfo} (hinfo : info.isPlain = true)
    (hbuilds : ∀ id, info = .object id → made id) {step : Nat} {value : Value}
    {reference : Option Reference} :
    f.Advances made kind { g with info, step, value, reference } :=
  ⟨⟨⟨h.node, h.scope, h.labels⟩, .inr hinfo, h.isLoop, h.isSwitch⟩, h.wantRef,
    fun id hid => .inr (hbuilds id hid)⟩

theorem pushOperand (h : f.Advances made kind g) (v : Value) :
    f.Advances made kind (g.pushOperand v) := by
  unfold Frame.pushOperand
  split <;> exact h.hold rfl (by nofun)

theorem setOperand (h : f.Advances made kind g) (i : Nat) (v : Value) :
    f.Advances made kind (g.setOperand i v) := by
  unfold Frame.setOperand
  split
  · exact h.hold rfl (by nofun)
  · exact h

theorem dropOperands (h : f.Advances made kind g) : f.Advances made kind g.dropOperands := by
  unfold Frame.dropOperands
  split
  · exact h.hold rfl (by nofun)
  · exact h

theorem goesOn (h : f.Advances made kind g) : f.GoesOn made g :=
  ⟨h.node, h.wantRef, h.scope, h.builds⟩

end Advances

theorem IsCall.not_builds {scope : ScopeId} (h : g.IsCall scope) (id : ObjectId) :
    ¬ g.Builds id := by
  obtain ⟨info, rfl⟩ := h
  exact not_builds_of_call rfl id

theorem IsCall.scope_eq {scope : ScopeId} (h : g.IsCall scope) : g.scope = scope := by
  obtain ⟨info, rfl⟩ := h
  rfl

end Frame

namespace Step

/-- What a step of a node asks for: it goes on in its place, has a child or a call evaluated, ends
with a throw, or is a jump. -/
def Pursues (kind : NodeKind) (here : NodeRef) (f : Frame) : Step → Prop
  | .push f' g => f.Moves f' ∧ (g.IsCall f.scope ∨ ∃ n ∈ kind.children,
      g.Begins { here with node := n } f.scope (Stack.childLabels kind f.labels))
  | .stay f' => f.Moves f'
  | .done _ => True
  | .ref _ => True
  | .unwind c => c.kind = .throw ∨ kind.Raises c
  | .suspend _ => False

/-- What a step of a node that is no try statement asks for and leaves. -/
def Advances (made : ObjectId → Prop) (kind : NodeKind) (here : NodeRef) (f : Frame) : Step → Prop
  | .push f' g => f.Advances made kind f' ∧ (g.IsCall f.scope ∨ ∃ n ∈ kind.children,
      g.Begins { here with node := n } f.scope (Stack.childLabels kind f.labels))
  | .stay f' => f.Advances made kind f'
  | .done _ => True
  | .ref _ => f.wantRef = true
  | .unwind c => c.kind = .throw ∨ kind.Raises c
  | .suspend _ => False

variable {made : ObjectId → Prop} {kind : NodeKind} {here : NodeRef} {f g : Frame} {n : NodeId}
  {step : Step}

theorem Advances.pursues (h : step.Advances made kind here f) :
    step.Pursues kind here (f.marked kind) := by
  cases step with
  | push g child => exact ⟨h.1.toMoves, h.2⟩
  | stay g => exact h.toMoves
  | ref r => trivial
  | _ => exact h

theorem Advances.leads (h : step.Advances made kind here f) : step.Leads made (· = f.scope) f := by
  cases step with
  | push g child =>
    refine ⟨h.1.goesOn, ?_⟩
    rcases h.2 with hcall | ⟨n, -, hbegins⟩
    · exact ⟨hcall.scope_eq, hcall.not_builds⟩
    · exact ⟨hbegins.scope, Frame.not_builds_of_none hbegins.info⟩
  | stay g => exact h.goesOn
  | suspend g => exact h.elim
  | ref r => exact h
  | _ => trivial

theorem advances_enter (hg : f.Advances made kind g)
    (hn : n ∈ kind.children)
    (hlabels : Stack.childLabels kind f.labels = []) :
    (enter g here n).Advances made kind here f :=
  ⟨hg, .inr ⟨n, hn, rfl, hg.scope, hlabels.symm, rfl, rfl, rfl, rfl⟩⟩

theorem advances_enterRef (hg : f.Advances made kind g)
    (hn : n ∈ kind.children)
    (hlabels : Stack.childLabels kind f.labels = []) :
    (enterRef g here n).Advances made kind here f :=
  ⟨hg, .inr ⟨n, hn, rfl, hg.scope, hlabels.symm, rfl, rfl, rfl, rfl⟩⟩

end Step

namespace Machine

open Step
open ScriptMachine.Tree (BinaryOp)

variable {made : ObjectId → Prop} {kind : NodeKind} {here : NodeRef} {f g : Frame}

/-- An operation gives steps that the frame of a node goes on with. -/
abbrev Advancing (made : ObjectId → Prop) (kind : NodeKind) (here : NodeRef) (f : Frame)
    (x : Exec Step) : Prop :=
  Provides (Step.Advances made kind here f) x

theorem isCall_of_toPrimitiveFrame {m : Machine} {v : Value} {hint : Hint} {scope : ScopeId}
    {child : Frame} (h : m.toPrimitiveFrame v hint scope = .ok child) : child.IsCall scope := by
  unfold toPrimitiveFrame at h
  cases hfunc : m.toPrimitiveFunction with
  | error e =>
    rw [hfunc] at h
    cases h
  | ok func =>
    rw [hfunc] at h
    cases h
    exact ⟨_, rfl⟩

theorem provides_toPrimitiveFrame (v : Value) (hint : Hint) (scope : ScopeId) :
    Provides (·.IsCall scope) (query fun m => m.toPrimitiveFrame v hint scope) :=
  provides_query fun _ _ h => isCall_of_toPrimitiveFrame h

/-- A value is converted by a call on top of the frame. -/
theorem advancing_convert (hg : f.Advances made kind g) (v : Value) (hint : Hint) :
    Advancing made kind here f
      (do return .push g (← query fun m => m.toPrimitiveFrame v hint f.scope)) :=
  (provides_toPrimitiveFrame v hint _).bind fun _ hchild => provides_pure ⟨hg, .inl hchild⟩

/-! ### Operators -/

/-- A conversion that an operator asks for is a call on top of its frame. -/
def Combined.Advances (made : ObjectId → Prop) (kind : NodeKind) (f : Frame) : Combined → Prop
  | .value _ => True
  | .convert g child => f.Advances made kind g ∧ child.IsCall f.scope

theorem provides_combineRight (op : BinaryOp) (hg : f.Advances made kind g) :
    Provides (Combined.Advances made kind f) (combineRight op g) := by
  unfold combineRight
  dsimp only
  split
  · refine (provides_toPrimitiveFrame _ _ g.scope).bind fun child hchild => provides_pure ?_
    exact ⟨hg.set _ _ _, hg.scope ▸ hchild⟩
  · exact provides_bind _ fun _ => provides_pure trivial

theorem provides_combine (op : BinaryOp) (hg : f.Advances made kind g) :
    Provides (Combined.Advances made kind f) (combine op g) := by
  unfold combine
  split
  · split
    · refine (provides_toPrimitiveFrame _ _ g.scope).bind fun child hchild => provides_pure ?_
      exact ⟨hg.set _ _ _, hg.scope ▸ hchild⟩
    · exact provides_combineRight op hg
  · exact provides_combineRight op ((hg.setOperand _ _).set _ _ _)
  · exact provides_bind _ fun _ => provides_pure trivial

theorem provides_collectRight (op : BinaryOp) (hg : f.Advances made kind g) :
    Provides (Combined.Advances made kind f) (collectRight op g) := by
  unfold collectRight
  split
  · exact provides_combine op ((hg.pushOperand _).set _ _ _)
  · exact provides_combine op hg

theorem advancing_stepBinary (op : BinaryOp) (left right : NodeId) :
    Advancing made (.binary op left right) here f (stepBinary f here op left right) := by
  have hf : f.Advances made (.binary op left right) f := .refl rfl
  unfold stepBinary
  split
  · exact provides_pure (advances_enter (hf.set _ _ _) (by simp [NodeKind.children]) rfl)
  · exact provides_pure (advances_enter ((hf.pushOperand _).set _ _ _)
      (by simp [NodeKind.children]) rfl)
  · refine (provides_collectRight op hf).bind fun c hc => ?_
    cases c with
    | value v => exact provides_pure trivial
    | convert g child => exact provides_pure ⟨hc.1, .inl hc.2⟩

theorem advances_stepLogical (op : Tree.LogicalOp) (left right : NodeId) :
    (stepLogical f here op left right).Advances made (.logical op left right) here f := by
  have hf : f.Advances made (.logical op left right) f := .refl rfl
  unfold stepLogical
  split
  · exact advances_enter (hf.set _ _ _) (by simp [NodeKind.children]) rfl
  · extract_lets decided
    split
    · trivial
    · exact advances_enter (hf.set _ _ _) (by simp [NodeKind.children]) rfl
  · trivial

theorem advancing_stepAssignment (op : Tree.AssignmentOp) (target value : NodeId) :
    Advancing made (.assignment op target value) here f
      (stepAssignment f here op target value) := by
  have hf : f.Advances made (.assignment op target value) f := .refl rfl
  unfold stepAssignment
  split
  · exact provides_pure (advances_enterRef (hf.set _ _ _) (by simp [NodeKind.children]) rfl)
  · split
    · refine provides_bind _ fun r => provides_bind _ fun old => provides_pure ?_
      exact advances_enter ((hf.pushOperand _).set _ _ _) (by simp [NodeKind.children]) rfl
    · exact provides_pure (advances_enter (hf.set _ _ _) (by simp [NodeKind.children]) rfl)
  · extract_lets store
    have hstore (v : Value) : Advancing made (.assignment op target value) here f (store v) :=
      provides_bind _ fun r => provides_bind _ fun _ => provides_pure trivial
    split
    · exact hstore _
    · refine (provides_collectRight _ hf).bind fun c hc => ?_
      cases c with
      | value v => exact hstore v
      | convert g child => exact provides_pure ⟨hc.1, .inl hc.2⟩

theorem advancing_stepUpdate (op : Tree.UpdateOp) (before : Bool) (argument : NodeId) :
    Advancing made (.update op before argument) here f (stepUpdate f here op before argument) := by
  have hf : f.Advances made (.update op before argument) f := .refl rfl
  unfold stepUpdate
  split
  · exact provides_pure (advances_enterRef (hf.set _ _ _) (by simp [NodeKind.children]) rfl)
  · refine provides_bind _ fun r => provides_bind _ fun old => ?_
    split
    · exact advancing_convert (hf.set _ _ _) _ _
    · exact provides_pure (hf.set _ _ _)
  · exact provides_bind _ fun r => provides_bind _ fun _ => provides_pure trivial

theorem advances_startUnary (operand : NodeKind) (op : Tree.UnaryOp) (argument : NodeId) :
    (startUnary f here operand op argument).Advances made (.unary op argument) here f := by
  have hf : f.Advances made (.unary op argument) { f with step := 1 } :=
    Frame.Advances.set (.refl rfl) _ _ _
  unfold startUnary
  dsimp only
  split
  · exact advances_enterRef hf (by simp [NodeKind.children]) rfl
  · trivial
  · split
    · exact advances_enterRef hf (by simp [NodeKind.children]) rfl
    · exact advances_enter hf (by simp [NodeKind.children]) rfl
  · exact advances_enter hf (by simp [NodeKind.children]) rfl

theorem advancing_finishNumeric (apply : Float → Value) (hf : f.Advances made kind f) :
    Advancing made kind here f (finishNumeric f apply) := by
  unfold finishNumeric
  split
  · exact advancing_convert (hf.set _ _ _) _ _
  · exact provides_pure trivial

theorem advancing_stepUnary (program : Tree.Program) (op : Tree.UnaryOp) (argument : NodeId) :
    Advancing made (.unary op argument) here f (stepUnary f here program op argument) := by
  unfold stepUnary
  split
  · exact provides_bind _ fun kind => provides_pure (advances_startUnary kind op argument)
  · split
    · unfold finishTypeof
      split
      · exact provides_pure trivial
      · exact provides_bind _ fun _ => provides_bind _ fun _ => provides_pure trivial
      · exact provides_bind _ fun _ => provides_pure trivial
    · unfold finishDelete
      split
      · exact provides_bind _ fun _ => provides_bind _ fun _ => provides_pure trivial
      · split
        · exact provides_throw _
        · exact provides_pure trivial
      · exact provides_pure trivial
    · exact provides_pure trivial
    · exact provides_pure trivial
    · exact advancing_finishNumeric _ (.refl rfl)
    · exact advancing_finishNumeric _ (.refl rfl)
    · exact advancing_finishNumeric _ (.refl rfl)

/-! ### Functions, names, members and calls -/

theorem advancing_stepFunction (function : Tree.FunctionNode) :
    Advancing made kind here f (stepFunction f here function) := by
  refine provides_bind _ fun owner => ?_
  split
  · exact provides_bind _ fun _ => provides_pure trivial
  · refine provides_bind _ fun scope => provides_bind _ fun func => provides_bind _ fun _ => ?_
    exact provides_pure trivial

theorem advancing_stepIdentifier (name : String) :
    Advancing made kind here f (stepIdentifier f name) := by
  unfold stepIdentifier
  split
  · exact provides_bind _ fun _ => provides_pure ‹_›
  · exact provides_bind _ fun _ => provides_pure trivial

theorem advancing_finishMember (base : Value) (key : String) :
    Advancing made kind here f (finishMember f base key) := by
  unfold finishMember
  split
  · exact provides_pure ‹_›
  · exact provides_bind _ fun _ => provides_bind _ fun _ => provides_pure trivial

theorem advancing_stepMember (object : NodeId) (property : Tree.MemberProperty) :
    Advancing made (.member object property) here f (stepMember f here object property) := by
  have hf : f.Advances made (.member object property) f := .refl rfl
  unfold stepMember
  split
  · refine provides_pure (advances_enter (hf.set _ _ _) ?_ rfl)
    cases property <;> exact List.mem_cons_self
  · split
    · exact advancing_finishMember _ _
    · exact provides_pure (advances_enter ((hf.pushOperand _).set _ _ _)
        (by simp [NodeKind.children]) rfl)
  · split
    · exact advancing_convert (hf.set _ _ _) _ _
    · exact advancing_finishMember _ _
  · exact advancing_finishMember _ _

section Calls

variable {callee : NodeId} {arguments : List NodeId} (hkind : kind.children = callee :: arguments)
  (hlabels : Stack.childLabels kind f.labels = [])

include hkind hlabels

/-- A call and a construction evaluate the callee and the arguments. -/
theorem advancing_stepArguments (hg : f.Advances made kind g) (program : Tree.Program)
    (construct : Bool) :
    Advancing made kind here f (stepArguments g here program callee arguments construct) := by
  unfold stepArguments
  extract_lets index collected
  have hcollected : f.Advances made kind collected := by
    dsimp only [collected]
    split
    · exact (hg.pushOperand _).set _ _ _
    · exact hg
  split
  · rename_i argument hargument
    have hn : argument ∈ kind.children :=
      hkind ▸ List.mem_cons_of_mem _ (List.mem_of_getElem? hargument)
    exact provides_pure (advances_enter (hcollected.set _ _ _) hn hlabels)
  · refine provides_bind _ fun m => ?_
    split
    · exact provides_pure ⟨hcollected.dropOperands.set _ _ _,
        .inl ⟨_, congrArg (Frame.ofCall · _) hcollected.scope⟩⟩
    · exact provides_throw _

theorem advancing_stepCallExpression (hf : f.Advances made kind f) (program : Tree.Program)
    (construct : Bool) :
    Advancing made kind here f (stepCallExpression f here program callee arguments construct) := by
  have hcallee : callee ∈ kind.children := by simp [hkind]
  unfold stepCallExpression
  split
  · exact provides_pure trivial
  · split
    · refine provides_bind _ fun operand => ?_
      dsimp only
      split
      · exact provides_pure (advances_enterRef (hf.set _ _ _) hcallee hlabels)
      · exact provides_pure (advances_enter (hf.set _ _ _) hcallee hlabels)
    · refine provides_bind _ fun found => ?_
      refine advancing_stepArguments hkind hlabels ?_ program construct
      refine Frame.Advances.set (.pushOperand (.pushOperand ?_ _) _) _ _ _
      split <;> exact hf.set _ _ _
    · exact advancing_stepArguments hkind hlabels hf program construct

end Calls

theorem advances_stepConditional (test consequent alternate : NodeId) :
    (stepConditional f here test consequent alternate).Advances made
      (.conditional test consequent alternate) here f := by
  have hf : f.Advances made (.conditional test consequent alternate) f := .refl rfl
  unfold stepConditional
  split
  · exact advances_enter (hf.set _ _ _) (by simp [NodeKind.children]) rfl
  · refine advances_enter (hf.set _ _ _) ?_ rfl
    split <;> simp [NodeKind.children]
  · trivial

/-! ### Statements -/

/-- The children of a node one after another. -/
theorem advances_stepList (kind : NodeKind) (hf : f.Advances made kind f)
    (hlabels : Stack.childLabels kind f.labels = []) :
    (stepList f here kind.children).Advances made kind here f := by
  unfold stepList
  split
  · exact advances_enter (hf.set _ _ _) (List.mem_of_getElem? ‹_›) hlabels
  · trivial

theorem advances_stepSequence (expressions : List NodeId) :
    (stepSequence f here expressions).Advances made (.sequence expressions) here f := by
  unfold stepSequence
  split
  · exact advances_enter (Frame.Advances.set (.refl rfl) _ _ _) (List.mem_of_getElem? ‹_›) rfl
  · trivial

theorem advancing_stepProgram (body : List NodeId) (hoisted : Tree.Hoisted) :
    Advancing made (.program body hoisted) here f (stepProgram f here body hoisted) := by
  unfold stepProgram
  split
  · exact provides_bind _ fun _ => provides_pure (Frame.Advances.hold (.refl rfl) rfl (by nofun))
  · split
    · exact provides_pure
        (advances_enter (Frame.Advances.set (.refl rfl) _ _ _) (List.mem_of_getElem? ‹_›) rfl)
    · split <;> exact provides_pure trivial

theorem advancing_stepExpressionStatement (thread : ThreadId) (expression : NodeId) :
    Advancing made (.expressionStatement expression) here f
      (stepExpressionStatement thread f here expression) := by
  unfold stepExpressionStatement
  split
  · exact provides_pure (advances_enter (Frame.Advances.set (.refl rfl) _ _ _)
      (by simp [NodeKind.children]) rfl)
  · exact provides_bind _ fun _ => provides_pure trivial

theorem advancing_stepDeclarator (name : String) (init : Option NodeId) :
    Advancing made (.varDeclarator name init) here f (stepDeclarator f here name init) := by
  unfold stepDeclarator
  split
  · exact provides_pure (advances_enter (Frame.Advances.set (.refl rfl) _ _ _)
      (by simp [NodeKind.children]) rfl)
  · exact provides_pure trivial
  · exact provides_bind _ fun _ => provides_pure trivial

theorem advances_stepIf (test consequent : NodeId) (alternate : Option NodeId) :
    (stepIf f here test consequent alternate).Advances made
      (.ifStatement test consequent alternate) here f := by
  have hf : f.Advances made (.ifStatement test consequent alternate) f := .refl rfl
  unfold stepIf
  split
  · exact advances_enter (hf.set _ _ _) (by simp [NodeKind.children]) rfl
  · dsimp only
    split
    · exact advances_enter (hf.set _ _ _) (by simp [NodeKind.children]) rfl
    · split
      · exact advances_enter (hf.set _ _ _) (by simp [NodeKind.children]) rfl
      · trivial
  · trivial

theorem advances_stepLabeled (label : String) (body : NodeId) :
    (stepLabeled f here label body).Advances made (.labeled label body) here f := by
  unfold stepLabeled
  split
  · exact ⟨Frame.Advances.set (.refl rfl) _ _ _,
      .inr ⟨body, by simp [NodeKind.children], rfl, rfl, rfl, rfl, rfl, rfl, rfl⟩⟩
  · trivial

theorem advances_stepReturn (argument : Option NodeId) :
    (stepReturn f here argument).Advances made (.returnStatement argument) here f := by
  unfold stepReturn
  split
  · exact advances_enter (Frame.Advances.set (.refl rfl) _ _ _) (by simp [NodeKind.children]) rfl
  · exact .inr rfl

theorem advances_stepThrow (argument : NodeId) :
    (stepThrow f here argument).Advances made (.throwStatement argument) here f := by
  unfold stepThrow
  split
  · exact advances_enter (Frame.Advances.set (.refl rfl) _ _ _) (by simp [NodeKind.children]) rfl
  · exact .inl rfl

/-! ### Loops

A loop is marked at its first step and bears the mark from then on. -/

theorem advancing_stepWhile (thread : ThreadId) (test body : NodeId) :
    Advancing made (.whileStatement test body) here f (stepWhile thread f here test body) := by
  unfold stepWhile
  split
  · have hfirst : f.Advances made (.whileStatement test body) { f with isLoop := true } :=
        .loop ‹_› rfl rfl
    exact provides_bind _ fun _ =>
      provides_pure (advances_enter (hfirst.set _ _ _) (by simp [NodeKind.children]) rfl)
  · have hf : f.Advances made (.whileStatement test body) f := .refl (Frame.marked_of_step ‹_›)
    split
    · exact provides_pure (advances_enter (hf.set _ _ _) (by simp [NodeKind.children]) rfl)
    · exact provides_pure trivial

theorem advancing_stepDoWhile (thread : ThreadId) (body test : NodeId) :
    Advancing made (.doWhileStatement body test) here f (stepDoWhile thread f here body test) := by
  have hf (h : f.step ≠ 0) : f.Advances made (.doWhileStatement body test) f :=
    .refl (Frame.marked_of_step h)
  unfold stepDoWhile
  split
  · have hfirst : f.Advances made (.doWhileStatement body test) { f with isLoop := true } :=
        .loop ‹_› rfl rfl
    exact provides_pure (advances_enter (hfirst.set _ _ _) (by simp [NodeKind.children]) rfl)
  · have hf := hf (by omega)
    exact provides_bind _ fun _ => provides_pure (advances_enter (hf.set _ _ _)
      (by simp [NodeKind.children]) rfl)
  · have hf := hf ‹_›
    split
    · exact provides_pure (advances_enter (hf.set _ _ _) (by simp [NodeKind.children]) rfl)
    · exact provides_pure trivial

theorem advancing_stepFor (thread : ThreadId) (init test update : Option NodeId) (body : NodeId) :
    Advancing made (.forStatement init test update body) here f
      (stepFor thread f here init test update body) := by
  have hf (h : f.step ≠ 0) : f.Advances made (.forStatement init test update body) f :=
    .refl (Frame.marked_of_step h)
  unfold stepFor
  split
  · have hfirst : f.Advances made (.forStatement init test update body) { f with isLoop := true } :=
      .loop ‹_› rfl rfl
    dsimp only
    split
    · exact provides_pure (advances_enter (hfirst.set _ _ _) (by simp [NodeKind.children]) rfl)
    · exact provides_pure (hfirst.set _ _ _)
  · have hf := hf (by omega)
    refine provides_bind _ fun _ => ?_
    split
    · exact provides_pure (advances_enter (hf.set _ _ _) (by simp [NodeKind.children]) rfl)
    · exact provides_pure (hf.set _ _ _)
  · have hf := hf (by omega)
    split
    · exact provides_pure (advances_enter (hf.set _ _ _) (by simp [NodeKind.children]) rfl)
    · exact provides_pure trivial
  · have hf := hf ‹_›
    split
    · exact provides_pure (advances_enter (hf.set _ _ _) (by simp [NodeKind.children]) rfl)
    · exact provides_pure (hf.set _ _ _)

theorem advancing_stepForInKey {left right body : NodeId}
    (hf : f.Advances made (.forInStatement left right body) f) (program : Tree.Program) :
    Advancing made (.forInStatement left right body) here f
      (stepForInKey f here program left body) := by
  refine provides_bind _ fun actor => ?_
  split
  · refine provides_bind _ fun found => ?_
    split
    · exact provides_pure trivial
    · refine provides_bind _ fun name => ?_
      split
      · exact provides_bind _ fun _ => provides_pure (advances_enter (hf.hold rfl (by simp))
          (by simp [NodeKind.children]) rfl)
      · exact provides_pure
          (advances_enterRef (hf.hold rfl (by simp)) (by simp [NodeKind.children]) rfl)
  · exact provides_throw _

theorem advancing_stepForIn (thread : ThreadId) (program : Tree.Program)
    (left right body : NodeId) :
    Advancing made (.forInStatement left right body) here f
      (stepForIn thread f here program left right body) := by
  have hf (h : f.step ≠ 0) : f.Advances made (.forInStatement left right body) f :=
    .refl (Frame.marked_of_step h)
  unfold stepForIn
  split
  · have hfirst : f.Advances made (.forInStatement left right body) { f with isLoop := true } :=
        .loop ‹_› rfl rfl
    exact provides_pure (advances_enter (hfirst.set _ _ _) (by simp [NodeKind.children]) rfl)
  · have hf := hf (by omega)
    refine provides_bind _ fun actor => ?_
    extract_lets cleared begin
    have hbegin (keys : List String) :
        Advancing made (.forInStatement left right body) here f (begin keys) :=
      provides_pure (hf.hold rfl (by simp))
    split <;> exact provides_bind _ hbegin
  · have hf := hf (by omega)
    exact provides_bind _ fun _ => advancing_stepForInKey hf program
  · have hf := hf ‹_›
    refine provides_bind _ fun r => provides_bind _ fun _ => ?_
    exact provides_pure (advances_enter (hf.set _ _ _) (by simp [NodeKind.children]) rfl)

/-! ### Switches -/

section Switches

variable {discriminant n : NodeId} {cases : List Tree.SwitchCase}

/-- The statements of the clauses are children of the switch. -/
theorem mem_children_of_consequent {c : Tree.SwitchCase} (hc : c ∈ cases) (hn : n ∈ c.consequent) :
    n ∈ (NodeKind.switchStatement discriminant cases).children :=
  List.mem_cons_of_mem _ (List.mem_flatMap.2 ⟨c, hc, List.mem_append_right _ hn⟩)

/-- The test found is a child of the switch. -/
theorem mem_children_of_nextTest {clause i : Nat} (h : nextTest? cases clause = some (i, n)) :
    n ∈ (NodeKind.switchStatement discriminant cases).children := by
  obtain ⟨⟨c, j⟩, hmem, htest⟩ := List.exists_of_findSome?_eq_some h
  obtain ⟨node, hnode, ⟨⟩⟩ := Option.map_eq_some_iff.1 htest
  have hc : c ∈ cases := (List.mem_zipIdx' (List.mem_of_mem_drop hmem)).2 ▸ List.getElem_mem _
  exact List.mem_cons_of_mem _ (List.mem_flatMap.2 ⟨c, hc, List.mem_append_left _ (by simp [hnode])⟩)

theorem advances_switchFrom (hg : f.Advances made (.switchStatement discriminant cases) g)
    (v : Value) (matched : Bool) (clause statement : Nat) (rest : List Tree.SwitchCase)
    (hrest : ∀ c ∈ rest, c ∈ cases) :
    (switchFrom g here v matched clause statement rest).Advances made
      (.switchStatement discriminant cases) here f := by
  induction rest generalizing clause statement with
  | nil => trivial
  | cons c rest ih =>
    unfold switchFrom
    split
    · exact advances_enter (hg.hold rfl (by nofun))
        (mem_children_of_consequent (hrest c List.mem_cons_self) (List.mem_of_getElem? ‹_›)) rfl
    · exact ih _ _ fun c hc => hrest c (List.mem_cons_of_mem _ hc)

theorem advances_switchTest (hg : f.Advances made (.switchStatement discriminant cases) g)
    (v : Value) (clause statement : Nat) (matched : Bool) :
    (switchTest g here cases v clause statement matched).Advances made
      (.switchStatement discriminant cases) here f := by
  unfold switchTest
  split
  · exact advances_enter (hg.hold rfl (by nofun)) (mem_children_of_nextTest ‹_›) rfl
  · split
    · exact advances_switchFrom (hg.set _ _ _) v true _ 0 _ fun c hc => List.mem_of_mem_drop hc
    · trivial

theorem advancing_stepSwitch :
    Advancing made (.switchStatement discriminant cases) here f
      (stepSwitch f here discriminant cases) := by
  have hf (h : f.step ≠ 0) : f.Advances made (.switchStatement discriminant cases) f :=
    .refl (Frame.marked_of_step h)
  unfold stepSwitch
  split
  · have hfirst : f.Advances made (.switchStatement discriminant cases) { f with isSwitch := true } :=
        .switch ‹_› rfl rfl
    exact provides_pure (advances_enter (hfirst.set _ _ _) (by simp [NodeKind.children]) rfl)
  · have hf := hf (by omega)
    exact provides_pure (advances_switchTest (hf.set _ _ _) _ _ _ _)
  · have hf := hf ‹_›
    split
    · split
      · exact provides_pure (advances_switchTest hf _ _ _ _)
      · split
        · exact provides_pure (advances_switchFrom (hf.set _ _ _) _ _ _ _ _
            fun c hc => List.mem_of_mem_drop hc)
        · refine provides_bind _ fun next => provides_pure ?_
          exact advances_switchTest (hf.set _ _ _) _ _ _ _
      · exact provides_pure (advances_switchFrom hf _ _ _ _ _ fun c hc => List.mem_of_mem_drop hc)
    · exact provides_pure trivial

end Switches

/-! ### Literals -/

section Literals

variable {m m' : Machine} {step : Step}

/-- An array literal builds one array. -/
theorem advances_of_stepArray {elements : List (Option NodeId)}
    (hrun : stepArray f here elements m = .ok step m') :
    ∃ built n, literalObject f (createArray []) m = .ok built n ∧
      step.Advances (· = built) (.array elements) here f := by
  refine provided_by_bind (Q := fun step => ∃ built n, literalObject f (createArray []) m = .ok built n ∧
    step.Advances (· = built) (.array elements) here f) hrun fun built n hbuilt => ?_
  extract_lets stored cleared f' next rest
  have hf' : f.Advances (· = built) (.array elements) f' := by
    refine Frame.Advances.hold (g := cleared) ?_ rfl fun id hid => (FrameInfo.object.inj hid).symm
    dsimp only [cleared]
    split
    · exact Frame.Advances.set (.refl rfl) _ _ _
    · exact .refl rfl
  have hrest (u : PUnit) : Advancing (· = built) (.array elements) here f (rest u) := by
    dsimp only [rest]
    split
    · rename_i node hnode
      refine provides_pure (advances_enter (hf'.set _ _ _) ?_ rfl)
      simp only [NodeKind.children, List.mem_filterMap, id_eq, exists_eq_right]
      exact List.mem_of_getElem? (Option.join_eq_some_iff.1 hnode)
    · exact provides_bind _ fun _ => provides_pure trivial
  have hwhole : Advancing (· = built) (.array elements) here f (if stored then (do
      let u ← modifyObject built fun o => o.put (Number.natText (f.step - 1)) (.data f.value)
      rest u) else rest ()) := by
    split
    · exact provides_bind _ hrest
    · exact hrest ()
  exact hwhole.mono fun step hstep => ⟨built, n, hbuilt, hstep⟩

/-- An object literal builds one object. -/
theorem advances_of_stepObject {properties : List Tree.PropertyInit}
    (hrun : stepObject f here properties m = .ok step m') :
    ∃ built n, literalObject f createPlainObject m = .ok built n ∧
      step.Advances (· = built) (.object properties) here f := by
  refine provided_by_bind (Q := fun step => ∃ built n, literalObject f createPlainObject m = .ok built n ∧
    step.Advances (· = built) (.object properties) here f) hrun fun built n hbuilt => ?_
  extract_lets stored cleared f' rest
  have hf' : f.Advances (· = built) (.object properties) f' := by
    refine Frame.Advances.hold (g := cleared) ?_ rfl fun id hid => (FrameInfo.object.inj hid).symm
    dsimp only [cleared]
    split
    · exact Frame.Advances.set (.refl rfl) _ _ _
    · exact .refl rfl
  have hrest (u : PUnit) : Advancing (· = built) (.object properties) here f (rest u) := by
    dsimp only [rest]
    split
    · rename_i init hinit
      refine provides_pure (advances_enter (hf'.set _ _ _) ?_ rfl)
      exact List.mem_map.2 ⟨init, List.mem_of_getElem? hinit, rfl⟩
    · exact provides_pure trivial
  refine Provides.mono (P := Step.Advances (· = built) (.object properties) here f) ?_ fun step hstep =>
    ⟨built, n, hbuilt, hstep⟩
  cases stored with
  | none => exact hrest ()
  | some init => exact provides_bind _ hrest

end Literals

/-! ### One step of a node -/

/-- A node is none that builds an object or gives a scope to a handler. -/
def Simple (kind : NodeKind) : Prop :=
  match kind with
  | .array _ => False
  | .object _ => False
  | .tryStatement _ _ _ => False
  | _ => True

theorem advancing_stepNode (thread : ThreadId) (program : Tree.Program) (hkind : Simple kind) :
    Advancing made kind here f (stepNode thread f here program kind) := by
  cases kind with
  | array elements => exact hkind.elim
  | object properties => exact hkind.elim
  | tryStatement block handler finalizer => exact hkind.elim
  | program body hoisted => exact advancing_stepProgram body hoisted
  | expressionStatement expression => exact advancing_stepExpressionStatement thread expression
  | block body => exact provides_pure (advances_stepList (.block body) (.refl rfl) rfl)
  | varDeclaration declarations =>
    exact provides_pure (advances_stepList (.varDeclaration declarations) (.refl rfl) rfl)
  | varDeclarator name init => exact advancing_stepDeclarator name init
  | empty | debugger | functionDeclaration _ | literal _ => exact provides_pure trivial
  | ifStatement test consequent alternate =>
    exact provides_pure (advances_stepIf test consequent alternate)
  | labeled label body => exact provides_pure (advances_stepLabeled label body)
  | breakStatement _ | continueStatement _ => exact provides_pure (.inr ⟨rfl, rfl⟩)
  | returnStatement argument => exact provides_pure (advances_stepReturn argument)
  | throwStatement argument => exact provides_pure (advances_stepThrow argument)
  | switchStatement discriminant cases => exact advancing_stepSwitch
  | whileStatement test body => exact advancing_stepWhile thread test body
  | doWhileStatement body test => exact advancing_stepDoWhile thread body test
  | forStatement init test update body => exact advancing_stepFor thread init test update body
  | forInStatement left right body => exact advancing_stepForIn thread program left right body
  | identifier name => exact advancing_stepIdentifier name
  | this => exact provides_bind _ fun _ => provides_pure trivial
  | functionExpression function => exact advancing_stepFunction function
  | unary op argument => exact advancing_stepUnary program op argument
  | update op before argument => exact advancing_stepUpdate op before argument
  | binary op left right => exact advancing_stepBinary op left right
  | logical op left right => exact provides_pure (advances_stepLogical op left right)
  | assignment op target value => exact advancing_stepAssignment op target value
  | conditional test consequent alternate =>
    exact provides_pure (advances_stepConditional test consequent alternate)
  | call callee arguments => exact advancing_stepCallExpression rfl rfl (.refl rfl) program false
  | new callee arguments => exact advancing_stepCallExpression rfl rfl (.refl rfl) program true
  | member object property => exact advancing_stepMember object property
  | sequence expressions => exact provides_pure (advances_stepSequence expressions)

/-- Whatever the node is, but for a try statement. -/
theorem advances_of_stepNode (thread : ThreadId) (program : Tree.Program)
    (hkind : kind.isTry = false) {m m' : Machine} {step : Step}
    (hrun : stepNode thread f here program kind m = .ok step m') :
    ∃ made, step.Advances made kind here f := by
  have hsimple (hkind : Simple kind) : ∃ made, step.Advances made kind here f :=
    ⟨fun _ => False, advancing_stepNode thread program hkind m step m' hrun⟩
  cases kind with
  | array elements =>
    obtain ⟨built, -, -, h⟩ := advances_of_stepArray hrun
    exact ⟨_, h⟩
  | object properties =>
    obtain ⟨built, -, -, h⟩ := advances_of_stepObject hrun
    exact ⟨_, h⟩
  | tryStatement block handler finalizer => cases hkind
  | _ => exact hsimple trivial

/-! ## Steps of handlers and calls -/

/-- A step of a call or of a handler goes on in any scope. -/
abbrev ProvidesAway (made : ObjectId → Prop) (f : Frame) (x : Exec Step) : Prop :=
  Provides (Step.Leads made (fun _ => True) f) x

theorem leads_stepTry (here : NodeRef) (block : NodeId) (handler : Option Tree.CatchClause)
    (finalizer : Option NodeId) : ProvidesAway made f (stepTry f here block handler finalizer) := by
  unfold stepTry
  split
  · refine provides_pure (leads_enter ?_ _ _).away
    exact ⟨rfl, rfl, rfl, fun id hid => by cases hid⟩
  · split
    · refine provides_pure (leads_enter ?_ _ _).away
      exact ⟨rfl, rfl, rfl, fun id hid => by cases hid⟩
    · exact provides_pure (leads_done _)
  · split
    · exact provides_throw _
    · refine provides_bind _ fun owner => provides_bind _ fun scope => provides_bind _ fun _ => ?_
      refine provides_pure (leads_push ?_ trivial (Frame.not_builds_of_none rfl))
      exact ⟨rfl, rfl, rfl, fun id hid => by cases hid⟩
  · split
    · exact provides_pure (leads_unwind _)
    · exact provides_pure (leads_done _)
  · split
    · exact provides_throw _
    · refine provides_pure (leads_enter ?_ _ _).away
      refine ⟨rfl, rfl, rfl, fun id hid => ?_⟩
      unfold Frame.Builds at hid ⊢
      dsimp only at hid
      split at hid
      · cases hid
      · exact .inl hid

/-! ### Calls -/

/-- A call that goes on builds nothing. -/
theorem leads_push_call (call : CallInfo) (hchild : ∀ id, ¬ g.Builds id) :
    (Step.push { f with info := .call call } g).Leads made (fun _ => True) f :=
  leads_push ⟨rfl, rfl, rfl, fun id hid => by cases hid⟩ trivial hchild

theorem leads_enterFunction (call : CallInfo) (func : ObjectId) (node : NodeRef)
    (closure : ScopeId) : ProvidesAway made f (enterFunction f call func node closure) := by
  unfold enterFunction
  refine provides_bind _ fun literal => provides_bind _ fun caller => provides_bind _ fun o => ?_
  extract_lets owner rest construct
  have hrest (newObject : Option ObjectId) : ProvidesAway made f (rest newObject) := by
    refine provides_bind _ fun scope => provides_bind _ fun _ => provides_bind _ fun bound => ?_
    have hbody : ProvidesAway made f (do
        hoist literal.hoisted node.program scope
        return .push { f with info := .call { call with phase := .running, newObject } }
          (.ofNode { node with node := literal.body } scope)) :=
      provides_bind _ fun _ => provides_pure (leads_push_call _ (Frame.not_builds_of_none rfl))
    dsimp only
    split
    · exact provides_bind _ fun _ => provides_bind _ fun _ => hbody
    · exact hbody
  have hconstruct (proto : ObjectId) : ProvidesAway made f (construct proto) :=
    provides_bind _ fun id => hrest (some id)
  split
  · refine provides_bind _ fun found => ?_
    split
    · exact hconstruct _
    · exact provides_bind _ hconstruct
  · exact hrest _

theorem leads_applyReply (thread : ThreadId) (call : CallInfo) (owner : Option Owner)
    (early : Option Settlement) (result : NativeResult) :
    ProvidesAway made f (applyReply thread f call owner early result) := by
  unfold applyReply
  split
  · exact provides_pure (leads_done _)
  · exact provides_pure (leads_push_call _ (Frame.not_builds_of_call rfl))
  · refine provides_bind _ fun program => provides_bind _ fun m => provides_bind _ fun scope => ?_
    exact provides_pure (leads_push_call _ (Frame.not_builds_of_none rfl))
  · split
    · exact provides_pure (⟨rfl, rfl, rfl, fun id hid => by cases hid⟩)
    · refine provides_bind _ fun _ => provides_pure (⟨rfl, rfl, rfl, fun id hid => by cases hid⟩)
  · refine provides_bind _ fun queued => provides_bind _ fun _ => ?_
    exact provides_pure (⟨rfl, rfl, rfl, fun id hid => by cases hid⟩)

theorem leads_invokeNative (natives : Natives) (thread : ThreadId) (call : CallInfo)
    (resumed : Option Value) : ProvidesAway made f (invokeNative natives thread f call resumed) := by
  refine provides_bind _ fun owner => ?_
  split
  · exact provides_throw _
  · refine provides_bind _ fun o => ?_
    split
    · refine provides_bind _ fun code => provides_bind _ fun answer => ?_
      refine provides_bind _ fun early => provides_bind _ fun reply => ?_
      split
      · exact provides_bind _ fun _ => leads_applyReply _ _ _ _ _
      · exact leads_applyReply _ _ _ _ _
    · exact provides_throw _

theorem leads_startCall (natives : Natives) (thread : ThreadId) (fuel : Nat)
    (call : CallInfo) : ProvidesAway made f (startCall natives thread f fuel call) := by
  induction fuel generalizing call with
  | zero => exact provides_throw _
  | succ fuel ih =>
    refine provides_bind _ fun m => ?_
    split
    · exact provides_throw _
    · refine provides_bind _ fun o => ?_
      split
      · exact provides_throw _
      · exact ih _
      · exact leads_enterFunction _ _ _ _
      · exact leads_invokeNative _ _ _ _

theorem leads_stepCall (natives : Natives) (thread : ThreadId) :
    ProvidesAway made f (stepCall natives thread f) := by
  unfold stepCall
  cases f.info with
  | call call =>
    dsimp only
    cases call.phase with
    | ready =>
      refine provides_bind _ fun _ => provides_bind _ fun m => ?_
      exact leads_startCall _ _ _ _
    | running => exact provides_pure (leads_done _)
    | returned => exact provides_pure (leads_done _)
    | reentered =>
      have hleads : ProvidesAway made f.clearValue
          (invokeNative natives thread f.clearValue call (some f.value)) :=
        leads_invokeNative natives thread _ _
      exact hleads.mono fun step h => h.of_goesOn (.of_info rfl)
    | rejected => exact provides_pure (leads_unwind _)
    | blocked => exact provides_pure ((.of_info rfl))
  | _ => exact provides_throw _

end Machine

end ScriptMachine
