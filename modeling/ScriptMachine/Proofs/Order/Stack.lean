import ScriptMachine.Proofs.Collection
import ScriptMachine.Proofs.Effect.Frame
import ScriptMachine.Proofs.Order.Alteration

/-!
# Stacks in order

A stack of frames is the continuation of a thread. It is in order when its base is a program or a
call and every other frame stands where the one below it evaluates something: a child of the node of
that frame, a call, the body of the function that is called, or a program that is evaluated. Every
jump that the grammar allows in a node then has a frame below that claims it.
-/

namespace ScriptMachine

open Tree (NodeId NodeKind Node Place Formed Loops)
open Tree.Parser (JumpScope)

/-! ## What stays of a handle -/

/-- A handle names in one heap what it names in another, up to what code may change. -/
def Heap.Same (h h' : Heap) : Handle → Prop
  | .object id => ∀ o, h.object? id = some o →
    ∃ o', h'.object? id = some o' ∧ o'.function = o.function
  | .scope id => ∀ s, h.scope? id = some s →
    ∃ s', h'.scope? id = some s' ∧ s'.kind = s.kind ∧ s'.outer = s.outer
  | .program id => ∀ p, h.program? id = some p → h'.program? id = some p

theorem Heap.Retains.same {h h' : Heap} (hr : h.Retains h') (x : Handle) : h.Same h' x := by
  cases x with
  | object id => exact fun _ ho => hr.object ho
  | scope id => exact fun _ hs => hr.scope hs
  | program id => exact fun _ hp => hr.program hp

/-! ## Frames of nodes -/

namespace Frame

/-- The frame of a try statement, which claims no jumps. -/
def isTrying (f : Frame) : Bool :=
  match f.info with
  | .try _ _ => true
  | _ => false

/-- A frame is one of a node of some kind. -/
structure Suits (kind : NodeKind) (f : Frame) : Prop where
  info : f.info.isPlain = true ∨ f.isTrying = true ∧ kind.isTry = true
  isLoop : f.isLoop = true → kind.isLoop = true
  isSwitch : f.isSwitch = true → kind.isSwitch = true
  looping : 0 < f.step → kind.isLoop = true → f.isLoop = true
  switching : 0 < f.step → kind.isSwitch = true → f.isSwitch = true

/-- A frame is one of a call. -/
structure Calls (info : CallInfo) (f : Frame) : Prop where
  info : f.info = .call info
  isLoop : f.isLoop = false
  isSwitch : f.isSwitch = false
  labels : f.labels = []

/-- A frame that a jump meets claims it. -/
def Claims (kind : CompletionKind) (label : Option String) (f : Frame) : Prop :=
  f.isTrying = false ∧ Machine.isJumpTarget f kind label = true

end Frame

namespace Stack

/-! ## Frames that claim completions -/

/-- A frame of the running call claims a jump. -/
def Offers (kind : CompletionKind) (label : Option String) : List Frame → Prop
  | [] => False
  | f :: rest => f.Claims kind label ∨ f.node.isSome = true ∧ Offers kind label rest

/-- The frames evaluate nodes on behalf of a running call. -/
def Called : List Frame → Prop
  | [] => False
  | f :: rest =>
    match f.node with
    | none => ∃ call, f.info = .call call ∧ call.phase = .running
    | some _ => Called rest

/-- A label stands directly before a try statement that is running. -/
def Muted (label : String) : List Frame → Prop
  | [] => False
  | f :: rest =>
    f.isTrying = true ∧ f.labels.getLast? = some label ∨ f.node.isSome = true ∧ Muted label rest

/-- Some frame claims a completion; a throw may end the thread. -/
def Aimed (frames : List Frame) (c : Completion) : Prop :=
  match c.kind with
  | .normal => False
  | .throw => True
  | .return => Called frames
  | .break => Offers .break c.label frames
  | .continue => Offers .continue c.label frames

/-- A completion that a stack unwinds with: a `return` is claimed in any case. -/
def Bound (strict : Prop) (frames : List Frame) (c : Completion) : Prop :=
  strict ∨ c.kind = .return → Aimed frames c

/-- The jumps that are allowed in a node are claimed by the frames below it. A label directly before
the node or before a running try statement is the exception. -/
structure Grants (frames : List Frame) (scope : JumpScope) (nodes : Array Node) (id : NodeId)
    (labels : List String) : Prop where
  breaks : ∀ label, scope.allowsBreak label = true → Offers .break label frames ∨
    ∃ l, label = some l ∧ (labels.getLast? = some l ∨ Muted l frames)
  continues : ∀ label, scope.allowsContinue label = true → Offers .continue label frames ∨
    ∃ l, label = some l ∧ l ∈ labels ∧ Loops nodes id
  returns : scope.inFunction = true → Called frames

/-- What a completion looks for is the same in both. -/
structure Alike (frames frames' : List Frame) : Prop where
  offers : ∀ kind label, Offers kind label frames → Offers kind label frames'
  muted : ∀ label, Muted label frames → Muted label frames'
  called : Called frames → Called frames'

namespace Alike

variable {frames frames' : List Frame}

theorem refl (frames : List Frame) : Alike frames frames := ⟨fun _ _ => id, fun _ => id, id⟩

theorem aimed (h : Alike frames frames') {c : Completion} (hc : Aimed frames c) :
    Aimed frames' c := by
  unfold Aimed at hc ⊢
  split
  · exact absurd hc (by simp [*])
  · trivial
  · exact h.called (by simpa [*] using hc)
  · exact h.offers _ _ (by simpa [*] using hc)
  · exact h.offers _ _ (by simpa [*] using hc)

theorem bound (h : Alike frames frames') {strict : Prop} {c : Completion}
    (hc : Bound strict frames c) : Bound strict frames' c :=
  fun hstrict => h.aimed (hc hstrict)

theorem grants (h : Alike frames frames') {scope : JumpScope} {nodes : Array Node} {id : NodeId}
    {labels : List String} (hg : Grants frames scope nodes id labels) :
    Grants frames' scope nodes id labels where
  breaks := fun label hallowed => (hg.breaks label hallowed).imp (h.offers _ _) fun hl =>
    let ⟨l, hlabel, hl⟩ := hl
    ⟨l, hlabel, hl.imp_right (h.muted l)⟩
  continues := fun label hallowed => (hg.continues label hallowed).imp_left (h.offers _ _)
  returns := fun hscope => h.called (hg.returns hscope)

end Alike

/-- Where no jump is allowed none has to be claimed. -/
theorem grants_empty (frames : List Frame) (nodes : Array Node) (id : NodeId)
    (labels : List String) : Grants frames {} nodes id labels where
  breaks := fun label h => by cases label <;> cases h
  continues := fun label h => by cases label <;> cases h
  returns := fun h => by cases h

/-- In the body of a function there are no jumps out of it. -/
theorem grants_function {frames : List Frame} (h : Called frames) (nodes : Array Node)
    (id : NodeId) (labels : List String) : Grants frames .function nodes id labels where
  breaks := fun label h => by cases label <;> cases h
  continues := fun label h => by cases label <;> cases h
  returns := fun _ => h

/-! ## Stacks -/

/-- A frame on top of others is one of a live node that may stand there, or one of a call. -/
inductive Sits (strict : Prop) (h : Heap) (rest : List Frame) (f : Frame) : Prop where
  | node {here : NodeRef} {p : Tree.Program} {kind : NodeKind} {place : Place}
    (hscope : ∃ s, h.scope? f.scope = some s) (hnode : f.node = some here)
    (hprogram : h.program? here.program = some p) (hkind : p.kind? here.node = some kind)
    (hformed : Formed p.nodes place here.node) (hsuits : f.Suits kind)
    (hgrants : Grants rest place.scope p.nodes here.node f.labels)
    (hsaved : ∀ phase c, f.info = .try phase (some c) → Bound strict rest c)
  | call {info : CallInfo} (hscope : ∃ s, h.scope? f.scope = some s) (hnode : f.node = none)
    (hcalls : f.Calls info)

/-- A frame can be the base of a stack: it is a program or a call. -/
def Base (h : Heap) (f : Frame) : Prop :=
  f.labels = [] ∧ (f.node = none ∨ ∃ id p body hoisted, h.program? id = some p ∧
    f.node = some ⟨id, p.root⟩ ∧ p.kind? p.root = some (.program body hoisted))

/-- One frame stands directly above another. -/
inductive Over (h : Heap) (g f : Frame) (rest : List Frame) : Prop where
  /-- A node calls a function. -/
  | call {here : NodeRef} (hnode : f.node = some here) (hg : g.node = none)
    (hscope : g.scope = f.scope)
  /-- A node has a child evaluated, in its own scope or in a new one for a handler. -/
  | child {here : NodeRef} {p : Tree.Program} {kind : NodeKind} {n : NodeId}
    (hnode : f.node = some here) (hprogram : h.program? here.program = some p)
    (hkind : p.kind? here.node = some kind) (hn : n ∈ kind.children)
    (hg : g.node = some { here with node := n }) (hlabels : g.labels = childLabels kind f.labels)
    (hscope : g.scope = f.scope ∨
      (∃ s, h.scope? g.scope = some s ∧ s.kind = .catch ∧ s.outer = some f.scope) ∧
        ∀ e ∈ f :: rest, e.scope ≠ g.scope)
  /-- The body of the function that is called runs in a scope of its own. -/
  | body {call : CallInfo} {func : ObjectId} {o : Object} {node : NodeRef} {closure : ScopeId}
    {p : Tree.Program} {kind : NodeKind} {function : Tree.FunctionNode} {s : Scope}
    (hinfo : f.info = .call call) (hphase : call.phase = .running)
    (hfunc : call.func = .object func) (ho : h.object? func = some o)
    (hclosure : o.function = some (.closure node closure))
    (hprogram : h.program? node.program = some p) (hkind : p.kind? node.node = some kind)
    (hfunction : kind.function? = some function)
    (hg : g.node = some { node with node := function.body })
    (hs : h.scope? g.scope = some s) (hscope : s.kind = .function)
    (houter : s.outer = some closure)
  /-- A host function has another function called. -/
  | again {call : CallInfo} (hinfo : f.info = .call call) (hphase : call.phase = .reentered)
    (hg : g.node = none)
  /-- A host function has a program evaluated. -/
  | evaluated {call : CallInfo} {id : ProgramId} {p : Tree.Program} {s : Scope}
    (hinfo : f.info = .call call) (hphase : call.phase = .reentered)
    (hprogram : h.program? id = some p) (hg : g.node = some ⟨id, p.root⟩)
    (hs : h.scope? g.scope = some s) (hscope : s.kind = .eval)

/-- A stack in order. It is strict if all jumps on it are claimed. -/
inductive Stacked (strict : Prop) (h : Heap) : List Frame → Prop where
  | base {f : Frame} (hsits : Sits strict h [] f) (hbase : Base h f) : Stacked strict h [f]
  | above {g f : Frame} {rest : List Frame} (hsits : Sits strict h (f :: rest) g)
    (hover : Over h g f rest) (hrest : Stacked strict h (f :: rest)) :
    Stacked strict h (g :: f :: rest)

variable {strict : Prop} {h h' : Heap} {f g : Frame} {rest : List Frame}

namespace Sits

theorem scope (hs : Sits strict h rest f) : ∃ s, h.scope? f.scope = some s := by
  cases hs with
  | node hscope => exact hscope
  | call hscope => exact hscope

/-- What holds a call is the frame of a call. -/
theorem node_eq_none {call : CallInfo} (hs : Sits strict h rest f) (hinfo : f.info = .call call) :
    f.node = none := by
  cases hs with
  | call _ hnone _ => exact hnone
  | node _ _ _ _ _ hsuits _ _ =>
    have hplain := hsuits.info
    unfold Frame.isTrying at hplain
    rw [hinfo] at hplain
    simp [FrameInfo.isPlain] at hplain

/-- A frame that nobody jumps to is left as it is. -/
theorem alike {rest' : List Frame} (hs : Sits strict h rest f) (ha : Alike rest rest') :
    Sits strict h rest' f := by
  cases hs with
  | node hscope hnode hprogram hkind hformed hsuits hgrants hsaved =>
    exact .node hscope hnode hprogram hkind hformed hsuits (ha.grants hgrants)
      fun phase c hinfo => ha.bound (hsaved phase c hinfo)
  | call hscope hnode hcalls => exact .call hscope hnode hcalls

/-- The value that a child handed over does not matter. -/
theorem handed (hs : Sits strict h rest f) (v : Value) (r : Option Reference) :
    Sits strict h rest { f with value := v, reference := r } := by
  cases hs with
  | node hscope hnode hprogram hkind hformed hsuits hgrants hsaved =>
    exact .node hscope hnode hprogram hkind hformed
      ⟨hsuits.info, hsuits.isLoop, hsuits.isSwitch, hsuits.looping, hsuits.switching⟩ hgrants
      hsaved
  | call hscope hnode hcalls =>
    exact .call hscope hnode ⟨hcalls.info, hcalls.isLoop, hcalls.isSwitch, hcalls.labels⟩

end Sits

/-! ## Changes of the heap -/

end Stack

theorem Frame.holds_program {f : Frame} {here : NodeRef} (hnode : f.node = some here) :
    f.roots.Holds (.program here.program) := by
  unfold Frame.roots
  rw [Roots.holds_append, Roots.holds_append, hnode]
  exact .inl (.inl List.mem_cons_self)

theorem Frame.holds_func {f : Frame} {call : CallInfo} {func : ObjectId}
    (hinfo : f.info = .call call) (hfunc : call.func = .object func) :
    f.roots.Holds (.object func) := by
  have hcall : (FrameInfo.call call).roots.Holds (.object func) := by
    unfold FrameInfo.roots
    rw [Roots.holds_append, hfunc]
    exact .inl List.mem_cons_self
  unfold Frame.roots
  rw [Roots.holds_append, hinfo]
  exact .inr hcall

namespace Stack

variable {strict : Prop} {h h' : Heap} {f g : Frame} {rest : List Frame}

theorem Sits.transfer (hs : Sits strict h rest f) (hsame : ∀ x, f.roots.Holds x → h.Same h' x) :
    Sits strict h' rest f := by
  have hlive : ∃ s, h'.scope? f.scope = some s := by
    obtain ⟨s, hscope⟩ := hs.scope
    obtain ⟨s', hscope', -⟩ := hsame _ f.holds_scope s hscope
    exact ⟨s', hscope'⟩
  cases hs with
  | node _ hnode hprogram hkind hformed hsuits hgrants hsaved =>
    exact .node hlive hnode (hsame _ (f.holds_program hnode) _ hprogram) hkind hformed hsuits
      hgrants hsaved
  | call _ hnode hcalls => exact .call hlive hnode hcalls

theorem Base.transfer (hb : Base h f) (hsame : ∀ x, f.roots.Holds x → h.Same h' x) :
    Base h' f := by
  refine ⟨hb.1, hb.2.imp_right ?_⟩
  rintro ⟨id, p, body, hoisted, hp, hnode, hkind⟩
  exact ⟨id, p, body, hoisted, hsame _ (f.holds_program hnode) p hp, hnode, hkind⟩

theorem Over.transfer (hover : Over h g f rest) (hg : ∀ x, g.roots.Holds x → h.Same h' x)
    (hf : ∀ x, f.roots.Holds x → h.Same h' x) : Over h' g f rest := by
  cases hover with
  | call hnode hnone hscope => exact .call hnode hnone hscope
  | child hnode hprogram hkind hn hnode' hlabels hscope =>
    refine .child hnode (hf _ (f.holds_program hnode) _ hprogram) hkind hn hnode' hlabels
      (hscope.imp_right fun hfresh => ⟨?_, hfresh.2⟩)
    obtain ⟨⟨s, hs, hcatch, houter⟩, -⟩ := hfresh
    obtain ⟨s', hs', hkind', houter'⟩ := hg _ g.holds_scope s hs
    exact ⟨s', hs', hkind'.trans hcatch, houter'.trans houter⟩
  | body hinfo hphase hfunc ho hclosure hprogram hkind hfunction hnode hs hscope houter =>
    obtain ⟨o', ho', hclosure'⟩ := hf _ (Frame.holds_func hinfo hfunc) _ ho
    obtain ⟨s', hs', hkind', houter'⟩ := hg _ g.holds_scope _ hs
    exact .body hinfo hphase hfunc ho' (hclosure'.trans hclosure)
      (hg _ (g.holds_program hnode) _ hprogram) hkind hfunction hnode hs' (hkind'.trans hscope)
      (houter'.trans houter)
  | again hinfo hphase hnone => exact .again hinfo hphase hnone
  | evaluated hinfo hphase hprogram hnode hs hscope =>
    obtain ⟨s', hs', hkind', -⟩ := hg _ g.holds_scope _ hs
    exact .evaluated hinfo hphase (hg _ (g.holds_program hnode) _ hprogram) hnode hs'
      (hkind'.trans hscope)

/-- A stack stays in order as long as all that its frames hold stays. -/
theorem Stacked.transfer {frames : List Frame} (hs : Stacked strict h frames)
    (hsame : ∀ f ∈ frames, ∀ x, f.roots.Holds x → h.Same h' x) : Stacked strict h' frames := by
  induction hs with
  | base hsits hbase =>
    have hf := hsame _ List.mem_cons_self
    exact .base (hsits.transfer hf) (hbase.transfer hf)
  | @above g f rest hsits hover _ ih =>
    have hg := hsame g List.mem_cons_self
    have hf := hsame f (List.mem_cons_of_mem _ List.mem_cons_self)
    exact .above (hsits.transfer hg) (hover.transfer hg hf)
      (ih fun e he => hsame e (List.mem_cons_of_mem _ he))

theorem Stacked.retained {frames : List Frame} (hs : Stacked strict h frames)
    (hr : h.Retains h') : Stacked strict h' frames :=
  hs.transfer fun _ _ x _ => hr.same x

/-! ## Changes of the top frame -/

theorem Stacked.sits (hs : Stacked strict h (f :: rest)) : Sits strict h rest f := by
  cases hs with
  | base hsits _ => exact hsits
  | above hsits _ _ => exact hsits

theorem Stacked.tail (hs : Stacked strict h (g :: f :: rest)) : Stacked strict h (f :: rest) := by
  cases hs with
  | above _ _ hrest => exact hrest

theorem Over.replace {g' : Frame} (hover : Over h g f rest) (hnode : g'.node = g.node)
    (hscope : g'.scope = g.scope) (hlabels : g'.labels = g.labels) : Over h g' f rest := by
  cases hover with
  | call hf hg hscope' => exact .call hf (hnode.trans hg) (hscope.trans hscope')
  | child hf hprogram hkind hn hg hlabels' hscope' =>
    exact .child hf hprogram hkind hn (hnode.trans hg) (hlabels.trans hlabels')
      (by rwa [hscope])
  | body hinfo hphase hfunc ho hclosure hprogram hkind hfunction hg hs hkind' houter =>
    exact .body hinfo hphase hfunc ho hclosure hprogram hkind hfunction (hnode.trans hg)
      (by rwa [hscope]) hkind' houter
  | again hinfo hphase hg => exact .again hinfo hphase (hnode.trans hg)
  | evaluated hinfo hphase hprogram hg hs hkind =>
    exact .evaluated hinfo hphase hprogram (hnode.trans hg) (by rwa [hscope]) hkind

/-- The top frame may go on in its place. -/
theorem Stacked.replace {f' : Frame} (hs : Stacked strict h (f :: rest))
    (hsits : Sits strict h rest f') (hnode : f'.node = f.node) (hscope : f'.scope = f.scope)
    (hlabels : f'.labels = f.labels) : Stacked strict h (f' :: rest) := by
  cases hs with
  | base _ hbase => exact .base hsits (by rwa [Base, hnode, hlabels])
  | above _ hover hrest => exact .above hsits (hover.replace hnode hscope hlabels) hrest

/-- A child hands its value or its place to the frame below. -/
theorem Stacked.handed (hs : Stacked strict h (f :: rest)) (v : Value) (r : Option Reference) :
    Stacked strict h ({ f with value := v, reference := r } :: rest) :=
  hs.replace (hs.sits.handed v r) rfl rfl rfl

/-- The base of a stack claims no jump. -/
theorem Stacked.not_claims_base (hs : Stacked strict h [f]) (kind : CompletionKind)
    (label : Option String) : ¬ f.Claims kind label := by
  cases hs with
  | base hsits hbase =>
    have hplain : f.isLoop = false ∧ f.isSwitch = false := by
      cases hsits with
      | node _ hnode hprogram hkind _ hsuits _ _ =>
        rcases hbase.2 with hnone | ⟨id, p, body, hoisted, hp, hroot, hprogramKind⟩
        · rw [hnode] at hnone
          cases hnone
        · obtain rfl := Option.some.inj (hnode.symm.trans hroot)
          obtain rfl := Option.some.inj (hprogram.symm.trans hp)
          obtain rfl := Option.some.inj (hkind.symm.trans hprogramKind)
          exact ⟨Bool.eq_false_iff.2 fun hloop => (by cases hsuits.isLoop hloop),
            Bool.eq_false_iff.2 fun hswitch => by cases hsuits.isSwitch hswitch⟩
      | call _ _ hcalls => exact ⟨hcalls.isLoop, hcalls.isSwitch⟩
    rintro ⟨-, htarget⟩
    unfold Machine.isJumpTarget at htarget
    rw [hplain.1, hplain.2, hbase.1] at htarget
    split at htarget <;> simp at htarget

/-!
## Unwinding keeps stacks in order

A completion drops frames from the top until one claims it, and that frame goes on in its place.
The completion of an expression statement is stored in the program around it, which no jump can
tell.
-/

open Machine

variable {strict : Prop} {h : Heap} {f : Frame} {rest : List Frame} {c : Completion}

/-! ## One frame -/

/-- A completion that a frame does not claim is claimed further below. -/
theorem Aimed.below (ha : Aimed (f :: rest) c) {here : NodeRef} (hnode : f.node = some here)
    (hclaims : ∀ label, c.kind = .break ∨ c.kind = .continue → c.label = label →
      ¬ f.Claims c.kind label) : Aimed rest c := by
  have hoffers : ∀ kind, c.kind = kind → kind = .break ∨ kind = .continue →
      Offers kind c.label (f :: rest) → Offers kind c.label rest := by
    rintro kind rfl hkind (hf | hrest)
    · exact absurd hf (hclaims _ hkind rfl)
    · exact hrest.2
  unfold Aimed at ha ⊢
  cases hkind : c.kind with
  | normal => rw [hkind] at ha; exact ha
  | throw => trivial
  | «return» =>
    rw [hkind] at ha
    dsimp only [Called] at ha
    rwa [hnode] at ha
  | «break» => rw [hkind] at ha; exact hoffers _ hkind (.inl rfl) ha
  | «continue» => rw [hkind] at ha; exact hoffers _ hkind (.inr rfl) ha

/-- The frame of a call claims no jump. -/
theorem not_claims_call {info : CallInfo} (hcalls : f.Calls info) (kind : CompletionKind)
    (label : Option String) : ¬ f.Claims kind label := by
  rintro ⟨-, htarget⟩
  unfold isJumpTarget at htarget
  rw [hcalls.isLoop, hcalls.isSwitch, hcalls.labels] at htarget
  split at htarget <;> simp at htarget

/-- What becomes of a frame that a completion meets. -/
def Meets (strict : Prop) (h : Heap) (f : Frame) (rest : List Frame) (c : Completion) :
    Meeting → Prop
  | .drop => Bound strict rest c
  | .stop => f.Claims .break c.label
  | .catch g => Sits strict h rest g ∧ f.Continues g

/-- The clauses of a try statement are found. -/
theorem tryClauses_eq {here : NodeRef} {p : Tree.Program} {block : Tree.NodeId}
    {handler : Option Tree.CatchClause} {finalizer : Option Tree.NodeId}
    (hnode : f.node = some here) (hprogram : h.program? here.program = some p)
    (hkind : p.kind? here.node = some (.tryStatement block handler finalizer)) :
    tryClauses h f = .ok (handler.isSome, finalizer.isSome) := by
  unfold tryClauses
  rw [hnode]
  dsimp only
  rw [Heap.program_eq_ok_iff.2 hprogram]
  dsimp only [bind, Except.bind]
  rw [Heap.nodeKind, hkind]
  rfl

theorem meet_of_trying {here : NodeRef} {p : Tree.Program} {block : Tree.NodeId}
    {handler : Option Tree.CatchClause} {finalizer : Option Tree.NodeId} {phase : TryPhase}
    {saved : Option Completion} (hnode : f.node = some here)
    (hprogram : h.program? here.program = some p)
    (hkind : p.kind? here.node = some (.tryStatement block handler finalizer))
    (hinfo : f.info = .try phase saved) :
    meet h f c = .ok (if phase == .block && handler.isSome && c.kind == .throw then
        .catch { f with step := 2, value := c.value }
      else if phase != .finalizer && finalizer.isSome then
        .catch { f with info := .try phase (some c), step := 4 }
      else .drop) := by
  unfold meet
  rw [hinfo]
  dsimp only
  rw [tryClauses_eq hnode hprogram hkind]
  dsimp only [bind, Except.bind]
  split
  · rfl
  · split <;> rfl

/-- A completion at a running try statement. -/
theorem meets_trying {here : NodeRef} {p : Tree.Program} {kind : Tree.NodeKind}
    {place : Tree.Place} (hscope : ∃ s, h.scope? f.scope = some s) (hnode : f.node = some here)
    (hprogram : h.program? here.program = some p) (hkind : p.kind? here.node = some kind)
    (hformed : Tree.Formed p.nodes place here.node) (hsuits : f.Suits kind)
    (hgrants : Grants rest place.scope p.nodes here.node f.labels)
    (hsaved : ∀ phase c, f.info = .try phase (some c) → Bound strict rest c)
    {phase : TryPhase} {saved : Option Completion} (hinfo : f.info = .try phase saved)
    (hbelow : Bound strict rest c) :
    ∃ meeting, meet h f c = .ok meeting ∧ Meets strict h f rest c meeting := by
  obtain ⟨-, htry⟩ : f.isTrying = true ∧ kind.isTry = true := by
    rcases hsuits.info with hplain | htry
    · rw [hinfo] at hplain
      cases hplain
    · exact htry
  cases kind with
  | tryStatement block handler finalizer =>
    -- A try statement is neither a loop nor a switch, so its flags do not depend on the step.
    have hsits (g : Frame) (hf : f.Continues g) (hloop : g.isLoop = f.isLoop)
        (hswitch : g.isSwitch = f.isSwitch) (htrying : g.isTrying = true)
        (hsaved : ∀ phase c, g.info = .try phase (some c) → Bound strict rest c) :
        Sits strict h rest g :=
      .node (by rwa [hf.scope]) (hf.node.trans hnode) hprogram hkind hformed
        ⟨.inr ⟨htrying, rfl⟩, by rw [hloop]; exact hsuits.isLoop,
          by rw [hswitch]; exact hsuits.isSwitch, fun _ h => (by cases h), fun _ h => by cases h⟩
        (by rwa [hf.labels]) hsaved
    refine ⟨_, meet_of_trying hnode hprogram hkind hinfo, ?_⟩
    split
    · refine ⟨hsits _ ⟨rfl, rfl, rfl⟩ rfl rfl ?_ hsaved, ⟨rfl, rfl, rfl⟩⟩
      unfold Frame.isTrying
      rw [hinfo]
    · split
      · refine ⟨hsits _ ⟨rfl, rfl, rfl⟩ rfl rfl rfl ?_, ⟨rfl, rfl, rfl⟩⟩
        rintro _ _ ⟨⟩
        exact hbelow
      · exact hbelow
  | _ => cases htry

theorem meet_of_not_trying (hf : f.isTrying = false) : meet h f c = .ok (meetPlain f c) := by
  unfold meet
  split
  · rename_i phase saved hinfo
    unfold Frame.isTrying at hf
    rw [hinfo] at hf
    cases hf
  · rfl

/-- A completion at a frame that is no running try statement. -/
theorem meets_plain (hs : Sits strict h rest f) (hf : f.isTrying = false)
    (hc : Bound strict (f :: rest) c) : Meets strict h f rest c (meetPlain f c) := by
  cases hs with
  | @node here p kind place hscope hnode hprogram hkind hformed hsuits hgrants hsaved =>
    have hdrop (h : ∀ label, c.kind = .break ∨ c.kind = .continue → c.label = label →
        ¬ f.Claims c.kind label) : Bound strict rest c :=
      fun hstrict => (hc hstrict).below hnode h
    unfold meetPlain
    cases hckind : c.kind with
    | normal => exact hdrop fun _ h => by simp [hckind] at h
    | throw => exact hdrop fun _ h => by simp [hckind] at h
    | «return» =>
      have hreturn := hdrop fun _ h => by simp [hckind] at h
      dsimp only
      split
      · rename_i call hinfo
        have hplain := hsuits.info
        unfold Frame.isTrying at hplain
        rw [hinfo] at hplain
        simp [FrameInfo.isPlain] at hplain
      · exact hreturn
    | «break» =>
      dsimp only
      split
      · rename_i htarget
        exact ⟨hf, htarget⟩
      · rename_i htarget
        refine hdrop fun label _ hlabel hclaims => htarget ?_
        rw [hlabel, ← hckind]
        exact hclaims.2
    | «continue» =>
      dsimp only
      split
      · exact ⟨.node hscope hnode hprogram hkind hformed hsuits hgrants hsaved, rfl, rfl, rfl⟩
      · rename_i htarget
        refine hdrop fun label _ hlabel hclaims => htarget ?_
        rw [hlabel, ← hckind]
        exact hclaims.2
  | @call info hscope hnode hcalls =>
    -- The frame of a call claims returns only, and nothing passes it otherwise.
    have hdrop (h : ¬ Aimed (f :: rest) c) : Bound strict rest c :=
      fun hstrict => absurd (hc hstrict) h
    have hjump (kind : CompletionKind) : ¬ Offers kind c.label (f :: rest) := by
      rintro (hclaims | hnodes)
      · exact not_claims_call hcalls _ _ hclaims
      · rw [hnode] at hnodes
        cases hnodes.1
    have htarget (kind : CompletionKind) : isJumpTarget f kind c.label = false :=
      Bool.eq_false_iff.2 fun h => not_claims_call hcalls kind c.label ⟨hf, h⟩
    unfold meetPlain
    cases hckind : c.kind with
    | normal => exact hdrop fun h => by rwa [Aimed, hckind] at h
    | throw => exact fun _ => by rw [Aimed, hckind]; trivial
    | «return» =>
      rw [hcalls.info]
      dsimp only
      split
      · exact ⟨.call hscope hnode ⟨rfl, hcalls.isLoop, hcalls.isSwitch, hcalls.labels⟩,
          ⟨rfl, rfl, rfl⟩⟩
      · rename_i hphase
        refine hdrop fun h => hphase ?_
        rw [Aimed, hckind] at h
        dsimp only [Called] at h
        rw [hnode] at h
        obtain ⟨call, hinfo, hrunning⟩ := h
        cases hcalls.info.symm.trans hinfo
        rw [hrunning]
        rfl
    | «break» =>
      rw [htarget]
      exact hdrop fun h => hjump .break (by rwa [Aimed, hckind] at h)
    | «continue» =>
      rw [htarget]
      exact hdrop fun h => hjump .continue (by rwa [Aimed, hckind] at h)

theorem Sits.meets (hs : Sits strict h rest f) (hc : Bound strict (f :: rest) c) :
    ∃ meeting, meet h f c = .ok meeting ∧ Meets strict h f rest c meeting := by
  cases hf : f.isTrying with
  | false => exact ⟨_, meet_of_not_trying hf, meets_plain hs hf hc⟩
  | true =>
    cases hs with
    | node hscope hnode hprogram hkind hformed hsuits hgrants hsaved =>
      cases hinfo : f.info with
      | «try» phase saved =>
        refine meets_trying hscope hnode hprogram hkind hformed hsuits hgrants hsaved hinfo
          fun hstrict => (hc hstrict).below hnode fun _ _ _ hclaims => ?_
        rw [hclaims.1] at hf
        cases hf
      | _ =>
        unfold Frame.isTrying at hf
        rw [hinfo] at hf
        cases hf
    | call _ _ hcalls =>
      unfold Frame.isTrying at hf
      rw [hcalls.info] at hf
      cases hf

/-! ## The whole stack -/

/-- What is left of a stack after unwinding is in order. Only a throw, or a jump that no frame had to
claim, drops all frames. -/
theorem Stacked.unwound {frames : List Frame} (hs : Stacked strict h frames)
    (hc : Bound strict frames c) (depth : Nat) (hdepth : depth = frames.length) :
    match unwindFrames h c frames depth hdepth with
    | .caught stack => Stacked strict h stack.frames
    | .escaped => c.kind = .throw ∨ ¬ (strict ∨ c.kind = .return)
    | .broken _ _ => False := by
  induction hs generalizing depth with
  | @base f hsits hbase =>
    obtain ⟨meeting, hmeet, hmeets⟩ := hsits.meets hc
    rw [unwindFrames, hmeet]
    cases meeting with
    | drop =>
      rw [unwindFrames]
      by_cases hstrict : strict ∨ c.kind = .return
      · have haimed := hmeets hstrict
        unfold Aimed at haimed
        split at haimed
        · exact haimed.elim
        · exact .inl ‹_›
        · exact haimed.elim
        · exact haimed.elim
        · exact haimed.elim
      · exact .inr hstrict
    | stop => exact absurd hmeets (Stacked.not_claims_base (.base hsits hbase) _ _)
    | «catch» g =>
      obtain ⟨hg, hf⟩ := hmeets
      exact (Stacked.base hsits hbase).replace hg hf.node hf.scope hf.labels
  | @above g f rest hsits hover hrest ih =>
    obtain ⟨meeting, hmeet, hmeets⟩ := hsits.meets hc
    rw [unwindFrames, hmeet]
    cases meeting with
    | drop => exact ih hmeets _ _
    | stop => exact hrest
    | «catch» g' =>
      obtain ⟨hg, hf⟩ := hmeets
      exact (Stacked.above hsits hover hrest).replace hg hf.node hf.scope hf.labels

/-! ## Completions of programs -/

theorem Alike.cons {frames frames' : List Frame} (ha : Alike frames frames') (f : Frame) :
    Alike (f :: frames) (f :: frames') where
  offers := fun kind label => Or.imp_right (And.imp_right (ha.offers kind label))
  muted := fun label => Or.imp_right (And.imp_right (ha.muted label))
  called := fun hcalled => by
    unfold Called at hcalled ⊢
    split
    · simpa [*] using hcalled
    · rename_i hnode
      exact ha.called (by simpa [hnode] using hcalled)

/-- No jump can tell what the completion of a program is. -/
theorem alike_recordIn (v : Value) (frames : List Frame) :
    Alike frames (Stack.recordIn v frames) := by
  induction frames with
  | nil => exact .refl []
  | cons f rest ih =>
    unfold Stack.recordIn
    split
    · rename_i hinfo
      have htrying : f.isTrying = false := by rw [Frame.isTrying, hinfo]
      refine ⟨fun kind label => Or.imp_left fun hclaims => ⟨rfl, hclaims.2⟩,
        fun label => Or.imp_left fun hmuted => ?_, fun hcalled => ?_⟩
      · rw [htrying] at hmuted
        cases hmuted.1
      · unfold Called at hcalled ⊢
        dsimp only
        split
        · rename_i hnode
          rw [hnode] at hcalled
          obtain ⟨call, hcall, -⟩ := hcalled
          rw [hinfo] at hcall
          cases hcall
        · rename_i hnode
          rwa [hnode] at hcalled
    · exact .refl _
    · exact ih.cons f

/-- What is above the program keeps its scopes. -/
theorem map_scope_recordIn (v : Value) (frames : List Frame) :
    (Stack.recordIn v frames).map Frame.scope = frames.map Frame.scope := by
  induction frames with
  | nil => rfl
  | cons f rest ih =>
    unfold Stack.recordIn
    split
    · rfl
    · rfl
    · rw [List.map_cons, List.map_cons, ih]

/-- The frame on top goes on, and that of a call is what it was. -/
theorem recordIn_cons (v : Value) (f : Frame) (rest : List Frame) :
    ∃ f' rest', Stack.recordIn v (f :: rest) = f' :: rest' ∧ f.Continues f' ∧
      ∀ call, f.info = .call call → f' = f := by
  unfold Stack.recordIn
  split
  · rename_i hinfo
    refine ⟨_, _, rfl, ⟨rfl, rfl, rfl⟩, fun call hcall => ?_⟩
    rw [hinfo] at hcall
    cases hcall
  · exact ⟨_, _, rfl, ⟨rfl, rfl, rfl⟩, fun _ _ => rfl⟩
  · exact ⟨_, _, rfl, ⟨rfl, rfl, rfl⟩, fun _ _ => rfl⟩

/-- What stands above a frame stands above it when that goes on. -/
theorem Over.below {g f' : Frame} {rest' : List Frame} (hover : Over h g f rest)
    (hf : f.Continues f') (hcall : ∀ call, f.info = .call call → f' = f)
    (hscopes : (f' :: rest').map Frame.scope = (f :: rest).map Frame.scope) :
    Over h g f' rest' := by
  cases hover with
  | call hnode hg hscope => exact .call (hf.node.trans hnode) hg (hscope.trans hf.scope.symm)
  | child hnode hprogram hkind hn hg hlabels hscope =>
    refine .child (hf.node.trans hnode) hprogram hkind hn hg (by rwa [hf.labels]) ?_
    rw [hf.scope]
    refine hscope.imp_right fun hfresh => ⟨hfresh.1, fun e he heq => ?_⟩
    have hmem : e.scope ∈ (f :: rest).map Frame.scope := hscopes ▸ List.mem_map_of_mem he
    obtain ⟨e', he', hsame⟩ := List.mem_map.1 hmem
    exact hfresh.2 e' he' (hsame.trans heq)
  | body hinfo hphase hfunc ho hclosure hprogram hkind hfunction hg hs hscope houter =>
    obtain rfl := hcall _ hinfo
    exact .body hinfo hphase hfunc ho hclosure hprogram hkind hfunction hg hs hscope houter
  | again hinfo hphase hg =>
    obtain rfl := hcall _ hinfo
    exact .again hinfo hphase hg
  | evaluated hinfo hphase hprogram hg hs hscope =>
    obtain rfl := hcall _ hinfo
    exact .evaluated hinfo hphase hprogram hg hs hscope

theorem Sits.recorded {w : Value} (hs : Sits strict h rest f) (hinfo : f.info = .program w)
    (v : Value) : Sits strict h rest { f with info := .program v } := by
  cases hs with
  | node hscope hnode hprogram hkind hformed hsuits hgrants hsaved =>
    exact .node hscope hnode hprogram hkind hformed
      ⟨.inl rfl, hsuits.isLoop, hsuits.isSwitch, hsuits.looping, hsuits.switching⟩ hgrants
      fun _ _ h => by cases h
  | call hscope hnode hcalls =>
    rw [hcalls.info] at hinfo
    cases hinfo

/-- A stack stays in order when the completion of the program around its top is stored. -/
theorem Stacked.recordIn {frames : List Frame} (hs : Stacked strict h frames) (v : Value) :
    Stacked strict h (Stack.recordIn v frames) := by
  induction hs with
  | @base f hsits hbase =>
    unfold Stack.recordIn
    split
    · exact (Stacked.base hsits hbase).replace (hsits.recorded ‹_› v) rfl rfl rfl
    · exact .base hsits hbase
    · exact .base hsits hbase
  | @above g f rest hsits hover hrest ih =>
    unfold Stack.recordIn
    split
    · exact (Stacked.above hsits hover hrest).replace (hsits.recorded ‹_› v) rfl rfl rfl
    · exact .above hsits hover hrest
    · have halike := alike_recordIn v (f :: rest)
      have hscopes := map_scope_recordIn v (f :: rest)
      obtain ⟨f', rest', heq, hf, hcall⟩ := recordIn_cons v f rest
      rw [heq] at ih halike hscopes ⊢
      exact .above (hsits.alike halike) (hover.below hf hcall hscopes) ih

end Stack

end ScriptMachine
