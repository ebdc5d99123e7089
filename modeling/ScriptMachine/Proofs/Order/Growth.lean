import ScriptMachine.Proofs.Order.Operation
import ScriptMachine.Proofs.Order.Stack

/-!
# Steps of nodes and stacks

Whatever a step of the frame of a node asks for, the stack it leaves is in order: each jump that is
allowed in a child is claimed by the frame of the node or by one below it. The frame of the node
stays in its place below the frame of a child or of a call, or it ends. A loop and a switch are
marked as such from their first step on, so that jumps find them. Only a try statement keeps a
completion, and only a handler gets a scope of its own, which was free before.
-/

namespace ScriptMachine

open Tree (NodeId NodeKind)

namespace Frame

/-- A frame with the marks of its kind: those by which jumps find loops and switches. -/
structure Marked (kind : NodeKind) (f g : Frame) : Prop extends f.Continues g where
  info : g.info = f.info
  isLoop : g.isLoop = kind.isLoop
  isSwitch : g.isSwitch = kind.isSwitch

/-- The frame of a try statement goes on; a completion that it keeps it kept before. -/
structure Tries (f g : Frame) : Prop extends f.Continues g where
  info : g.info = f.info ∨ ∃ phase saved, g.info = .try phase saved ∧
    ∀ c, saved = some c → ∃ before, f.info = .try before (some c)
  isLoop : g.isLoop = f.isLoop
  isSwitch : g.isSwitch = f.isSwitch

variable {kind : NodeKind} {f : Frame}

/-- A step leaves the frame of a node with the marks of its kind. -/
theorem Suits.marks (hs : f.Suits kind) : f.Marked kind (f.marked kind) where
  node := rfl
  scope := rfl
  labels := rfl
  info := rfl
  isLoop := by
    have hloop := hs.isLoop
    have hlooping := hs.looping
    cases hkind : kind.isLoop <;> cases hf : f.isLoop <;> simp_all [marked]
  isSwitch := by
    have hswitch := hs.isSwitch
    have hswitching := hs.switching
    cases hkind : kind.isSwitch <;> cases hf : f.isSwitch <;> simp_all [marked]

/-- The frame of a statement that is neither a loop nor a switch bears no marks. -/
theorem Suits.marked (hs : f.Suits kind) (hloop : kind.isLoop = false)
    (hswitch : kind.isSwitch = false) : f.Marked kind f where
  node := rfl
  scope := rfl
  labels := rfl
  info := rfl
  isLoop := (Bool.eq_false_iff.2 fun h => by simp [hs.isLoop h] at hloop).trans hloop.symm
  isSwitch := (Bool.eq_false_iff.2 fun h => by simp [hs.isSwitch h] at hswitch).trans hswitch.symm

end Frame

/-- What a step of a try statement asks for. -/
def Step.Tries (h h' : Heap) (kind : NodeKind) (here : NodeRef) (f : Frame) : Step → Prop
  | .push f' g => f.Tries f' ∧ ∃ n ∈ kind.children,
      g.Begins { here with node := n } g.scope [] ∧ (g.scope = f.scope ∨
        h.scope? g.scope = none ∧
          ∃ s, h'.scope? g.scope = some s ∧ s.kind = .catch ∧ s.outer = some f.scope)
  | .stay _ => False
  | .done _ => True
  | .ref _ => False
  | .unwind c => ∃ phase, f.info = .try phase (some c)
  | .suspend _ => False

/-- What a step of a node asks for. -/
def Step.Follows (h h' : Heap) (kind : NodeKind) (here : NodeRef) (f : Frame) (step : Step) :
    Prop :=
  (∃ g, f.Marked kind g ∧ step.Pursues kind here g) ∨
    kind.isTry = true ∧ step.Tries h h' kind here f

namespace Machine

open Exec

variable {settles : Bool} {f : Frame}

/-! ## Handlers -/

/-- A handler runs in a scope that was free. -/
theorem altersTo_stepTry {m : Machine} (ht : m.heap.Tidy) (here : NodeRef) (block : NodeId)
    (handler : Option Tree.CatchClause) (finalizer : Option NodeId) :
    AltersTo settles m (fun step m' =>
        step.Tries m.heap m'.heap (.tryStatement block handler finalizer) here f)
      (stepTry f here block handler finalizer) := by
  unfold stepTry
  split
  · refine altersTo_pure ⟨⟨⟨rfl, rfl, rfl⟩, .inr ⟨_, _, rfl, fun _ h => by cases h⟩, rfl, rfl⟩,
      block, by simp [NodeKind.children], ⟨rfl, rfl, rfl, rfl, rfl, rfl, rfl⟩, .inl rfl⟩
  · split
    · refine altersTo_pure ⟨⟨⟨rfl, rfl, rfl⟩, .inr ⟨_, _, rfl, fun _ h => by cases h⟩, rfl, rfl⟩,
        _, by simp [NodeKind.children], ⟨rfl, rfl, rfl, rfl, rfl, rfl, rfl⟩, .inl rfl⟩
    · exact altersTo_pure trivial
  · split
    · exact altersTo_throw _
    · rename_i clause
      refine (altersTo_query _).bind fun owner m₁ _ hm₁ => ?_
      obtain ⟨rfl, -⟩ := hm₁
      refine (altersTo_newScope ht _ _ _ _).bind fun scope m₂ h₂ hscope => ?_
      obtain ⟨hfree, s, hs, hcatch, houter⟩ := hscope
      refine (alters.declare _ _ _ _).bindTo (h₂.tidy ht) fun _ m₃ h₃ _ => ?_
      obtain ⟨s', hs', hcatch', houter'⟩ := (h₃.retains (h₂.tidy ht)).scope hs
      refine altersTo_pure ⟨⟨⟨rfl, rfl, rfl⟩, .inr ⟨_, _, rfl, ?_⟩, rfl, rfl⟩, clause.body,
        by simp [NodeKind.children], ⟨rfl, rfl, rfl, rfl, rfl, rfl, rfl⟩,
        .inr ⟨hfree, s', hs', hcatch'.trans hcatch, houter'.trans houter⟩⟩
      intro c hc
      split at hc
      · rename_i phase completion hinfo
        exact ⟨phase, hc ▸ hinfo⟩
      · cases hc
  · split
    · rename_i phase completion hinfo
      exact altersTo_pure ⟨phase, hinfo⟩
    · exact altersTo_pure trivial
  · split
    · exact altersTo_throw _
    · rename_i node
      refine altersTo_pure ⟨⟨⟨rfl, rfl, rfl⟩, ?_, rfl, rfl⟩, node, by simp [NodeKind.children],
        ⟨rfl, rfl, rfl, rfl, rfl, rfl, rfl⟩, .inl rfl⟩
      dsimp only
      split
      · rename_i phase completion hinfo
        exact .inr ⟨_, _, rfl, fun c hc => ⟨phase, hc ▸ hinfo⟩⟩
      · exact .inl rfl

/-! ## All nodes -/

/-- A step of a node alters the machine, unless it is the end of an expression statement. -/
theorem altersTo_stepNode {m : Machine} (ht : m.heap.Tidy) (thread : ThreadId) (here : NodeRef)
    (program : Tree.Program) {kind : NodeKind} (hs : f.Suits kind)
    (hkind : ∀ e, kind = .expressionStatement e → f.step = 0) :
    AltersTo settles m (fun step m' => step.Follows m.heap m'.heap kind here f)
      (stepNode thread f here program kind) := by
  have hplain (htry : kind.isTry = false) :
      AltersTo settles m (fun step m' => step.Follows m.heap m'.heap kind here f)
        (stepNode thread f here program kind) := by
    have halters : Alters settles (stepNode thread f here program kind) :=
      free_stepNode alters f here (alters_checkTimeLimit thread) program kind
        fun e he hstep => absurd (hkind e he) hstep
    refine ⟨halters m ht, fun step m' hrun => ?_⟩
    obtain ⟨made, hadvances⟩ := advances_of_stepNode thread program htry hrun
    exact .inl ⟨_, hs.marks, hadvances.pursues⟩
  cases kind with
  | tryStatement block handler finalizer =>
    exact (altersTo_stepTry ht here block handler finalizer).mono fun _ _ _ h => .inr ⟨rfl, h⟩
  | _ => exact hplain rfl

end Machine

end ScriptMachine

namespace ScriptMachine.Stack

open Tree (NodeId NodeKind Node Place Formed Loops)

variable {strict : Prop} {h h' : Heap} {f g : Frame} {rest : List Frame} {kind : NodeKind}

/-- What is left of a stack by a step of its top frame is in order, and a completion is claimed. -/
def Carries (strict : Prop) (h : Heap) (rest : List Frame) : Step → Prop
  | .push f g => Stacked strict h (g :: f :: rest)
  | .stay f => Stacked strict h (f :: rest)
  | .suspend f => Stacked strict h (f :: rest)
  | .done _ => True
  | .ref _ => True
  | .unwind c => Bound strict rest c

/-! ## Jumps in children -/

/-- A child may break to what its parent may break to. -/
theorem Grants.breaks_above {scope : Tree.Parser.JumpScope} {nodes : Array Node} {id : NodeId}
    (hg : Grants rest scope nodes id f.labels) (hnode : f.node.isSome = true)
    {label : Option String} (hallowed : scope.allowsBreak label = true) :
    Offers .break label (f :: rest) ∨ ∃ l, label = some l ∧ Muted l (f :: rest) := by
  rcases hg.breaks label hallowed with hoffers | ⟨l, rfl, hlast | hmuted⟩
  · exact .inl (.inr ⟨hnode, hoffers⟩)
  · cases htrying : f.isTrying with
    | true => exact .inr ⟨l, rfl, .inl ⟨htrying, hlast⟩⟩
    | false =>
      refine .inl (.inl ⟨htrying, ?_⟩)
      change f.labels.contains l = true
      exact List.contains_iff_mem.2 (List.mem_of_getLast? hlast)
  · exact .inr ⟨l, rfl, .inr ⟨hnode, hmuted⟩⟩

/-- A child may go on with what its parent may go on with. -/
theorem Grants.continues_above {scope : Tree.Parser.JumpScope} {nodes : Array Node} {id : NodeId}
    (hg : Grants rest scope nodes id f.labels) (hnode : f.node.isSome = true)
    (hkind : nodes[id]?.map Node.kind = some kind)
    (hloop : kind.isLoop = true → f.isTrying = false ∧ f.isLoop = true)
    {label : Option String} (hallowed : scope.allowsContinue label = true) :
    Offers .continue label (f :: rest) ∨ ∃ l, label = some l ∧ l ∈ f.labels ∧
      ∃ l' body, kind = .labeled l' body ∧ Loops nodes body := by
  rcases hg.continues label hallowed with hoffers | ⟨l, rfl, hl, hloops⟩
  · exact .inl (.inr ⟨hnode, hoffers⟩)
  · cases hloops with
    | @loop _ kind' hkind' hisLoop =>
      obtain rfl := Option.some.inj (hkind.symm.trans hkind')
      obtain ⟨htrying, hflag⟩ := hloop hisLoop
      refine .inl (.inl ⟨htrying, ?_⟩)
      change (f.isLoop && f.labels.contains l) = true
      rw [hflag, List.contains_iff_mem.2 hl]
      rfl
    | @labeled _ body l' hkind' hbody =>
      obtain rfl := Option.some.inj (hkind.symm.trans hkind')
      exact .inr ⟨l, rfl, hl, l', body, rfl, hbody⟩

theorem called_above (hnode : f.node.isSome = true) (hrest : Called rest) :
    Called (f :: rest) := by
  obtain ⟨here, hhere⟩ := Option.isSome_iff_exists.1 hnode
  unfold Called
  rw [hhere]
  exact hrest

/-- A child that a marked frame has evaluated finds its jumps claimed. -/
theorem Grants.child {place : Place} {nodes : Array Node} {id : NodeId} {loop : Bool}
    {parts : List (Place × NodeId)} (hg : Grants rest place.scope nodes id f.labels)
    (hnode : f.node.isSome = true) (hkind : nodes[id]?.map Node.kind = some kind)
    (hisLoop : kind.isLoop = true → f.isTrying = false ∧ f.isLoop = true)
    (hisSwitch : kind.isSwitch = true → f.isTrying = false ∧ f.isSwitch = true)
    (hloop : loop = true → Loops nodes id) (hparts : kind.parts? loop place = some parts)
    {part : Place × NodeId} (hpart : part ∈ parts) :
    Grants (f :: rest) part.1.scope nodes part.2 (childLabels kind f.labels) := by
  have hbreaks {label : Option String} (hallowed : place.scope.allowsBreak label = true) :
      Offers .break label (f :: rest) ∨ ∃ l, label = some l ∧
        ((childLabels kind f.labels).getLast? = some l ∨ Muted l (f :: rest)) :=
    (hg.breaks_above hnode hallowed).imp_right fun ⟨l, hlabel, hmuted⟩ => ⟨l, hlabel, .inr hmuted⟩
  have hcontinues {label : Option String} (hallowed : place.scope.allowsContinue label = true) :
      Offers .continue label (f :: rest) ∨ ∃ l, label = some l ∧
        l ∈ childLabels kind f.labels ∧ Loops nodes part.2 := by
    refine (hg.continues_above hnode hkind hisLoop hallowed).imp_right ?_
    rintro ⟨l, hlabel, hl, l', body, rfl, hbody⟩
    refine ⟨l, hlabel, List.mem_append_left _ hl, ?_⟩
    have hsnd : part.2 ∈ (NodeKind.labeled l' body).children :=
      NodeKind.map_snd_of_parts? hparts ▸ List.mem_map_of_mem hpart
    rwa [List.mem_singleton.1 hsnd]
  have hreturns (hfunction : place.scope.inFunction = true) : Called (f :: rest) :=
    called_above hnode (hg.returns hfunction)
  rcases NodeKind.scope_of_mem_parts hparts hpart with hscope | hscope |
    ⟨label, body, rfl, hbody, hscope⟩ | ⟨hkindLoop, hscope⟩ | ⟨hkindSwitch, hscope⟩
  · rw [hscope]
    exact grants_empty _ _ _ _
  · rw [hscope]
    exact ⟨fun _ => hbreaks, fun _ => hcontinues, hreturns⟩
  · rw [hscope]
    refine ⟨fun target hallowed => ?_, fun target hallowed => ?_, hreturns⟩
    · -- The label of the statement itself is the last one of its body.
      cases target with
      | none => exact hbreaks hallowed
      | some l =>
        simp only [Tree.Parser.JumpScope.allowsBreak, Tree.Parser.JumpScope.labeled,
          List.any_append, List.any_cons, List.any_nil, Bool.or_false, Bool.or_eq_true,
          beq_iff_eq] at hallowed
        rcases hallowed with hbefore | rfl
        · exact hbreaks hbefore
        · exact .inr ⟨label, rfl, .inl (by simp [childLabels])⟩
    · cases target with
      | none => exact hcontinues hallowed
      | some l =>
        simp only [Tree.Parser.JumpScope.allowsContinue, Tree.Parser.JumpScope.labeled,
          List.contains_eq_mem, List.mem_append, List.mem_singleton, Prod.mk.injEq,
          decide_eq_true_eq] at hallowed
        rcases hallowed with hbefore | ⟨rfl, hisTrue⟩
        · exact hcontinues (List.contains_iff_mem.2 hbefore)
        · have hbodyLoops : Loops nodes part.2 := by
            cases hloop hisTrue.symm with
            | loop hkind' hisLoop' =>
              obtain rfl := Option.some.inj (hkind.symm.trans hkind')
              cases hisLoop'
            | labeled hkind' hbody' =>
              cases Option.some.inj (hkind.symm.trans hkind')
              rwa [hbody]
          exact .inr ⟨l, rfl, by simp [childLabels], hbodyLoops⟩
  · rw [hscope]
    obtain ⟨htrying, hflag⟩ := hisLoop hkindLoop
    refine ⟨fun target hallowed => ?_, fun target hallowed => ?_, hreturns⟩
    · cases target with
      | none => exact .inl (.inl ⟨htrying, by simp [Machine.isJumpTarget, hflag]⟩)
      | some l => exact hbreaks hallowed
    · cases target with
      | none => exact .inl (.inl ⟨htrying, by simp [Machine.isJumpTarget, hflag]⟩)
      | some l => exact hcontinues hallowed
  · rw [hscope]
    obtain ⟨htrying, hflag⟩ := hisSwitch hkindSwitch
    refine ⟨fun target hallowed => ?_, fun _ => hcontinues, hreturns⟩
    cases target with
    | none => exact .inl (.inl ⟨htrying, by simp [Machine.isJumpTarget, hflag]⟩)
    | some l => exact hbreaks hallowed

/-! ## Steps of nodes -/

/-- What is known of the frame of a node. -/
theorem Sits.ofNode {here : NodeRef} {p : Tree.Program} (hs : Sits strict h rest f)
    (hnode : f.node = some here) (hprogram : h.program? here.program = some p)
    (hkind : p.kind? here.node = some kind) :
    f.Suits kind ∧ (∀ phase c, f.info = .try phase (some c) → Bound strict rest c) ∧
      ∃ place, Formed p.nodes place here.node ∧
        Grants rest place.scope p.nodes here.node f.labels := by
  cases hs with
  | @node here' p' kind' place _ hnode' hprogram' hkind' hformed hsuits hgrants hsaved =>
    obtain rfl := Option.some.inj (hnode.symm.trans hnode')
    obtain rfl := Option.some.inj (hprogram.symm.trans hprogram')
    obtain rfl := Option.some.inj (hkind.symm.trans hkind')
    exact ⟨hsuits, hsaved, place, hformed, hgrants⟩
  | call _ hnone _ =>
    rw [hnode] at hnone
    cases hnone

/-- The frame of a node that has not been stepped may stand where the node may stand. -/
theorem sits_of_begins {here : NodeRef} {p : Tree.Program} {place : Place} {scope : ScopeId}
    {labels : List String} (hg : g.Begins here scope labels)
    (hscope : ∃ s, h.scope? scope = some s) (hprogram : h.program? here.program = some p)
    (hformed : Formed p.nodes place here.node)
    (hgrants : Grants rest place.scope p.nodes here.node labels) : Sits strict h rest g := by
  obtain ⟨kind, hkind⟩ : ∃ kind, p.kind? here.node = some kind := by
    cases hformed with
    | node hkind _ _ _ => exact ⟨_, hkind⟩
  have hsuits : g.Suits kind := by
    refine ⟨.inl ?_, ?_, ?_, ?_, ?_⟩
    · rw [hg.info]
      rfl
    · rw [hg.isLoop]
      exact fun h => by cases h
    · rw [hg.isSwitch]
      exact fun h => by cases h
    · rw [hg.step]
      exact fun h => by cases h
    · rw [hg.step]
      exact fun h => by cases h
  refine .node (by rwa [hg.scope]) hg.node hprogram hkind hformed hsuits (by rwa [hg.labels]) ?_
  rw [hg.info]
  exact fun _ _ h => by cases h

/-- A marked frame goes on in its place; a completion that it keeps it kept before. -/
theorem Sits.goesOn {here : NodeRef} {p : Tree.Program} {f' : Frame} (hs : Sits strict h rest f)
    (hnode : f.node = some here) (hprogram : h.program? here.program = some p)
    (hkind : p.kind? here.node = some kind) (hf : f.Continues f')
    (hisLoop : f'.isLoop = kind.isLoop) (hisSwitch : f'.isSwitch = kind.isSwitch)
    (hinfo : f'.info = f.info ∨ f'.info.isPlain = true ∨ kind.isTry = true ∧
      ∃ phase saved, f'.info = .try phase saved ∧
        ∀ c, saved = some c → ∃ before, f.info = .try before (some c)) :
    Sits strict h rest f' := by
  obtain ⟨hsuits, hsaved, place, hformed, hgrants⟩ := hs.ofNode hnode hprogram hkind
  have hsits (hinfo : f'.info.isPlain = true ∨ f'.isTrying = true ∧ kind.isTry = true)
      (hsaved : ∀ phase c, f'.info = .try phase (some c) → Bound strict rest c) :
      Sits strict h rest f' :=
    .node (hf.scope.symm ▸ hs.scope) (hf.node.trans hnode) hprogram hkind hformed
      ⟨hinfo, fun h => hisLoop ▸ h, fun h => hisSwitch ▸ h, fun _ h => hisLoop.trans h,
        fun _ h => hisSwitch.trans h⟩ (by rwa [hf.labels]) hsaved
  rcases hinfo with hsame | hplain | ⟨htry, phase, saved, hinfo, hbefore⟩
  · refine hsits ?_ fun phase c hinfo => hsaved phase c (hsame ▸ hinfo)
    have hsuitsInfo := hsuits.info
    unfold Frame.isTrying at hsuitsInfo ⊢
    rwa [hsame]
  · refine hsits (.inl hplain) fun phase c hinfo => ?_
    rw [hinfo] at hplain
    cases hplain
  · refine hsits (.inr ⟨?_, htry⟩) fun phase' c hinfo' => ?_
    · unfold Frame.isTrying
      rw [hinfo]
    · obtain ⟨rfl, hc⟩ := FrameInfo.try.inj (hinfo.symm.trans hinfo')
      obtain ⟨before, hkept⟩ := hbefore c hc
      exact hsaved before c hkept

/-- A child of the node of a marked frame may stand on top of it. -/
theorem Sits.child {here : NodeRef} {p : Tree.Program} {n : NodeId} {scope : ScopeId}
    (hs : Sits strict h rest f) (hnode : f.node = some here)
    (hprogram : h.program? here.program = some p) (hkind : p.kind? here.node = some kind)
    (hisLoop : f.isLoop = kind.isLoop) (hisSwitch : f.isSwitch = kind.isSwitch)
    (hn : n ∈ kind.children)
    (hg : g.Begins { here with node := n } scope (childLabels kind f.labels))
    (hscope : ∃ s, h.scope? scope = some s) : Sits strict h (f :: rest) g := by
  obtain ⟨hsuits, -, place, hformed, hgrants⟩ := hs.ofNode hnode hprogram hkind
  cases hformed with
  | @node _ _ kind' loop parts hkind' hloop hparts hbelow =>
    obtain rfl := Option.some.inj (hkind.symm.trans hkind')
    rw [← NodeKind.map_snd_of_parts? hparts] at hn
    obtain ⟨part, hpart, rfl⟩ := List.mem_map.1 hn
    have hnotTry {b : Bool} (hb : kind.isTry = false) (hmark : b = true) :
        f.isTrying = false ∧ b = true := by
      refine ⟨Bool.eq_false_iff.2 fun htrying => ?_, hmark⟩
      rcases hsuits.info with hplain | ⟨-, htry⟩
      · unfold Frame.isTrying at htrying
        split at htrying
        · rename_i hinfo
          rw [hinfo] at hplain
          cases hplain
        · cases htrying
      · rw [hb] at htry
        cases htry
    have hgrants' := hgrants.child (by rw [hnode]; rfl) hkind'
      (fun hk => hnotTry (by cases kind <;> first | rfl | cases hk) (hisLoop.trans hk))
      (fun hk => hnotTry (by cases kind <;> first | rfl | cases hk) (hisSwitch.trans hk))
      hloop hparts hpart
    exact sits_of_begins hg hscope hprogram (hbelow part hpart) hgrants'

/-- The frame of a call may stand on top of a frame in its scope. -/
theorem Stacked.call {here : NodeRef} (hs : Stacked strict h (f :: rest))
    (hnode : f.node = some here) (hg : g.IsCall f.scope) : Stacked strict h (g :: f :: rest) := by
  obtain ⟨info, rfl⟩ := hg
  exact .above (.call hs.sits.scope rfl ⟨rfl, rfl, rfl, rfl⟩) (.call hnode rfl rfl) hs

/-- The scopes of a stack are live. -/
theorem Stacked.scope {frames : List Frame} (hs : Stacked strict h frames) {e : Frame}
    (he : e ∈ frames) : ∃ s, h.scope? e.scope = some s := by
  induction hs with
  | base hsits _ =>
    obtain rfl := List.mem_singleton.1 he
    exact hsits.scope
  | above hsits _ _ ih =>
    rcases List.mem_cons.1 he with rfl | he
    · exact hsits.scope
    · exact ih he

/-- A jump is claimed when the label it names does not stand directly before it or before a running
try statement. -/
theorem Sits.bound_of_raises {here : NodeRef} {p : Tree.Program} {c : Completion}
    (hs : Sits strict h rest f) (hnode : f.node = some here)
    (hprogram : h.program? here.program = some p) (hkind : p.kind? here.node = some kind)
    (hraises : kind.Raises c)
    (hstrict : strict → ∀ l, kind = .breakStatement (some l) →
      f.labels.getLast? ≠ some l ∧ ¬ Muted l rest) : Bound strict rest c := by
  obtain ⟨-, -, place, hformed, hgrants⟩ := hs.ofNode hnode hprogram hkind
  cases hformed with
  | @node _ _ kind' loop parts hkind' hloop hparts hbelow =>
    obtain rfl := Option.some.inj (hkind.symm.trans hkind')
    cases kind with
    | breakStatement label =>
      obtain ⟨hc, rfl⟩ := hraises
      intro hbound
      rw [hc] at hbound
      have hstrict := hstrict (hbound.resolve_right fun h => by cases h)
      cases place with
      | statement scope =>
        obtain ⟨hallowed, -⟩ := Option.ite_none_right_eq_some.1 hparts
        unfold Aimed
        rw [hc]
        refine (hgrants.breaks _ hallowed).resolve_right ?_
        rintro ⟨l, hlabel, hlast | hmuted⟩
        · exact (hstrict l (by rw [hlabel])).1 hlast
        · exact (hstrict l (by rw [hlabel])).2 hmuted
      | _ => cases hparts
    | continueStatement label =>
      obtain ⟨hc, rfl⟩ := hraises
      intro _
      cases place with
      | statement scope =>
        obtain ⟨hallowed, -⟩ := Option.ite_none_right_eq_some.1 hparts
        unfold Aimed
        rw [hc]
        refine (hgrants.continues _ hallowed).resolve_right ?_
        rintro ⟨l, -, -, hloops⟩
        cases hloops with
        | loop hkind' hisLoop =>
          cases Option.some.inj (hkind.symm.trans hkind')
          cases hisLoop
        | labeled hkind' _ => cases Option.some.inj (hkind.symm.trans hkind')
      | _ => cases hparts
    | returnStatement argument =>
      intro _
      cases place with
      | statement scope =>
        obtain ⟨hfunction, -⟩ := Option.ite_none_right_eq_some.1 hparts
        unfold Aimed
        rw [show c.kind = .return from hraises]
        exact hgrants.returns hfunction
      | _ => cases hparts
    | _ => cases hraises

/-- A throw drops frames until one claims it, or ends the thread. -/
theorem bound_throw {frames : List Frame} {c : Completion} (hc : c.kind = .throw) :
    Bound strict frames c := by
  intro _
  unfold Aimed
  rw [hc]
  trivial

/-- What a step of the frame of a node leaves on the stack is in order. -/
theorem Stacked.carries {here : NodeRef} {p : Tree.Program} {step : Step}
    (hs : Stacked strict h (f :: rest)) (hr : h.Retains h') (hnode : f.node = some here)
    (hprogram : h.program? here.program = some p) (hkind : p.kind? here.node = some kind)
    (hstep : step.Follows h h' kind here f)
    (hstrict : strict → ∀ l, kind = .breakStatement (some l) →
      f.labels.getLast? ≠ some l ∧ ¬ Muted l rest) : Carries strict h' rest step := by
  have hs' := hs.retained hr
  have hprogram' := hr.program hprogram
  rcases hstep with ⟨g, hg, hstep⟩ | ⟨htry, hstep⟩
  · -- The frame goes on with the marks of its kind.
    have hmoved {f' : Frame} (hf : g.Moves f') : Stacked strict h' (f' :: rest) := by
      have hcontinues : f.Continues f' :=
        ⟨hf.node.trans hg.node, hf.scope.trans hg.scope, hf.labels.trans hg.labels⟩
      refine hs'.replace (hs'.sits.goesOn hnode hprogram' hkind hcontinues
        (hf.isLoop.trans hg.isLoop) (hf.isSwitch.trans hg.isSwitch) ?_) hcontinues.node
        hcontinues.scope hcontinues.labels
      exact hf.info.imp (fun h => h.trans hg.info) .inl
    cases step with
    | push f' e =>
      obtain ⟨hf, he⟩ := hstep
      have htop := hmoved hf
      have hnode' : f'.node = some here := hf.node.trans (hg.node.trans hnode)
      rcases he with hcall | ⟨n, hn, hbegins⟩
      · exact htop.call hnode' (hf.scope ▸ hcall)
      · have hlabels : childLabels kind f'.labels = childLabels kind g.labels := by
          rw [hf.labels]
        have hsits := htop.sits.child hnode' hprogram' hkind (hf.isLoop.trans hg.isLoop)
          (hf.isSwitch.trans hg.isSwitch) hn (hlabels ▸ hbegins)
          (hf.scope ▸ htop.sits.scope)
        exact .above hsits (.child hnode' hprogram' hkind hn hbegins.node
          (hbegins.labels.trans hlabels.symm) (.inl (hbegins.scope.trans hf.scope.symm))) htop
    | stay f' => exact hmoved hstep
    | done v => trivial
    | ref r => trivial
    | unwind c =>
      rcases hstep with hthrow | hraises
      · exact bound_throw hthrow
      · exact hs.sits.bound_of_raises hnode hprogram hkind hraises hstrict
    | suspend f' => exact hstep.elim
  · cases step with
    | push f' e =>
      obtain ⟨hf, n, hn, hbegins, hscope⟩ := hstep
      have hplain : kind.isLoop = false ∧ kind.isSwitch = false := by
        cases kind <;> first | exact ⟨rfl, rfl⟩ | cases htry
      have hmarked := (hs.sits.ofNode hnode hprogram hkind).1.marked hplain.1 hplain.2
      have htop : Stacked strict h' (f' :: rest) := by
        refine hs'.replace (hs'.sits.goesOn hnode hprogram' hkind hf.toContinues
          (hf.isLoop.trans hmarked.isLoop) (hf.isSwitch.trans hmarked.isSwitch) ?_) hf.node hf.scope hf.labels
        exact hf.info.imp_right fun hinfo => .inr ⟨htry, hinfo⟩
      have hnode' : f'.node = some here := hf.node.trans hnode
      have hlabels : childLabels kind f'.labels = [] := by
        cases kind <;> first | rfl | cases htry
      have hlive : ∃ s, h'.scope? e.scope = some s := by
        rcases hscope with hsame | ⟨-, s, hs, -⟩
        · rw [hsame]
          exact hs'.sits.scope
        · exact ⟨s, hs⟩
      have hsits := htop.sits.child hnode' hprogram' hkind (hf.isLoop.trans hmarked.isLoop)
        (hf.isSwitch.trans hmarked.isSwitch) hn (hlabels.symm ▸ hbegins) hlive
      refine .above hsits (.child hnode' hprogram' hkind hn hbegins.node
        (hbegins.labels.trans hlabels.symm) ?_) htop
      rw [hf.scope]
      refine hscope.imp_right fun ⟨hfree, s, hs', hcatch, houter⟩ =>
        ⟨⟨s, hs', hcatch, houter⟩, fun e' he' heq => ?_⟩
      -- A scope that was free is none of those that the stack runs in.
      have hold : ∃ s, h.scope? e'.scope = some s := by
        rcases List.mem_cons.1 he' with rfl | he'
        · rw [hf.scope]
          exact hs.sits.scope
        · exact hs.scope (List.mem_cons_of_mem _ he')
      obtain ⟨s', hlive'⟩ := hold
      rw [heq, hfree] at hlive'
      cases hlive'
    | done v => trivial
    | unwind c =>
      obtain ⟨phase, hinfo⟩ := hstep
      exact (hs.sits.ofNode hnode hprogram hkind).2.1 phase c hinfo
    | stay f' => exact hstep.elim
    | ref r => exact hstep.elim
    | suspend f' => exact hstep.elim

/-! ## Frames of calls -/

/-- The frame of a call goes on in its place. -/
theorem Stacked.withCall (hs : Stacked strict h (f :: rest)) (hnode : f.node = none)
    (call : CallInfo) (v : Value) :
    Stacked strict h ({ f with info := .call call, value := v } :: rest) := by
  refine hs.replace ?_ rfl rfl rfl
  cases hs.sits with
  | node _ hsome _ _ _ _ _ _ =>
    rw [hnode] at hsome
    cases hsome
  | call hscope _ hcalls =>
    exact .call hscope hnode ⟨rfl, hcalls.isLoop, hcalls.isSwitch, hcalls.labels⟩

/-- The body of a closure that is called stands above its call. -/
theorem Stacked.body {call : CallInfo} {func : ObjectId} {o : Object} {node : NodeRef}
    {closure scope : ScopeId} {p : Tree.Program} {literal : Tree.FunctionNode}
    {s : Scope} (hs : Stacked strict h (f :: rest)) (hnode : f.node = none)
    (hfunc : call.func = .object func) (ho : h.object? func = some o)
    (hclosure : o.function = some (.closure node closure))
    (hprogram : h.program? node.program = some p) (hkind : p.kind? node.node = some kind)
    (hfunction : kind.function? = some literal) (hbuilt : literal.Built p.nodes)
    (hscope : h.scope? scope = some s)
    (hscopeKind : s.kind = .function) (houter : s.outer = some closure)
    (newObject : Option ObjectId) :
    Stacked strict h (.ofNode { node with node := literal.body } scope ::
      { f with info := .call { call with phase := .running, newObject } } :: rest) := by
  have htop := hs.withCall hnode { call with phase := .running, newObject } f.value
  have hcalled : Called
      ({ f with info := .call { call with phase := .running, newObject } } :: rest) := by
    unfold Called
    dsimp only
    rw [hnode]
    exact ⟨_, rfl, rfl⟩
  have hbegins : (Frame.ofNode { node with node := literal.body } scope).Begins
      { node with node := literal.body } scope [] := ⟨rfl, rfl, rfl, rfl, rfl, rfl, rfl⟩
  refine .above (sits_of_begins hbegins ⟨s, hscope⟩ hprogram hbuilt.formed
    (grants_function hcalled _ _ _)) ?_ htop
  exact .body rfl rfl hfunc ho hclosure hprogram hkind hfunction rfl hscope hscopeKind houter

end ScriptMachine.Stack
