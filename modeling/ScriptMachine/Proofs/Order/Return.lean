import ScriptMachine.Proofs.Order.Run

/-!
# Stacks of reachable machines

The stack of a thread is its continuation: what stands above what is read off the program, and a
`return` ends the call of the function whose body it stands in, once the finalizers in between have
run.
-/

namespace ScriptMachine

open Exec Machine
open Tree (NodeId NodeKind)

namespace Stack

variable {strict : Prop} {h : Heap} {f g top : Frame} {rest above below : List Frame}
  {c : Completion}

/-- What may stand above what, down to the base. -/
def Ordered (h : Heap) : List Frame → Prop
  | [] => False
  | [f] => Base h f
  | g :: f :: rest => Over h g f rest ∧ Ordered h (f :: rest)

theorem Stacked.ordered {frames : List Frame} (hs : Stacked strict h frames) :
    Ordered h frames := by
  induction hs with
  | base _ hbase => exact hbase
  | above _ hover _ ih => exact ⟨hover, ih⟩

/-! ## The function whose body runs -/

/-- The frame of a running call, and the body of the function that it calls. -/
structure Runs (h : Heap) (g : Frame) (program : ProgramId) (p : Tree.Program) (body : NodeId) :
    Prop where
  running : ∃ call func o node closure, g.info = .call call ∧ call.phase = .running ∧
    call.func = .object func ∧ h.object? func = some o ∧
    o.function = some (.closure ⟨program, node⟩ closure) ∧
    ∃ kind literal, p.kind? node = some kind ∧ kind.function? = some literal ∧ literal.body = body
  program : h.program? program = some p

/-- The frames above the running call of a function are evaluating its body. -/
structure Inside (h : Heap) (above : List Frame) (g : Frame) : Prop where
  inside : ∃ program p body, Runs h g program p body ∧
    ∀ f ∈ above, ∃ n, f.node = some ⟨program, n⟩ ∧ Tree.Program.Under p body n

/-- The frames from one that evaluates a node of a running call down to that call. -/
theorem Stacked.inside {frames : List Frame} (hs : Stacked strict h frames) :
    ∀ {top rest}, frames = top :: rest → top.node.isSome = true → Called rest →
      ∃ above g below, rest = above ++ g :: below ∧ Inside h (top :: above) g := by
  induction hs with
  | base _ _ =>
    rintro top rest ⟨⟩ _ hcalled
    exact hcalled.elim
  | @above g f rest hsits hover hrest ih =>
    rintro _ _ ⟨⟩ hnode hcalled
    cases hover with
    | call _ hnone _ => rw [hnone] at hnode; cases hnode
    | again _ _ hnone => rw [hnone] at hnode; cases hnode
    | @child here p kind n hf hprogram hkind hn hg _ _ =>
      have hcalled' : Called rest := by
        unfold Called at hcalled
        rwa [hf] at hcalled
      obtain ⟨above, call, below, rfl, hinside⟩ := ih rfl (by rw [hf]; rfl) hcalled'
      refine ⟨f :: above, call, below, rfl, ?_⟩
      obtain ⟨program, p', body, hruns, hunder⟩ := hinside.inside
      obtain ⟨n', hf', hn'⟩ := hunder f List.mem_cons_self
      cases hf.symm.trans hf'
      obtain rfl := Option.some.inj (hprogram.symm.trans hruns.program)
      refine ⟨program, p, body, hruns, fun e he => ?_⟩
      rcases List.mem_cons.1 he with rfl | he
      · exact ⟨n, hg, hn'.child hkind hn⟩
      · exact hunder e he
    | @body call func o node closure p kind literal s hinfo hphase hfunc ho hclosure hprogram
        hkind hfunction hg hs' hscope houter =>
        refine ⟨[], f, rest, rfl, node.program, p, literal.body,
          ⟨⟨call, func, o, node.node, closure, hinfo, hphase, hfunc, ho, hclosure, kind, literal,
            hkind, hfunction, rfl⟩, hprogram⟩, fun e he => ?_⟩
        obtain rfl := List.mem_singleton.1 he
        exact ⟨literal.body, hg, .refl⟩
    | @evaluated call id p s hinfo hphase _ _ _ _ =>
      have hnone := hrest.sits.node_eq_none hinfo
      unfold Called at hcalled
      rw [hnone] at hcalled
      obtain ⟨call', hinfo', hrunning⟩ := hcalled
      cases hinfo.symm.trans hinfo'
      rw [hphase] at hrunning
      cases hrunning

/-! ## Where a return ends -/

/-- The frame of a call that has got its value. -/
def returned (g : Frame) (call : CallInfo) (v : Value) : Frame :=
  { g with info := .call { call with phase := .returned }, value := v }

/-- The frame of a try statement that runs its finalizer before a completion goes on. -/
def finalizing (f : Frame) (phase : TryPhase) (c : Completion) : Frame :=
  { f with info := .try phase (some c), step := 4 }

/-- What a return leaves of the frames down to the running call: the call with its value, or a try
statement on the way that runs its finalizer first. -/
def Completes (above : List Frame) (g : Frame) (below : List Frame) (c : Completion)
    (left : List Frame) : Prop :=
  (∃ call, g.info = .call call ∧ left = returned g call c.value :: below) ∨
    ∃ passed f held phase saved, above = passed ++ f :: held ∧ f.info = .try phase saved ∧
      left = finalizing f phase c :: (held ++ g :: below)

/-- A return at the frame of a node. -/
theorem meet_return {here : NodeRef} (hs : Sits strict h rest f) (hnode : f.node = some here)
    (hc : c.kind = .return) : meet h f c = .ok .drop ∨
      ∃ phase saved, f.info = .try phase saved ∧ meet h f c = .ok (.catch (finalizing f phase c)) := by
  cases hs with
  | call _ hnone _ =>
    rw [hnode] at hnone
    cases hnone
  | @node here' p kind place _ hnode' hprogram hkind _ hsuits _ _ =>
    rcases hsuits.info with hplain | ⟨htrying, htry⟩
    · have hnot : f.isTrying = false := by
        unfold Frame.isTrying
        split
        · rename_i hinfo
          rw [hinfo] at hplain
          cases hplain
        · rfl
      rw [meet_of_not_trying hnot]
      unfold meetPlain
      rw [hc]
      dsimp only
      split
      · rename_i hinfo
        rw [hinfo] at hplain
        cases hplain
      · exact .inl rfl
    · cases hinfo : f.info with
      | «try» phase saved =>
        cases kind with
        | tryStatement block handler finalizer =>
          rw [meet_of_trying hnode' hprogram hkind hinfo, hc]
          rw [if_neg (by simp)]
          split
          · exact .inr ⟨phase, saved, rfl, rfl⟩
          · exact .inl rfl
        | _ => cases htry
      | _ =>
        unfold Frame.isTrying at htrying
        rw [hinfo] at htrying
        cases htrying

/-- A return at a running call. -/
theorem meet_running {call : CallInfo} (hg : g.info = .call call) (hrunning : call.phase = .running)
    (hc : c.kind = .return) : meet h g c = .ok (.catch (returned g call c.value)) := by
  have hnot : g.isTrying = false := by
    unfold Frame.isTrying
    rw [hg]
  rw [meet_of_not_trying hnot]
  unfold meetPlain
  rw [hc, hg]
  dsimp only
  rw [hrunning]
  rfl

/-- A return unwinds to the running call, or to a finalizer on the way. -/
theorem completes {call : CallInfo} (hc : c.kind = .return) (hg : g.info = .call call)
    (hrunning : call.phase = .running) (hs : Stacked strict h (above ++ g :: below))
    (habove : ∀ f ∈ above, f.node.isSome = true) (depth : Nat)
    (hdepth : depth = (above ++ g :: below).length) :
    ∃ left, unwindFrames h c (above ++ g :: below) depth hdepth = .caught left ∧
      Completes above g below c left.frames := by
  induction above generalizing depth with
  | nil =>
    refine ⟨Stack.push ⟨below, depth - 1, by simp [hdepth]⟩ (returned g call c.value), ?_,
      .inl ⟨call, hg, rfl⟩⟩
    change unwindFrames h c (g :: below) depth hdepth = _
    rw [unwindFrames, meet_running hg hrunning hc]
  | cons f above ih =>
    obtain ⟨here, hnode⟩ := Option.isSome_iff_exists.1 (habove f List.mem_cons_self)
    change ∃ left, unwindFrames h c (f :: (above ++ g :: below)) depth hdepth = .caught left ∧ _
    rcases meet_return hs.sits hnode hc with hdrop | ⟨phase, saved, hinfo, hcatch⟩
    · have htail : Stacked strict h (above ++ g :: below) := by
        cases above with
        | nil => exact hs.tail
        | cons _ _ => exact hs.tail
      obtain ⟨left, hleft, hcompletes⟩ := ih htail
        (fun e he => habove e (List.mem_cons_of_mem f he)) (depth - 1) (by simp [hdepth])
      refine ⟨left, ?_, hcompletes.imp_right ?_⟩
      · rw [unwindFrames, hdrop]
        exact hleft
      · rintro ⟨passed, f', held, phase, saved, rfl, hinfo, hleft'⟩
        exact ⟨f :: passed, f', held, phase, saved, rfl, hinfo, hleft'⟩
    · refine ⟨Stack.push ⟨above ++ g :: below, depth - 1, by simp [hdepth]⟩
        (finalizing f phase c), ?_, .inr ⟨[], f, above, phase, saved, rfl, hinfo, rfl⟩⟩
      rw [unwindFrames, hcatch]

/-! ## Continuations -/

/-- A frame whose next step may unwind with a return: a `return` statement, or a try statement that
kept one while it ran its finalizer. -/
def Returns (h : Heap) (top : Frame) : Prop :=
  ∃ here p kind, top.node = some here ∧ h.program? here.program = some p ∧
    p.kind? here.node = some kind ∧
      ((∃ argument, kind = .returnStatement argument) ∨
        ∃ phase c, top.info = .try phase (some c) ∧ c.kind = .return)

/-- A stack is a continuation: what may stand above what, which phases calls are in, and where a
return from its top frame ends. -/
structure Continuation (h : Heap) (s : Stack) : Prop where
  ordered : Ordered h s.frames
  /-- A frame evaluates a node or a call. -/
  calls : ∀ f ∈ s.frames, f.node = none ↔ ∃ call, f.info = .call call
  /-- Below the top a call runs its body, or its host function had something evaluated. -/
  phases : ∀ top, ∀ rest, s.frames = top :: rest → ∀ f ∈ rest, ∀ call, f.info = .call call →
    call.phase = .running ∨ call.phase = .reentered
  /-- A return completes the call of the function whose body it stands in. -/
  returns : ∀ top rest, s.frames = top :: rest → Returns h top →
    ∃ above g below, rest = above ++ g :: below ∧ Inside h (top :: above) g ∧
      ∀ c : Completion, c.kind = .return →
        ∃ left, unwindStack h c s.dropTop = .caught left ∧ Completes above g below c left.frames

theorem Sits.node_eq_none_iff (hs : Sits strict h rest f) :
    f.node = none ↔ ∃ call, f.info = .call call := by
  refine ⟨fun hnone => ?_, fun ⟨_, hinfo⟩ => hs.node_eq_none hinfo⟩
  cases hs with
  | node _ hsome _ _ _ _ _ _ =>
    rw [hnone] at hsome
    cases hsome
  | @call info _ _ hcalls => exact ⟨info, hcalls.info⟩

theorem Stacked.calls {frames : List Frame} (hs : Stacked strict h frames) :
    ∀ f ∈ frames, f.node = none ↔ ∃ call, f.info = .call call := by
  induction hs with
  | base hsits _ =>
    intro f hf
    obtain rfl := List.mem_singleton.1 hf
    exact hsits.node_eq_none_iff
  | above hsits _ _ ih =>
    intro f hf
    rcases List.mem_cons.1 hf with rfl | hf
    · exact hsits.node_eq_none_iff
    · exact ih f hf

/-- Only the top call is at another point than its body or a reentry. -/
theorem Over.phase {call : CallInfo} (hover : Over h g f rest) (hs : Sits strict h rest f)
    (hinfo : f.info = .call call) : call.phase = .running ∨ call.phase = .reentered := by
  have hnode := hs.node_eq_none hinfo
  cases hover with
  | call hsome _ _ => rw [hnode] at hsome; cases hsome
  | child hsome _ _ _ _ _ _ => rw [hnode] at hsome; cases hsome
  | body hcall hphase _ _ _ _ _ _ _ _ _ _ =>
    cases hinfo.symm.trans hcall
    exact .inl hphase
  | again hcall hphase _ =>
    cases hinfo.symm.trans hcall
    exact .inr hphase
  | evaluated hcall hphase _ _ _ _ =>
    cases hinfo.symm.trans hcall
    exact .inr hphase

theorem Stacked.phases {frames : List Frame} (hs : Stacked strict h frames) :
    ∀ top rest, frames = top :: rest → ∀ f ∈ rest, ∀ call, f.info = .call call →
      call.phase = .running ∨ call.phase = .reentered := by
  induction hs with
  | base _ _ =>
    rintro _ _ ⟨⟩ f hf
    cases hf
  | @above g f rest _ hover hrest ih =>
    rintro _ _ ⟨⟩ e he call hinfo
    rcases List.mem_cons.1 he with rfl | he
    · exact hover.phase hrest.sits hinfo
    · exact ih f rest rfl e he call hinfo

/-- A frame that may return stands in the body of a running call. -/
theorem Sits.called_of_returns (hs : Sits strict h rest top) (hreturns : Returns h top) :
    Called rest := by
  obtain ⟨here, p, kind, hnode, hprogram, hkind, hkinds⟩ := hreturns
  rcases hkinds with ⟨argument, rfl⟩ | ⟨phase, c, hinfo, hc⟩
  · have hbound : Bound strict rest { kind := .return } :=
      hs.bound_of_raises hnode hprogram hkind rfl fun _ _ h => by cases h
    exact hbound (.inr rfl)
  · have hbound := (hs.ofNode hnode hprogram hkind).2.1 phase c hinfo
    have haimed := hbound (.inr hc)
    unfold Aimed at haimed
    rwa [hc] at haimed

/-- A stack in order is a continuation. -/
theorem Stacked.isContinuation {s : Stack} (hs : Stacked strict h s.frames) : Continuation h s where
  ordered := hs.ordered
  calls := hs.calls
  phases := hs.phases
  returns := by
    intro top rest hframes hreturns
    have hs' := hframes ▸ hs
    have hcalled := hs'.sits.called_of_returns hreturns
    obtain ⟨here, p, kind, hnode, -⟩ := hreturns
    obtain ⟨above, g, below, rfl, hinside⟩ := hs'.inside rfl (by rw [hnode]; rfl) hcalled
    refine ⟨above, g, below, rfl, hinside, fun c hc => ?_⟩
    obtain ⟨program, p', body, hruns, hunder⟩ := hinside.inside
    obtain ⟨call, _, _, _, _, hinfo, hrunning, _⟩ := hruns.running
    have hnodes : ∀ f ∈ above, f.node.isSome = true := fun f hf => by
      obtain ⟨n, hn, -⟩ := hunder f (List.mem_cons_of_mem top hf)
      rw [hn]
      rfl
    have htail : Stacked strict h (above ++ g :: below) := by
      cases above with
      | nil => exact hs'.tail
      | cons _ _ => exact hs'.tail
    have hdropped : s.dropTop.frames = above ++ g :: below := by
      change s.frames.tail = _
      rw [hframes]
      rfl
    generalize s.dropTop = dropped at hdropped ⊢
    obtain ⟨frames, depth, hdepth⟩ := dropped
    obtain rfl : frames = above ++ g :: below := hdropped
    exact completes hc hinfo hrunning htail hnodes depth hdepth

end Stack

/-- The stack of every live thread of a machine that a host can reach is a continuation. -/
theorem Machine.Reachable.continuation {natives : Natives} {m : Machine}
    (hnatives : natives.Each (Civil False)) (h : Reachable natives m) {t : Thread}
    (ht : t ∈ m.threads) (hlive : t.isZombie = false) : Stack.Continuation m.heap t.stack :=
  have hstands := (h.orderly hnatives).1.stands t ht
  (hstands.stacked (fun _ h => by cases h) hlive).1.isContinuation

/-- A node that is a return statement. -/
def Tree.NodeKind.isReturn : Tree.NodeKind → Bool
  | .returnStatement _ => true
  | _ => false

namespace Machine

/-- The node that a thread evaluates next. -/
def nextKind? (m : Machine) (t : Thread) : Option NodeKind :=
  (t.stack.top?.bind (·.node)).bind fun here =>
    (m.heap.program? here.program).bind (·.kind? here.node)

set_option maxRecDepth 100000 in
/-- A machine whose only thread comes to a `return` that a finalizer holds up. -/
theorem continuation_at_return : ∃ m t,
    hosted Builtin.natives {} (.spawn "function f() { try { return 1; } finally { 2; } } f();" ::
      List.replicate 14 .step) = some m ∧
    t ∈ m.threads ∧ t.isZombie = false ∧
    (∃ argument, m.nextKind? t = some (.returnStatement argument)) ∧ t.stack.depth = 8 ∧
    Stack.Continuation m.heap t.stack := by
  have hchecks : (hosted Builtin.natives {}
      (.spawn "function f() { try { return 1; } finally { 2; } } f();" ::
        List.replicate 14 .step)).any (fun m => m.threads.any fun t =>
          !t.isZombie && t.stack.depth == 8 && (m.nextKind? t).any (·.isReturn)) = true := by
    rw [hosted_eq]
    decide +kernel
  obtain ⟨m, hm, hchecks⟩ := (Option.any_eq_true _ _).1 hchecks
  obtain ⟨t, ht, hchecks⟩ := List.any_eq_true.1 hchecks
  simp only [Bool.and_eq_true, Bool.not_eq_true', beq_iff_eq] at hchecks
  obtain ⟨⟨hlive, hdepth⟩, hkind⟩ := hchecks
  refine ⟨m, t, hm, ht, hlive, ?_, hdepth,
    (reachable_of_hosted hm).continuation Builtin.each_civil ht hlive⟩
  obtain ⟨kind, hkind, hreturn⟩ := (Option.any_eq_true _ _).1 hkind
  cases kind with
  | returnStatement argument => exact ⟨argument, hkind⟩
  | _ => cases hreturn

end Machine

end ScriptMachine
