import ScriptMachine.Machine.Schedule
import ScriptMachine.Proofs.Natives

/-!
# Steps of frames

A frame is one of a node or of a call. The step of a call looks at the time limit and at the functions
that it finds; then it enters a closure, or a host function answers and the answer is acted on. What
holds of these parts holds of the step.
-/

namespace ScriptMachine

open Machine

namespace Exec

/-- Properties of the operations that a step of a thread starts with, of whole steps, of what is left
of a step when a host function has answered, and of host functions. -/
structure Stepwise (thread : ThreadId) (P : ∀ {α : Type}, Exec α → Prop) (S T : Exec Step → Prop)
    (C : NativeCode → Prop) : Prop extends Regular P where
  mild {x : Exec Step} (hx : P x) : S x
  first {α : Type} {x : Exec α} {f : α → Exec Step} (hx : P x) (hf : ∀ a, S (f a)) : S (x >>= f)
  read {α : Type} {f : Machine → Except Failure α} {k : α → Exec Step}
    (hk : ∀ m a, f m = .ok a → S (k a)) : S (Exec.query f >>= k)
  rest {x : Exec Step} (hx : P x) : T x
  restFirst {α : Type} {x : Exec α} {f : α → Exec Step} (hx : P x) (hf : ∀ a, T (f a)) : T (x >>= f)
  limit : P (checkTimeLimit thread)
  enter (f : Frame) (call : CallInfo) (func : ObjectId) (node : NodeRef) (closure : ScopeId) :
    P (enterFunction f call func node closure)
  reply (f : Frame) (call : CallInfo) (owner : Option Owner) (early : Option Settlement)
    (result : NativeResult) : T (applyReply thread f call owner early result)
  /-- The answer of a host function is acted on; a value that it gives, having settled nothing early,
  is the value of its call. -/
  answer {code : NativeCode} (hcode : C code) {c : NativeCall} (hc : c.thread = thread)
    {k : Except Failure NativeReply → Option Settlement → Exec Step}
    (hk : ∀ answer early, T (k answer early))
    (hvalue : ∀ reply v, reply.result = .value v → k (.ok reply) none = Pure.pure (.done v)) : S (do
      let answer ← attempt (code c)
      let early ← takeEarly thread
      k answer early)

namespace Stepwise

variable {thread : ThreadId} {P : ∀ {α : Type}, Exec α → Prop} {S T : Exec Step → Prop}
  {C : NativeCode → Prop} {natives : Natives} (h : Stepwise thread P S T C)
  (hnatives : natives.Each C)

include h hnatives

theorem invokeNative (f : Frame) (call : CallInfo) (resumed : Option Value) :
    S (Machine.invokeNative natives thread f call resumed) := by
  refine h.first (h.scopeOwner f.scope) fun owner => ?_
  split
  · exact h.mild (h.throw _)
  refine h.first (h.heapQuery _) fun o => ?_
  split
  · rename_i id _
    refine h.read fun _ code hcode => ?_
    refine h.answer (hnatives.of_nativeCode hcode) rfl (fun answer early => ?_) fun reply v hv => ?_
    · refine h.restFirst (h.query _) fun reply => ?_
      dsimp only
      split
      · exact h.rest (h.throw_bind _ _)
      · exact h.reply f _ owner early _
    · change applyReply thread f _ owner none reply.result = Pure.pure (.done v)
      rw [hv]
      rfl
  · exact h.mild (h.throw _)

theorem startCall (f : Frame) (fuel : Nat) (call : CallInfo) :
    S (Machine.startCall natives thread f fuel call) := by
  induction fuel generalizing call with
  | zero => exact h.mild (h.throw _)
  | succ fuel ih =>
    unfold Machine.startCall
    refine h.first h.get fun m => ?_
    split
    · exact h.mild (h.throw _)
    · refine h.first (h.heapQuery _) fun o => ?_
      split
      · exact h.mild (h.throw _)
      · exact ih _
      · exact h.mild (h.enter f call _ _ _)
      · exact h.invokeNative hnatives f call none

theorem stepCall (f : Frame) : S (Machine.stepCall natives thread f) := by
  unfold Machine.stepCall
  split
  · split
    · exact h.first h.limit fun _ => h.first h.get fun m => h.startCall hnatives f _ _
    · exact h.mild (h.pure _)
    · exact h.mild (h.pure _)
    · exact h.invokeNative hnatives _ _ _
    · exact h.mild (h.pure _)
    · exact h.mild (h.pure _)
  · exact h.mild (h.throw _)

theorem dispatch {f : Frame}
    (hnode : ∀ here program kind, S (stepNode thread f here program kind)) :
    S (Machine.dispatch natives thread f) := by
  unfold Machine.dispatch
  split
  · exact h.stepCall hnatives f
  · refine h.first (h.heapQuery _) fun program => h.first (h.query _) fun kind => ?_
    exact hnode _ program kind

end Stepwise

end Exec

namespace Machine

open Exec

/-- The step of a frame of a node that is there. -/
theorem dispatch_run_of_node {natives : Natives} {thread : ThreadId} {f : Frame} {m : Machine}
    {here : NodeRef} {program : Tree.Program} {kind : Tree.NodeKind} (hnode : f.node = some here)
    (hprogram : m.heap.program? here.program = some program)
    (hkind : program.kind? here.node = some kind) :
    dispatch natives thread f m = stepNode thread f here program kind m := by
  have hread : (heapQuery (·.program here.program) : Exec Tree.Program) m = .ok program m :=
    query_run_ok (Heap.program_eq_ok_iff.2 hprogram)
  have hlook : (query fun _ => Heap.nodeKind program here.node : Exec Tree.NodeKind) m =
      .ok kind m := by
    unfold query Heap.nodeKind
    rw [hkind]
  unfold dispatch
  rw [hnode]
  dsimp only
  rw [bind_run_of_ok hread, bind_run_of_ok hlook]

/-- What becomes of a step in its thread, if that is still alive. -/
def settleStep (thread : ThreadId) (f : Frame) (result : Except Failure Step) : Exec Unit := do
  if (← get).isAlive thread then
    match result with
    | .ok step => applyStep thread step
    | .error e => raise thread f.scope e

/-- A step takes the top frame, carries on with it and settles what comes of that. -/
theorem stepThread_eq (natives : Natives) (thread : ThreadId) :
    stepThread natives thread = popFrame thread >>= fun top =>
      match top with
      | none => finishThread thread (.completed .undefined)
      | some f => attempt (dispatch natives thread f) >>= settleStep thread f := rfl

end Machine

/-- What comes of a step is settled by changes of its thread. -/
theorem Exec.Turning.settleStep {thread : ThreadId} {P : ∀ {α : Type}, Exec α → Prop}
    (h : Turning thread P) (f : Frame) (result : Except Failure Step) :
    P (Machine.settleStep thread f result) := by
  refine h.bind h.get fun m => ?_
  split
  · cases result with
    | ok step => exact h.applyStep step
    | error e => exact h.raise f.scope e
  · exact h.pure _

end ScriptMachine
