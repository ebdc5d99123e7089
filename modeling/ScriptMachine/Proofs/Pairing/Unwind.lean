import ScriptMachine.Machine.Schedule
import ScriptMachine.Proofs.Pairing.Statement

/-!
# Paired unwinding and steps of a thread

A completion drops the same frames on both machines, and a step of the thread leaves the machines
paired whatever it asks for.
-/

namespace ScriptMachine

open Machine Exec

/-! ## What unwinding finds -/

namespace Machine.Meeting

def image (p : Pairing) : Meeting → Meeting
  | .drop => .drop
  | .stop => .stop
  | .catch f => .catch (Carried.image p f)

def Within (p : Pairing) : Meeting → Prop
  | .catch f => Carried.Within p f
  | _ => True

end Machine.Meeting

instance : Carried Meeting where
  image := Meeting.image
  Within := Meeting.Within
  image_of_extends {p q x} h hx := by
    cases x with
    | «catch» f => exact congrArg Meeting.catch (Carried.image_of_extends h hx)
    | _ => rfl
  within_mono {p q x} h hx := by
    cases x with
    | «catch» f => exact Carried.within_mono (α := Frame) h hx
    | _ => trivial
  image_of_fixes {p x} h := by
    cases x with
    | «catch» f => exact congrArg Meeting.catch (Carried.image_of_fixes h)
    | _ => rfl

namespace Machine.Unwound

def image (p : Pairing) : Unwound → Unwound
  | .caught s => .caught (Carried.image p s)
  | .escaped => .escaped
  | .broken s e => .broken (Carried.image p s) (Carried.image p e)

def Within (p : Pairing) : Unwound → Prop
  | .caught s => Carried.Within p s
  | .escaped => True
  | .broken s e => Carried.Within p s ∧ Carried.Within p e

end Machine.Unwound

instance : Carried Unwound where
  image := Unwound.image
  Within := Unwound.Within
  image_of_extends {p q x} h hx := by
    cases x with
    | caught s => exact congrArg Unwound.caught (Carried.image_of_extends h hx)
    | escaped => rfl
    | broken s e =>
      exact congrArg₂ Unwound.broken (Carried.image_of_extends h hx.1) (Carried.image_of_extends h hx.2)
  within_mono {p q x} h hx := by
    cases x with
    | caught s => exact Carried.within_mono (α := Stack) h hx
    | escaped => trivial
    | broken s e => exact ⟨Carried.within_mono h hx.1, Carried.within_mono h hx.2⟩
  image_of_fixes {p x} h := by
    cases x with
    | caught s => exact congrArg Unwound.caught (Carried.image_of_fixes h)
    | escaped => rfl
    | broken s e =>
      exact congrArg₂ Unwound.broken (Carried.image_of_fixes h) (Carried.image_of_fixes h)

namespace Pairing

variable {p q : Pairing}

namespace Pairs

section Completions

variable {c c' : Completion} (hc : p.Pairs c c')

include hc

theorem completionValue : p.Pairs c.value c'.value :=
  ⟨hc.within, congrArg Completion.value hc.eq⟩
theorem kind_eq : c'.kind = c.kind := by rw [hc.eq]; rfl
theorem label_eq : c'.label = c.label := by rw [hc.eq]; rfl

end Completions

theorem pushFrame {s s' : Stack} (hs : p.Pairs s s') {f f' : Frame} (hf : p.Pairs f f') :
    p.Pairs (s.push f) (s'.push f') := by
  obtain ⟨hs, rfl⟩ := hs
  obtain ⟨hf, rfl⟩ := hf
  exact ⟨(within_cons p f _).2 ⟨hf, hs⟩, push_image p s f⟩

end Pairs

theorem pairs_catch {f f' : Frame} (hf : p.Pairs f f') :
    p.Pairs (Meeting.catch f) (.catch f') :=
  ⟨hf.within, congrArg Meeting.catch hf.eq⟩

theorem pairs_caught {s s' : Stack} (hs : p.Pairs s s') :
    p.Pairs (Unwound.caught s) (.caught s') :=
  ⟨hs.within, congrArg Unwound.caught hs.eq⟩

section Meeting

variable {f f' : Frame} (hf : p.Pairs f f') {c c' : Completion} (hc : p.Pairs c c')

include hf

theorem Heaps.pairs_tryClauses {k k' : Heap} (hk : p.Heaps k k') :
    p.Pairs (tryClauses k f) (tryClauses k' f') := by
  obtain ⟨hw, heq⟩ := hf.node
  unfold tryClauses
  rw [heq]
  cases hnode : f.node with
  | none => exact pairs_error ⟨trivial, rfl⟩
  | some node =>
    have hprogram := pairs_image (p := p) (x := node.program) (hw node hnode)
    refine pairs_bind (hk.pairs_program hprogram) fun t _ =>
      pairs_bind (pairs_nodeKind t node.node) fun kind _ => ?_
    cases kind <;> first
      | exact pairs_ok ⟨⟨trivial, trivial⟩, rfl⟩
      | exact pairs_error ⟨trivial, rfl⟩

include hc

theorem isJumpTarget_eq : isJumpTarget f' c'.kind c'.label = isJumpTarget f c.kind c.label := by
  rw [hc.kind_eq, hc.label_eq]
  unfold isJumpTarget
  rw [hf.isLoop_eq, hf.isSwitch_eq, hf.labels_eq]

theorem pairs_meetPlain : p.Pairs (meetPlain f c) (meetPlain f' c') := by
  have hjump := isJumpTarget_eq hf hc
  obtain ⟨hw, heq⟩ := hf.info
  unfold meetPlain
  rw [hjump, hc.kind_eq, heq]
  cases c.kind with
  | «return» =>
    dsimp only
    cases hinfo : f.info with
    | call call =>
      rw [hinfo] at hw
      have hcall : p.Pairs call (image p call) := ⟨hw, rfl⟩
      dsimp only [image_call]
      rw [image_phase]
      split
      · exact pairs_catch ((hf.withCall (hcall.withPhase .returned)).withValue
          hc.completionValue)
      · exact ⟨trivial, rfl⟩
    | _ => exact ⟨trivial, rfl⟩
  | «break» =>
    dsimp only
    split
    · exact ⟨trivial, rfl⟩
    · exact ⟨trivial, rfl⟩
  | «continue» =>
    dsimp only
    split
    · exact pairs_catch hf
    · exact ⟨trivial, rfl⟩
  | throw => exact ⟨trivial, rfl⟩
  | normal => exact ⟨trivial, rfl⟩

theorem Heaps.pairs_meet {k k' : Heap} (hk : p.Heaps k k') :
    p.Pairs (meet k f c) (meet k' f' c') := by
  have hplain := pairs_meetPlain hf hc
  obtain ⟨hw, heq⟩ := hf.info
  unfold meet
  rw [heq]
  cases hinfo : f.info with
  | «try» phase saved =>
    rw [hinfo] at hw
    have hinfo : p.Pairs (FrameInfo.try phase saved) (image p (.try phase saved)) := ⟨hw, rfl⟩
    refine pairs_bind (hk.pairs_tryClauses hf) fun clauses _ => ?_
    obtain ⟨hasHandler, hasFinalizer⟩ := clauses
    dsimp only [image_pair, image_bool]
    rw [hc.kind_eq]
    split
    · exact pairs_ok (pairs_catch (((hf.withInfo hinfo).withStep 2).withValue hc.completionValue))
    · split
      · have hkept : p.Pairs (FrameInfo.try phase (some c)) (.try phase (some c')) :=
          ⟨(within_some p c).2 hc.within, congrArg (FrameInfo.try phase) (pairs_some hc).eq⟩
        exact pairs_ok (pairs_catch ((hf.withInfo hkept).withStep 4))
      · exact pairs_ok ⟨trivial, rfl⟩
  | _ => exact pairs_ok hplain

end Meeting

theorem Heaps.pairs_unwindFrames {k k' : Heap} (hk : p.Heaps k k') {c c' : Completion}
    (hc : p.Pairs c c') {frames : List Frame} (hframes : Within p frames) (depth : Nat)
    (hdepth : depth = frames.length) (hdepth' : depth = (image p frames).length) :
    p.Pairs (unwindFrames k c frames depth hdepth)
      (unwindFrames k' c' (image p frames) depth hdepth') := by
  induction frames generalizing depth with
  | nil => exact ⟨trivial, rfl⟩
  | cons f rest ih =>
    obtain ⟨hf, hrest⟩ := (within_cons p f rest).1 hframes
    obtain ⟨hw, heq⟩ := hk.pairs_meet (pairs_image hf) hc
    have hbelow : ∀ h h', p.Pairs (Stack.mk rest (depth - 1) h)
        ⟨image p rest, depth - 1, h'⟩ := fun _ _ => ⟨hrest, rfl⟩
    change p.Pairs (unwindFrames k c (f :: rest) depth hdepth)
      (unwindFrames k' c' (image p f :: image p rest) depth hdepth')
    rw [unwindFrames, unwindFrames, heq]
    cases hmeet : meet k f c with
    | error e =>
      rw [hmeet] at hw
      exact ⟨⟨hrest, hw⟩, rfl⟩
    | ok meeting =>
      rw [hmeet] at hw
      cases meeting with
      | drop => exact ih hrest _ _ _
      | stop => exact pairs_caught (hbelow _ _)
      | «catch» g => exact pairs_caught ((hbelow _ _).pushFrame (pairs_image (x := g) hw))

theorem Heaps.pairs_unwindStack {k k' : Heap} (hk : p.Heaps k k') {c c' : Completion}
    (hc : p.Pairs c c') {s s' : Stack} (hs : p.Pairs s s') :
    p.Pairs (unwindStack k c s) (unwindStack k' c' s') := by
  obtain ⟨hs, rfl⟩ := hs
  exact hk.pairs_unwindFrames hc hs _ _ _

/-! ## The end of a thread -/

theorem Machines.uncaughtText {m m' : Machine} (hm : p.Machines m m') {v v' : Value}
    (hv : p.Pairs v v') : m'.uncaughtText v' = m.uncaughtText v := by
  have hrender := hm.renderError hv
  obtain ⟨hw, heq⟩ := hv.object?
  unfold Machine.uncaughtText
  rw [heq, hrender]
  cases hid : v.object? with
  | none => rfl
  | some id =>
    dsimp only [image_some, Option.bind_some]
    rw [hm.textField? (pairs_image (hw id hid))]

theorem mirrors_fault {α : Type} [Carried α] (thread : ThreadId) {e e' : Failure}
    (he : p.Pairs e e') : p.Mirrors (fault thread e : Exec α) (fault thread e') :=
  (mirrors_killThread thread).bind fun _ _ => mirrors_throw he

section Actor

variable {thread : ThreadId} (hactor : p.actor = some thread)

include hactor

/-- The thread being stepped gets another stack. -/
theorem mirrors_replaceStack {s s' : Stack} (hs : p.Pairs s s') :
    p.Mirrors (modifyThread thread fun t => { t with stack := s })
      (modifyThread thread fun t => { t with stack := s' }) :=
  mirrors_setStack hactor (fun _ => s) (fun _ => s') (fun _ _ => hs.within) fun _ => hs.eq

theorem mirrors_pushFrame {f f' : Frame} (hf : p.Pairs f f') :
    p.Mirrors (modifyThread thread fun t => { t with stack := t.stack.push f })
      (modifyThread thread fun t => { t with stack := t.stack.push f' }) :=
  mirrors_setStack hactor (·.push f) (·.push f')
    (fun s hs => ((pairs_image (x := s) hs).pushFrame hf).within)
    fun s => by rw [hf.eq, push_image]

theorem mirrors_finishThread {o o' : Outcome} (ho : p.Pairs o o') :
    p.Mirrors (finishThread thread o) (finishThread thread o') := by
  have hfinish : p.Mirrors (modifyThread thread fun t => t.finish o)
      (modifyThread thread fun t => t.finish o') :=
    mirrors_modifyThread hactor (fun _ => rfl) (fun _ => rfl)
      (fun t _ => within_finish t ho.within) fun t => by rw [ho.eq, finish_image]
  obtain ⟨ho, rfl⟩ := ho
  cases o with
  | completed v => exact hfinish
  | threw v =>
    refine mirrors_get_bind fun m m' hm => ?_
    rw [hm.uncaughtText (pairs_image (x := v) ho)]
    exact (mirrors_write .error _).bind fun _ _ => hfinish
  | killed => exact hfinish

theorem mirrors_escape {c c' : Completion} (hc : p.Pairs c c') :
    p.Mirrors (escape thread c) (escape thread c') := by
  have hthrew : p.Pairs (Outcome.threw c.value) (.threw c'.value) :=
    ⟨hc.completionValue.within, congrArg Outcome.threw hc.completionValue.eq⟩
  refine Mirrors.bind (mirrors_replaceStack hactor (s := .empty) ⟨within_nil p, rfl⟩)
    fun _ _ => ?_
  rw [hc.kind_eq]
  cases c.kind with
  | throw => exact mirrors_finishThread hactor hthrew
  | _ => exact mirrors_fault thread ⟨trivial, rfl⟩

theorem mirrors_unwind {c c' : Completion} (hc : p.Pairs c c') :
    p.Mirrors (unwind thread c) (unwind thread c') := by
  refine mirrors_get_bind fun m m' hm => ?_
  obtain ⟨hw, heq⟩ := hm.thread?_actor hactor
  rw [heq]
  cases ht : m.thread? thread with
  | none => exact mirrors_throw ⟨trivial, rfl⟩
  | some t =>
    have hstack : p.Pairs t.stack (image p t.stack) := pairs_image (hw t ht).stack
    refine mirrors_get_bind fun n n' hn => ?_
    obtain ⟨hw, heq⟩ := hn.heap.pairs_unwindStack hc hstack
    rw [image_stack, heq]
    revert hw
    cases unwindStack n.heap c t.stack with
    | caught s => exact fun hw => mirrors_replaceStack hactor (pairs_image (x := s) hw)
    | escaped => exact fun _ => mirrors_escape hactor hc
    | broken s e =>
      exact fun hw => Mirrors.bind (mirrors_replaceStack hactor (pairs_image (x := s) hw.1))
        fun _ _ => mirrors_throw (pairs_image hw.2)

theorem follows_raise {scope scope' : ScopeId} (hscope : p.Pairs scope scope') {e e' : Failure}
    (he : p.Pairs e e') : p.Follows (raise thread scope e) (raise thread scope' e') := by
  have hfault : e'.isFault = e.isFault := by rw [he.eq, isFault_image]
  unfold raise
  rw [hfault]
  split
  · exact (mirrors_fault thread he).follows
  · refine (follows_errorToValue he hscope hactor).attempt.bind fun q hle r r' hr => ?_
    have hactor := hle.actor.trans hactor
    obtain ⟨hw, rfl⟩ := hr
    cases r with
    | ok v =>
      exact (mirrors_unwind hactor
        (c := { kind := .throw, value := v }) ⟨hw, rfl⟩).follows
    | error e => exact (mirrors_fault thread ⟨hw, rfl⟩).follows

/-! ## One step -/

omit hactor in
theorem Machines.hasFrame {m m' : Machine} (hm : p.Machines m m')
    (hactor : p.actor = some thread) : m'.hasFrame thread = m.hasFrame thread := by
  unfold Machine.hasFrame
  rw [(hm.thread?_actor hactor).eq]
  cases m.thread? thread with
  | none => rfl
  | some t => exact congrArg (!·) (isEmpty_imageStack p t.stack)

omit hactor in
theorem Machines.isAlive {m m' : Machine} (hm : p.Machines m m')
    (hactor : p.actor = some thread) : m'.isAlive thread = m.isAlive thread := by
  unfold Machine.isAlive
  rw [(hm.thread?_actor hactor).eq]
  cases m.thread? thread <;> rfl

omit hactor in
theorem Machines.stackDepth {m m' : Machine} (hm : p.Machines m m')
    (hactor : p.actor = some thread) :
    ((m'.thread? thread).map (·.stack.depth)).getD 0 =
      ((m.thread? thread).map (·.stack.depth)).getD 0 := by
  rw [(hm.thread?_actor hactor).eq]
  cases m.thread? thread <;> rfl

theorem follows_pushChild {f f' child child' : Frame} (hf : p.Pairs f f')
    (hchild : p.Pairs child child') :
    p.Follows (pushChild thread f child) (pushChild thread f' child') := by
  refine (mirrors_pushFrame hactor hf).bind_follows fun _ _ => ?_
  refine follows_get_bind fun m m' hm => ?_
  rw [hm.stackDepth hactor]
  refine follows_get_bind fun n n' hn => ?_
  rw [hn.maxStackDepth]
  split
  · exact follows_raise hactor hf.scope (pairs_raised _ _)
  · exact (mirrors_pushFrame hactor hchild).follows

theorem mirrors_modifyTop (g g' : Frame → Frame) (hg : ∀ f, Within p f → Within p (g f))
    (himage : ∀ f, g' (image p f) = image p (g f)) :
    p.Mirrors (modifyTop thread g) (modifyTop thread g') :=
  mirrors_setStack hactor (·.modifyTop g) (·.modifyTop g')
    (fun _ hs => within_modifyTop hs hg) fun s => modifyTop_image p s himage

theorem follows_applyStep {s s' : Step} (hs : p.Pairs s s') :
    p.Follows (applyStep thread s) (applyStep thread s') := by
  obtain ⟨hs, rfl⟩ := hs
  cases s with
  | push f child =>
    exact follows_pushChild hactor (pairs_image (x := f) hs.1) (pairs_image (x := child) hs.2)
  | stay f => exact (mirrors_pushFrame hactor (pairs_image (x := f) hs)).follows
  | suspend f => exact (mirrors_pushFrame hactor (pairs_image (x := f) hs)).follows
  | done v =>
    have hv := pairs_image (p := p) (x := v) hs
    refine follows_get_bind fun m m' hm => ?_
    rw [hm.hasFrame hactor]
    split
    · exact (mirrors_modifyTop hactor (fun f => { f with value := v })
        (fun f => { f with value := image p v }) (fun _ hf => { hf with value := hv.within })
        fun _ => rfl).follows
    · exact (mirrors_finishThread hactor
        ⟨hv.within, congrArg Outcome.completed hv.eq⟩).follows
  | ref r =>
    have hr := pairs_some (pairs_image (p := p) (x := r) hs)
    refine follows_get_bind fun m m' hm => ?_
    rw [hm.hasFrame hactor]
    split
    · exact (mirrors_modifyTop hactor (fun f => { f with reference := some r })
        (fun f => { f with reference := some (image p r) })
        (fun _ hf => { hf with reference := hr.within }) fun _ => rfl).follows
    · exact (mirrors_fault thread ⟨by trivial, rfl⟩).follows
  | unwind c => exact (mirrors_unwind hactor (pairs_image (x := c) hs)).follows

theorem mirrors_popFrame : p.Mirrors (popFrame thread) (popFrame thread) := by
  refine mirrors_get_bind fun m m' hm => ?_
  obtain ⟨hw, heq⟩ := hm.thread?_actor hactor
  rw [heq]
  cases ht : m.thread? thread with
  | none => exact mirrors_throw ⟨trivial, rfl⟩
  | some t =>
    have htop : p.Pairs t.stack.top? (image p t.stack.top?) :=
      pairs_image (within_head? p (hw t ht).stack)
    simp only [image_some, Option.map_some, image_stack, top?_image, isSome_image]
    split
    · exact Mirrors.bind (mirrors_setStack hactor (·.dropTop) (·.dropTop)
        (fun s hs => within_tail p (l := s.frames) hs) fun s => dropTop_image p s)
          fun _ _ => mirrors_pure htop
    · exact mirrors_pure htop

theorem follows_stepThread {natives : Natives} (hnatives : p.Answers natives) :
    p.Follows (stepThread natives thread) (stepThread natives thread) := by
  refine (mirrors_popFrame hactor).bind_follows fun top htop => ?_
  cases top with
  | none =>
    exact (mirrors_finishThread hactor
      ⟨within_undefined p, congrArg Outcome.completed rfl⟩).follows
  | some f =>
    have hf := pairs_image (p := p) (htop f rfl)
    refine (follows_dispatch hf hnatives hactor).attempt.bind fun q hle r r' hr => ?_
    have hactor := hle.actor.trans hactor
    have hf := hf.mono hle
    refine follows_get_bind fun m m' hm => ?_
    rw [hm.isAlive hactor]
    obtain ⟨hw, rfl⟩ := hr
    split
    · cases r with
      | ok step => exact follows_applyStep hactor (pairs_image (x := step) hw)
      | error e => exact follows_raise hactor hf.scope (pairs_image (x := e) hw)
    · exact follows_pure pairs_unit

end Actor

end Pairing

end ScriptMachine
