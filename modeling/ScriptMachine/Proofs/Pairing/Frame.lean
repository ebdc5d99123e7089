import ScriptMachine.Machine.Unwind
import ScriptMachine.Proofs.Pairing.Data
import ScriptMachine.Proofs.Threads

/-!
# Frames and threads carried over

A stack of frames is plain data, so the whole continuation of a thread can be carried over. Failures
are carried as well; one that reports a handle without a slot is never known.
-/

namespace ScriptMachine

variable (p : Pairing)

/-! ## Frames -/

namespace Reference

def image (p : Pairing) : Reference → Reference
  | .binding scope name => .binding (Carried.image p scope) name
  | .property base key => .property (Carried.image p base) key

def Within (p : Pairing) : Reference → Prop
  | .binding scope _ => Carried.Within p scope
  | .property base _ => Carried.Within p base

end Reference

instance : Carried Reference where
  image := Reference.image
  Within := Reference.Within
  image_of_extends {p q r} h hr := by
    cases r with
    | binding scope name => exact congrArg (Reference.binding · name) (Carried.image_of_extends h hr)
    | property base key => exact congrArg (Reference.property · key) (Carried.image_of_extends h hr)
  within_mono {p q r} h hr := by
    cases r with
    | binding scope name => exact Carried.within_mono (α := Option ScopeId) h hr
    | property base key => exact Carried.within_mono (α := Value) h hr
  image_of_fixes {p r} h := by
    cases r with
    | binding scope name => exact congrArg (Reference.binding · name) (Carried.image_of_fixes h)
    | property base key => exact congrArg (Reference.property · key) (Carried.image_of_fixes h)

instance : Carried Completion where
  image p c := { c with value := image p c.value }
  Within p c := Within p c.value
  image_of_extends h hc := by rw [Carried.image_of_extends h hc]
  within_mono h hc := Carried.within_mono h hc
  image_of_fixes h := by rw [Carried.image_of_fixes h]

/-- Every handle of the progress of a call is known. -/
structure CallInfo.Within (p : Pairing) (c : CallInfo) : Prop where
  func : Carried.Within p c.func
  receiver : Carried.Within p c.receiver
  args : Carried.Within p c.args
  scratch : Carried.Within p c.scratch
  newObject : Carried.Within p c.newObject

instance : Carried CallInfo where
  image p c :=
    { c with
      func := image p c.func
      receiver := image p c.receiver
      args := image p c.args
      scratch := image p c.scratch
      newObject := image p c.newObject }
  Within := CallInfo.Within
  image_of_extends h hc := by
    simp only [Carried.image_of_extends h hc.func, Carried.image_of_extends h hc.receiver,
      Carried.image_of_extends h hc.args, Carried.image_of_extends h hc.scratch,
      Carried.image_of_extends h hc.newObject]
  within_mono h hc :=
    ⟨Carried.within_mono h hc.func, Carried.within_mono h hc.receiver,
      Carried.within_mono h hc.args, Carried.within_mono h hc.scratch,
      Carried.within_mono h hc.newObject⟩
  image_of_fixes h := by simp only [Carried.image_of_fixes h]

namespace FrameInfo

def image (p : Pairing) : FrameInfo → FrameInfo
  | .none => .none
  | .operands values => .operands (Carried.image p values)
  | .call info => .call (Carried.image p info)
  | .try phase completion => .try phase (Carried.image p completion)
  | .switch discriminant clause statement isMatched =>
    .switch (Carried.image p discriminant) clause statement isMatched
  | .forIn keys index subject => .forIn keys index (Carried.image p subject)
  | .object id => .object (Carried.image p id)
  | .program completion => .program (Carried.image p completion)

def Within (p : Pairing) : FrameInfo → Prop
  | .none => True
  | .operands values => Carried.Within p values
  | .call info => Carried.Within p info
  | .try _ completion => Carried.Within p completion
  | .switch discriminant _ _ _ => Carried.Within p discriminant
  | .forIn _ _ subject => Carried.Within p subject
  | .object id => Carried.Within p id
  | .program completion => Carried.Within p completion

theorem image_of_extends {p q : Pairing} {info : FrameInfo} (h : p.Extends q) (hi : info.Within p) :
    info.image q = info.image p := by
  cases info with
  | none => rfl
  | operands values => exact congrArg FrameInfo.operands (Carried.image_of_extends h hi)
  | call info => exact congrArg FrameInfo.call (Carried.image_of_extends h hi)
  | «try» phase completion => exact congrArg (FrameInfo.try phase) (Carried.image_of_extends h hi)
  | switch discriminant clause statement isMatched =>
    exact congrArg (FrameInfo.switch · clause statement isMatched) (Carried.image_of_extends h hi)
  | forIn keys index object =>
    exact congrArg (FrameInfo.forIn keys index) (Carried.image_of_extends h hi)
  | object id => exact congrArg FrameInfo.object (Carried.image_of_extends h hi)
  | program completion => exact congrArg FrameInfo.program (Carried.image_of_extends h hi)

theorem within_mono {p q : Pairing} {info : FrameInfo} (h : ∀ y, p.known y → q.known y)
    (hi : info.Within p) :
    info.Within q := by
  cases info with
  | none => trivial
  | operands values => exact Carried.within_mono (α := List Value) h hi
  | call info => exact Carried.within_mono (α := CallInfo) h hi
  | «try» phase completion => exact Carried.within_mono (α := Option Completion) h hi
  | switch discriminant clause statement isMatched =>
    exact Carried.within_mono (α := Value) h hi
  | forIn keys index object => exact Carried.within_mono (α := Value) h hi
  | object id => exact Carried.within_mono (α := ObjectId) h hi
  | program completion => exact Carried.within_mono (α := Value) h hi

theorem image_of_fixes {p : Pairing} {info : FrameInfo} (h : p.Fixes) : info.image p = info := by
  cases info with
  | none => rfl
  | operands values => exact congrArg FrameInfo.operands (Carried.image_of_fixes h)
  | call info => exact congrArg FrameInfo.call (Carried.image_of_fixes h)
  | «try» phase completion => exact congrArg (FrameInfo.try phase) (Carried.image_of_fixes h)
  | switch discriminant clause statement isMatched =>
    exact congrArg (FrameInfo.switch · clause statement isMatched) (Carried.image_of_fixes h)
  | forIn keys index object =>
    exact congrArg (FrameInfo.forIn keys index) (Carried.image_of_fixes h)
  | object id => exact congrArg FrameInfo.object (Carried.image_of_fixes h)
  | program completion => exact congrArg FrameInfo.program (Carried.image_of_fixes h)

end FrameInfo

instance : Carried FrameInfo where
  image := FrameInfo.image
  Within := FrameInfo.Within
  image_of_extends := FrameInfo.image_of_extends
  within_mono := FrameInfo.within_mono
  image_of_fixes := FrameInfo.image_of_fixes

/-- Every handle of a frame is known. -/
structure Frame.Within (p : Pairing) (f : Frame) : Prop where
  node : Carried.Within p f.node
  scope : Carried.Within p f.scope
  value : Carried.Within p f.value
  reference : Carried.Within p f.reference
  info : Carried.Within p f.info

instance : Carried Frame where
  image p f :=
    { f with
      node := image p f.node
      scope := image p f.scope
      value := image p f.value
      reference := image p f.reference
      info := image p f.info }
  Within := Frame.Within
  image_of_extends h hf := by
    simp only [Carried.image_of_extends h hf.node, Carried.image_of_extends h hf.scope,
      Carried.image_of_extends h hf.value, Carried.image_of_extends h hf.reference,
      Carried.image_of_extends h hf.info]
  within_mono h hf :=
    ⟨Carried.within_mono h hf.node, Carried.within_mono h hf.scope,
      Carried.within_mono h hf.value, Carried.within_mono h hf.reference,
      Carried.within_mono h hf.info⟩
  image_of_fixes h := by simp only [Carried.image_of_fixes h]

@[simp] theorem image_binding (scope : Option ScopeId) (name : String) :
    image p (Reference.binding scope name) = .binding (image p scope) name := rfl
@[simp] theorem image_property (base : Value) (key : String) :
    image p (Reference.property base key) = .property (image p base) key := rfl

section Fields

variable (f : Frame)

@[simp] theorem image_frameNode : (image p f).node = image p f.node := rfl
@[simp] theorem image_frameScope : (image p f).scope = image p f.scope := rfl
@[simp] theorem image_frameValue : (image p f).value = image p f.value := rfl
@[simp] theorem image_frameReference : (image p f).reference = image p f.reference := rfl
@[simp] theorem image_info : (image p f).info = image p f.info := rfl

variable (c : CallInfo)

@[simp] theorem image_func : (image p c).func = image p c.func := rfl
@[simp] theorem image_callReceiver : (image p c).receiver = image p c.receiver := rfl
@[simp] theorem image_args : (image p c).args = image p c.args := rfl
@[simp] theorem image_phase : (image p c).phase = c.phase := rfl
@[simp] theorem image_construct : (image p c).construct = c.construct := rfl
@[simp] theorem image_scratch : (image p c).scratch = image p c.scratch := rfl
@[simp] theorem image_newObject : (image p c).newObject = image p c.newObject := rfl

@[simp] theorem image_completionValue (c : Completion) :
    (image p c).value = image p c.value := rfl

@[simp] theorem image_noInfo : image p FrameInfo.none = .none := rfl
@[simp] theorem image_operands (values : List Value) :
    image p (FrameInfo.operands values) = .operands (image p values) := rfl
@[simp] theorem image_call (c : CallInfo) : image p (FrameInfo.call c) = .call (image p c) := rfl
@[simp] theorem image_try (phase : TryPhase) (c : Option Completion) :
    image p (FrameInfo.try phase c) = .try phase (image p c) := rfl
@[simp] theorem image_switch (v : Value) (clause statement : Nat) (isMatched : Bool) :
    image p (FrameInfo.switch v clause statement isMatched) =
      .switch (image p v) clause statement isMatched := rfl
@[simp] theorem image_forIn (keys : List String) (index : Nat) (v : Value) :
    image p (FrameInfo.forIn keys index v) = .forIn keys index (image p v) := rfl
@[simp] theorem image_objectInfo (id : ObjectId) :
    image p (FrameInfo.object id) = .object (image p id) := rfl
@[simp] theorem image_programInfo (v : Value) :
    image p (FrameInfo.program v) = .program (image p v) := rfl

end Fields

namespace Frame

variable (f : Frame)

@[simp] theorem operands_image : (image p f).operands = image p f.operands := by
  unfold operands
  rw [image_info]
  cases f.info <;> rfl

@[simp] theorem operand_image (i : Nat) : (image p f).operand i = image p (f.operand i) := by
  simp only [operand, operands_image, getD_image]

@[simp] theorem pushOperand_image (v : Value) :
    (image p f).pushOperand (image p v) = image p (f.pushOperand v) := by
  unfold pushOperand
  rw [image_info]
  cases f.info with
  | operands values =>
    exact congrArg (fun l => { image p f with info := .operands l })
      (image_append p values [v]).symm
  | _ => rfl

@[simp] theorem setOperand_image (i : Nat) (v : Value) :
    (image p f).setOperand i (image p v) = image p (f.setOperand i v) := by
  unfold setOperand
  rw [image_info]
  cases f.info with
  | operands values =>
    exact congrArg (fun l => { image p f with info := .operands l }) (set_image p values i v)
  | _ => rfl

@[simp] theorem dropOperands_image : (image p f).dropOperands = image p f.dropOperands := by
  unfold dropOperands
  rw [image_info]
  cases f.info <;> rfl

variable {p} {f}

theorem within_ofNode {node : NodeRef} {scope : ScopeId} (hn : Carried.Within p node)
    (hs : Carried.Within p scope) : Carried.Within p (ofNode node scope) :=
  ⟨(within_some p node).2 hn, hs, within_undefined p, within_none p, trivial⟩

theorem within_ofCall {c : CallInfo} {scope : ScopeId} (hs : Carried.Within p scope)
    (hc : Carried.Within p c) : Carried.Within p (ofCall scope c) :=
  ⟨within_none p, hs, within_undefined p, within_none p, hc⟩

theorem within_operands (h : Carried.Within p f) : Carried.Within p f.operands := by
  have hinfo := h.info
  unfold operands
  split
  · rename_i values heq
    rw [heq] at hinfo
    exact hinfo
  · exact within_nil p

theorem within_operand (h : Carried.Within p f) (i : Nat) : Carried.Within p (f.operand i) :=
  within_getD p (within_operands h) i

theorem within_pushOperand (h : Carried.Within p f) {v : Value} (hv : Carried.Within p v) :
    Carried.Within p (f.pushOperand v) := by
  have hinfo := h.info
  unfold pushOperand
  split
  · rename_i values heq
    rw [heq] at hinfo
    exact { h with info := (within_append p values [v]).2 ⟨hinfo, by simpa using hv⟩ }
  · exact { h with info := (show Carried.Within p [v] by simpa using hv) }

theorem within_setOperand (h : Carried.Within p f) {v : Value} (hv : Carried.Within p v) (i : Nat) :
    Carried.Within p (f.setOperand i v) := by
  have hinfo := h.info
  unfold setOperand
  split
  · rename_i values heq
    rw [heq] at hinfo
    exact { h with info := within_set p hinfo hv i }
  · exact h

theorem within_dropOperands (h : Carried.Within p f) : Carried.Within p f.dropOperands := by
  unfold dropOperands
  split
  · exact { h with info := trivial }
  · exact h

end Frame

/-! ## Steps -/

namespace Step

def image (p : Pairing) : Step → Step
  | .push frame child => .push (Carried.image p frame) (Carried.image p child)
  | .stay frame => .stay (Carried.image p frame)
  | .done v => .done (Carried.image p v)
  | .ref r => .ref (Carried.image p r)
  | .unwind c => .unwind (Carried.image p c)
  | .suspend frame => .suspend (Carried.image p frame)

def Within (p : Pairing) : Step → Prop
  | .push frame child => Carried.Within p frame ∧ Carried.Within p child
  | .stay frame => Carried.Within p frame
  | .done v => Carried.Within p v
  | .ref r => Carried.Within p r
  | .unwind c => Carried.Within p c
  | .suspend frame => Carried.Within p frame

end Step

instance : Carried Step where
  image := Step.image
  Within := Step.Within
  image_of_extends {p q s} h hs := by
    cases s with
    | push f child =>
      exact congrArg₂ Step.push (Carried.image_of_extends h hs.1) (Carried.image_of_extends h hs.2)
    | stay f => exact congrArg Step.stay (Carried.image_of_extends h hs)
    | done v => exact congrArg Step.done (Carried.image_of_extends h hs)
    | ref r => exact congrArg Step.ref (Carried.image_of_extends h hs)
    | unwind c => exact congrArg Step.unwind (Carried.image_of_extends h hs)
    | suspend f => exact congrArg Step.suspend (Carried.image_of_extends h hs)
  within_mono {p q s} h hs := by
    cases s with
    | push f child => exact ⟨Carried.within_mono h hs.1, Carried.within_mono h hs.2⟩
    | stay f => exact Carried.within_mono (α := Frame) h hs
    | done v => exact Carried.within_mono (α := Value) h hs
    | ref r => exact Carried.within_mono (α := Reference) h hs
    | unwind c => exact Carried.within_mono (α := Completion) h hs
    | suspend f => exact Carried.within_mono (α := Frame) h hs
  image_of_fixes {p s} h := by
    cases s with
    | push f child =>
      exact congrArg₂ Step.push (Carried.image_of_fixes h) (Carried.image_of_fixes h)
    | stay f => exact congrArg Step.stay (Carried.image_of_fixes h)
    | done v => exact congrArg Step.done (Carried.image_of_fixes h)
    | ref r => exact congrArg Step.ref (Carried.image_of_fixes h)
    | unwind c => exact congrArg Step.unwind (Carried.image_of_fixes h)
    | suspend f => exact congrArg Step.suspend (Carried.image_of_fixes h)

@[simp] theorem image_enter (f : Frame) (here : NodeRef) (node : Tree.NodeId) :
    Step.enter (image p f) (image p here) node = image p (Step.enter f here node) := rfl

@[simp] theorem image_enterRef (f : Frame) (here : NodeRef) (node : Tree.NodeId) :
    Step.enterRef (image p f) (image p here) node = image p (Step.enterRef f here node) := rfl

theorem within_enter {p : Pairing} {f : Frame} {here : NodeRef} (hf : Within p f)
    (hh : Within p here) (node : Tree.NodeId) : Within p (Step.enter f here node) :=
  ⟨hf, Frame.within_ofNode hh hf.scope⟩

theorem within_enterRef {p : Pairing} {f : Frame} {here : NodeRef} (hf : Within p f)
    (hh : Within p here) (node : Tree.NodeId) : Within p (Step.enterRef f here node) :=
  have child : Within p (Frame.ofNode { here with node } f.scope) :=
    Frame.within_ofNode hh hf.scope
  ⟨hf, child.node, child.scope, child.value, child.reference, child.info⟩

/-! ## Threads -/

instance : Carried Stack where
  image p s := ⟨image p s.frames, s.depth, by rw [length_image, s.depth_eq]⟩
  Within p s := Within p s.frames
  image_of_extends h hs := by simp only [Carried.image_of_extends h hs]
  within_mono h hs := Carried.within_mono h hs
  image_of_fixes h := by simp only [Carried.image_of_fixes h]

namespace Outcome

def image (p : Pairing) : Outcome → Outcome
  | .completed v => .completed (Carried.image p v)
  | .threw v => .threw (Carried.image p v)
  | .killed => .killed

def Within (p : Pairing) : Outcome → Prop
  | .completed v => Carried.Within p v
  | .threw v => Carried.Within p v
  | .killed => True

end Outcome

instance : Carried Outcome where
  image := Outcome.image
  Within := Outcome.Within
  image_of_extends {p q o} h ho := by
    cases o with
    | completed v => exact congrArg Outcome.completed (Carried.image_of_extends h ho)
    | threw v => exact congrArg Outcome.threw (Carried.image_of_extends h ho)
    | killed => rfl
  within_mono {p q o} h ho := by
    cases o with
    | completed v => exact Carried.within_mono (α := Value) h ho
    | threw v => exact Carried.within_mono (α := Value) h ho
    | killed => trivial
  image_of_fixes {p o} h := by
    cases o with
    | completed v => exact congrArg Outcome.completed (Carried.image_of_fixes h)
    | threw v => exact congrArg Outcome.threw (Carried.image_of_fixes h)
    | killed => rfl

/-- Every handle of a thread is known. -/
structure Thread.Within (p : Pairing) (t : Thread) : Prop where
  stack : Carried.Within p t.stack
  outcome : Carried.Within p t.outcome

instance : Carried Thread where
  image p t := { t with stack := image p t.stack, outcome := image p t.outcome }
  Within := Thread.Within
  image_of_extends h ht := by
    simp only [Carried.image_of_extends h ht.stack, Carried.image_of_extends h ht.outcome]
  within_mono h ht := ⟨Carried.within_mono h ht.stack, Carried.within_mono h ht.outcome⟩
  image_of_fixes h := by simp only [Carried.image_of_fixes h]

namespace Settlement

def image (p : Pairing) : Settlement → Settlement
  | .resolved v => .resolved (Carried.image p v)
  | .rejected v => .rejected (Carried.image p v)

def Within (p : Pairing) : Settlement → Prop
  | .resolved v => Carried.Within p v
  | .rejected v => Carried.Within p v

end Settlement

instance : Carried Settlement where
  image := Settlement.image
  Within := Settlement.Within
  image_of_extends {p q s} h hs := by
    cases s with
    | resolved v => exact congrArg Settlement.resolved (Carried.image_of_extends h hs)
    | rejected v => exact congrArg Settlement.rejected (Carried.image_of_extends h hs)
  within_mono {p q s} h hs := by
    cases s with
    | resolved v => exact Carried.within_mono (α := Value) h hs
    | rejected v => exact Carried.within_mono (α := Value) h hs
  image_of_fixes {p s} h := by
    cases s with
    | resolved v => exact congrArg Settlement.resolved (Carried.image_of_fixes h)
    | rejected v => exact congrArg Settlement.rejected (Carried.image_of_fixes h)

section Threads

variable (t : Thread) (s : Stack)

@[simp] theorem image_id : (image p t).id = t.id := rfl
@[simp] theorem image_status : (image p t).status = t.status := rfl
@[simp] theorem image_stack : (image p t).stack = image p t.stack := rfl
@[simp] theorem image_runAt : (image p t).runAt = t.runAt := rfl
@[simp] theorem image_timeLimit : (image p t).timeLimit = t.timeLimit := rfl
@[simp] theorem image_runStarted : (image p t).runStarted = t.runStarted := rfl
@[simp] theorem image_outcome : (image p t).outcome = image p t.outcome := rfl
@[simp] theorem image_keepOutcome : (image p t).keepOutcome = t.keepOutcome := rfl
@[simp] theorem isZombie_image : (image p t).isZombie = t.isZombie := rfl
@[simp] theorem before_image (u : Thread) : (image p t).before (image p u) = t.before u := rfl

@[simp] theorem finish_image (o : Outcome) :
    (image p t).finish (image p o) = image p (t.finish o) := rfl

@[simp] theorem wake_image (time : Float) : (image p t).wake time = image p (t.wake time) := by
  unfold Thread.wake
  simp only [image_status, image_runAt]
  split <;> rfl

theorem within_finish {p : Pairing} (t : Thread) {o : Outcome} (h : Within p o) :
    Within p (t.finish o) :=
  ⟨within_nil p, (within_some p o).2 h⟩

theorem within_wake {p : Pairing} {t : Thread} (h : Within p t) (time : Float) :
    Within p (t.wake time) := by
  unfold Thread.wake
  split
  · exact ⟨h.stack, h.outcome⟩
  · exact h

@[simp] theorem image_frames : (image p s).frames = image p s.frames := rfl

@[simp] theorem push_image (f : Frame) : (image p s).push (image p f) = image p (s.push f) := rfl

@[simp] theorem top?_image : (image p s).top? = image p s.top? := head?_image p s.frames

@[simp] theorem isEmpty_imageStack : (image p s).isEmpty = s.isEmpty := isEmpty_image p s.frames

theorem stack_ext {s t : Stack} (h : s.frames = t.frames) : s = t := by
  obtain ⟨frames, depth, hdepth⟩ := s
  obtain ⟨_, _, hdepth'⟩ := t
  obtain rfl : frames = _ := h
  obtain rfl := hdepth
  obtain rfl := hdepth'
  rfl

@[simp] theorem dropTop_image : (image p s).dropTop = image p s.dropTop :=
  stack_ext (tail_image p s.frames)

theorem modifyTop_image {g g' : Frame → Frame} (h : ∀ f, g' (image p f) = image p (g f)) :
    (image p s).modifyTop g' = image p (s.modifyTop g) := by
  refine stack_ext ?_
  rw [Stack.frames_modifyTop, image_frames, image_frames, Stack.frames_modifyTop]
  cases s.frames with
  | nil => rfl
  | cons f rest => exact congrArg (· :: _) (h f)

theorem within_modifyTop {p : Pairing} {s : Stack} (h : Within p s) {g : Frame → Frame}
    (hg : ∀ f, Within p f → Within p (g f)) : Within p (s.modifyTop g) := by
  change Within p (s.modifyTop g).frames
  rw [Stack.frames_modifyTop]
  change Within p s.frames at h
  revert h
  cases s.frames with
  | nil => exact id
  | cons f rest =>
    intro h
    obtain ⟨hf, hrest⟩ := (within_cons p f rest).1 h
    exact (within_cons p _ rest).2 ⟨hg f hf, hrest⟩

theorem recordIn_image (v : Value) (frames : List Frame) :
    Stack.recordIn (image p v) (image p frames) = image p (Stack.recordIn v frames) := by
  induction frames with
  | nil => rfl
  | cons f rest ih =>
    rw [image_cons, Stack.recordIn, Stack.recordIn, image_info]
    cases f.info with
    | program completion => rfl
    | call info => rfl
    | _ => exact congrArg (image p f :: ·) ih

theorem within_recordIn {p : Pairing} {v : Value} (hv : Within p v) {frames : List Frame}
    (h : Within p frames) : Within p (Stack.recordIn v frames) := by
  induction frames with
  | nil => exact h
  | cons f rest ih =>
    obtain ⟨hf, hrest⟩ := (within_cons p f rest).1 h
    rw [Stack.recordIn]
    split
    · exact (within_cons p _ rest).2 ⟨{ hf with info := hv }, hrest⟩
    · exact h
    · exact (within_cons p f _).2 ⟨hf, ih hrest⟩

@[simp] theorem recordCompletion_image (v : Value) :
    (image p s).recordCompletion (image p v) = image p (s.recordCompletion v) :=
  stack_ext (recordIn_image p v s.frames)

end Threads

/-! ## Failures -/

namespace Failure

def carried (p : Pairing) : Failure → Failure
  | .thrown v message => .thrown (Carried.image p v) message
  | e => e

/-- A thrown value is known, and no handle without a slot was met. -/
def Within (p : Pairing) : Failure → Prop
  | .thrown v _ => Carried.Within p v
  | .fault (.danglingObject _) => False
  | .fault (.danglingScope _) => False
  | .fault (.danglingProgram _) => False
  | _ => True

end Failure

instance : Carried Failure where
  image := Failure.carried
  Within := Failure.Within
  image_of_extends {p q e} h he := by
    cases e with
    | thrown v message => exact congrArg (Failure.thrown · message) (Carried.image_of_extends h he)
    | _ => rfl
  within_mono {p q e} h he := by
    cases e with
    | thrown v message => exact Carried.within_mono (α := Value) h he
    | fault cause =>
      cases cause with
      | danglingObject id => exact he
      | danglingScope id => exact he
      | danglingProgram id => exact he
      | _ => trivial
    | _ => trivial
  image_of_fixes {p e} h := by
    cases e with
    | thrown v message => exact congrArg (Failure.thrown · message) (Carried.image_of_fixes h)
    | _ => rfl

instance {α : Type} [Carried α] : Carried (Except Failure α) where
  image p
    | .ok a => .ok (image p a)
    | .error e => .error (image p e)
  Within p
    | .ok a => Within p a
    | .error e => Within p e
  image_of_extends {p q x} h hx := by
    cases x with
    | ok a => exact congrArg Except.ok (Carried.image_of_extends h hx)
    | error e => exact congrArg Except.error (Carried.image_of_extends h hx)
  within_mono {p q x} h hx := by
    cases x with
    | ok a => exact Carried.within_mono (α := α) h hx
    | error e => exact Carried.within_mono (α := Failure) h hx
  image_of_fixes {p x} h := by
    cases x with
    | ok a => exact congrArg Except.ok (Carried.image_of_fixes h)
    | error e => exact congrArg Except.error (Carried.image_of_fixes h)

section Failures

variable {α : Type} [Carried α]

@[simp] theorem isFault_image (e : Failure) : (image p e).isFault = e.isFault := by
  cases e <;> rfl

end Failures

/-! ## Answers -/

/-- Every handle of a call of a host function is known. -/
structure NativeCall.Within (p : Pairing) (c : NativeCall) : Prop where
  func : Carried.Within p c.func
  receiver : Carried.Within p c.receiver
  args : Carried.Within p c.args
  owner : Carried.Within p c.owner
  scope : Carried.Within p c.scope
  scratch : Carried.Within p c.scratch
  resumed : Carried.Within p c.resumed

instance : Carried NativeCall where
  image p c :=
    { c with
      func := image p c.func
      receiver := image p c.receiver
      args := image p c.args
      owner := image p c.owner
      scope := image p c.scope
      scratch := image p c.scratch
      resumed := image p c.resumed }
  Within := NativeCall.Within
  image_of_extends h hc := by
    simp only [Carried.image_of_extends h hc.func, Carried.image_of_extends h hc.receiver,
      Carried.image_of_extends h hc.args, Carried.image_of_extends h hc.owner,
      Carried.image_of_extends h hc.scope, Carried.image_of_extends h hc.scratch,
      Carried.image_of_extends h hc.resumed]
  within_mono h hc :=
    ⟨Carried.within_mono h hc.func, Carried.within_mono h hc.receiver,
      Carried.within_mono h hc.args, Carried.within_mono h hc.owner,
      Carried.within_mono h hc.scope, Carried.within_mono h hc.scratch,
      Carried.within_mono h hc.resumed⟩
  image_of_fixes h := by simp only [Carried.image_of_fixes h]

namespace NativeResult

def image (p : Pairing) : NativeResult → NativeResult
  | .value v => .value (Carried.image p v)
  | .call func receiver args =>
    .call (Carried.image p func) (Carried.image p receiver) (Carried.image p args)
  | .eval program => .eval (Carried.image p program)
  | .block => .block
  | .sleep time => .sleep time

def Within (p : Pairing) : NativeResult → Prop
  | .value v => Carried.Within p v
  | .call func receiver args =>
    Carried.Within p func ∧ Carried.Within p receiver ∧ Carried.Within p args
  | .eval program => Carried.Within p program
  | .block => True
  | .sleep _ => True

end NativeResult

instance : Carried NativeResult where
  image := NativeResult.image
  Within := NativeResult.Within
  image_of_extends {p q r} h hr := by
    cases r with
    | value v => exact congrArg NativeResult.value (Carried.image_of_extends h hr)
    | call func receiver args =>
      simp only [NativeResult.image, Carried.image_of_extends h hr.1, Carried.image_of_extends h hr.2.1,
        Carried.image_of_extends h hr.2.2]
    | eval program => exact congrArg NativeResult.eval (Carried.image_of_extends h hr)
    | block => rfl
    | sleep time => rfl
  within_mono {p q r} h hr := by
    cases r with
    | value v => exact Carried.within_mono (α := Value) h hr
    | call func receiver args =>
      exact ⟨Carried.within_mono h hr.1, Carried.within_mono h hr.2.1,
        Carried.within_mono h hr.2.2⟩
    | eval program => exact Carried.within_mono (α := ProgramId) h hr
    | block => trivial
    | sleep time => trivial
  image_of_fixes {p r} h := by
    cases r with
    | value v => exact congrArg NativeResult.value (Carried.image_of_fixes h)
    | call func receiver args => simp only [NativeResult.image, Carried.image_of_fixes h]
    | eval program => exact congrArg NativeResult.eval (Carried.image_of_fixes h)
    | block => rfl
    | sleep time => rfl

instance : Carried NativeReply where
  image p r := { r with result := image p r.result, scratch := image p r.scratch }
  Within p r := Within p r.result ∧ Within p r.scratch
  image_of_extends h hr := by
    simp only [Carried.image_of_extends h hr.1, Carried.image_of_extends h hr.2]
  within_mono h hr := ⟨Carried.within_mono h hr.1, Carried.within_mono h hr.2⟩
  image_of_fixes h := by simp only [Carried.image_of_fixes h]

section Answers

variable (c : NativeCall)

@[simp] theorem arg_image (i : Nat) : (image p c).arg i = image p (c.arg i) :=
  getD_image p c.args i

theorem within_arg {p : Pairing} {c : NativeCall} (h : Within p c) (i : Nat) :
    Within p (c.arg i) :=
  within_getD p h.args i

@[simp] theorem reply_image (r : NativeResult) :
    (image p c).reply (image p r) = image p (c.reply r) := rfl

theorem within_reply {p : Pairing} {c : NativeCall} (h : Within p c) {r : NativeResult}
    (hr : Within p r) : Within p (c.reply r) :=
  ⟨hr, h.scratch⟩

@[simp] theorem isBlock_image (r : NativeResult) : (image p r).isBlock = r.isBlock := by
  cases r <;> rfl

@[simp] theorem image_result (r : NativeReply) : (image p r).result = image p r.result := rfl

end Answers

end ScriptMachine
