import ScriptMachine.Proofs.Dispatch
import ScriptMachine.Proofs.Edits
import ScriptMachine.Proofs.Sustained

/-!
# Operations that leave an object alone

Whatever reads, makes new objects, edits others, changes bindings and threads or serves the host leaves
an object alone that is live. A literal that builds another object does too.
-/

namespace ScriptMachine

open Exec Machine

namespace Machine

/-- The heap is tidy, and an object is live on it. -/
structure Has (id : ObjectId) (o : Object) (m : Machine) : Prop where
  tidy : m.heap.Tidy
  live : m.heap.object? id = some o

end Machine

namespace Exec

variable {α β : Type} {id other : ObjectId}

/-- An operation leaves an object as it is. -/
def Quiet (id : ObjectId) (x : Exec α) : Prop := ∀ o, Keeps (Has id o) x

theorem quiet_modifyGet {f : Machine → α × Machine} (h : ∀ m, (f m).2.heap = m.heap) :
    Quiet id (modifyGet f : Exec α) := by
  refine fun o => keeps_modifyGet fun m hm => ⟨?_, ?_⟩
  · rw [h]
    exact hm.tidy
  · rw [h]
    exact hm.live

theorem quiet_modify {f : Machine → Machine} (h : ∀ m, (f m).heap = m.heap) :
    Quiet id (modify f : Exec Unit) :=
  quiet_modifyGet (f := fun m => ((), f m)) h

theorem quiet_load (source : String) : Quiet id (load source) := by
  intro o
  unfold load
  split
  · exact keeps_throw _
  · exact keeps_modifyGet fun m hm => ⟨hm.tidy.addProgram _, hm.live⟩

theorem quiet_setScopeOwner (scope : ScopeId) (owner : Owner) :
    Quiet id (setScopeOwner scope owner) :=
  fun _ => (keeps_query _).bind fun _ => keeps_modify fun _ hm => ⟨hm.tidy.modifyScope scope _, hm.live⟩

/-- What is read, allocated or served leaves an object alone, and what is done to scopes. -/
theorem quiet : Regular (Quiet id) where
  pure a := fun _ => keeps_pure a
  throw e := fun _ => keeps_throw e
  bind hx hf := fun o => (hx o).bind fun a => hf a o
  get := fun _ => keeps_get
  query f := fun _ => keeps_query f
  alloc p := fun _ => keeps_modifyGet fun _ hm =>
    ⟨hm.tidy.allocObject p, hm.tidy.allocObject_of_live p hm.live⟩
  allocScope s := fun _ => keeps_modifyGet fun _ hm =>
    ⟨hm.tidy.allocScope s, (Heap.object?_allocScope ..).trans hm.live⟩
  modifyScope scope _ _ := fun _ => keeps_modify fun _ hm => ⟨hm.tidy.modifyScope scope _, hm.live⟩
  load := quiet_load
  now := quiet_modifyGet fun _ => rfl
  write _ _ := quiet_modify fun _ => rfl
  random _ := quiet_modifyGet fun _ => rfl

/-! ## Other objects -/

theorem has_withObject {o : Object} {m : Machine} (hm : m.Has id o) (hother : other ≠ id)
    (f : Object → Object) : (m.withObject other f).Has id o := by
  refine ⟨hm.tidy.modifyObject other f, ?_⟩
  have hindex : other.index ≠ id.index := by
    intro heq
    cases other
    cases id
    exact hother (congrArg ObjectId.mk heq)
  rw [withObject, Heap.object?_modifyObject, if_neg hindex]
  exact hm.live

/-- Another object is edited. -/
theorem quiet_of_edits {actor : Option Owner} {access : Access} {idle : Prop}
    {E : Object → Object → Prop} {x : Exec α} (hother : other ≠ id)
    (hx : ∀ m, Edits other actor access idle E m x) : Quiet id x := by
  intro o m hm
  cases hrun : x m with
  | error e m' =>
    rw [after_of_error hrun, (hx m).eq_of_error hrun]
    exact hm
  | ok a m' =>
    rw [after_of_ok hrun]
    rcases (hx m).of_ok hrun with ⟨-, rfl⟩ | ⟨p, p', -, -, rfl⟩
    · exact hm
    · exact has_withObject hm hother _

theorem quiet_modifyObject (hother : other ≠ id) (f : Object → Object) :
    Quiet id (modifyObject other f) :=
  quiet.bind (quiet.heapQuery _) fun _ _ => keeps_modify fun _ hm => has_withObject hm hother f

theorem crafts_of_ne {acts : Option Owner → Prop} (hother : other ≠ id) :
    Crafts acts (Quiet id) other where
  setProperty key v actor _ := quiet_of_edits hother fun m => edits_setProperty m other key v actor
  defineProperty key d actor _ :=
    quiet_of_edits hother fun m => edits_defineProperty m other key d actor
  deleteProperty key actor _ :=
    quiet_of_edits hother fun m => edits_deleteProperty m other key actor

/-- An object that has just been made is another one. -/
theorem quiet_craft (p : Object) {k : ObjectId → Exec α}
    (hk : ∀ other, other ≠ id → Quiet id (k other)) : Quiet id (alloc p >>= k) := by
  intro o m hm
  have hother : (m.heap.allocObject p).1 ≠ id := by
    intro heq
    have hfresh := hm.tidy.allocObject_fresh p
    rw [heq, hm.live] at hfresh
    cases hfresh
  exact hk _ hother o _ ⟨hm.tidy.allocObject p, hm.tidy.allocObject_of_live p hm.live⟩

theorem quiet_craftPlain (owner : Option Owner) {k : ObjectId → Exec α}
    (hk : ∀ other, other ≠ id → Quiet id (k other)) : Quiet id (createPlainObject owner >>= k) := by
  unfold createPlainObject
  rw [bind_assoc]
  exact quiet.bind (quiet.builtinObject _) fun _ => quiet_craft _ hk

theorem quiet_createClosure (node : NodeRef) (scope : ScopeId) (owner : Option Owner) :
    Quiet id (createClosure node scope owner) := by
  refine quiet.bind (quiet.heapQuery _) fun f => quiet.bind (quiet.builtinObject _) fun _ => ?_
  refine quiet_craft _ fun func hfunc => quiet_craftPlain _ fun proto hproto => ?_
  refine quiet.bind (quiet_modifyObject hproto _) fun _ => ?_
  exact quiet.bind (quiet_modifyObject hfunc _) fun _ => quiet.pure _

/-! ## Literals of other objects -/

section Literals

variable {f : Frame} (hf : f.info ≠ .object id)

include hf

theorem quiet_literalObject {create : Option Owner → Exec ObjectId}
    (hcreate : ∀ owner {k : ObjectId → Exec Step}, (∀ other, other ≠ id → Quiet id (k other)) →
      Quiet id (create owner >>= k)) {k : ObjectId → Exec Step}
    (hk : ∀ other, other ≠ id → Quiet id (k other)) : Quiet id (literalObject f create >>= k) := by
  unfold literalObject
  split
  · rename_i other hinfo
    exact hk other fun heq => hf (heq ▸ hinfo)
  · rw [bind_assoc]
    exact quiet.bind (quiet.scopeOwner f.scope) fun owner => hcreate owner hk

theorem quiet_stepArray (here : NodeRef) (elements : List (Option Tree.NodeId)) :
    Quiet id (stepArray f here elements) := by
  refine quiet_literalObject hf (fun owner k hk => ?_) fun other hother => ?_
  · unfold createArray
    rw [bind_assoc]
    exact quiet.bind (quiet.builtinObject _) fun _ => quiet_craft _ hk
  · extract_lets stored cleared built next rest
    have hrest (u : Unit) : Quiet id (rest u) := by
      dsimp only [rest]
      split
      · exact quiet.pure _
      · exact quiet.bind (quiet_modifyObject hother _) fun _ => quiet.pure _
    split
    · exact quiet.bind (quiet_modifyObject hother _) fun _ => hrest ()
    · exact hrest ()

theorem quiet_stepObject (here : NodeRef) (properties : List Tree.PropertyInit) :
    Quiet id (stepObject f here properties) := by
  refine quiet_literalObject hf (fun owner k hk => quiet_craftPlain owner hk) fun other hother => ?_
  extract_lets stored cleared built rest
  have hrest (u : Unit) : Quiet id (rest u) := by
    dsimp only [rest]
    split
    · exact quiet.pure _
    · exact quiet.pure _
  cases stored with
  | some init => exact quiet.bind (quiet_modifyObject hother _) fun _ => hrest ()
  | none => exact hrest ()

end Literals

/-! ## Threads and the host -/

theorem quiet_modifyThread (thread : ThreadId) (f : Thread → Thread) :
    Quiet id (modifyThread thread f) :=
  fun _ => keeps_modifyThread fun _ hm => ⟨hm.tidy, hm.live⟩

theorem turning_quiet (thread : ThreadId) : Turning thread (Quiet id) where
  toRegular := quiet
  attempt hx := fun o => (hx o).attempt
  tend f _ _ := quiet_modifyThread thread f

theorem quiet_takeQueuePosition : Quiet id takeQueuePosition :=
  quiet.bind quiet.get fun _ => quiet.bind (quiet.query _) fun _ =>
    quiet.bind (quiet_modify fun _ => rfl) fun _ => quiet.pure _

theorem quiet_applyReply (thread : ThreadId) (f : Frame) (call : CallInfo) (owner : Option Owner)
    (early : Option Settlement) (result : NativeResult) :
    Quiet id (applyReply thread f call owner early result) := by
  cases result with
  | value v => exact quiet.pure _
  | call func receiver args => exact quiet.pure _
  | eval program =>
    refine quiet.bind (quiet.heapQuery _) fun p => quiet.bind quiet.get fun m => ?_
    exact quiet.bind (quiet.newScope _ _ _ _) fun _ => quiet.pure _
  | block =>
    cases early with
    | some s => exact quiet.pure _
    | none => exact quiet.bind (quiet_modifyThread _ _) fun _ => quiet.pure _
  | sleep time =>
    refine quiet.bind quiet_takeQueuePosition fun queued => ?_
    exact quiet.bind (quiet_modifyThread _ _) fun _ => quiet.pure _

theorem quiet_newThread (base : Frame) (delay : Float) (keepOutcome : Bool) :
    Quiet id (newThread base delay keepOutcome) := by
  refine quiet.bind quiet.get fun m => quiet.bind (quiet.query _) fun next => ?_
  refine quiet.bind (quiet_modify fun _ => rfl) fun _ => quiet.bind quiet.now fun time => ?_
  refine quiet.bind quiet_takeQueuePosition fun queued => ?_
  exact quiet.bind (quiet_modify fun _ => rfl) fun _ => quiet.pure _

theorem quiet_spawn (source : String) : Quiet id (spawn source) :=
  quiet.bind (quiet.load source) fun _ => quiet.bind (quiet.heapQuery _) fun _ =>
    quiet.bind quiet.get fun _ => quiet_newThread _ _ _

theorem quiet_spawnCallAs (func receiver : Value) (args : List Value) (delay : Float)
    (owner : Owner) (keepOutcome : Bool) :
    Quiet id (spawnCallAs func receiver args delay owner keepOutcome) := by
  refine quiet.bind quiet.get fun m => ?_
  dsimp only
  split
  · exact quiet.bind quiet.get fun m => quiet.throw_bind _ _
  · refine quiet.bind quiet.get fun m => ?_
    exact quiet.bind (quiet.newScope _ _ _ _) fun _ => quiet_newThread _ _ _

theorem quiet_settle (resolver : Nat) (thread : ThreadId) (s : Settlement) :
    Quiet id (settle resolver thread s) := by
  refine quiet.bind quiet.get fun m => ?_
  split
  · exact quiet.throw _
  · refine quiet.bind (quiet_modify fun _ => rfl) fun _ => ?_
    dsimp only
    split
    · exact quiet.throw_bind _ _
    · refine quiet.bind quiet.now fun time => quiet.bind quiet_takeQueuePosition fun queued => ?_
      refine quiet.bind quiet.get fun m => ?_
      split
      · exact quiet.pure _
      · split
        · exact quiet.pure _
        · exact quiet.bind (quiet.query _) fun f => quiet_modifyThread _ _
        · refine quiet.bind quiet.get fun m => ?_
          split
          · exact quiet_modify fun _ => rfl
          · exact quiet.throw _

theorem quiet_waitUntil (time : Float) : Quiet id (waitUntil time) :=
  quiet.waitUntil (fun _ _ => quiet_modify fun _ => rfl) time

theorem quiet_replaceClock (clock : Host.Clock) : Quiet id (replaceClock clock) :=
  quiet.replaceClock (fun _ _ => quiet_modify fun _ => rfl) clock

end Exec

end ScriptMachine
