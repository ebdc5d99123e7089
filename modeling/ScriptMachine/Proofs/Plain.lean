import ScriptMachine.Builtin.Math
import ScriptMachine.Machine.Control
import ScriptMachine.Proofs.Change

/-!
# Families of operations

Operations are made of readings, allocations, edits and services of the host, one after another. A
property of operations that these have and that sequencing keeps is one of all operations made of
them. What it is made of is told once here for every operation that starts, ends and parks no thread.
-/

namespace ScriptMachine

open Machine

namespace Exec

/-- A property of operations that readings, allocations and services of the host have, and that
sequencing keeps. -/
structure Regular (P : ∀ {α : Type}, Exec α → Prop) : Prop where
  pure {α : Type} (a : α) : P (Pure.pure a : Exec α)
  throw {α : Type} (e : Failure) : P (MonadExcept.throw e : Exec α)
  bind {α β : Type} {x : Exec α} {f : α → Exec β} (hx : P x) (hf : ∀ a, P (f a)) : P (x >>= f)
  get : P (MonadState.get : Exec Machine)
  query {α : Type} (f : Machine → Except Failure α) : P (Exec.query f)
  alloc (o : Object) : P (Machine.alloc o)
  allocScope (s : Scope) : P (Machine.allocScope s)
  modifyScope (id : ScopeId) {f : Scope → Scope} (hf : ∀ s : Scope, s.SameShell (f s)) :
    P (modifyHeap (·.modifyScope id f))
  load (source : String) : P (Machine.load source)
  now : P Machine.now
  write (level : Host.Level) (text : String) : P (Machine.write level text)
  random (c : NativeCall) : P (Builtin.Mathematics.random c)

/-- A property that the edits of objects for some actors have too. -/
structure Plain (acts : Option Owner → Prop) (P : ∀ {α : Type}, Exec α → Prop) : Prop
    extends Regular P where
  setProperty (base : Value) (key : String) (v : Value) (actor : Option Owner)
    (hactor : acts actor) : P (Machine.setProperty base key v actor)
  defineProperty (id : ObjectId) (key : String) (d : Descriptor) (actor : Option Owner)
    (hactor : acts actor) : P (Machine.defineProperty id key d actor)
  deleteProperty (id : ObjectId) (key : String) (actor : Option Owner) (hactor : acts actor) :
    P (Machine.deleteProperty id key actor)
  setPrototype (id : ObjectId) (proto : Option ObjectId) (actor : Option Owner)
    (hactor : acts actor) : P (Machine.setPrototype id proto actor)
  preventExtensions (id : ObjectId) (actor : Option Owner) (hactor : acts actor) :
    P (Machine.preventExtensions id actor)
  setOwnerOf (id : ObjectId) (owner : Owner) (actor : Option Owner) (hactor : acts actor) :
    P (Machine.setOwnerOf id owner actor)
  createClosure (node : NodeRef) (scope : ScopeId) (owner : Option Owner) :
    P (Machine.createClosure node scope owner)
  /-- A plain object is given properties when it has just been made. -/
  build {α : Type} (owner : Option Owner) {f : Object → Object} (hf : ∀ o : Object, o.SameShell (f o))
    (a : ObjectId → α) :
    P (createPlainObject owner >>= fun id => modifyObject id f >>= fun _ => Pure.pure (a id))

/-- What edits one object has the property. -/
structure Crafts (acts : Option Owner → Prop) (P : ∀ {α : Type}, Exec α → Prop) (id : ObjectId) :
    Prop where
  setProperty (key : String) (v : Value) (actor : Option Owner) (hactor : acts actor) :
    P (Machine.setProperty (.object id) key v actor)
  defineProperty (key : String) (d : Descriptor) (actor : Option Owner) (hactor : acts actor) :
    P (Machine.defineProperty id key d actor)
  deleteProperty (key : String) (actor : Option Owner) (hactor : acts actor) :
    P (Machine.deleteProperty id key actor)

/-- A property of operations that edit no object but those they make, and one of operations that also
edit another one at most once. -/
structure Writing (acts : Option Owner → Prop) (P W : ∀ {α : Type}, Exec α → Prop) : Prop
    extends Regular P where
  mild {α : Type} {x : Exec α} (hx : P x) : W x
  first {α β : Type} {x : Exec α} {f : α → Exec β} (hx : P x) (hf : ∀ a, W (f a)) : W (x >>= f)
  last {α β : Type} {x : Exec α} {f : α → Exec β} (hx : W x) (hf : ∀ a, P (f a)) : W (x >>= f)
  setProperty (base : Value) (key : String) (v : Value) (actor : Option Owner)
    (hactor : acts actor) : W (Machine.setProperty base key v actor)
  defineProperty (id : ObjectId) (key : String) (d : Descriptor) (actor : Option Owner)
    (hactor : acts actor) : W (Machine.defineProperty id key d actor)
  deleteProperty (id : ObjectId) (key : String) (actor : Option Owner) (hactor : acts actor) :
    W (Machine.deleteProperty id key actor)
  setPrototype (id : ObjectId) (proto : Option ObjectId) (actor : Option Owner)
    (hactor : acts actor) : W (Machine.setPrototype id proto actor)
  preventExtensions (id : ObjectId) (actor : Option Owner) (hactor : acts actor) :
    W (Machine.preventExtensions id actor)
  setOwnerOf (id : ObjectId) (owner : Owner) (actor : Option Owner) (hactor : acts actor) :
    W (Machine.setOwnerOf id owner actor)
  createClosure (node : NodeRef) (scope : ScopeId) (owner : Option Owner) :
    P (Machine.createClosure node scope owner)
  build {α : Type} (owner : Option Owner) {f : Object → Object} (hf : ∀ o : Object, o.SameShell (f o))
    (a : ObjectId → α) :
    P (createPlainObject owner >>= fun id => modifyObject id f >>= fun _ => Pure.pure (a id))
  /-- An object that has just been made is edited. -/
  craft {α : Type} (o : Object) {k : ObjectId → Exec α} (hk : ∀ id, Crafts acts P id → P (k id)) :
    P (Machine.alloc o >>= k)

theorem Plain.crafts {acts : Option Owner → Prop} {P : ∀ {α : Type}, Exec α → Prop}
    (h : Plain acts P) (id : ObjectId) : Crafts acts P id where
  setProperty := h.setProperty (.object id)
  defineProperty := h.defineProperty id
  deleteProperty := h.deleteProperty id

theorem Plain.writing {acts : Option Owner → Prop} {P : ∀ {α : Type}, Exec α → Prop}
    (h : Plain acts P) : Writing acts P P where
  toRegular := h.toRegular
  mild := id
  first := h.bind
  last := h.bind
  setProperty := h.setProperty
  defineProperty := h.defineProperty
  deleteProperty := h.deleteProperty
  setPrototype := h.setPrototype
  preventExtensions := h.preventExtensions
  setOwnerOf := h.setOwnerOf
  createClosure := h.createClosure
  build := h.build
  craft o _ hk := h.bind (h.alloc o) fun id => hk id (h.crafts id)

/-- A property that every change of an object has that leaves its function as it is. -/
structure Free (P : ∀ {α : Type}, Exec α → Prop) : Prop extends Regular P where
  modifyHeapObject (id : ObjectId) {f : Object → Object}
    (hf : ∀ o : Object, (f o).function = o.function) : P (modifyHeap (·.modifyObject id f))
  setScopeOwner (id : ScopeId) (owner : Owner) : P (Machine.setScopeOwner id owner)

namespace Regular

variable {P : ∀ {α : Type}, Exec α → Prop} (h : Regular P)

include h

theorem throw_bind {α β : Type} (e : Failure) (f : α → Exec β) :
    P ((MonadExcept.throw e : Exec α) >>= f) :=
  h.throw e

theorem heapQuery {α : Type} (f : Heap → Except Failure α) : P (Exec.heapQuery f) := h.query _

/-! ## Bindings -/

theorem newScope (kind : ScopeKind) (outer : Option ScopeId) (owner : Option Owner)
    (receiver : Option Value) : P (Machine.newScope kind outer owner receiver) := by
  unfold Machine.newScope
  dsimp only
  split
  · exact h.allocScope _
  · exact h.bind (h.heapQuery _) fun _ => h.allocScope _
  · exact h.allocScope _

theorem resolveBinding (id : ScopeId) (name : String) : P (Machine.resolveBinding id name) :=
  h.heapQuery _

theorem readBinding (id : ScopeId) (name : String) : P (Machine.readBinding id name) :=
  h.heapQuery _

theorem getBinding (id : ScopeId) (name : String) : P (Machine.getBinding id name) := by
  refine h.bind (h.resolveBinding id name) fun found => ?_
  split
  · exact h.readBinding _ name
  · exact h.throw _

theorem writeBinding (id : ScopeId) (name : String) (v : Value) :
    P (Machine.writeBinding id name v) := by
  refine h.bind (h.heapQuery _) fun s => ?_
  split
  · exact h.throw _
  · split
    · exact h.throw_bind _ _
    · exact h.modifyScope id fun _ => ⟨rfl, rfl, rfl, rfl⟩

theorem setBinding (id : ScopeId) (name : String) (v : Value) : P (Machine.setBinding id name v) := by
  refine h.bind (h.resolveBinding id name) fun found => ?_
  split
  · exact h.writeBinding _ name v
  · exact h.throw _

theorem declare (id : ScopeId) (name : String) (v : Value) (mutable : Bool) :
    P (Machine.declare id name v mutable) := by
  refine h.bind (h.heapQuery _) fun target => h.bind (h.heapQuery _) fun s => ?_
  split
  · exact h.throw_bind _ _
  · exact h.modifyScope target fun _ => ⟨rfl, rfl, rfl, rfl⟩

theorem bindsLocally (id : ScopeId) (name : String) : P (Machine.bindsLocally id name) :=
  h.heapQuery _

theorem scopeOwner (id : ScopeId) : P (Machine.scopeOwner id) := h.heapQuery _

theorem scopeReceiver (id : ScopeId) : P (Machine.scopeReceiver id) := h.heapQuery _

theorem setGlobal (name : String) (v : Value) : P (Machine.setGlobal name v) := by
  refine h.bind h.get fun m => h.bind (h.bindsLocally _ name) fun bound => ?_
  split
  · exact h.writeBinding _ name v
  · exact h.declare _ name v true

theorem hoistVars (scope : ScopeId) (names : List String) : P (Machine.hoistVars scope names) := by
  induction names with
  | nil => exact h.pure ()
  | cons name rest ih =>
    refine h.bind (h.bindsLocally scope name) fun bound => ?_
    dsimp only
    split
    · exact h.bind (h.declare scope name .undefined true) fun _ => ih
    · exact ih

theorem declareParams (scope : ScopeId) (names : List String) (args : List Value) :
    P (Machine.declareParams scope names args) := by
  induction names generalizing args with
  | nil => exact h.pure ()
  | cons name rest ih => exact h.bind (h.declare scope name _ true) fun _ => ih _

/-! ## Services of the host -/

section Clocks

variable (hclock : ∀ (clock : Machine → Host.Clock) (elapsed : Machine → Float),
  P (modify fun m => { m with clock := clock m, previousElapsed := elapsed m } : Exec Unit))

include hclock

theorem waitUntil (time : Float) : P (Machine.waitUntil time) := by
  refine h.bind h.now fun found => ?_
  dsimp only
  split
  · exact hclock (fun m => m.clock.wait (time - found)) (·.previousElapsed)
  · exact h.pure ()

theorem replaceClock (clock : Host.Clock) : P (Machine.replaceClock clock) := by
  refine h.bind h.get fun m => ?_
  extract_lets swap
  have hswap (time : Float) : P (swap time) :=
    h.bind (hclock (fun _ => clock) (·.previousElapsed)) fun _ =>
      hclock (fun _ => clock.read.2) fun _ => time - clock.read.1
  split
  · exact h.bind h.now fun time => hswap time
  · exact hswap 0

end Clocks

/-! ## New objects -/

theorem builtinObject (name : String) : P (Machine.builtinObject name) := h.query _

theorem createObject (proto : Option ObjectId) (owner : Option Owner) :
    P (Machine.createObject proto owner) :=
  h.alloc _

theorem createPlainObject (owner : Option Owner) : P (Machine.createPlainObject owner) :=
  h.bind (h.builtinObject _) fun _ => h.createObject _ owner

theorem createArray (values : List Value) (owner : Option Owner) :
    P (Machine.createArray values owner) :=
  h.bind (h.builtinObject _) fun _ => h.alloc _

theorem createArguments (args : List Value) (owner : Option Owner) :
    P (Machine.createArguments args owner) :=
  h.bind (h.builtinObject _) fun _ => h.alloc _

theorem createError (kind : ErrorKind) (message : String) (owner : Option Owner)
    (thread : Option ThreadId) : P (Machine.createError kind message owner thread) :=
  h.bind (h.builtinObject _) fun _ => h.bind h.get fun _ => h.alloc _

theorem errorToValue (e : Failure) (scope : ScopeId) (thread : ThreadId) :
    P (Machine.errorToValue e scope thread) := by
  refine h.bind (h.scopeOwner scope) fun owner => ?_
  split
  · exact h.pure _
  · exact h.bind (h.createError _ _ owner _) fun _ => h.pure _
  · exact h.bind (h.createError _ _ owner _) fun _ => h.pure _
  · exact h.throw _

theorem createNativeFunction (natives : Natives) (id name : String) :
    P (Machine.createNativeFunction natives id name) := by
  unfold Machine.createNativeFunction
  split
  · exact h.throw _
  · exact h.bind (h.builtinObject _) fun _ => h.bind h.get fun _ => h.alloc _

theorem defineGlobalNative (natives : Natives) (name : String) :
    P (Machine.defineGlobalNative natives name) :=
  h.bind (h.createNativeFunction natives name name) fun _ => h.setGlobal name _

/-! ## References -/

theorem readReference (r : Reference) (scope : ScopeId) : P (Machine.readReference r scope) := by
  unfold Machine.readReference
  split
  · exact h.readBinding _ _
  · exact h.throw _
  · exact h.bind (h.scopeOwner scope) fun _ => h.query _

theorem takeReference (f : Frame) (construct : String) : P (Machine.takeReference f construct) := by
  unfold Machine.takeReference
  split
  · exact h.pure _
  · exact h.throw _

end Regular

/-! ## Edits of objects -/

namespace Free

variable {P : ∀ {α : Type}, Exec α → Prop} (h : Free P)

include h

theorem modifyObject (id : ObjectId) {f : Object → Object}
    (hf : ∀ o : Object, (f o).function = o.function) : P (Machine.modifyObject id f) :=
  h.bind (h.heapQuery _) fun _ => h.modifyHeapObject id hf

theorem put (id : ObjectId) (key : String) (p : Property) :
    P (Machine.modifyObject id fun o => o.put key p) :=
  h.modifyObject id fun _ => rfl

theorem setArrayLength (id : ObjectId) (v : Value) : P (Machine.setArrayLength id v) := by
  unfold Machine.setArrayLength
  split
  · exact h.throw _
  · exact h.modifyObject id fun _ => rfl

theorem addProperty (id : ObjectId) (o : Object) (key : String) (v : Value) :
    P (Machine.addProperty id o key v) := by
  unfold Machine.addProperty
  dsimp only
  split
  · exact h.throw_bind _ _
  · exact h.modifyHeapObject id fun o => by split <;> rfl

theorem setProperty (base : Value) (key : String) (v : Value) (actor : Option Owner) :
    P (Machine.setProperty base key v actor) := by
  unfold Machine.setProperty
  split
  · rename_i id
    refine h.bind (h.query _) fun o => ?_
    split
    · dsimp only
      split
      · exact h.throw_bind _ _
      · split
        · exact h.setArrayLength id v
        · exact h.modifyHeapObject id fun _ => rfl
    · dsimp only
      have hadd : P _ := h.addProperty id o key v
      split
      · refine h.bind (h.heapQuery _) fun inherited => ?_
        split
        · split
          · exact h.throw_bind _ _
          · exact hadd
        · exact hadd
      · exact hadd
  · exact h.throw _
  · exact h.throw _
  · exact h.throw _

theorem storeProperty (id : ObjectId) (o : Object) (key : String) (d : Descriptor)
    (merged : Property) : P (Machine.storeProperty id o key d merged) := by
  unfold Machine.storeProperty
  dsimp only
  split
  · have hlimit : P _ := h.modifyObject id
      (f := fun o => { o with properties := o.properties.modify "length" fun p =>
        { p with writable := merged.writable } }) fun _ => rfl
    split
    · exact h.bind (h.setArrayLength id _) fun _ => hlimit
    · exact hlimit
  · exact h.modifyHeapObject id fun o => by split <;> rfl

theorem defineProperty (id : ObjectId) (key : String) (d : Descriptor)
    (actor : Option Owner) : P (Machine.defineProperty id key d actor) :=
  h.bind (h.query _) fun o => h.bind (h.query _) fun _ => h.storeProperty id o key d _

theorem defineHidden (id : ObjectId) (key : String) (v : Value) (actor : Option Owner) :
    P (Machine.defineHidden id key v actor) :=
  h.bind (h.query _) fun _ => h.modifyHeapObject id fun _ => rfl

theorem deleteProperty (id : ObjectId) (key : String) (actor : Option Owner) :
    P (Machine.deleteProperty id key actor) := by
  refine h.bind (h.query _) fun o => ?_
  split
  · exact h.pure _
  · dsimp only
    split
    · exact h.throw_bind _ _
    · have herase : P _ := h.modifyHeapObject id
        (f := fun o => { o with properties := o.properties.erase key }) fun _ => rfl
      exact h.bind herase fun _ => h.pure _

theorem setPrototype (id : ObjectId) (proto : Option ObjectId) (actor : Option Owner) :
    P (Machine.setPrototype id proto actor) := by
  unfold Machine.setPrototype
  dsimp only
  split
  · exact h.throw_bind _ _
  refine h.bind (h.heapQuery _) fun cyclic => ?_
  split
  · exact h.throw_bind _ _
  refine h.bind (h.query _) fun o => ?_
  split
  · exact h.pure _
  split
  · exact h.throw_bind _ _
  · exact h.modifyHeapObject id fun _ => rfl

theorem preventExtensions (id : ObjectId) (actor : Option Owner) :
    P (Machine.preventExtensions id actor) :=
  h.bind (h.query _) fun _ => h.modifyHeapObject id fun _ => rfl

theorem setOwnerOf (id : ObjectId) (owner : Owner) (actor : Option Owner) :
    P (Machine.setOwnerOf id owner actor) :=
  h.bind (h.query _) fun _ => h.modifyHeapObject id fun _ => rfl

theorem createClosure (node : NodeRef) (scope : ScopeId) (owner : Option Owner) :
    P (Machine.createClosure node scope owner) := by
  refine h.bind (h.heapQuery _) fun f => h.bind (h.builtinObject _) fun proto => ?_
  refine h.bind (h.alloc _) fun func => h.bind (h.createPlainObject owner) fun made => ?_
  exact h.bind (h.put made _ _) fun _ => h.bind (h.put func _ _) fun _ => h.pure _

/-- Edits need no leave. -/
theorem plain (acts : Option Owner → Prop) : Plain acts P where
  toRegular := h.toRegular
  setProperty base key v actor _ := h.setProperty base key v actor
  defineProperty id key d actor _ := h.defineProperty id key d actor
  deleteProperty id key actor _ := h.deleteProperty id key actor
  setPrototype id proto actor _ := h.setPrototype id proto actor
  preventExtensions id actor _ := h.preventExtensions id actor
  setOwnerOf id owner actor _ := h.setOwnerOf id owner actor
  createClosure := h.createClosure
  build owner _ hf _ := h.bind (h.createPlainObject owner) fun id =>
    h.bind (h.modifyObject id fun o => (hf o).function) fun _ => h.pure _

end Free

/-! ## Functions -/

namespace Writing

variable {acts : Option Owner → Prop} {P W : ∀ {α : Type}, Exec α → Prop} (h : Writing acts P W)

include h

theorem hoistFunctions (program : ProgramId) (scope : ScopeId) (owner : Option Owner)
    (nodes : List Tree.NodeId) : P (Machine.hoistFunctions program scope owner nodes) := by
  induction nodes with
  | nil => exact h.pure ()
  | cons node rest ih =>
    refine h.bind (h.heapQuery _) fun f => ?_
    split
    · exact h.throw _
    · rename_i name _
      refine h.bind (h.createClosure _ scope owner) fun func => ?_
      refine h.bind (h.bindsLocally scope name) fun bound => ?_
      dsimp only
      split
      · refine h.bind (h.resolveBinding scope name) fun target => ?_
        split
        · exact h.bind (h.writeBinding _ name _) fun _ => ih
        · exact h.throw_bind _ _
      · exact h.bind (h.declare scope name _ true) fun _ => ih

theorem hoist (hoisted : Tree.Hoisted) (program : ProgramId) (scope : ScopeId) :
    P (Machine.hoist hoisted program scope) :=
  h.bind (h.hoistVars scope _) fun _ => h.bind (h.scopeOwner scope) fun _ =>
    h.bind (h.heapQuery _) fun _ => h.hoistFunctions program scope _ _

/-- Entering a closure makes the scope of its body and what that starts with. -/
theorem enterFunction (f : Frame) (call : CallInfo) (func : ObjectId) (node : NodeRef)
    (closure : ScopeId) : P (Machine.enterFunction f call func node closure) := by
  refine h.bind (h.heapQuery _) fun literal => h.bind (h.scopeOwner f.scope) fun caller => ?_
  refine h.bind (h.heapQuery _) fun o => ?_
  extract_lets owner rest construct
  have hrest (newObject : Option ObjectId) : P (rest newObject) := by
    dsimp only [rest]
    refine h.bind (h.newScope _ _ owner _) fun scope => ?_
    refine h.bind (h.declareParams scope _ _) fun _ => ?_
    refine h.bind (h.bindsLocally scope _) fun bound => ?_
    have hhoist (u : Unit) : P (do
        Machine.hoist literal.hoisted node.program scope
        return Step.push { f with info := .call { call with phase := .running, newObject } }
          (.ofNode { node with node := literal.body } scope)) :=
      h.bind (h.hoist _ _ scope) fun _ => h.pure _
    split
    · refine h.bind (h.createArguments _ owner) fun arguments => ?_
      exact h.bind (h.declare scope _ _ _) fun _ => hhoist ()
    · exact hhoist ()
  split
  · refine h.bind (h.heapQuery _) fun found => ?_
    have hconstruct (proto : ObjectId) : P (construct proto) :=
      h.bind (h.createObject _ owner) fun id => hrest _
    split
    · exact hconstruct _
    · exact h.bind (h.builtinObject _) fun proto => hconstruct proto
  · exact hrest _

theorem craft_createPlainObject {α : Type} (owner : Option Owner) {k : ObjectId → Exec α}
    (hk : ∀ id, Crafts acts P id → P (k id)) : P (Machine.createPlainObject owner >>= k) := by
  unfold Machine.createPlainObject
  rw [bind_assoc]
  exact h.bind (h.builtinObject _) fun proto => h.craft _ hk

end Writing

/-- The edits of objects for the owner that a scope acts as have the property. -/
structure Acting (scope : ScopeId) (acts : Option Owner → Prop)
    (P W : ∀ {α : Type}, Exec α → Prop) : Prop extends Writing acts P W where
  owned {β : Type} {k : Option Owner → Exec β} (hk : ∀ actor, acts actor → W (k actor)) :
    W (Machine.scopeOwner scope >>= k)

theorem Acting.writeReference {scope : ScopeId} {acts : Option Owner → Prop}
    {P W : ∀ {α : Type}, Exec α → Prop} (h : Acting scope acts P W) (r : Reference) (v : Value) :
    W (Machine.writeReference r v scope) := by
  unfold Machine.writeReference
  split
  · exact h.mild (h.writeBinding _ _ v)
  · exact h.mild (h.throw _)
  · exact h.owned fun actor hactor => h.setProperty _ _ v actor hactor

theorem Free.acting {P : ∀ {α : Type}, Exec α → Prop} (h : Free P) (scope : ScopeId) :
    Acting scope (fun _ => True) P P where
  toWriting := (h.plain _).writing
  owned hk := h.bind (h.scopeOwner scope) fun actor => hk actor trivial

end Exec

/-!
## Steps of nodes

What a frame does on the way to its value is plain work for the owner that its scope acts as. Only a
literal changes the object that it builds, a loop looks at the time limit, and an expression statement
records its value on the stack.
-/

namespace Machine

open Exec
open ScriptMachine.Tree (NodeId NodeKind BinaryOp)

section Nodes

variable {scope : ScopeId} {acts : Option Owner → Prop} {P W : ∀ {α : Type}, Exec α → Prop}
  (h : Acting scope acts P W) (f : Frame) (here : NodeRef)

include h

/-! ## Operators -/

theorem plain_applyOperator (op : BinaryOp) (left right : Value) (scope : ScopeId) :
    P (applyOperator op left right scope) := by
  unfold applyOperator
  split
  · dsimp only
    split
    · exact h.bind h.get fun _ => h.throw _
    · refine h.bind (h.scopeOwner scope) fun actor => ?_
      exact h.bind (h.query _) fun _ => h.pure _
  · refine h.bind (h.scopeOwner scope) fun actor => ?_
    exact h.bind (h.query _) fun _ => h.pure _
  · split
    · exact h.pure _
    · exact h.throw _

theorem plain_combineRight (op : BinaryOp) : P (combineRight op f) := by
  unfold combineRight
  dsimp only
  split
  · exact h.bind (h.query _) fun _ => h.pure _
  · exact h.bind (plain_applyOperator h op _ _ _) fun _ => h.pure _

theorem plain_combine (op : BinaryOp) : P (combine op f) := by
  unfold combine
  split
  · split
    · exact h.bind (h.query _) fun _ => h.pure _
    · exact plain_combineRight h f op
  · exact plain_combineRight h _ op
  · exact h.bind (plain_applyOperator h op _ _ _) fun _ => h.pure _

theorem plain_collectRight (op : BinaryOp) : P (collectRight op f) := by
  unfold collectRight
  split
  · exact plain_combine h _ op
  · exact plain_combine h f op

theorem plain_stepBinary (op : BinaryOp) (left right : NodeId) : P (stepBinary f here op left right) := by
  unfold stepBinary
  split
  · exact h.pure _
  · exact h.pure _
  · refine h.bind (plain_collectRight h f op) fun combined => ?_
    split
    · exact h.pure _
    · exact h.pure _

theorem plain_stepAssignment (hf : f.scope = scope) (op : Tree.AssignmentOp) (target value : NodeId) :
    W (stepAssignment f here op target value) := by
  subst hf
  have hstore (v : Value) : W (do
      writeReference (← takeReference f "assignment") v f.scope
      return Step.done v) :=
    h.first (h.takeReference f _) fun r => h.last (h.writeReference r v) fun _ => h.pure _
  unfold stepAssignment
  split
  · exact h.mild (h.pure _)
  · split
    · refine h.mild (h.bind (h.takeReference f _) fun r => ?_)
      exact h.bind (h.readReference r f.scope) fun _ => h.pure _
    · exact h.mild (h.pure _)
  · dsimp only
    split
    · exact hstore _
    · rename_i op _
      refine h.first (plain_collectRight h f op) fun combined => ?_
      split
      · exact hstore _
      · exact h.mild (h.pure _)

theorem plain_stepUpdate (hf : f.scope = scope) (op : Tree.UpdateOp) (before : Bool) (argument : NodeId) :
    W (stepUpdate f here op before argument) := by
  subst hf
  unfold stepUpdate
  split
  · exact h.mild (h.pure _)
  · refine h.mild (h.bind (h.takeReference f _) fun r => ?_)
    refine h.bind (h.readReference r f.scope) fun old => ?_
    split
    · exact h.bind (h.query _) fun _ => h.pure _
    · exact h.pure _
  · extract_lets old new
    refine h.first (h.takeReference f _) fun r => ?_
    exact h.last (h.writeReference r _) fun _ => h.pure _

theorem plain_finishTypeof : P (finishTypeof f) := by
  unfold finishTypeof
  split
  · exact h.pure _
  · exact h.bind (h.readReference _ f.scope) fun _ => h.bind h.get fun _ => h.pure _
  · exact h.bind h.get fun _ => h.pure _

theorem plain_finishDelete (hf : f.scope = scope) : W (finishDelete f) := by
  subst hf
  unfold finishDelete
  split
  · exact h.owned fun actor hactor => h.last (h.deleteProperty _ _ actor hactor) fun _ => h.pure _
  · split
    · exact h.mild (h.throw _)
    · exact h.mild (h.pure _)
  · exact h.mild (h.pure _)

theorem plain_finishNumeric (apply : Float → Value) : P (finishNumeric f apply) := by
  unfold finishNumeric
  split
  · exact h.bind (h.query _) fun _ => h.pure _
  · exact h.pure _

theorem plain_stepUnary (hf : f.scope = scope) (program : Tree.Program) (op : Tree.UnaryOp) (argument : NodeId) :
    W (stepUnary f here program op argument) := by
  unfold stepUnary
  split
  · exact h.mild (h.bind (h.query _) fun _ => h.pure _)
  · split
    · exact h.mild (plain_finishTypeof h f)
    · exact plain_finishDelete h f hf
    · exact h.mild (h.pure _)
    · exact h.mild (h.pure _)
    · exact h.mild (plain_finishNumeric h f _)
    · exact h.mild (plain_finishNumeric h f _)
    · exact h.mild (plain_finishNumeric h f _)

/-! ## Literals -/

theorem plain_stepFunction (function : Tree.FunctionNode) : P (stepFunction f here function) := by
  refine h.bind (h.scopeOwner f.scope) fun owner => ?_
  split
  · exact h.bind (h.createClosure here f.scope owner) fun _ => h.pure _
  · rename_i name _
    refine h.bind (h.newScope _ _ owner _) fun scope => ?_
    refine h.bind (h.createClosure here scope owner) fun func => ?_
    exact h.bind (h.declare scope name _ _) fun _ => h.pure _

/-! ## Names, members and calls -/

theorem plain_stepIdentifier (name : String) : P (stepIdentifier f name) := by
  unfold stepIdentifier
  split
  · exact h.bind (h.resolveBinding f.scope name) fun _ => h.pure _
  · exact h.bind (h.getBinding f.scope name) fun _ => h.pure _

theorem plain_finishMember (base : Value) (key : String) : P (finishMember f base key) := by
  unfold finishMember
  split
  · exact h.pure _
  · refine h.bind (h.scopeOwner f.scope) fun actor => ?_
    exact h.bind (h.query _) fun _ => h.pure _

theorem plain_stepMember (object : NodeId) (property : Tree.MemberProperty) :
    P (stepMember f here object property) := by
  unfold stepMember
  split
  · exact h.pure _
  · split
    · exact plain_finishMember h f _ _
    · exact h.pure _
  · split
    · exact h.bind (h.query _) fun _ => h.pure _
    · exact plain_finishMember h f _ _
  · exact plain_finishMember h f _ _

theorem plain_calleeOf : P (calleeOf f) := by
  unfold calleeOf
  split
  · refine h.bind (h.readReference _ f.scope) fun func => ?_
    split
    · exact h.pure _
    · exact h.pure _
  · exact h.pure _

theorem plain_stepArguments (program : Tree.Program) (callee : NodeId) (arguments : List NodeId)
    (construct : Bool) : P (stepArguments f here program callee arguments construct) := by
  unfold stepArguments
  extract_lets index g
  split
  · exact h.pure _
  · refine h.bind h.get fun m => ?_
    split
    · exact h.pure _
    · exact h.throw _

theorem plain_stepCallExpression (program : Tree.Program) (callee : NodeId)
    (arguments : List NodeId) (construct : Bool) :
    P (stepCallExpression f here program callee arguments construct) := by
  unfold stepCallExpression
  split
  · exact h.pure _
  · split
    · refine h.bind (h.query _) fun kind => ?_
      dsimp only
      split
      · exact h.pure _
      · exact h.pure _
    · exact h.bind (plain_calleeOf h f) fun _ => plain_stepArguments h _ here program callee _ _
    · exact plain_stepArguments h f here program callee _ _

/-! ## Statements -/

theorem plain_stepProgram (body : List NodeId) (hoisted : Tree.Hoisted) :
    P (stepProgram f here body hoisted) := by
  unfold stepProgram
  split
  · exact h.bind (h.hoist hoisted _ f.scope) fun _ => h.pure _
  · split
    · exact h.pure _
    · split
      · exact h.pure _
      · exact h.pure _

theorem plain_stepDeclarator (name : String) (init : Option NodeId) : P (stepDeclarator f here name init) := by
  unfold stepDeclarator
  split
  · exact h.pure _
  · exact h.pure _
  · exact h.bind (h.setBinding f.scope name _) fun _ => h.pure _

theorem plain_stepForInKey (program : Tree.Program) (left body : NodeId) :
    P (stepForInKey f here program left body) := by
  refine h.bind (h.scopeOwner f.scope) fun actor => ?_
  split
  · refine h.bind (h.query _) fun found => ?_
    split
    · exact h.pure _
    · rename_i key passed
      dsimp only
      refine h.bind (h.query _) fun binding? => ?_
      split
      · exact h.bind (h.setBinding f.scope _ _) fun _ => h.pure _
      · exact h.pure _
  · exact h.throw _

theorem plain_stepSwitch (discriminant : NodeId) (cases : List Tree.SwitchCase) :
    P (stepSwitch f here discriminant cases) := by
  unfold stepSwitch
  split
  · exact h.pure _
  · exact h.pure _
  · split
    · split
      · exact h.pure _
      · split
        · exact h.pure _
        · exact h.bind (h.query _) fun _ => h.pure _
      · exact h.pure _
    · exact h.pure _

theorem plain_stepTry (block : NodeId) (handler : Option Tree.CatchClause)
    (finalizer : Option NodeId) : P (stepTry f here block handler finalizer) := by
  unfold stepTry
  split
  · exact h.pure _
  · split
    · exact h.pure _
    · exact h.pure _
  · split
    · exact h.throw _
    · rename_i clause
      refine h.bind (h.scopeOwner f.scope) fun owner => ?_
      refine h.bind (h.newScope _ _ owner _) fun scope => ?_
      exact h.bind (h.declare scope clause.param _ true) fun _ => h.pure _
  · split
    · exact h.pure _
    · exact h.pure _
  · split
    · exact h.throw _
    · exact h.pure _

/-! ## Loops -/

section Loops

variable {thread : ThreadId} (hlimit : P (checkTimeLimit thread))

include hlimit

theorem plain_stepWhile (test body : NodeId) : P (stepWhile thread f here test body) := by
  unfold stepWhile
  split
  · exact h.bind hlimit fun _ => h.pure _
  · split
    · exact h.pure _
    · exact h.pure _

theorem plain_stepDoWhile (body test : NodeId) : P (stepDoWhile thread f here body test) := by
  unfold stepDoWhile
  split
  · exact h.pure _
  · exact h.bind hlimit fun _ => h.pure _
  · split
    · exact h.pure _
    · exact h.pure _

theorem plain_stepFor (init test update : Option NodeId) (body : NodeId) :
    P (stepFor thread f here init test update body) := by
  unfold stepFor
  split
  · dsimp only
    split
    · exact h.pure _
    · exact h.pure _
  · refine h.bind hlimit fun _ => ?_
    split
    · exact h.pure _
    · exact h.pure _
  · split
    · exact h.pure _
    · exact h.pure _
  · split
    · exact h.pure _
    · exact h.pure _

theorem plain_stepForIn (hf : f.scope = scope) (program : Tree.Program) (left right body : NodeId) :
    W (stepForIn thread f here program left right body) := by
  subst hf
  unfold stepForIn
  split
  · exact h.mild (h.pure _)
  · refine h.mild (h.bind (h.scopeOwner _) fun actor => ?_)
    dsimp only
    split
    · exact h.pure _
    · exact h.bind (h.query _) fun _ => h.pure _
  · exact h.mild (h.bind hlimit fun _ => plain_stepForInKey h f here program left body)
  · refine h.first (h.takeReference f _) fun r => ?_
    exact h.last (h.writeReference r _) fun _ => h.pure _

/-- What holds of plain operations, of the building of literals and of what concerns the thread holds
of the step of every node. -/
theorem plain_stepNode (hf : f.scope = scope)
    (program : Tree.Program) (kind : NodeKind)
    (hrecord : ∀ e, kind = .expressionStatement e → f.step ≠ 0 → ∀ v,
      P (modifyThread thread fun t => { t with stack := t.stack.recordCompletion v }))
    (harray : ∀ elements, kind = .array elements → P (stepArray f here elements))
    (hobject : ∀ properties, kind = .object properties → P (stepObject f here properties)) :
    W (stepNode thread f here program kind) := by
  cases kind with
  | program body hoisted => exact h.mild (plain_stepProgram h f here body hoisted)
  | expressionStatement expression =>
    change W (stepExpressionStatement thread f here expression)
    unfold stepExpressionStatement
    split
    · exact h.mild (h.pure _)
    · exact h.mild (h.bind (hrecord expression rfl ‹_› _) fun _ => h.pure _)
  | varDeclarator name init => exact h.mild (plain_stepDeclarator h f here name init)
  | tryStatement block handler finalizer =>
    exact h.mild (plain_stepTry h f here block handler finalizer)
  | switchStatement discriminant cases =>
    exact h.mild (plain_stepSwitch h f here discriminant cases)
  | whileStatement test body => exact h.mild (plain_stepWhile h f here hlimit test body)
  | doWhileStatement body test => exact h.mild (plain_stepDoWhile h f here hlimit body test)
  | forStatement init test update body =>
    exact h.mild (plain_stepFor h f here hlimit init test update body)
  | forInStatement left right body =>
    exact plain_stepForIn h f here hlimit hf program left right body
  | identifier name => exact h.mild (plain_stepIdentifier h f name)
  | this => exact h.mild (h.bind (h.scopeReceiver f.scope) fun _ => h.pure _)
  | array elements => exact h.mild (harray elements rfl)
  | object properties => exact h.mild (hobject properties rfl)
  | functionExpression function => exact h.mild (plain_stepFunction h f here function)
  | unary op argument => exact plain_stepUnary h f here hf program op argument
  | update op before argument => exact plain_stepUpdate h f here hf op before argument
  | binary op left right => exact h.mild (plain_stepBinary h f here op left right)
  | assignment op target value => exact plain_stepAssignment h f here hf op target value
  | call callee arguments =>
    exact h.mild (plain_stepCallExpression h f here program callee arguments false)
  | new callee arguments =>
    exact h.mild (plain_stepCallExpression h f here program callee arguments true)
  | member object property => exact h.mild (plain_stepMember h f here object property)
  | _ => exact h.mild (h.pure _)

end Loops

end Nodes

/-! ## Literals -/

variable {P : ∀ {α : Type}, Exec α → Prop} (h : Free P) (f : Frame) (here : NodeRef)

include h

theorem free_literalObject {create : Option Owner → Exec ObjectId}
    (hcreate : ∀ owner, P (create owner)) : P (literalObject f create) := by
  unfold literalObject
  split
  · exact h.pure _
  · exact h.bind (h.scopeOwner f.scope) fun owner => hcreate owner

theorem free_stepArray (elements : List (Option NodeId)) : P (stepArray f here elements) := by
  refine h.bind (free_literalObject h f fun owner => h.createArray [] owner) fun id => ?_
  extract_lets stored cleared built next rest
  have hrest (u : Unit) : P (rest u) := by
    dsimp only [rest]
    split
    · exact h.pure _
    · exact h.bind (h.put id _ _) fun _ => h.pure _
  split
  · exact h.bind (h.put id _ _) fun _ => hrest ()
  · exact hrest ()

theorem free_stepObject (properties : List Tree.PropertyInit) :
    P (stepObject f here properties) := by
  refine h.bind (free_literalObject h f h.createPlainObject) fun id => ?_
  extract_lets stored cleared built rest
  have hrest (u : Unit) : P (rest u) := by
    dsimp only [rest]
    split
    · exact h.pure _
    · exact h.pure _
  cases stored with
  | some init => exact h.bind (h.put id _ _) fun _ => hrest ()
  | none => exact hrest ()

/-- What every change of an object has that leaves its function as it is, the step of every node has
with what concerns the thread. -/
theorem free_stepNode {thread : ThreadId} (hlimit : P (checkTimeLimit thread))
    (program : Tree.Program) (kind : Tree.NodeKind)
    (hrecord : ∀ e, kind = .expressionStatement e → f.step ≠ 0 → ∀ v,
      P (modifyThread thread fun t => { t with stack := t.stack.recordCompletion v })) :
    P (stepNode thread f here program kind) :=
  plain_stepNode (h.acting f.scope) f here hlimit rfl program kind hrecord
    (fun elements _ => free_stepArray h f here elements)
    fun properties _ => free_stepObject h f here properties

end Machine

/-!
## Turns of a thread

In its turn a thread has its frames changed, and it is ended when they have come to their end. An
operation of that kind leaves the thread its number and its place in the run queue.
-/

namespace Exec

/-- A property that every change of one thread has that leaves its number and its place in the run queue
as they are. -/
structure Turning (thread : ThreadId) (P : ∀ {α : Type}, Exec α → Prop) : Prop extends Regular P where
  attempt {α : Type} {x : Exec α} (hx : P x) : P (Exec.attempt x)
  tend (f : Thread → Thread) (hid : ∀ t, (f t).id = t.id) (hqueued : ∀ t, (f t).queued = t.queued) :
    P (modifyThread thread f)

namespace Turning

variable {thread : ThreadId} {P : ∀ {α : Type}, Exec α → Prop} (h : Turning thread P)

include h

theorem restack (g : Stack → Stack) :
    P (modifyThread thread fun t => { t with stack := g t.stack }) :=
  h.tend _ (fun _ => rfl) fun _ => rfl

theorem finish (outcome : Outcome) : P (modifyThread thread (·.finish outcome)) :=
  h.tend _ (fun _ => rfl) fun _ => rfl

theorem checkTimeLimit : P (Machine.checkTimeLimit thread) := by
  refine h.bind h.now fun time => h.bind h.get fun m => ?_
  split
  · exact h.throw _
  · split
    · exact h.pure _
    · split
      · exact h.bind (h.tend _ (fun _ => rfl) fun _ => rfl) fun _ => h.throw _
      · exact h.pure _

theorem popFrame : P (Machine.popFrame thread) := by
  refine h.bind h.get fun m => ?_
  split
  · exact h.throw _
  · split
    · exact h.bind (h.restack (·.dropTop)) fun _ => h.pure _
    · exact h.pure _

theorem killThread : P (Machine.killThread thread) := by
  refine h.bind h.get fun m => ?_
  split
  · split
    · exact h.pure _
    · exact h.bind (h.finish .killed) fun _ => h.pure _
  · exact h.pure _

theorem fault {α : Type} (e : Failure) : P (Machine.fault thread e : Exec α) :=
  h.bind h.killThread fun _ => h.throw e

theorem finishThread (outcome : Outcome) : P (Machine.finishThread thread outcome) := by
  unfold Machine.finishThread
  split
  · exact h.bind h.get fun m => h.bind (h.write _ _) fun _ => h.finish _
  · exact h.finish _

theorem escape (c : Completion) : P (Machine.escape thread c) := by
  refine h.bind (h.restack fun _ => .empty) fun _ => ?_
  split
  · exact h.finishThread _
  · exact h.fault _

theorem unwind (c : Completion) : P (Machine.unwind thread c) := by
  refine h.bind h.get fun m => ?_
  split
  · exact h.throw _
  · refine h.bind h.get fun n => ?_
    split
    · exact h.restack fun _ => _
    · exact h.bind (h.restack fun _ => _) fun _ => h.throw _
    · exact h.escape c

theorem raise (scope : ScopeId) (e : Failure) : P (Machine.raise thread scope e) := by
  unfold Machine.raise
  split
  · exact h.fault e
  · refine h.bind (h.attempt (h.errorToValue e scope thread)) fun answer => ?_
    cases answer with
    | ok v => exact h.unwind _
    | error e => exact h.fault e

theorem pushChild (f child : Frame) : P (Machine.pushChild thread f child) := by
  refine h.bind (h.restack (·.push f)) fun _ => h.bind h.get fun m => h.bind h.get fun n => ?_
  split
  · exact h.raise _ _
  · exact h.restack (·.push child)

theorem applyStep (step : Step) : P (Machine.applyStep thread step) := by
  cases step with
  | push f child => exact h.pushChild f child
  | stay f => exact h.restack (·.push f)
  | suspend f => exact h.restack (·.push f)
  | done v =>
    refine h.bind h.get fun m => ?_
    split
    · exact h.restack (·.modifyTop fun p => { p with value := v })
    · exact h.finishThread _
  | ref r =>
    refine h.bind h.get fun m => ?_
    split
    · exact h.restack (·.modifyTop fun p => { p with reference := some r })
    · exact h.fault _
  | unwind c => exact h.unwind c

end Turning

end Exec

end ScriptMachine
