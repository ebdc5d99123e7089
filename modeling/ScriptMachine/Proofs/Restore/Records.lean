import ScriptMachine.Machine.Native
import ScriptMachine.Proofs.Threads
import ScriptMachine.Snapshot.Decode

/-!
# Handles that name something

A handle is an index and a function object names its host function by a text, so nothing about
their types keeps them from naming what is not there. Data is grounded when each handle in it names
a slot in use of its kind, each node is one of its program, and each host function is registered.
-/

namespace ScriptMachine

/-- What there is to be named. -/
structure Referents where
  object : ObjectId → Prop
  scope : ScopeId → Prop
  /-- A node in a program. -/
  node : NodeRef → Prop
  /-- A registered host function. -/
  native : String → Prop

/-- The slots in use, the nodes of the programs in use and the registered host functions. -/
def Heap.referents (natives : Natives) (h : Heap) : Referents where
  object id := ∃ o, h.object? id = some o
  scope id := ∃ s, h.scope? id = some s
  node ref := ∃ p, h.program? ref.program = some p ∧ ref.node < p.nodes.size
  native id := ∃ f, natives.lookup id = some f

/-- Data that may name things. -/
class Referring (α : Type) where
  /-- Whatever is named is there. -/
  Grounded : Referents → α → Prop

export Referring (Grounded)

variable {α : Type}

instance : Referring ObjectId := ⟨Referents.object⟩

instance : Referring ScopeId := ⟨Referents.scope⟩

instance : Referring NodeRef := ⟨Referents.node⟩

instance [Referring α] : Referring (Option α) where
  Grounded r o := ∀ a, o = some a → Grounded r a

instance [Referring α] : Referring (List α) where
  Grounded r items := ∀ a ∈ items, Grounded r a

instance [Referring α] : Referring (Table α) where
  Grounded r t := ∀ name a, t.get? name = some a → Grounded r a

instance : Referring Value where
  Grounded r v := ∀ id, v = .object id → r.object id

/-! ## Objects and scopes -/

instance : Referring Property := ⟨fun r p => Grounded r p.value⟩

instance : Referring Binding := ⟨fun r b => Grounded r b.value⟩

instance : Referring Callable where
  Grounded r
    | .closure node scope => Grounded r node ∧ Grounded r scope
    | .bound target receiver args => Grounded r target ∧ Grounded r receiver ∧ Grounded r args
    | .native id => r.native id

structure GroundedObject (r : Referents) (o : Object) : Prop where
  owner : Grounded r o.owner
  proto : Grounded r o.proto
  properties : Grounded r o.properties
  function : Grounded r o.function

instance : Referring Object := ⟨GroundedObject⟩

structure GroundedScope (r : Referents) (s : Scope) : Prop where
  owner : Grounded r s.owner
  outer : Grounded r s.outer
  receiver : Grounded r s.receiver
  bindings : Grounded r s.bindings

instance : Referring Scope := ⟨GroundedScope⟩

/-! ## Frames and threads -/

instance : Referring Reference where
  Grounded r
    | .binding scope _ => Grounded r scope
    | .property base _ => Grounded r base

instance : Referring Completion := ⟨fun r c => Grounded r c.value⟩

structure GroundedCall (r : Referents) (c : CallInfo) : Prop where
  func : Grounded r c.func
  receiver : Grounded r c.receiver
  args : Grounded r c.args
  scratch : Grounded r c.scratch
  newObject : Grounded r c.newObject

instance : Referring CallInfo := ⟨GroundedCall⟩

instance : Referring FrameInfo where
  Grounded r
    | .none => True
    | .operands values => Grounded r values
    | .call info => Grounded r info
    | .try _ completion => Grounded r completion
    | .switch discriminant _ _ _ => Grounded r discriminant
    | .forIn _ _ object => Grounded r object
    | .object id => Grounded r id
    | .program completion => Grounded r completion

structure GroundedFrame (r : Referents) (f : Frame) : Prop where
  node : Grounded r f.node
  scope : Grounded r f.scope
  value : Grounded r f.value
  reference : Grounded r f.reference
  info : Grounded r f.info

instance : Referring Frame := ⟨GroundedFrame⟩

instance : Referring Outcome where
  Grounded r
    | .completed value => Grounded r value
    | .threw value => Grounded r value
    | .killed => True

structure GroundedThread (r : Referents) (t : Thread) : Prop where
  stack : Grounded r t.stack.frames
  outcome : Grounded r t.outcome

instance : Referring Thread := ⟨GroundedThread⟩

/-! ## Machines -/

/-- Nothing that a machine holds names what is not there, wherever it holds it. -/
structure GroundedMachine (natives : Natives) (m : Machine) : Prop where
  globalScope : Grounded (m.heap.referents natives) m.globalScope
  rootOwner : Grounded (m.heap.referents natives) m.rootOwner
  builtins : Grounded (m.heap.referents natives) m.builtins
  objects : ∀ id o, m.heap.object? id = some o → Grounded (m.heap.referents natives) o
  scopes : ∀ id s, m.heap.scope? id = some s → Grounded (m.heap.referents natives) s
  threads : Grounded (m.heap.referents natives) m.threads
  /-- Pinned by guards. -/
  pins : Grounded (m.heap.referents natives) m.heap.pins

/-- The numbers of a resolver and its thread were handed out; both count from one. -/
def Machine.Issued (m : Machine) (resolver : Nat × ThreadId) : Prop :=
  (1 ≤ resolver.1 ∧ resolver.1 < m.nextResolverId) ∧
    1 ≤ resolver.2.index ∧ resolver.2.index < m.nextThreadId

/-! ## Tables -/

section Tables

variable [Referring α] {r : Referents}

theorem grounded_emptyTable : Grounded r (Table.empty : Table α) := by
  intro name a ha
  simp [Table.get?_eq_find?, Table.empty] at ha

theorem grounded_insert {t : Table α} {a : α} (ht : Grounded r t) (ha : Grounded r a)
    (name : String) : Grounded r (t.insert name a) := by
  intro other b hb
  rw [Table.get?_insert] at hb
  split at hb
  · exact Option.some.inj hb ▸ ha
  · exact ht other b hb

end Tables

end ScriptMachine

/-!
## Records are read grounded

A reference is looked up among the slots of the first pass, so what the second pass reads from a
record names only what the first pass has found. There is one lemma for each reading, and it says
so of whatever the reading gives.
-/

namespace ScriptMachine.Snapshot

variable {α β : Type}

/-! ## Readings -/

/-- Whatever the reading gives is of a kind. -/
def Yields (P : α → Prop) (x : Decoding α) : Prop := ∀ a, x = .ok a → P a

theorem yields_pure {P : α → Prop} {a : α} (h : P a) : Yields P (pure a : Decoding α) := by
  intro b hb
  cases hb
  exact h

theorem yields_refuse {P : α → Prop} (message : String) : Yields P (refuse message) :=
  fun _ h => by cases h

theorem yields_any (x : Decoding α) : Yields (fun _ => True) x := fun _ _ => trivial

theorem bind_eq_ok_iff {x : Decoding α} {f : α → Decoding β} {b : β} :
    (x >>= f) = .ok b ↔ ∃ a, x = .ok a ∧ f a = .ok b := by
  cases x with
  | error e => simp [bind, Except.bind]
  | ok a => simp [bind, Except.bind]

theorem Yields.bind {P : α → Prop} {Q : β → Prop} {x : Decoding α} {f : α → Decoding β}
    (hx : Yields P x) (hf : ∀ a, P a → Yields Q (f a)) : Yields Q (x >>= f) := by
  intro b hb
  obtain ⟨a, ha, hfa⟩ := bind_eq_ok_iff.1 hb
  exact hf a (hx a ha) b hfa

/-- What is read first does not matter. -/
theorem Yields.after {Q : β → Prop} {x : Decoding α} {f : α → Decoding β}
    (hf : ∀ a, Yields Q (f a)) : Yields Q (x >>= f) :=
  (yields_any x).bind fun a _ => hf a

theorem yields_mapM {P : β → Prop} {f : α → Decoding β} (hf : ∀ a, Yields P (f a))
    (items : List α) : Yields (fun bs => ∀ b ∈ bs, P b) (items.mapM f) := by
  induction items with
  | nil =>
    rw [List.mapM_nil]
    exact yields_pure (by simp)
  | cons a rest ih =>
    rw [List.mapM_cons]
    exact (hf a).bind fun b hb => ih.bind fun bs hbs =>
      yields_pure (List.forall_mem_cons.2 ⟨hb, hbs⟩)

theorem yields_foldlM {P : β → Prop} {f : β → α → Decoding β}
    (hf : ∀ b a, P b → Yields P (f b a)) (items : List α) {b : β} (hb : P b) :
    Yields P (items.foldlM f b) := by
  induction items generalizing b with
  | nil => exact yields_pure hb
  | cons a rest ih =>
    rw [List.foldlM_cons]
    exact (hf b a hb).bind fun c hc => ih hc

theorem yields_optional [Referring α] {r : Referents} {read : Json → Decoding α}
    (hread : ∀ j, Yields (Grounded r) (read j)) (j : Json) :
    Yields (Grounded r) (optional read j) := by
  unfold optional
  split
  · exact yields_pure fun _ h => by cases h
  · exact (hread _).bind fun a ha => yields_pure fun b hb => by
      cases hb
      exact ha

/-- A table is filled entry by entry. -/
theorem yields_fill [Referring α] (r : Referents)
    {add : Table α → String × Json → Decoding (Table α)}
    (hadd : ∀ e t, Grounded r t → Yields (Grounded r) (add t e)) (entries : List (String × Json)) :
    Yields (Grounded r) (entries.foldlM add .empty) :=
  yields_foldlM (fun t e ht => hadd e t ht) entries grounded_emptyTable

/-! ## References -/

instance : Referring Slot where
  Grounded r
    | .object id => Grounded r id
    | .scope id => Grounded r id
    | _ => True

namespace Layout

/-- What the first pass has found. -/
def referents (natives : Natives) (l : Layout) : Referents where
  object id := id.index < l.objectCount
  scope id := id.index < l.scopeCount
  node ref := ∃ p, l.programs[ref.program.index]?.join = some p ∧ ref.node < p.nodes.size
  native id := ∃ f, natives.lookup id = some f

/-- The slots lead to what was found. -/
def Numbered (natives : Natives) (l : Layout) : Prop :=
  ∀ slot ∈ l.slots, Grounded (l.referents natives) slot

variable {natives : Natives} {l : Layout}

theorem yields_slot (hl : l.Numbered natives) (j : Json) :
    Yields (fun found => Grounded (l.referents natives) found.2) (l.slot j) := by
  unfold slot
  split
  · exact yields_refuse _
  · split
    · rename_i hslot
      exact yields_pure (hl _ (Array.mem_of_getElem? hslot))
    · exact yields_refuse _

theorem yields_object (hl : l.Numbered natives) (j : Json) :
    Yields (Grounded (l.referents natives)) (l.object j) := by
  refine (yields_slot hl j).bind fun found hfound => ?_
  split
  · exact yields_pure hfound
  · exact yields_refuse _

theorem yields_scope (hl : l.Numbered natives) (j : Json) :
    Yields (Grounded (l.referents natives)) (l.scope j) := by
  refine (yields_slot hl j).bind fun found hfound => ?_
  split
  · exact yields_pure hfound
  · exact yields_refuse _

/-- A node is compared with the number of nodes of its program, which is none for a program that is
not there. -/
theorem yields_node (j : Json) : Yields (Grounded (l.referents natives)) (l.node j) := by
  refine .after fun _ => .after fun program => .after fun node => ?_
  dsimp only
  split
  · rename_i hlt
    refine yields_pure ?_
    cases hp : l.programs[program.index]?.join with
    | none => simp [hp] at hlt
    | some p => exact ⟨p, hp, by simpa [hp] using hlt⟩
  · exact yields_refuse _

/-! ## Values -/

theorem yields_value (hl : l.Numbered natives) (j : Json) :
    Yields (Grounded (l.referents natives)) (l.value j) := by
  have hplain {v : Value} (hv : v.object? = none) : Grounded (l.referents natives) v := by
    rintro id rfl
    cases hv
  unfold value
  split
  case h_7 =>
    split
    · exact .after fun n => yields_pure (hplain rfl)
    · split
      · exact yields_pure (hplain rfl)
      · refine (yields_object hl _).bind fun id hid => yields_pure ?_
        rintro _ ⟨⟩
        exact hid
  case h_3 => exact .after fun n => yields_pure (hplain rfl)
  case h_6 => exact yields_refuse _
  all_goals exact yields_pure (hplain rfl)

theorem yields_valueField (hl : l.Numbered natives) (record : Json) (name : String) :
    Yields (Grounded (l.referents natives)) (l.valueField record name) :=
  .after fun j => yields_value hl j

theorem yields_values (hl : l.Numbered natives) (j : Json) :
    Yields (Grounded (l.referents natives)) (l.values j) :=
  .after fun items => yields_mapM (yields_value hl) items

/-! ## Objects and scopes -/

theorem yields_function (hl : l.Numbered natives) (j : Json) :
    Yields (Grounded (l.referents natives)) (l.function natives j) := by
  refine .after fun _ => ?_
  split
  · exact (yields_node j).bind fun _ hnode => .after fun _ =>
      (yields_scope hl _).bind fun _ hscope => yields_pure ⟨hnode, hscope⟩
  · exact .after fun _ => (yields_object hl _).bind fun _ htarget =>
      (yields_valueField hl j _).bind fun _ hreceiver => .after fun _ =>
      (yields_values hl _).bind fun _ hargs => yields_pure ⟨htarget, hreceiver, hargs⟩
  · refine .after fun _ => ?_
    split
    · rename_i hregistered
      exact yields_pure (Option.isSome_iff_exists.1 hregistered)
    · exact yields_refuse _
  · exact yields_refuse _

theorem yields_objectOf (hl : l.Numbered natives) (record : Json) :
    Yields (Grounded (l.referents natives)) (l.objectOf natives record) := by
  unfold objectOf
  dsimp only
  refine .after fun _ => .after fun _ => .after fun _ =>
    (yields_optional (yields_object hl) _).bind fun _ hproto => .after fun _ =>
    (yields_optional (yields_object hl) _).bind fun _ howner => .after fun _ =>
    .after fun _ => .after fun _ => ?_
  split
  all_goals
    refine .after fun entries =>
      (yields_fill (l.referents natives) (fun e t ht => ?_) entries).bind fun _ hproperties => ?_
    · exact (yields_value hl e.2).bind fun v hv => yields_pure (grounded_insert ht hv e.1)
    · split
      · refine (yields_function hl _).bind fun _ hfunction => yields_pure ?_
        exact ⟨howner, hproto, hproperties, fun _ h => by cases h; exact hfunction⟩
      · exact yields_pure ⟨howner, hproto, hproperties, fun _ h => by cases h⟩

theorem yields_scopeOf (hl : l.Numbered natives) (record : Json) :
    Yields (Grounded (l.referents natives)) (l.scopeOf record) := by
  refine .after fun _ => .after fun _ => .after fun _ =>
    (yields_optional (yields_object hl) _).bind fun _ howner => .after fun _ =>
    (yields_optional (yields_scope hl) _).bind fun _ houter =>
    (yields_valueField hl record _).bind fun _ hreceiver => .after fun _ =>
    .after fun _ => .after fun _ => .after fun entries => ?_
  refine (yields_fill (l.referents natives) (fun e t ht => ?_) entries).bind fun _ hbindings =>
    yields_pure ⟨howner, houter, hreceiver, hbindings⟩
  exact (yields_value hl e.2).bind fun v hv => yields_pure (grounded_insert ht hv e.1)

/-! ## Threads -/

theorem yields_placeReference (hl : l.Numbered natives) (j : Json) :
    Yields (Grounded (l.referents natives)) (l.placeReference j) := by
  refine .after fun _ => ?_
  split
  · exact .after fun _ => (yields_optional (yields_scope hl) _).bind fun _ hscope =>
      .after fun _ => yields_pure hscope
  · exact (yields_valueField hl j _).bind fun _ hbase => .after fun _ => yields_pure hbase
  · exact yields_refuse _

theorem yields_completion (hl : l.Numbered natives) (j : Json) :
    Yields (Grounded (l.referents natives)) (l.completion j) :=
  .after fun _ => .after fun _ => .after fun _ => .after fun _ =>
    (yields_valueField hl j _).bind fun _ hvalue => yields_pure hvalue

theorem yields_callInfo (hl : l.Numbered natives) (j : Json) :
    Yields (Grounded (l.referents natives)) (l.callInfo j) :=
  .after fun _ => .after fun _ =>
    (yields_valueField hl j _).bind fun _ hfunc =>
    (yields_valueField hl j _).bind fun _ hreceiver => .after fun _ =>
    (yields_values hl _).bind fun _ hargs => .after fun _ => .after fun _ =>
    .after fun _ => (yields_values hl _).bind fun _ hscratch => .after fun _ =>
    (yields_optional (yields_object hl) _).bind fun _ hnewObject =>
    yields_pure ⟨hfunc, hreceiver, hargs, hscratch, hnewObject⟩

theorem yields_info (hl : l.Numbered natives) (j : Json) :
    Yields (Grounded (l.referents natives)) (l.info j) := by
  refine .after fun _ => ?_
  split
  case h_1 => exact yields_pure trivial
  case h_2 =>
    exact .after fun _ => (yields_values hl _).bind fun _ hvalues => yields_pure hvalues
  case h_3 => exact (yields_callInfo hl j).bind fun _ hinfo => yields_pure hinfo
  case h_4 =>
    exact .after fun _ => .after fun _ => .after fun _ =>
      (yields_optional (yields_completion hl) _).bind fun _ hc => yields_pure hc
  case h_5 =>
    exact (yields_valueField hl j _).bind fun _ hdiscriminant => .after fun _ =>
      .after fun _ => .after fun _ => yields_pure hdiscriminant
  case h_6 =>
    exact .after fun _ => .after fun _ => .after fun _ =>
      (yields_valueField hl j _).bind fun _ hobject => yields_pure hobject
  case h_7 =>
    exact .after fun _ => (yields_object hl _).bind fun _ hid => yields_pure hid
  case h_8 =>
    exact (yields_valueField hl j _).bind fun _ hcompletion => yields_pure hcompletion
  case h_9 => exact yields_refuse _

theorem yields_frame (hl : l.Numbered natives) (j : Json) :
    Yields (Grounded (l.referents natives)) (l.frame j) :=
  .after fun _ => (yields_scope hl _).bind fun _ hscope => .after fun _ =>
    (yields_optional yields_node _).bind fun _ hnode => .after fun _ =>
    .after fun _ => (yields_valueField hl j _).bind fun _ hvalue => .after fun _ =>
    (yields_optional (yields_placeReference hl) _).bind fun _ hreference =>
    .after fun _ => .after fun _ => .after fun _ => .after fun _ =>
    .after fun _ => (yields_info hl _).bind fun _ hinfo =>
    yields_pure ⟨hnode, hscope, hvalue, hreference, hinfo⟩

theorem yields_outcome (hl : l.Numbered natives) (j : Json) :
    Yields (Grounded (l.referents natives)) (l.outcome j) := by
  refine .after fun _ => ?_
  split
  · exact (yields_valueField hl j _).bind fun _ hvalue => yields_pure hvalue
  · exact (yields_valueField hl j _).bind fun _ hvalue => yields_pure hvalue
  · exact yields_pure trivial
  · exact yields_refuse _

theorem yields_thread (hl : l.Numbered natives) (record : Json) :
    Yields (Grounded (l.referents natives)) (l.thread record) := by
  refine .after fun _ => .after fun _ => .after fun _ => .after fun _ =>
    .after fun _ => .after fun _ => .after fun _ => .after fun _ =>
    .after fun _ => .after fun _ =>
    (yields_optional (yields_outcome hl) _).bind fun _ houtcome => .after fun _ =>
    .after fun _ => (yields_mapM (yields_frame hl) _).bind fun _ hframes =>
    yields_pure ⟨fun f hf => ?_, houtcome⟩
  exact hframes f (List.mem_reverse.1 hf)

theorem yields_threadAt (hl : l.Numbered natives) (records : Array Json) (j : Json) :
    Yields (Grounded (l.referents natives)) (l.threadAt records j) := by
  refine .after fun _ => ?_
  split
  · split
    · exact yields_thread hl _
    · exact yields_refuse _
  · exact yields_refuse _

theorem yields_threads (hl : l.Numbered natives) (records : Array Json) (items : List Json) :
    Yields (Grounded (l.referents natives)) (items.foldlM (fun ts j => do
      return Machine.insertThread (← l.threadAt records j) ts) []) := by
  refine yields_foldlM (fun ts j hts => ?_) items (show Grounded _ [] by intro t ht; cases ht)
  refine (yields_threadAt hl records j).bind fun t ht => yields_pure fun u hu => ?_
  obtain rfl | hmem := Machine.mem_insertThread hu
  · exact ht
  · exact hts u hmem

end Layout

end ScriptMachine.Snapshot
