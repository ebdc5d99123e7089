import ScriptMachine.Builtin.All
import ScriptMachine.Proofs.Change

/-!
# The machine at its start is in order

Making the builtins allocates objects and declares names. It starts no thread and leaves the free
slots of the heap known.
-/

namespace ScriptMachine

namespace Exec

variable {α β : Type} {P : Machine → Prop}

/-- What holds of a machine holds of what an operation leaves behind. -/
def Keeps (P : Machine → Prop) (x : Exec α) : Prop :=
  ∀ m, P m → P (after x m)

theorem Keeps.bind {x : Exec α} {f : α → Exec β} (hx : Keeps P x) (hf : ∀ a, Keeps P (f a)) :
    Keeps P (x >>= f) :=
  fun m hm => after_bind_of (hx m hm) (fun _ h => h) fun a m' _ hm' => hf a m' hm'

theorem keeps_pure (a : α) : Keeps P (pure a : Exec α) := fun _ h => h

theorem keeps_throw (e : Failure) : Keeps P (throw e : Exec α) := fun _ h => h

theorem keeps_get : Keeps P (get : Exec Machine) := fun _ h => h

theorem keeps_query (f : Machine → Except Failure α) : Keeps P (query f) := by
  intro m hm
  rw [after_query]
  exact hm

theorem keeps_modify {f : Machine → Machine} (h : ∀ m, P m → P (f m)) :
    Keeps P (modify f : Exec Unit) :=
  h

theorem keeps_modifyGet {f : Machine → α × Machine} (h : ∀ m, P m → P (f m).2) :
    Keeps P (modifyGet f : Exec α) :=
  h

theorem Keeps.attempt {x : Exec α} (h : Keeps P x) : Keeps P (attempt x) := by
  intro m hm
  rw [after_attempt]
  exact h m hm

theorem keeps_forIn {γ : Type} {f : γ → β → Exec (ForInStep β)} {xs : List γ}
    (h : ∀ a ∈ xs, ∀ b, Keeps P (f a b)) (b : β) : Keeps P (forIn xs b f) := by
  induction xs generalizing b with
  | nil => exact keeps_pure b
  | cons a rest ih =>
    obtain ⟨hfirst, hrest⟩ := List.forall_mem_cons.1 h
    rw [List.forIn_cons]
    refine (hfirst b).bind fun next => ?_
    cases next with
    | done b => exact keeps_pure b
    | yield b => exact ih hrest b

end Exec

namespace Machine

open Exec

/-- No program is loaded, no resolver is pending and no settlement waits. -/
structure Idle (m : Machine) : Prop where
  programs : m.heap.programs = #[]
  pendingResolvers : m.pendingResolvers = []
  earlySettlements : m.earlySettlements = []
  currentThread : m.currentThread = none
  lastStepped : m.lastStepped = none

/-- Nothing runs yet, the free slots of the heap are known, and the global scope is live. -/
structure Vacant (m : Machine) : Prop where
  tidy : m.heap.Tidy
  threads : m.threads = []
  global : ∃ s, m.heap.scope? m.globalScope = some s
  idle : m.Idle

theorem tidy_blank (config : Config) (clock : Host.Clock) : (blank config clock).heap.Tidy := by
  refine ⟨⟨List.nodup_nil, fun i => ?_⟩, ⟨List.nodup_nil, fun i => ?_⟩⟩
  · simp [blank]
  · simp [blank]

/-- The machine that has its root owner and its global scope. -/
def rooted (config : Config) (clock : Host.Clock) : Machine :=
  let root : Object := { owner := none, proto := none, cls := .object }
  let owned := ((blank config clock).heap.allocObject root).2.modifyObject ⟨0⟩
    fun o => { o with owner := some ⟨0⟩ }
  let scope : Scope := { kind := .global, owner := some ⟨0⟩, outer := none, receiver := .undefined }
  { blank config clock with
    heap := (owned.allocScope scope).2, rootOwner := ⟨0⟩, globalScope := ⟨0⟩ }

/-- The root owner and the global scope come first. -/
theorem bootstrap_blank (config : Config) (clock : Host.Clock) :
    bootstrap (blank config clock) = .ok () (rooted config clock) :=
  rfl

theorem vacant_rooted (config : Config) (clock : Host.Clock) : (rooted config clock).Vacant where
  tidy := (((tidy_blank config clock).allocObject _).modifyObject ⟨0⟩ _).allocScope _
  threads := rfl
  global := ⟨_, (((tidy_blank config clock).allocObject _).modifyObject ⟨0⟩ _).allocScope_self _⟩
  idle := ⟨rfl, rfl, rfl, rfl, rfl⟩

/-! ## What the builtins are made with -/

/-- A name in the table of builtins other than those of the first prototype and of the function that
converts objects to primitives. -/
abbrev Ordinary (name : String) : Prop := name ≠ "Object.prototype" ∧ name ≠ "ToPrimitive"

/-- What the builtins are made with keeps a property: new objects, changes of objects that leave
their prototypes and what they do when called, ordinary names in the table of builtins, and
bindings. -/
structure Established (P : Machine → Prop) : Prop where
  alloc : ∀ o, Keeps P (alloc o)
  modifyObject : ∀ id (f : Object → Object),
    (∀ o, (f o).proto = o.proto ∧ (f o).function = o.function) → Keeps P (modifyObject id f)
  setBuiltin : ∀ name v, Ordinary name → Keeps P (setBuiltin name v)
  modifyScope : ∀ id f, Keeps P (modifyHeap (·.modifyScope id f))

theorem keeps_vacant_setBuiltin (name : String) (v : Value) :
    Keeps Vacant (setBuiltin name v) :=
  keeps_modify fun _ h => ⟨h.tidy, h.threads, h.global, h.idle.programs, h.idle.pendingResolvers,
    h.idle.earlySettlements, h.idle.currentThread, h.idle.lastStepped⟩

theorem keeps_vacant_modifyObject (id : ObjectId) (f : Object → Object) :
    Keeps Vacant (modifyObject id f) :=
  (keeps_query _).bind fun _ =>
    keeps_modify fun _ h => ⟨h.tidy.modifyObject id f, h.threads, h.global, h.idle.programs,
      h.idle.pendingResolvers, h.idle.earlySettlements, h.idle.currentThread, h.idle.lastStepped⟩

theorem established_vacant : Established Vacant where
  alloc o := keeps_modifyGet fun m h => ⟨h.tidy.allocObject o, h.threads, by simpa using h.global, by
    refine ⟨?_, h.idle.pendingResolvers, h.idle.earlySettlements, h.idle.currentThread, h.idle.lastStepped⟩
    change (m.heap.allocObject o).2.programs = #[]
    unfold Heap.allocObject
    dsimp only
    split <;> exact h.idle.programs⟩
  modifyObject id f _ := keeps_vacant_modifyObject id f
  setBuiltin name v _ := keeps_vacant_setBuiltin name v
  modifyScope id f := by
    refine keeps_modify fun m h => ⟨h.tidy.modifyScope id f, h.threads, ?_, h.idle.programs,
      h.idle.pendingResolvers, h.idle.earlySettlements, h.idle.currentThread, h.idle.lastStepped⟩
    obtain ⟨s, hs⟩ := h.global
    dsimp only
    rw [Heap.scope?_modifyScope, hs]
    split
    · exact ⟨f s, rfl⟩
    · exact ⟨s, rfl⟩

section Establishing

variable {P : Machine → Prop} (h : Established P)

include h

theorem keeps_createObject (proto : Option ObjectId) (owner : Option Owner) :
    Keeps P (createObject proto owner) :=
  h.alloc _

omit h in
theorem keeps_builtinObject (name : String) : Keeps P (builtinObject name) :=
  keeps_query _

theorem keeps_declare (scope : ScopeId) (name : String) (v : Value) (mutable : Bool) :
    Keeps P (declare scope name v mutable) := by
  unfold declare
  refine (keeps_query _).bind fun target => (keeps_query _).bind fun s => ?_
  dsimp only
  split
  · exact (keeps_throw _).bind fun _ => h.modifyScope target _
  · exact h.modifyScope target _

theorem keeps_writeBinding (scope : ScopeId) (name : String) (v : Value) :
    Keeps P (writeBinding scope name v) := by
  unfold writeBinding
  refine (keeps_query _).bind fun s => ?_
  split
  · exact keeps_throw _
  · dsimp only
    split
    · exact (keeps_throw _).bind fun _ => h.modifyScope scope _
    · exact h.modifyScope scope _

theorem keeps_setGlobal (name : String) (v : Value) : Keeps P (setGlobal name v) := by
  unfold setGlobal
  refine keeps_get.bind fun m => (keeps_query _).bind fun bound => ?_
  split
  · exact keeps_writeBinding h _ name v
  · exact keeps_declare h _ name v true

theorem keeps_createPlainObject (owner : Option Owner) :
    Keeps P (createPlainObject owner) :=
  (keeps_builtinObject _).bind fun _ => keeps_createObject h _ _

theorem keeps_createNativeFunction (natives : Natives) (id name : String) :
    Keeps P (createNativeFunction natives id name) := by
  unfold createNativeFunction
  split
  · exact keeps_throw _
  · exact (keeps_builtinObject _).bind fun _ => keeps_get.bind fun _ => h.alloc _

end Establishing

end Machine

namespace Builtin

open Machine Exec

section Establishing

variable {P : Machine → Prop} (h : Established P)

include h

theorem keeps_attach (target : ObjectId) (holder : String) (methods : List Method) :
    Keeps P (attach target holder methods) := by
  induction methods with
  | nil => exact keeps_pure ()
  | cons m rest ih =>
    refine (keeps_createNativeFunction h _ _ _).bind fun func => ?_
    exact (h.modifyObject target _ fun _ => by exact ⟨rfl, rfl⟩).bind fun _ => ih

theorem keeps_attachConstants (target : ObjectId) (constants : List (String × Float)) :
    Keeps P (attachConstants target constants) := by
  let put (o : Object) (c : String × Float) : Object := o.put c.1 (.frozen (.number c.2))
  have hput (o : Object) : (constants.foldl put o).proto = o.proto ∧
      (constants.foldl put o).function = o.function := by
    induction constants generalizing o with
    | nil => exact ⟨rfl, rfl⟩
    | cons c rest ih => exact ih (put o c)
  exact h.modifyObject target _ hput

theorem keeps_installConstructor {name : String} (hname : Ordinary name)
    (native : Native) : Keeps P (installConstructor name native) := by
  refine (keeps_createNativeFunction h _ _ _).bind fun func => ?_
  refine (keeps_builtinObject _).bind fun proto => ?_
  refine (h.modifyObject func _ fun _ => by exact ⟨rfl, rfl⟩).bind fun _ => ?_
  refine (h.modifyObject proto _ fun _ => by exact ⟨rfl, rfl⟩).bind fun _ => ?_
  refine (h.setBuiltin name _ hname).bind fun _ => (keeps_setGlobal h name _).bind fun _ => ?_
  exact keeps_pure func

theorem keeps_createNamespace {name : String} (hname : Ordinary name) :
    Keeps P (createNamespace name) := by
  refine keeps_get.bind fun m => (keeps_createPlainObject h _).bind fun id => ?_
  refine (h.setBuiltin name _ hname).bind fun _ => (keeps_setGlobal h name _).bind fun _ => ?_
  exact keeps_pure id

theorem keeps_installGlobal (m : Method) : Keeps P (installGlobal m) :=
  (keeps_createNativeFunction h _ _ _).bind fun _ => keeps_setGlobal h _ _

theorem keeps_installAll (methods : List Method) : Keeps P (Globals.installAll methods) := by
  induction methods with
  | nil => exact keeps_pure ()
  | cons m rest ih => exact (keeps_installGlobal h m).bind fun _ => ih

theorem keeps_installKinds (base : ObjectId) (kinds : List ErrorKind) :
    Keeps P (Errors.installKinds base kinds) := by
  induction kinds with
  | nil => exact keeps_pure ()
  | cons kind rest ih =>
    have hname : Ordinary kind.name := by cases kind <;> decide
    have hkey : Ordinary kind.prototypeKey := by cases kind <;> decide
    have hrest : ∀ proto, Keeps P (do
        modifyObject proto fun o =>
          (o.put "name" (.hidden (.string kind.name))).put "message" (.hidden (.string ""))
        let _ ← installConstructor kind.name (Errors.native kind)
        Errors.installKinds base rest) := fun proto =>
      (h.modifyObject proto _ fun _ => by exact ⟨rfl, rfl⟩).bind fun _ =>
        (keeps_installConstructor h hname _).bind fun _ => ih
    unfold Errors.installKinds
    dsimp only
    split
    · exact hrest base
    · refine keeps_get.bind fun m => (keeps_createObject h _ _).bind fun proto => ?_
      exact (h.setBuiltin _ _ hkey).bind fun _ => hrest proto

/-! ## Each group of builtins -/

/-- The first prototype is made and named at once; all others inherit from it. -/
theorem keeps_installPrototypes (hproto : ∀ root (k : ObjectId → Exec Unit),
    (∀ id, Keeps P (k id)) → Keeps P (createObject none root >>= fun id =>
      setBuiltin "Object.prototype" (.object id) >>= fun _ => k id)) :
    Keeps P installPrototypes := by
  unfold installPrototypes
  refine keeps_get.bind fun m => hproto _ _ fun objectProto => ?_
  refine (h.alloc _).bind fun function => ?_
  refine (h.setBuiltin _ _ (by decide)).bind fun _ => (h.alloc _).bind fun array => ?_
  refine (h.setBuiltin _ _ (by decide)).bind fun _ => ?_
  refine (keeps_forIn (fun name hname _ => ?_) _).bind fun _ => keeps_pure ()
  have hother : Ordinary name := by
    constructor
    all_goals
      rintro rfl
      revert hname
      decide
  refine (keeps_createObject h _ _).bind fun proto => (h.setBuiltin _ _ hother).bind fun _ => ?_
  exact keeps_pure _

theorem keeps_installPrimitive (hset : ∀ v, Keeps P (setBuiltin "ToPrimitive" v)) :
    Keeps P installPrimitive :=
  (keeps_createNativeFunction h _ _ _).bind fun _ => hset _

theorem keeps_installObjects : Keeps P Objects.install := by
  refine (keeps_builtinObject _).bind fun proto => (keeps_attach h proto _ _).bind fun _ => ?_
  exact (keeps_installConstructor h (by decide) _).bind fun func => keeps_attach h func _ _

theorem keeps_installArrays : Keeps P Arrays.install := by
  refine (keeps_builtinObject _).bind fun proto => (keeps_attach h proto _ _).bind fun _ => ?_
  exact (keeps_installConstructor h (by decide) _).bind fun func => keeps_attach h func _ _

theorem keeps_installErrors : Keeps P Errors.install := by
  refine (keeps_builtinObject _).bind fun proto => keeps_get.bind fun m => ?_
  refine (keeps_createObject h _ _).bind fun base => (h.setBuiltin _ _ (by decide)).bind fun _ => ?_
  exact (keeps_attach h base _ _).bind fun _ => keeps_installKinds h base _

theorem keeps_installStrings : Keeps P Strings.install := by
  refine (keeps_builtinObject _).bind fun proto => (keeps_attach h proto _ _).bind fun _ => ?_
  exact (keeps_installConstructor h (by decide) _).bind fun _ => keeps_pure ()

theorem keeps_installNumbers : Keeps P Numbers.install := by
  refine (keeps_builtinObject _).bind fun proto => (keeps_attach h proto _ _).bind fun _ => ?_
  refine (keeps_installConstructor h (by decide) _).bind fun func => ?_
  refine (keeps_attachConstants h func _).bind fun _ => (keeps_builtinObject _).bind fun proto => ?_
  refine (keeps_attach h proto _ _).bind fun _ => ?_
  exact (keeps_installConstructor h (by decide) _).bind fun _ => keeps_pure ()

theorem keeps_installMathematics : Keeps P Mathematics.install := by
  refine (keeps_createNamespace h (by decide)).bind fun id => ?_
  exact (keeps_attachConstants h id _).bind fun _ => keeps_attach h id _ _

theorem keeps_installGlobals : Keeps P Globals.install := by
  refine keeps_get.bind fun m => (keeps_declare h _ _ _ _).bind fun _ => ?_
  refine (keeps_declare h _ _ _ _).bind fun _ => (keeps_declare h _ _ _ _).bind fun _ => ?_
  exact keeps_installAll h _

theorem keeps_installThreads : Keeps P Threads.install :=
  (keeps_installAll h _).bind fun _ =>
    (keeps_createNamespace h (by decide)).bind fun id => keeps_attach h id _ _

theorem keeps_install (hproto : ∀ root (k : ObjectId → Exec Unit), (∀ id, Keeps P (k id)) →
    Keeps P (createObject none root >>= fun id =>
      setBuiltin "Object.prototype" (.object id) >>= fun _ => k id))
    (hprimitive : Keeps P installPrimitive) : Keeps P install := by
  refine (keeps_installPrototypes h hproto).bind fun _ => hprimitive.bind fun _ => ?_
  refine (keeps_installObjects h).bind fun _ => ?_
  refine ((keeps_builtinObject _).bind fun proto => keeps_attach h proto _ _).bind fun _ => ?_
  refine (keeps_installArrays h).bind fun _ => (keeps_installErrors h).bind fun _ => ?_
  refine (keeps_installStrings h).bind fun _ => (keeps_installNumbers h).bind fun _ => ?_
  refine (keeps_installMathematics h).bind fun _ => ?_
  refine ((keeps_createNamespace h (by decide)).bind fun id => keeps_attach h id _ _).bind
    fun _ => ?_
  refine ((keeps_createNamespace h (by decide)).bind fun id => keeps_attach h id _ _).bind
    fun _ => ?_
  exact (keeps_installGlobals h).bind fun _ => keeps_installThreads h

end Establishing

end Builtin

namespace Machine

open Exec

/-- What is made after the root owner and the global scope leaves the machine vacant. -/
theorem vacant_boot (config : Config) (clock : Host.Clock) :
    (after boot (blank config clock)).Vacant := by
  have hroot : (after bootstrap (blank config clock)).Vacant := by
    rw [after_of_ok (bootstrap_blank config clock)]
    exact vacant_rooted config clock
  unfold boot
  refine after_bind_of hroot (fun _ h => h) fun _ m' _ hm' => ?_
  have hinstall : Keeps Vacant Builtin.install :=
    Builtin.keeps_install established_vacant
      (fun root k hk => (keeps_createObject established_vacant none root).bind fun id =>
        (keeps_vacant_setBuiltin _ _).bind fun _ => hk id)
      (Builtin.keeps_installPrimitive established_vacant (keeps_vacant_setBuiltin _))
  refine (hinstall.bind fun _ => ?_) m' hm'
  refine (keeps_builtinObject _).bind fun proto => keeps_get.bind fun m => ?_
  refine (keeps_vacant_modifyObject _ _).bind fun _ => ?_
  exact keeps_modify fun _ h => ⟨h.tidy, h.threads, h.global, h.idle.programs, h.idle.pendingResolvers,
    h.idle.earlySettlements, h.idle.currentThread, h.idle.lastStepped⟩

theorem create_eq_ok_iff {config : Config} {clock : Host.Clock} {m : Machine} :
    create config clock = .ok m ↔ boot (blank config clock) = .ok () m := by
  -- Unfolded below its arguments, so that checking the step does not run the machine.
  have hcreate : create = create := rfl
  conv at hcreate => rhs; delta create
  rw [congrFun (congrFun hcreate config) clock]
  generalize boot (blank config clock) = result
  cases result with
  | ok u m' => simp
  | error e m' => simp

/-- The policy is the one of a configuration, and no thread has been started. -/
abbrev Unstarted (config : Config) (m : Machine) : Prop :=
  m.policy = config.policy ∧ m.nextThreadId = 1

theorem unstarted_of_create {config : Config} {clock : Host.Clock} {m : Machine}
    (h : create config clock = .ok m) : Unstarted config m := by
  have hset (name : String) (v : Value) : Keeps (Unstarted config) (setBuiltin name v) :=
    keeps_modify fun _ h => h
  have hmodify (id : ObjectId) (f : Object → Object) :
      Keeps (Unstarted config) (modifyObject id f) :=
    (keeps_query _).bind fun _ => keeps_modify fun _ h => h
  have hkept : Established (Unstarted config) :=
    ⟨fun _ => keeps_modifyGet fun _ h => h, fun id f _ => hmodify id f, fun _ _ _ => hset _ _,
      fun _ _ => keeps_modify fun _ h => h⟩
  have hinstall : Keeps (Unstarted config) Builtin.install :=
    Builtin.keeps_install hkept
      (fun root k hk => (keeps_createObject hkept none root).bind fun id =>
        (hset _ _).bind fun _ => hk id)
      (Builtin.keeps_installPrimitive hkept (hset _))
  have hroot : Unstarted config (after bootstrap (blank config clock)) := by
    rw [after_of_ok (bootstrap_blank config clock)]
    exact ⟨rfl, rfl⟩
  have hboot : Unstarted config (after boot (blank config clock)) := by
    unfold boot
    refine after_bind_of hroot (fun _ h => h) fun _ m' _ hm' => ?_
    refine (hinstall.bind fun _ => ?_) m' hm'
    refine (keeps_builtinObject _).bind fun proto => keeps_get.bind fun m => ?_
    exact (hmodify _ _).bind fun _ => keeps_modify fun _ h => h
  rwa [after_of_ok (create_eq_ok_iff.1 h)] at hboot

/-- A new machine runs nothing, the free slots of its heap are known, and it has a global scope. -/
theorem vacant_of_create {config : Config} {clock : Host.Clock} {m : Machine}
    (h : create config clock = .ok m) : m.Vacant := by
  have hboot := vacant_boot config clock
  rwa [after_of_ok (create_eq_ok_iff.1 h)] at hboot

end Machine

end ScriptMachine
