import Mathlib.Logic.Relation
import ScriptMachine.Machine.Control
import ScriptMachine.Machine.Property
import ScriptMachine.Proofs.Arena
import ScriptMachine.Proofs.Execution

/-!
# Edits of an object

Every operation that changes an object it was given, rather than one it has just made, changes it in
one of a few ways, after the checks that its own branch makes. They are listed here with what the
checks found.
-/

namespace ScriptMachine

namespace Object

/-- The object with a property it did not have. An array is as long as its items need, and its length
is then as an array has it at first. -/
def added (o : Object) (key : String) (v : Value) : Object :=
  match o.grownIndex? key with
  | some i => (o.put key (.data v)).put "length" (.length (.nat (i + 1)))
  | none => o.put key (.data v)

/-- The object with a property as a definition asks for it. An array is as long as its items need. -/
def defined (o : Object) (key : String) (p : Property) : Object :=
  match o.grownIndex? key with
  | some i =>
    let o := o.put key p
    { o with properties := o.properties.modify "length" fun p => { p with value := .nat (i + 1) } }
  | none => o.put key p

/-- One change of an object, with what was checked before it. -/
inductive Edit (o : Object) : Object → Prop where
  | assign (key : String) (p : Property) (v : Value) (hp : o.properties.get? key = some p)
    (hwritable : p.writable = true) (hplain : (o.isArray && key == "length") = false) :
    Edit o { o with properties := o.properties.modify key fun p => { p with value := v } }
  /-- The length of an array is set: it may be written, or is asked to be what it is. -/
  | resize (n : Nat) (harray : o.isArray = true)
    (hlength : ∀ p, o.properties.get? "length" = some p → p.configurable = true ∨
      p.writable = true ∨ ∃ v : Value, v.sameValue p.value = true ∧
        Machine.arrayLength? v = some n) : Edit o (o.resize n)
  /-- The length of an array becomes read-only or stays as it is. -/
  | limit (writable : Bool) (harray : o.isArray = true)
    (hlength : ∀ p, o.properties.get? "length" = some p → p.configurable = true ∨
      (writable = true → p.writable = true)) :
    Edit o { o with properties := o.properties.modify "length" fun p => { p with writable } }
  | add (key : String) (v : Value) (hextensible : o.extensible = true)
    (hnew : o.properties.get? key = none) : Edit o (o.added key v)
  | define (key : String) (d : Descriptor) (p : Property)
    (hp : Machine.definedProperty o key d = .ok p)
    (hplain : (o.isArray && key == "length") = false) : Edit o (o.defined key p)
  | erase (key : String) (p : Property) (hp : o.properties.get? key = some p)
    (hconfigurable : p.configurable = true) :
    Edit o { o with properties := o.properties.erase key }
  | link (proto : Option ObjectId) (hextensible : o.extensible = true) : Edit o { o with proto }
  | close : Edit o { o with extensible := false }
  | give (owner : Owner) : Edit o { o with owner := some owner }

end Object

/-!
## What an operation can change

Whatever a thread does in a step, it does by a few primitive changes on behalf of one owner, the
actor. They are listed once here. What holds along each of them holds along every operation that is
made of them. The objects that were there before an operation are told apart from those it makes:
only the latter are changed without authorization.
-/

/-- An object is still what it was, apart from its properties. -/
structure Object.SameShell (o p : Object) : Prop where
  owner : p.owner = o.owner
  proto : p.proto = o.proto
  cls : p.cls = o.cls
  extensible : p.extensible = o.extensible
  function : p.function = o.function

/-- A scope is still what it was, apart from its bindings. -/
structure Scope.SameShell (s t : Scope) : Prop where
  kind : t.kind = s.kind
  owner : t.owner = s.owner
  outer : t.outer = s.outer
  receiver : t.receiver = s.receiver

theorem Scope.SameShell.refl (s : Scope) : s.SameShell s := ⟨rfl, rfl, rfl, rfl⟩

theorem Scope.SameShell.trans {s t u : Scope} (h : s.SameShell t) (h' : t.SameShell u) :
    s.SameShell u :=
  ⟨h'.kind.trans h.kind, h'.owner.trans h.owner, h'.outer.trans h.outer,
    h'.receiver.trans h.receiver⟩

/-- The thread is the same, and each of its frames runs in a scope that a frame ran in before. -/
structure Thread.KeepsScopes (t u : Thread) : Prop where
  id : u.id = t.id
  frames : ∀ f ∈ u.stack.frames, ∃ g ∈ t.stack.frames, f.scope = g.scope

namespace Machine

/-- What no running thread changes, and thread numbers are issued in ascending order. -/
structure SameSettings (m m' : Machine) : Prop where
  globalScope : m'.globalScope = m.globalScope
  rootOwner : m'.rootOwner = m.rootOwner
  builtins : m'.builtins = m.builtins
  policy : m'.policy = m.policy
  config : m'.config = m.config
  lastStepped : m'.lastStepped = m.lastStepped
  nextThreadId : m.nextThreadId ≤ m'.nextThreadId

theorem SameSettings.refl (m : Machine) : SameSettings m m :=
  ⟨rfl, rfl, rfl, rfl, rfl, rfl, Nat.le_refl _⟩

theorem SameSettings.trans {m m' m'' : Machine} (h : SameSettings m m')
    (h' : SameSettings m' m'') : SameSettings m m'' :=
  ⟨h'.globalScope.trans h.globalScope, h'.rootOwner.trans h.rootOwner,
    h'.builtins.trans h.builtins, h'.policy.trans h.policy, h'.config.trans h.config,
    h'.lastStepped.trans h.lastStepped, Nat.le_trans h.nextThreadId h'.nextThreadId⟩

/-- The scope is live, and code that runs in it acts as an owner. -/
def ActsAs (m : Machine) (scope : ScopeId) (actor : Option Owner) : Prop :=
  ∃ s, m.heap.scope? scope = some s ∧ s.owner = actor

instance (m : Machine) (scope : ScopeId) (actor : Option Owner) : Decidable (m.ActsAs scope actor) :=
  decidable_of_iff ((m.heap.scope? scope).map (·.owner) = some actor) <| by
    simp [ActsAs]

/-- The policy allows the actor an access to a live object. -/
def Authorized (m : Machine) (actor : Option Owner) (id : ObjectId) (access : Access) : Prop :=
  ∃ o, m.heap.object? id = some o ∧ m.authorizeOwner actor o.owner access = .ok ()

theorem authorize_eq_ok_iff {m : Machine} {actor : Option Owner} {id : ObjectId}
    {access : Access} {o : Object} : m.authorize actor id access = .ok o ↔
      m.heap.object? id = some o ∧ m.authorizeOwner actor o.owner access = .ok () := by
  unfold authorize
  constructor
  · intro h
    cases ho : m.heap.object id with
    | error e => simp [ho, bind, Except.bind] at h
    | ok p =>
      cases hp : m.authorizeOwner actor p.owner access with
      | error e => simp [ho, hp, bind, Except.bind] at h
      | ok _ =>
        simp only [ho, hp, bind, Except.bind, pure, Except.pure, Except.ok.injEq] at h
        subst h
        exact ⟨Heap.object_eq_ok_iff.1 ho, hp⟩
  · rintro ⟨ho, hp⟩
    simp [Heap.object_eq_ok_iff.2 ho, hp, bind, Except.bind, pure, Except.pure]

end Machine

/-- One change of the machine on behalf of an actor, where some objects are old. -/
inductive Change (old : ObjectId → Prop) (actor : Option Owner) (m : Machine) :
    Machine → Prop where
  | allocObject (o : Object) : Change old actor m { m with heap := (m.heap.allocObject o).2 }
  | allocScope (s : Scope) : Change old actor m { m with heap := (m.heap.allocScope s).2 }
  | load (source : String) (p : Tree.Program) (h : Tree.parse source = .ok p) :
    Change old actor m { m with heap := (m.heap.addProgram p).2 }
  /-- Properties are put on an object that is being made. -/
  | build (id : ObjectId) (f : Object → Object) (hnew : ¬ old id)
    (hf : ∀ o : Object, o.SameShell (f o)) :
    Change old actor m { m with heap := m.heap.modifyObject id f }
  /-- An object is edited by an access that the policy allows to the actor. -/
  | edit (id : ObjectId) (access : Access) (f : Object → Object)
    (hauthorized : m.Authorized actor id access) (hmutation : access.isMutation = true)
    (hf : ∀ o, m.heap.object? id = some o → o.Edit (f o)) :
    Change old actor m { m with heap := m.heap.modifyObject id f }
  | bind (id : ScopeId) (f : Scope → Scope) (hf : ∀ s : Scope, s.SameShell (f s)) :
    Change old actor m { m with heap := m.heap.modifyScope id f }
  | thread (id : ThreadId) (f : Thread → Thread)
    (hf : ∀ t : Thread, m.thread? id = some t → t.KeepsScopes (f t)) :
    Change old actor m { m with threads := Machine.updateThread id f m.threads }
  /-- A new thread starts, and all it has to run acts as the actor. -/
  | spawn (t : Thread) (m' : Machine) (hid : t.id.index = m.nextThreadId)
    (hnext : m.nextThreadId < m'.nextThreadId) (hheap : m'.heap = m.heap)
    (hframes : ∀ f ∈ t.stack.frames, m.ActsAs f.scope actor)
    (hthreads : m'.threads = Machine.insertThread t m.threads)
    (hsettings : m.SameSettings m') : Change old actor m m'
  /-- Counters, resolvers and the services of the host. -/
  | host (m' : Machine) (hheap : m'.heap = m.heap) (hthreads : m'.threads = m.threads)
    (hsettings : m.SameSettings m') : Change old actor m m'

/-- Any number of changes on behalf of one actor. -/
abbrev Changes (old : ObjectId → Prop) (actor : Option Owner) : Machine → Machine → Prop :=
  Relation.ReflTransGen (Change old actor)

/-- The heap is tidy and the old objects are on it. -/
structure Heap.Holds (h : Heap) (old : ObjectId → Prop) : Prop extends h.Tidy where
  live : ∀ id, old id → ∃ o, h.object? id = some o

/-- Where nothing is old, being tidy is enough. -/
theorem Heap.Tidy.holds {h : Heap} (ht : h.Tidy) : h.Holds fun _ => False :=
  ⟨ht, fun _ hold => hold.elim⟩

/-- What is allocated is none of the old objects. -/
theorem Heap.Holds.not_old_allocObject {h : Heap} {old : ObjectId → Prop} (hh : h.Holds old)
    (o : Object) : ¬ old (h.allocObject o).1 := by
  intro hold
  obtain ⟨p, hp⟩ := hh.live _ hold
  rw [hh.allocObject_fresh o] at hp
  cases hp

namespace Change

variable {old : ObjectId → Prop} {actor : Option Owner} {m m' : Machine}

theorem sameSettings (h : Change old actor m m') : m.SameSettings m' := by
  cases h with
  | spawn _ _ _ _ _ _ _ hsettings => exact hsettings
  | host _ _ _ hsettings => exact hsettings
  | _ => exact ⟨rfl, rfl, rfl, rfl, rfl, rfl, Nat.le_refl _⟩

theorem tidy (h : Change old actor m m') (ht : m.heap.Tidy) : m'.heap.Tidy := by
  cases h with
  | allocObject o => exact ht.allocObject o
  | allocScope s => exact ht.allocScope s
  | load source p _ => exact ht.addProgram p
  | build id f _ _ => exact ht.modifyObject id f
  | edit id access f _ _ _ => exact ht.modifyObject id f
  | bind id f _ => exact ht.modifyScope id f
  | thread id f _ => exact ht
  | spawn t _ _ _ hheap _ _ _ => exact hheap ▸ ht
  | host _ hheap _ _ => exact hheap ▸ ht

/-- A live object stays live. -/
theorem object?_live (h : Change old actor m m') (ht : m.heap.Tidy) {id : ObjectId} {o : Object}
    (ho : m.heap.object? id = some o) : ∃ p, m'.heap.object? id = some p := by
  have hmodify : ∀ (other : ObjectId) (f : Object → Object),
      ∃ p, (m.heap.modifyObject other f).object? id = some p := by
    intro other f
    rw [Heap.object?_modifyObject, ho]
    split
    · exact ⟨f o, rfl⟩
    · exact ⟨o, rfl⟩
  cases h with
  | allocObject p => exact ⟨o, ht.allocObject_of_live p ho⟩
  | allocScope s => exact ⟨o, by simpa using ho⟩
  | load source p _ => exact ⟨o, ho⟩
  | build other f _ _ => exact hmodify other f
  | edit other access f _ _ _ => exact hmodify other f
  | bind other f _ => exact ⟨o, ho⟩
  | thread id f _ => exact ⟨o, ho⟩
  | spawn t _ _ _ hheap _ _ _ => exact ⟨o, by rw [hheap]; exact ho⟩
  | host _ hheap _ _ => exact ⟨o, by rw [hheap]; exact ho⟩

theorem holds (h : Change old actor m m') (hh : m.heap.Holds old) : m'.heap.Holds old := by
  refine ⟨h.tidy hh.toTidy, fun id hid => ?_⟩
  obtain ⟨o, ho⟩ := hh.live id hid
  exact h.object?_live hh.toTidy ho

/-- A live scope stays live and keeps everything but its bindings. -/
theorem scope?_kept (h : Change old actor m m') (ht : m.heap.Tidy) {id : ScopeId} {s : Scope}
    (hs : m.heap.scope? id = some s) : ∃ t, m'.heap.scope? id = some t ∧ s.SameShell t := by
  cases h with
  | allocObject o => exact ⟨s, by simpa using hs, .refl s⟩
  | allocScope u => exact ⟨s, ht.allocScope_of_live u hs, .refl s⟩
  | load source p _ => exact ⟨s, hs, .refl s⟩
  | build id f _ _ => exact ⟨s, hs, .refl s⟩
  | edit id access f _ _ _ => exact ⟨s, hs, .refl s⟩
  | bind other f hf =>
    dsimp only
    rw [Heap.scope?_modifyScope, hs]
    split
    · exact ⟨f s, rfl, hf s⟩
    · exact ⟨s, rfl, .refl s⟩
  | thread id f _ => exact ⟨s, hs, .refl s⟩
  | spawn t _ _ _ hheap _ _ _ => exact ⟨s, by rw [hheap]; exact hs, .refl s⟩
  | host _ hheap _ _ => exact ⟨s, by rw [hheap]; exact hs, .refl s⟩

end Change

namespace Changes

variable {old : ObjectId → Prop} {actor : Option Owner} {m m' : Machine}

theorem sameSettings (h : Changes old actor m m') : m.SameSettings m' := by
  induction h with
  | refl => exact .refl m
  | tail _ hlast ih => exact ih.trans hlast.sameSettings

theorem tidy (h : Changes old actor m m') (ht : m.heap.Tidy) : m'.heap.Tidy := by
  induction h with
  | refl => exact ht
  | tail _ hlast ih => exact hlast.tidy ih

theorem holds (h : Changes old actor m m') (hh : m.heap.Holds old) : m'.heap.Holds old := by
  induction h with
  | refl => exact hh
  | tail _ hlast ih => exact hlast.holds ih

theorem scope?_kept (h : Changes old actor m m') (ht : m.heap.Tidy) {id : ScopeId} {s : Scope}
    (hs : m.heap.scope? id = some s) : ∃ t, m'.heap.scope? id = some t ∧ s.SameShell t := by
  induction h with
  | refl => exact ⟨s, hs, .refl s⟩
  | tail hfirst hlast ih =>
    obtain ⟨t, ht', hst⟩ := ih
    obtain ⟨u, hu, htu⟩ := hlast.scope?_kept (Changes.tidy hfirst ht) ht'
    exact ⟨u, hu, hst.trans htu⟩

theorem actsAs (h : Changes old actor m m') (ht : m.heap.Tidy) {scope : ScopeId}
    {owner : Option Owner} (hs : m.ActsAs scope owner) : m'.ActsAs scope owner := by
  obtain ⟨s, hs, rfl⟩ := hs
  obtain ⟨t, ht', hshell⟩ := h.scope?_kept ht hs
  exact ⟨t, ht', hshell.owner⟩

end Changes

/-! ## Operations made of changes -/

namespace Exec

variable {α β : Type} {old : ObjectId → Prop} {actor : Option Owner} {scope : ScopeId} {m : Machine}

/-- From a machine, an operation makes changes of the actor, and what it gives is as described. -/
def DoesAt (old : ObjectId → Prop) (actor : Option Owner) (m : Machine)
    (Q : α → Machine → Prop) (x : Exec α) : Prop :=
  Changes old actor m (after x m) ∧ ∀ a m', x m = .ok a m' → Q a m'

/-- In a scope that acts as the actor, an operation makes changes of the actor, and what it gives
is as described. Whatever objects are there before are old to it. -/
def Does (scope : ScopeId) (actor : Option Owner) (Q : α → Prop) (x : Exec α) : Prop :=
  ∀ old m, m.heap.Holds old → m.ActsAs scope actor → DoesAt old actor m (fun a _ => Q a) x

/-- In a scope that acts as the actor, an operation makes changes of the actor. -/
abbrev Effects (scope : ScopeId) (actor : Option Owner) (x : Exec α) : Prop :=
  Does scope actor (fun _ => True) x

theorem DoesAt.bind {P : α → Machine → Prop} {Q : β → Machine → Prop} {x : Exec α}
    {f : α → Exec β} (hx : DoesAt old actor m P x)
    (hf : ∀ a m', Changes old actor m m' → P a m' → DoesAt old actor m' Q (f a)) :
    DoesAt old actor m Q (x >>= f) := by
  obtain ⟨hchanges, hresult⟩ := hx
  cases hxm : x m with
  | error e m' =>
    rw [after_of_error hxm] at hchanges
    have hrun : (x >>= f) m = .error e m' := by rw [bind_run, hxm]
    refine ⟨by rwa [after_of_error hrun], ?_⟩
    intro b m'' h
    rw [hrun] at h
    cases h
  | ok a m' =>
    rw [after_of_ok hxm] at hchanges
    obtain ⟨hrest, hlast⟩ := hf a m' hchanges (hresult a m' hxm)
    have hrun : (x >>= f) m = f a m' := by rw [bind_run, hxm]
    refine ⟨?_, ?_⟩
    · rw [after, hrun, ← after]
      exact hchanges.trans hrest
    · intro b m'' h
      rw [hrun] at h
      exact hlast b m'' h

theorem DoesAt.mono {P Q : α → Machine → Prop} {x : Exec α} (hx : DoesAt old actor m P x)
    (h : ∀ a m', P a m' → Q a m') : DoesAt old actor m Q x :=
  ⟨hx.1, fun a m' ha => h a m' (hx.2 a m' ha)⟩

theorem Does.bind {P : α → Prop} {Q : β → Prop} {x : Exec α} {f : α → Exec β}
    (hx : Does scope actor P x) (hf : ∀ a, P a → Does scope actor Q (f a)) :
    Does scope actor Q (x >>= f) := by
  intro old m ht hacts
  refine (hx old m ht hacts).bind fun a m' hchanges ha => ?_
  exact hf a ha old m' (hchanges.holds ht) (hchanges.actsAs ht.toTidy hacts)

theorem does_pure {Q : α → Prop} {a : α} (h : Q a) : Does scope actor Q (pure a : Exec α) := by
  intro old m _ _
  refine ⟨.refl, fun b m' hb => ?_⟩
  cases hb
  exact h

theorem does_throw {Q : α → Prop} (e : Failure) : Does scope actor Q (throw e : Exec α) := by
  intro old m _ _
  exact ⟨.refl, fun b m' hb => by cases hb⟩

theorem does_throw_bind {Q : β → Prop} (e : Failure) (f : α → Exec β) :
    Does scope actor Q ((throw e : Exec α) >>= f) := by
  intro old m _ _
  exact ⟨.refl, fun b m' hb => by cases hb⟩

theorem does_query {Q : α → Prop} {f : Machine → Except Failure α}
    (h : ∀ m a, f m = .ok a → Q a) : Does scope actor Q (query f) := by
  intro old m _ _
  refine ⟨by rw [after_query], fun a m' ha => ?_⟩
  exact h m a (query_eq_ok_iff.1 ha).1

theorem effects_query (f : Machine → Except Failure α) : Effects scope actor (query f) :=
  does_query fun _ _ _ => trivial

theorem effects_heapQuery (f : Heap → Except Failure α) : Effects scope actor (heapQuery f) :=
  effects_query _

theorem effects_get : Effects scope actor (get : Exec Machine) :=
  fun _ _ _ _ => ⟨.refl, fun _ _ _ => trivial⟩

/-- Reading the machine gives the machine it is run on. -/
theorem doesAt_get_bind {Q : β → Machine → Prop} {k : Machine → Exec β}
    (h : DoesAt old actor m Q (k m)) : DoesAt old actor m Q (get >>= k) :=
  h

theorem effects_modifyGet {f : Machine → α × Machine}
    (h : ∀ old m, Change old actor m (f m).2) :
    Effects scope actor (modifyGet f : Exec α) :=
  fun old m _ _ => ⟨.single (h old m), fun _ _ _ => trivial⟩

theorem effects_modify {f : Machine → Machine} (h : ∀ old m, Change old actor m (f m)) :
    Effects scope actor (modify f : Exec Unit) :=
  fun old m _ _ => ⟨.single (h old m), fun _ _ _ => trivial⟩

theorem doesAt_attempt {P : α → Machine → Prop} {x : Exec α} (hx : DoesAt old actor m P x) :
    DoesAt old actor m (fun _ _ => True) (attempt x) := by
  refine ⟨?_, fun _ _ _ => trivial⟩
  rw [after_attempt]
  exact hx.1

theorem effects_attempt {x : Exec α} (hx : Effects scope actor x) :
    Effects scope actor (attempt x) :=
  fun old m ht hacts => doesAt_attempt (hx old m ht hacts)

end Exec

end ScriptMachine
