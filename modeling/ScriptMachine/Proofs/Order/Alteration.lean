import Mathlib.Logic.Relation
import ScriptMachine.Machine.Control
import ScriptMachine.Proofs.Arena
import ScriptMachine.Proofs.Threads
import ScriptMachine.Proofs.Tree.Accepted

/-!
# What frames and the host do to a machine

A frame that is stepped, a host function it calls and the host between two steps change the heap,
start and end threads and settle resolvers. They never touch the frames of a thread that is not
blocked, and every handle goes on naming what it named: a program, a scope of one kind under one
other scope, a function of one behaviour. Collections only ever run between steps.
-/

namespace ScriptMachine

open Exec

/-- Every handle of a heap goes on naming what it named, up to what code may change. -/
structure Heap.Retains (h h' : Heap) : Prop where
  program : ∀ {id p}, h.program? id = some p → h'.program? id = some p
  scope : ∀ {id s}, h.scope? id = some s →
    ∃ s', h'.scope? id = some s' ∧ s'.kind = s.kind ∧ s'.outer = s.outer
  object : ∀ {id o}, h.object? id = some o →
    ∃ o', h'.object? id = some o' ∧ o'.function = o.function

namespace Heap.Retains

variable {h h' h'' : Heap}

theorem refl (h : Heap) : h.Retains h :=
  ⟨id, fun hs => ⟨_, hs, rfl, rfl⟩, fun ho => ⟨_, ho, rfl⟩⟩

theorem trans (hr : h.Retains h') (hr' : h'.Retains h'') : h.Retains h'' where
  program := fun hp => hr'.program (hr.program hp)
  scope := fun hs =>
    let ⟨_, hs', hkind, houter⟩ := hr.scope hs
    let ⟨s'', hs'', hkind', houter'⟩ := hr'.scope hs'
    ⟨s'', hs'', hkind'.trans hkind, houter'.trans houter⟩
  object := fun ho =>
    let ⟨_, ho', hfunction⟩ := hr.object ho
    let ⟨o'', ho'', hfunction'⟩ := hr'.object ho'
    ⟨o'', ho'', hfunction'.trans hfunction⟩

/-- Equal slots name the same. -/
theorem of_slots (hobjects : h'.objects = h.objects) (hscopes : h'.scopes = h.scopes)
    (hprograms : h'.programs = h.programs) : h.Retains h' := by
  refine ⟨fun {id p} hp => ?_, fun {id s} hs => ⟨s, ?_, rfl, rfl⟩, fun {id o} ho => ⟨o, ?_, rfl⟩⟩
  · rwa [program?, hprograms]
  · rwa [scope?, hscopes]
  · rwa [object?, hobjects]

theorem allocObject (ht : h.Tidy) (o : Object) : h.Retains (h.allocObject o).2 where
  program := fun {id p} hp => by
    unfold Heap.allocObject
    dsimp only
    split <;> exact hp
  scope := fun {id s} hs => ⟨s, by simpa using hs, rfl, rfl⟩
  object := fun {id p} hp => ⟨p, ht.allocObject_of_live o hp, rfl⟩

theorem allocScope (ht : h.Tidy) (s : Scope) : h.Retains (h.allocScope s).2 where
  program := fun {id p} hp => by
    unfold Heap.allocScope
    dsimp only
    split <;> exact hp
  scope := fun {id t} hs => ⟨t, ht.allocScope_of_live s hs, rfl, rfl⟩
  object := fun {id o} ho => ⟨o, by simpa using ho, rfl⟩

theorem addProgram (h : Heap) (p : Tree.Program) : h.Retains (h.addProgram p).2 where
  program := fun {id q} hq => by
    unfold Heap.program? at hq ⊢
    obtain ⟨slot, hslot, hjoin⟩ := Option.bind_eq_some_iff.1 hq
    have hlt := (Array.getElem?_eq_some_iff.1 hslot).1
    change ((h.programs.push (some p))[id.index]?).join = some q
    rw [Array.getElem?_push, if_neg (Nat.ne_of_lt hlt), hq]
  scope := fun {id s} hs => ⟨s, hs, rfl, rfl⟩
  object := fun {id o} ho => ⟨o, ho, rfl⟩

theorem modifyObject (h : Heap) (id : ObjectId) {f : Object → Object}
    (hf : ∀ o : Object, (f o).function = o.function) : h.Retains (h.modifyObject id f) where
  program := fun hp => hp
  scope := fun {id s} hs => ⟨s, hs, rfl, rfl⟩
  object := fun {other o} ho => by
    rw [Heap.object?_modifyObject, ho]
    split
    · exact ⟨f o, rfl, hf o⟩
    · exact ⟨o, rfl, rfl⟩

theorem modifyScope (h : Heap) (id : ScopeId) {f : Scope → Scope}
    (hf : ∀ s : Scope, (f s).kind = s.kind ∧ (f s).outer = s.outer) :
    h.Retains (h.modifyScope id f) where
  program := fun hp => hp
  scope := fun {other s} hs => by
    rw [Heap.scope?_modifyScope, hs]
    split
    · exact ⟨f s, rfl, hf s⟩
    · exact ⟨s, rfl, rfl, rfl⟩
  object := fun {id o} ho => ⟨o, ho, rfl⟩

end Heap.Retains

/-- Two heaps hold the same in the same slots. -/
structure Heap.Alike (h h' : Heap) : Prop where
  objects : h'.objects = h.objects
  freeObjects : h'.freeObjects = h.freeObjects
  scopes : h'.scopes = h.scopes
  freeScopes : h'.freeScopes = h.freeScopes
  programs : h'.programs = h.programs

namespace Heap.Alike

variable {h h' : Heap}

theorem refl (h : Heap) : h.Alike h := ⟨rfl, rfl, rfl, rfl, rfl⟩

theorem tidy (ha : h.Alike h') (ht : h.Tidy) : h'.Tidy := by
  constructor
  · rw [ha.objects, ha.freeObjects]
    exact ht.objects
  · rw [ha.scopes, ha.freeScopes]
    exact ht.scopes

theorem retains (ha : h.Alike h') : h.Retains h' := .of_slots ha.objects ha.scopes ha.programs

end Heap.Alike

/-- The only programs on a heap are programs of the grammar. -/
def Heap.Grammatical (h : Heap) : Prop :=
  ∀ id p, h.program? id = some p → p.Proper

theorem Heap.Grammatical.of_programs {h h' : Heap} (hg : h.Grammatical)
    (hprograms : h'.programs = h.programs) : h'.Grammatical :=
  fun id p hp => hg id p (by rwa [Heap.program?, hprograms] at hp)

namespace Machine

/-- Only counters, pins and the services of the host differ. -/
structure Serves (m m' : Machine) : Prop where
  objects : m'.heap.objects = m.heap.objects
  freeObjects : m'.heap.freeObjects = m.heap.freeObjects
  scopes : m'.heap.scopes = m.heap.scopes
  freeScopes : m'.heap.freeScopes = m.heap.freeScopes
  programs : m'.heap.programs = m.heap.programs
  globalScope : m'.globalScope = m.globalScope
  builtins : m'.builtins = m.builtins
  threads : m'.threads = m.threads
  currentThread : m'.currentThread = m.currentThread
  pendingResolvers : m'.pendingResolvers = m.pendingResolvers
  earlySettlements : m'.earlySettlements = m.earlySettlements
  nextThreadId : m.nextThreadId ≤ m'.nextThreadId
  nextQueued : m.nextQueued ≤ m'.nextQueued
  nextResolverId : m.nextResolverId ≤ m'.nextResolverId

/-- The first frame of a thread: the root of a program, or a call that has not begun. -/
inductive Starts (h : Heap) : Frame → Prop where
  | program {id : ProgramId} {p : Tree.Program} {scope : ScopeId} {s : Scope}
    (hprogram : h.program? id = some p) (hscope : h.scope? scope = some s) :
    Starts h (.ofNode ⟨id, p.root⟩ scope)
  | call {scope : ScopeId} {s : Scope} {call : CallInfo} (hscope : h.scope? scope = some s)
    (hphase : call.phase = .ready) : Starts h (.ofCall scope call)

/-- A thread is only timed anew. -/
structure Tended (t t' : Thread) : Prop where
  id : t'.id = t.id
  status : t'.status = t.status
  stack : t'.stack = t.stack
  runAt : t'.runAt = t.runAt
  queued : t'.queued = t.queued
  outcome : t'.outcome = t.outcome

/-- One thing that a frame, a host function or the host does. Only host functions and the host issue
and settle resolvers. -/
inductive Alteration (settles : Bool) (m : Machine) : Machine → Prop where
  | allocObject (o : Object) : Alteration settles m { m with heap := (m.heap.allocObject o).2 }
  | allocScope (s : Scope) : Alteration settles m { m with heap := (m.heap.allocScope s).2 }
  | load {p : Tree.Program} (h : p.Proper) :
    Alteration settles m { m with heap := (m.heap.addProgram p).2 }
  | object (id : ObjectId) {f : Object → Object}
    (hf : ∀ o : Object, (f o).function = o.function) :
    Alteration settles m { m with heap := m.heap.modifyObject id f }
  | scope (id : ScopeId) {f : Scope → Scope}
    (hf : ∀ s : Scope, (f s).kind = s.kind ∧ (f s).outer = s.outer) :
    Alteration settles m { m with heap := m.heap.modifyScope id f }
  | serve {m' : Machine} (h : m.Serves m') : Alteration settles m m'
  | tend (id : ThreadId) {f : Thread → Thread} (hf : ∀ t, Tended t (f t)) :
    Alteration settles m { m with threads := updateThread id f m.threads }
  | start {base : Frame} (hbase : Starts m.heap base) (delay : Float) (keepOutcome : Bool) :
    Alteration settles m (after (newThread base delay keepOutcome) m)
  | finish {id : ThreadId} {t : Thread} (ht : m.thread? id = some t)
    (hlive : t.isZombie = false) (outcome : Outcome) :
    Alteration settles m { m with threads := updateThread id (·.finish outcome) m.threads }
  | forget {id : ThreadId} {t : Thread} (ht : m.thread? id = some t)
    (hzombie : t.isZombie = true) :
    Alteration settles m { m with threads := m.threads.filter (·.id != id) }
  | stop (status : RunStatus) :
    Alteration settles m { m with
      threads := m.threads.map fun t => if t.isZombie then t else t.finish .killed
      status }
  | issue {id : ThreadId} {t : Thread} (h : settles = true) (ht : m.thread? id = some t) :
    Alteration settles m (after (issueResolver id) m)
  | settle (h : settles = true) (resolver : Nat) (thread : ThreadId) (s : Settlement) :
    Alteration settles m (after (Machine.settle resolver thread s) m)

/-- Any number of things that frames, host functions and the host do. -/
abbrev Altered (settles : Bool) : Machine → Machine → Prop :=
  Relation.ReflTransGen (Alteration settles)

variable {settles : Bool} {m m' : Machine}

theorem Serves.refl (m : Machine) : m.Serves m :=
  ⟨rfl, rfl, rfl, rfl, rfl, rfl, rfl, rfl, rfl, rfl, rfl, Nat.le_refl _, Nat.le_refl _,
    Nat.le_refl _⟩

/-- The thread that starts on a frame. -/
def started (m : Machine) (base : Frame) (delay : Float) (keepOutcome : Bool) : Thread where
  id := ⟨m.nextThreadId⟩
  status := if validDelay delay > 0 then .sleeping else .ready
  stack := .ofList [base]
  runAt := m.reading + validDelay delay
  queued := m.nextQueued
  timeLimit := m.config.defaultTimeLimit
  runStarted := m.reading + validDelay delay
  keepOutcome

/-- A thread that starts with a delay is asleep. -/
theorem started_status (m : Machine) (base : Frame) (delay : Float) (keepOutcome : Bool) :
    (m.started base delay keepOutcome).status = .sleeping ∨
      (m.started base delay keepOutcome).status = .ready ∧ ¬ validDelay delay > 0 := by
  unfold started
  by_cases hdelay : validDelay delay > 0
  · exact .inl (if_pos hdelay)
  · exact .inr ⟨if_neg hdelay, hdelay⟩

/-- A thread is put into the table under a new number and in a new place, unless a counter ran
out. -/
theorem after_newThread_cases (base : Frame) (delay : Float) (keepOutcome : Bool) (m : Machine) :
    m.Serves (after (newThread base delay keepOutcome) m) ∨
      ∃ next nextQueued, m.nextThreadId < next ∧ m.nextQueued < nextQueued ∧
        after (newThread base delay keepOutcome) m = { m with
          nextThreadId := next, clockStarted := true, clock := m.clock.read.2, nextQueued
          threads := insertThread (m.started base delay keepOutcome) m.threads } := by
  unfold after
  rw [newThread_run]
  cases hthread : nextCount m.nextThreadId with
  | error e => exact .inl (.refl m)
  | ok next =>
    have hnext := lt_of_nextCount hthread
    cases hqueue : nextCount m.nextQueued with
    | error e => exact .inl { Serves.refl m with nextThreadId := Nat.le_of_lt hnext }
    | ok nextQueued => exact .inr ⟨next, nextQueued, hnext, lt_of_nextCount hqueue, rfl⟩

/-- The machine when a resolver is used up. -/
def dropResolver (id : Nat) (m : Machine) : Machine :=
  { m with pendingResolvers := m.pendingResolvers.filter (·.1 != id) }

/-- What comes of settling a resolver. -/
inductive Settling (id : Nat) (thread : ThreadId) (s : Settlement) (m : Machine) :
    EStateM.Result Failure Machine Unit → Prop where
  | unknown (h : m.pendingResolvers.lookup id = none) :
    Settling id thread s m (.error (.fault (.alreadySettled id)) m)
  | refused {e : Failure} {m' : Machine} (hserves : (m.dropResolver id).Serves m') :
    Settling id thread s m (.error e m')
  /-- The thread that waited has ended meanwhile. -/
  | late {m' : Machine} (h : m.pendingResolvers.lookup id = some thread)
    (hserves : (m.dropResolver id).Serves m') : Settling id thread s m (.ok () m')
  | resumed {t : Thread} {f : Frame} {next : Nat} (h : m.pendingResolvers.lookup id = some thread)
    (ht : m.thread? thread = some t) (hblocked : t.status = .blocked)
    (hframe : settledFrame t s = .ok f) (hnext : m.nextQueued < next) :
    Settling id thread s m (.ok () { m.dropResolver id with
      clock := m.clock.read.2, nextQueued := next
      threads := updateThread thread (awakened f m.reading m.nextQueued) m.threads })
  /-- The host function that the thread is in has not answered yet. -/
  | early {next : Nat} (h : m.pendingResolvers.lookup id = some thread)
    (hcurrent : m.currentThread = some thread) (hnext : m.nextQueued < next) :
    Settling id thread s m (.ok () { m.dropResolver id with
      clock := m.clock.read.2, nextQueued := next
      earlySettlements := (thread, s) :: m.earlySettlements.filter (·.1 != thread) })

theorem settling (id : Nat) (thread : ThreadId) (s : Settlement) (m : Machine) :
    Settling id thread s m (settle id thread s m) := by
  rw [settle_run]
  cases hlookup : m.pendingResolvers.lookup id with
  | none => exact .unknown hlookup
  | some holder =>
    have hdropped : (m.dropResolver id).Serves (m.dropResolver id) := .refl _
    dsimp only
    by_cases hholder : (holder != thread) = true
    · rw [if_pos hholder]
      exact .refused hdropped
    rw [if_neg hholder]
    obtain rfl : holder = thread := by simpa using hholder
    cases hqueue : nextCount m.nextQueued with
    | error e => exact .refused { hdropped with }
    | ok next =>
      have hnext := lt_of_nextCount hqueue
      dsimp only
      cases ht : m.thread? holder with
      | none => exact .late hlookup { hdropped with nextQueued := Nat.le_of_lt hnext }
      | some t =>
        dsimp only
        cases hstatus : t.status with
        | zombie => exact .late hlookup { hdropped with nextQueued := Nat.le_of_lt hnext }
        | sleeping => exact .refused { hdropped with nextQueued := Nat.le_of_lt hnext }
        | blocked =>
          dsimp only
          cases hframe : settledFrame t s with
          | error e => exact .refused { hdropped with nextQueued := Nat.le_of_lt hnext }
          | ok f => exact .resumed hlookup ht hstatus hframe hnext
        | ready =>
          dsimp only
          by_cases hcurrent : m.currentThread = some holder
          · rw [if_pos (by simp [hcurrent])]
            exact .early hlookup hcurrent hnext
          · rw [if_neg (by simp [hcurrent])]
            exact .refused { hdropped with nextQueued := Nat.le_of_lt hnext }

/-! ### The heap -/

theorem Serves.alike (h : m.Serves m') : m.heap.Alike m'.heap :=
  ⟨h.objects, h.freeObjects, h.scopes, h.freeScopes, h.programs⟩

/-- Starting a thread leaves the heap alone. -/
theorem alike_newThread (base : Frame) (delay : Float) (keepOutcome : Bool) (m : Machine) :
    m.heap.Alike (after (newThread base delay keepOutcome) m).heap := by
  rcases after_newThread_cases base delay keepOutcome m with hserves | ⟨_, _, -, -, heq⟩
  · exact hserves.alike
  · rw [heq]
    exact .refl _

theorem alike_issueResolver (thread : ThreadId) (m : Machine) :
    m.heap.Alike (after (issueResolver thread) m).heap := by
  unfold after
  rw [issueResolver_run]
  cases nextCount m.nextResolverId <;> exact .refl _

/-- Settling a resolver leaves the heap alone. -/
theorem alike_settle (id : Nat) (thread : ThreadId) (s : Settlement) (m : Machine) :
    m.heap.Alike (after (settle id thread s) m).heap := by
  have hsettling := settling id thread s m
  unfold after
  cases hrun : settle id thread s m with
  | ok a m' =>
    rw [hrun] at hsettling
    cases hsettling with
    | late _ hserves => exact { hserves.alike with }
    | resumed => exact .refl _
    | early => exact .refl _
  | error e m' =>
    rw [hrun] at hsettling
    cases hsettling with
    | unknown => exact .refl _
    | refused hserves => exact { hserves.alike with }

theorem Alteration.tidy (h : Alteration settles m m') (ht : m.heap.Tidy) : m'.heap.Tidy := by
  cases h with
  | allocObject o => exact ht.allocObject o
  | allocScope s => exact ht.allocScope s
  | load hp => exact ht.addProgram _
  | object id hf => exact ht.modifyObject id _
  | scope id hf => exact ht.modifyScope id _
  | serve h => exact h.alike.tidy ht
  | start _ _ _ => exact (alike_newThread _ _ _ m).tidy ht
  | issue _ _ => exact (alike_issueResolver _ m).tidy ht
  | settle _ _ _ _ => exact (alike_settle _ _ _ m).tidy ht
  | _ => exact ht

theorem Alteration.retains (h : Alteration settles m m') (ht : m.heap.Tidy) :
    m.heap.Retains m'.heap := by
  cases h with
  | allocObject o => exact .allocObject ht o
  | allocScope s => exact .allocScope ht s
  | load hp => exact .addProgram _ _
  | object id hf => exact .modifyObject _ id hf
  | scope id hf => exact .modifyScope _ id hf
  | serve h => exact h.alike.retains
  | start _ _ _ => exact (alike_newThread _ _ _ m).retains
  | issue _ _ => exact (alike_issueResolver _ m).retains
  | settle _ _ _ _ => exact (alike_settle _ _ _ m).retains
  | _ => exact .refl _

/-- Settling a resolver leaves the builtins alone. -/
theorem builtins_settle (id : Nat) (thread : ThreadId) (s : Settlement) (m : Machine) :
    (after (settle id thread s) m).builtins = m.builtins := by
  have hsettling := settling id thread s m
  unfold after
  cases hrun : settle id thread s m with
  | ok a m' =>
    rw [hrun] at hsettling
    cases hsettling with
    | late _ hserves => exact hserves.builtins
    | resumed => rfl
    | early => rfl
  | error e m' =>
    rw [hrun] at hsettling
    cases hsettling with
    | unknown => rfl
    | refused hserves => exact hserves.builtins

theorem Alteration.builtins (h : Alteration settles m m') : m'.builtins = m.builtins := by
  cases h with
  | serve h => exact h.builtins
  | start _ delay keepOutcome =>
    rcases after_newThread_cases _ delay keepOutcome m with hserves | ⟨_, _, -, -, heq⟩
    · exact hserves.builtins
    · rw [heq]
  | issue _ _ =>
    unfold after
    rw [issueResolver_run]
    cases nextCount m.nextResolverId <;> rfl
  | settle _ _ _ _ => exact builtins_settle _ _ _ m
  | _ => rfl

/-- What is loaded is of the grammar. -/
theorem Alteration.grammatical (h : Alteration settles m m') (hg : m.heap.Grammatical) :
    m'.heap.Grammatical := by
  cases h with
  | allocObject o =>
    refine hg.of_programs ?_
    unfold Heap.allocObject
    dsimp only
    split <;> rfl
  | allocScope s =>
    refine hg.of_programs ?_
    unfold Heap.allocScope
    dsimp only
    split <;> rfl
  | @load p hp =>
    intro id q hq
    change ((m.heap.programs.push (some p))[id.index]?).join = some q at hq
    rw [Array.getElem?_push] at hq
    split at hq
    · cases hq
      exact hp
    · exact hg id q hq
  | serve h => exact hg.of_programs h.programs
  | start _ _ _ => exact hg.of_programs (alike_newThread _ _ _ m).programs
  | issue _ _ => exact hg.of_programs (alike_issueResolver _ m).programs
  | settle _ _ _ _ => exact hg.of_programs (alike_settle _ _ _ m).programs
  | _ => exact hg

namespace Altered

theorem builtins (h : Altered settles m m') : m'.builtins = m.builtins := by
  induction h with
  | refl => rfl
  | tail _ hlast ih => exact hlast.builtins.trans ih

theorem tidy (h : Altered settles m m') (ht : m.heap.Tidy) : m'.heap.Tidy := by
  induction h with
  | refl => exact ht
  | tail _ hlast ih => exact hlast.tidy ih

theorem retains (h : Altered settles m m') (ht : m.heap.Tidy) : m.heap.Retains m'.heap := by
  induction h with
  | refl => exact .refl _
  | tail hfirst hlast ih => exact ih.trans (hlast.retains (Altered.tidy hfirst ht))

theorem grammatical (h : Altered settles m m') (hg : m.heap.Grammatical) :
    m'.heap.Grammatical := by
  induction h with
  | refl => exact hg
  | tail _ hlast ih => exact hlast.grammatical ih

end Altered

end Machine

/-! ## Operations made of such changes -/

namespace Exec

open Machine

variable {α β : Type} {settles : Bool} {m : Machine}

/-- From a machine, an operation only alters it, and what it gives is as described. -/
structure AltersTo (settles : Bool) (m : Machine) (Q : α → Machine → Prop) (x : Exec α) :
    Prop where
  altered : Altered settles m (after x m)
  result : ∀ a m', x m = .ok a m' → Q a m'

/-- An operation only alters the machine it runs on. -/
def Alters (settles : Bool) (x : Exec α) : Prop :=
  ∀ m : Machine, m.heap.Tidy → Altered settles m (after x m)

theorem AltersTo.bind {P : α → Machine → Prop} {Q : β → Machine → Prop} {x : Exec α}
    {f : α → Exec β} (hx : AltersTo settles m P x)
    (hf : ∀ a m', Altered settles m m' → P a m' → AltersTo settles m' Q (f a)) :
    AltersTo settles m Q (x >>= f) := by
  cases hrun : x m with
  | error e m' =>
    have hbind : (x >>= f) m = .error e m' := by rw [bind_run, hrun]
    refine ⟨by rw [after_of_error hbind, ← after_of_error hrun]; exact hx.altered, ?_⟩
    intro b m'' h
    rw [hbind] at h
    cases h
  | ok a m' =>
    have hm' : Altered settles m m' := after_of_ok hrun ▸ hx.altered
    have hrest := hf a m' hm' (hx.result a m' hrun)
    refine ⟨?_, fun b m'' h => hrest.result b m'' (by rwa [bind_run_of_ok hrun] at h)⟩
    rw [after, bind_run_of_ok hrun, ← after]
    exact hm'.trans hrest.altered

theorem AltersTo.mono {P Q : α → Machine → Prop} {x : Exec α} (hx : AltersTo settles m P x)
    (h : ∀ a m', Altered settles m m' → P a m' → Q a m') : AltersTo settles m Q x :=
  ⟨hx.altered, fun a m' hrun => h a m' (after_of_ok hrun ▸ hx.altered) (hx.result a m' hrun)⟩

theorem Alters.to {x : Exec α} (hx : Alters settles x) (ht : m.heap.Tidy) :
    AltersTo settles m (fun _ _ => True) x :=
  ⟨hx m ht, fun _ _ _ => trivial⟩

theorem Alters.bind {x : Exec α} {f : α → Exec β} (hx : Alters settles x)
    (hf : ∀ a, Alters settles (f a)) : Alters settles (x >>= f) :=
  fun _ ht => ((hx.to ht).bind fun a _ h _ => (hf a).to (h.tidy ht)).altered

/-- An operation that only alters goes first. -/
theorem Alters.bindTo {Q : β → Machine → Prop} {x : Exec α} {f : α → Exec β}
    (hx : Alters settles x) (ht : m.heap.Tidy)
    (hf : ∀ a m', Altered settles m m' → m'.heap.Tidy → AltersTo settles m' Q (f a)) :
    AltersTo settles m Q (x >>= f) :=
  (hx.to ht).bind fun a m' h _ => hf a m' h (h.tidy ht)

/-- An operation only alters the machine it runs on, and its result is as described. -/
def Gives (settles : Bool) (P : α → Prop) (x : Exec α) : Prop :=
  ∀ m : Machine, m.heap.Tidy → AltersTo settles m (fun a _ => P a) x

theorem Gives.bind {P : α → Prop} {Q : β → Prop} {x : Exec α} {f : α → Exec β}
    (hx : Gives settles P x) (hf : ∀ a, P a → Gives settles Q (f a)) :
    Gives settles Q (x >>= f) :=
  fun m ht => (hx m ht).bind fun a m' h ha => hf a ha m' (h.tidy ht)

/-- An operation that only alters goes first. -/
theorem Alters.gives {P : β → Prop} {x : Exec α} {f : α → Exec β} (hx : Alters settles x)
    (hf : ∀ a, Gives settles P (f a)) : Gives settles P (x >>= f) :=
  fun _ ht => hx.bindTo ht fun a m' _ ht' => hf a m' ht'

theorem altersTo_pure {Q : α → Machine → Prop} {a : α} (h : Q a m) :
    AltersTo settles m Q (pure a : Exec α) := by
  refine ⟨.refl, fun b m' hrun => ?_⟩
  cases hrun
  exact h

theorem altersTo_throw {Q : α → Machine → Prop} (e : Failure) :
    AltersTo settles m Q (throw e : Exec α) :=
  ⟨.refl, fun _ _ h => by cases h⟩

theorem altersTo_get_bind {Q : β → Machine → Prop} {f : Machine → Exec β}
    (h : AltersTo settles m Q (f m)) : AltersTo settles m Q (get >>= f) :=
  ⟨h.altered, h.result⟩

/-- A reading leaves the machine as it is. -/
theorem altersTo_query (f : Machine → Except Failure α) :
    AltersTo settles m (fun a m' => m' = m ∧ f m = .ok a) (query f) := by
  refine ⟨by rw [after_query], fun a m' hrun => ?_⟩
  obtain ⟨ha, rfl⟩ := query_eq_ok_iff.1 hrun
  exact ⟨rfl, ha⟩

theorem gives_pure {P : α → Prop} {a : α} (h : P a) : Gives settles P (pure a : Exec α) :=
  fun _ _ => altersTo_pure h

theorem gives_throw {P : α → Prop} (e : Failure) : Gives settles P (throw e : Exec α) :=
  fun _ _ => altersTo_throw e

theorem alters_pure (a : α) : Alters settles (pure a : Exec α) := fun _ _ => .refl

theorem alters_throw (e : Failure) : Alters settles (throw e : Exec α) := fun _ _ => .refl

theorem alters_get : Alters settles (get : Exec Machine) := fun _ _ => .refl

theorem alters_query (f : Machine → Except Failure α) : Alters settles (query f) :=
  fun _ _ => (altersTo_query f).altered

theorem alters_modify {f : Machine → Machine} (h : ∀ m, Alteration settles m (f m)) :
    Alters settles (modify f : Exec Unit) := fun m _ => .single (h m)

theorem alters_modifyGet {f : Machine → α × Machine} (h : ∀ m, Alteration settles m (f m).2) :
    Alters settles (modifyGet f : Exec α) := fun m _ => .single (h m)

end Exec

/-!
## Moments

What happens to a machine is a sequence of moments. Between two turns the host does what it likes,
threads are woken and one is picked; in the turn of a thread the thread is worked on, and may be
parked at its end. The history of a machine keeps every moment with the machine that it found.
-/

/-- What is told of a moment. -/
inductive Event where
  /-- A resolver was issued for a thread. -/
  | issued (resolver : Nat) (thread : ThreadId)
  /-- A resolver was settled that names a thread. -/
  | accepted (resolver : Nat) (thread : ThreadId)
  | refused (resolver : Nat) (thread : ThreadId)
  /-- The turn of a thread began. -/
  | begun (thread : ThreadId)
  | ended (thread : ThreadId)
  | silent
  deriving DecidableEq

namespace Machine

/-- The machine when the early settlements of a thread have been taken. -/
def forgetEarly (thread : ThreadId) (m : Machine) : Machine :=
  { m with earlySettlements := m.earlySettlements.filter (·.1 != thread) }

/-- The thread that is attended to is the one whose turn it is, and it is not parked. -/
structure Attended (turn : Option ThreadId) (m : Machine) : Prop where
  current : m.currentThread = turn
  going : ∀ id t, turn = some id → m.thread? id = some t → t.status = .ready ∨ t.status = .zombie
  issued : ∀ id, turn = some id → id.index < m.nextThreadId

/-- One moment of a machine, in the turn of a thread or between two turns. Threads are `steady` when
none is parked after it was ended, and `prompt` when they sleep only for some time from now on. -/
inductive Moment (steady prompt : Prop) :
    Event → Option ThreadId → Machine → Option ThreadId → Machine → Prop where
  | alter {turn : Option ThreadId} {m m' : Machine} (h : Alteration false m m')
    (hfree : Attended turn m) : Moment steady prompt .silent turn m turn m'
  | issue {turn : Option ThreadId} {m m' : Machine} {thread : ThreadId} {id : Nat}
    (hrun : issueResolver thread m = .ok id m') (hfree : Attended turn m) :
    Moment steady prompt (.issued id thread) turn m turn m'
  | accept {turn : Option ThreadId} {m m' : Machine} {id : Nat} {thread : ThreadId}
    {s : Settlement} (hrun : settle id thread s m = .ok () m') (hfree : Attended turn m) :
    Moment steady prompt (.accepted id thread) turn m turn m'
  | refuse {turn : Option ThreadId} {m m' : Machine} {id : Nat} {thread : ThreadId}
    {s : Settlement} {e : Failure} (hrun : settle id thread s m = .error e m')
    (hfree : Attended turn m) : Moment steady prompt (.refused id thread) turn m turn m'
  /-- A host function has answered, and what it settled early is taken. -/
  | answer {turn : Option ThreadId} {m : Machine} (thread : ThreadId) :
    Moment steady prompt .silent turn m turn (m.forgetEarly thread)
  | schedule {m m' : Machine} {found : Pick} (hidle : m.currentThread = none)
    (hrun : schedule m = .ok found m') : Moment steady prompt .silent none m none m'
  | attend {m : Machine} {id : ThreadId} (hidle : m.currentThread = none)
    (hpicked : m.Foremost id) :
    Moment steady prompt .silent none m none { m with currentThread := some id }
  | begin {m : Machine} {id : ThreadId} {t : Thread} (hcurrent : m.currentThread = some id)
    (ht : m.thread? id = some t) (hready : t.status = .ready) :
    Moment steady prompt (.begun id) none m (some id) { m with
      threads := updateThread id (fun t => { t with stack := t.stack.dropTop }) m.threads }
  /-- Frames of the thread change. A thread that was ended keeps none. -/
  | restack {m : Machine} {id : ThreadId} {g : Stack → Stack}
    (h : m.isAlive id = true ∨ ∀ s : Stack, s.frames = [] → (g s).frames = []) :
    Moment steady prompt .silent (some id) m (some id) { m with
      threads := updateThread id (fun t => { t with stack := g t.stack }) m.threads }
  | block {m : Machine} {id : ThreadId} (halive : steady → m.isAlive id = true) :
    Moment steady prompt .silent (some id) m (some id) { m with
      threads := updateThread id (fun t => { t with status := .blocked }) m.threads }
  | sleep {m : Machine} {id : ThreadId} (hfree : ¬ prompt) (halive : steady → m.isAlive id = true)
    (time : Float) {next : Nat} (hnext : m.nextQueued < next) :
    Moment steady prompt .silent (some id) m (some id) { m with
      threads := updateThread id
        (fun t => { t with status := .sleeping, runAt := time, queued := m.nextQueued }) m.threads
      nextQueued := next }
  | nap {m : Machine} {id : ThreadId} (halive : steady → m.isAlive id = true) (delay : Float)
    {next : Nat} (hnext : m.nextQueued < next) :
    Moment steady prompt .silent (some id) m (some id) { m with
      clock := m.clock.read.2
      threads := updateThread id
        (fun t => { t with
          status := .sleeping, runAt := m.reading + validDelay delay, queued := m.nextQueued })
        m.threads
      nextQueued := next }
  | finish {m : Machine} {id : ThreadId} :
    Moment steady prompt (.ended id) (some id) m none m
  | collect {m : Machine} : Moment steady prompt .silent none m none (after collectGarbage m)
  | rest {m : Machine} : Moment steady prompt .silent none m none { m with currentThread := none }

/-- What happened, the last moment first, each with the machine that it found. -/
abbrev History := List (Event × Machine)

/-- A history that leads from one machine to another. -/
inductive Course (steady prompt : Prop) (turn : Option ThreadId) (m : Machine) :
    History → Option ThreadId → Machine → Prop where
  | nil : Course steady prompt turn m [] turn m
  | cons {past : History} {e : Event} {turn₁ turn₂ : Option ThreadId} {m₁ m₂ : Machine}
    (h : Course steady prompt turn m past turn₁ m₁)
    (hlast : Moment steady prompt e turn₁ m₁ turn₂ m₂) :
    Course steady prompt turn m ((e, m₁) :: past) turn₂ m₂

end Machine

end ScriptMachine
