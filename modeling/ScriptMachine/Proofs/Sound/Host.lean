import ScriptMachine.Proofs.Pairing.Control
import ScriptMachine.Proofs.Pairing.Install
import ScriptMachine.Proofs.Sound.Basic

/-!
# Requests with handles in use

A host that names only handles in use leaves a sound machine sound, whatever it asks for. Host
functions are hosts too: one that does nothing but make such requests is careful.
-/

namespace ScriptMachine

open Machine Exec

/-- Every handle that a request names is in use. -/
def Request.Live (h : Heap) : Request → Prop
  | spawnProgram program => h.Live program
  | call func receiver args _ => h.Live func ∧ h.Live receiver ∧ h.Live args
  | settle _ _ s => h.Live s
  | pin v => h.Live v
  | setGlobal _ v => h.Live v
  | declare _ v _ => h.Live v
  | newScope _ outer owner receiver => h.Live outer ∧ h.Live owner ∧ h.Live receiver
  | declareIn scope _ v _ => h.Live scope ∧ h.Live v
  | setBinding scope _ v => h.Live scope ∧ h.Live v
  | writeBinding scope _ v => h.Live scope ∧ h.Live v
  | setScopeOwner scope owner => h.Live scope ∧ h.Live owner
  | alloc o => h.Live o
  | createObject proto owner => h.Live proto ∧ h.Live owner
  | createPlainObject owner => h.Live owner
  | createArray values owner => h.Live values ∧ h.Live owner
  | createClosure node scope owner => h.Live node ∧ h.Live scope ∧ h.Live owner
  | createError _ _ owner _ => h.Live owner
  | setProperty base _ v actor => h.Live base ∧ h.Live v ∧ h.Live actor
  | defineProperty id _ d actor => h.Live id ∧ h.Live d ∧ h.Live actor
  | defineHidden id _ v actor => h.Live id ∧ h.Live v ∧ h.Live actor
  | deleteProperty id _ actor => h.Live id ∧ h.Live actor
  | setPrototype id proto actor => h.Live id ∧ h.Live proto ∧ h.Live actor
  | preventExtensions id actor => h.Live id ∧ h.Live actor
  | setOwnerOf id owner actor => h.Live id ∧ h.Live owner ∧ h.Live actor
  | _ => True

/-- A request that steps no thread and collects no garbage. -/
def Request.Plain : Request → Prop
  | collect => False
  | step => False
  | run _ => False
  | _ => True

/-! ## Changes beside the slots -/

/-- Two heaps differ at most in what is pinned and when a collection is due. -/
structure Heap.SameArenas (h k : Heap) : Prop where
  objects : k.objects = h.objects
  scopes : k.scopes = h.scopes
  programs : k.programs = h.programs
  freeObjects : k.freeObjects = h.freeObjects
  freeScopes : k.freeScopes = h.freeScopes

namespace Heap.SameArenas

variable {h k : Heap} (hk : h.SameArenas k)

include hk

theorem object? : k.object? = h.object? := by
  funext id
  rw [Heap.object?, Heap.object?, hk.objects]

theorem scope? : k.scope? = h.scope? := by
  funext id
  rw [Heap.scope?, Heap.scope?, hk.scopes]

theorem program? : k.program? = h.program? := by
  funext id
  rw [Heap.program?, Heap.program?, hk.programs]

theorem inUse : k.InUse = h.InUse := by
  funext x
  cases x with
  | object id => rw [Heap.InUse, Heap.InUse, hk.object?]
  | scope id => rw [Heap.InUse, Heap.InUse, hk.scope?]
  | program id => rw [Heap.InUse, Heap.InUse, hk.program?]

theorem self : k.self = h.self := by
  rw [Heap.self, Heap.self, hk.inUse]

theorem live {α : Type} [Carried α] {x : α} (hx : h.Live x) : k.Live x := by
  rwa [Heap.Live, hk.self]

theorem protoLink : k.protoLink = h.protoLink := by
  funext id
  rw [Heap.protoLink, Heap.protoLink, hk.object?]

theorem targetLink : k.targetLink = h.targetLink := by
  funext id
  rw [Heap.targetLink, Heap.targetLink, hk.object?]

theorem outerLink : k.outerLink = h.outerLink := by
  funext id
  rw [Heap.outerLink, Heap.outerLink, hk.scope?]

theorem tidy (ht : h.Tidy) : k.Tidy :=
  ⟨hk.objects ▸ hk.freeObjects ▸ ht.objects, hk.scopes ▸ hk.freeScopes ▸ ht.scopes⟩

end Heap.SameArenas

namespace Machine

variable {turn : Option ThreadId} {m : Machine}

/-- Pins and the time of the next collection do not matter. -/
theorem Sound.reslot (h : m.Sound turn) {k : Heap} (hk : m.heap.SameArenas k) (hostValues : Guard)
    (config : Config) : ({ m with heap := k, hostValues, config } : Machine).Sound turn where
  tidy := hk.tidy h.tidy
  object id o ho := hk.live (h.object id o (by rwa [hk.object?] at ho))
  scope id s hs := hk.live (h.scope id s (by rwa [hk.scope?] at hs))
  protos id hid := by
    rw [hk.object?] at hid
    rw [hk.protoLink]
    exact h.protos id hid
  targets id hid := by
    rw [hk.object?] at hid
    rw [hk.targetLink]
    exact h.targets id hid
  outers id hid := by
    rw [hk.scope?] at hid
    rw [hk.outerLink]
    exact h.outers id hid
  globalScope := hk.live h.globalScope
  rootOwner := hk.live h.rootOwner
  builtins := hk.live h.builtins
  threads t ht hshown := hk.live (h.threads t ht hshown)
  early := hk.live h.early
  sorted := h.sorted

/-- Threads that are told are changed to what names only handles in use. -/
theorem Sound.rethread (h : m.Sound turn) {threads : List Thread}
    (hsorted : Sorted threads m.nextThreadId)
    (hlive : ∀ t ∈ threads, t.isZombie = false ∨ t.keepOutcome = true ∨ turn = some t.id →
      m.heap.Live t) : ({ m with threads } : Machine).Sound turn :=
  { h with threads := hlive, sorted := hsorted }

theorem sameArenas_pin (h : Heap) (g : Guard) (v : Value) : h.SameArenas (h.pin g v).2.2 := by
  unfold Heap.pin
  split
  · split <;> exact ⟨rfl, rfl, rfl, rfl, rfl⟩
  · exact ⟨rfl, rfl, rfl, rfl, rfl⟩

theorem sameArenas_clearGuard (h : Heap) (g : Guard) : h.SameArenas (h.clearGuard g).2 := by
  unfold Heap.clearGuard Heap.release
  dsimp only
  split <;> exact ⟨rfl, rfl, rfl, rfl, rfl⟩

/-! ## Requests of the table of threads and of the guard -/

theorem Minds.of_ok {x : Exec Unit} {n : Machine} (hrun : x m = .ok () n) (hsound : n.Sound turn)
    (hslots : m.heap.SameArenas n.heap) : Minds turn x m where
  sound := by rwa [after_of_ok hrun]
  result _ _ _ := trivial
  failure e k he := by cases hrun.symm.trans he
  kept y hy := by
    rw [after_of_ok hrun, hslots.inUse]
    exact hy

theorem minds_pinHostValue (h : m.Sound turn) (v : Value) : Minds turn (pinHostValue v) m :=
  have hslots := sameArenas_pin m.heap m.hostValues v
  .of_ok rfl (h.reslot hslots _ m.config) hslots

theorem minds_releaseHostValues (h : m.Sound turn) : Minds turn releaseHostValues m :=
  have hslots := sameArenas_clearGuard m.heap m.hostValues
  .of_ok rfl (h.reslot hslots _ m.config) hslots

theorem minds_setGcThreshold (h : m.Sound turn) (threshold : Nat) :
    Minds turn (setGcThreshold threshold) m :=
  have hslots : m.heap.SameArenas { m.heap with gcThreshold := threshold } :=
    ⟨rfl, rfl, rfl, rfl, rfl⟩
  .of_ok rfl (h.reslot hslots m.hostValues _) hslots

theorem minds_setTimeLimit (h : m.Sound turn) (thread : ThreadId) (limit : Option Float) :
    Minds turn (setTimeLimit thread limit) m := by
  let f (t : Thread) : Thread := { t with timeLimit := limit.filter fun l => l.isFinite && l ≥ 0 }
  have hrun : setTimeLimit thread limit m = modifyThread thread f m := rfl
  rw [modifyThread_run] at hrun
  by_cases hnone : m.threads.all (·.id != thread) = true
  · rw [if_pos hnone] at hrun
    have hafter := after_of_error hrun
    refine ⟨by rwa [hafter], fun _ _ _ => trivial, fun e n he => ?_, fun y hy => by rwa [hafter]⟩
    cases hrun.symm.trans he
    trivial
  · rw [if_neg hnone] at hrun
    refine .of_ok hrun (h.rethread ?_ fun t ht hshown => ?_) ⟨rfl, rfl, rfl, rfl, rfl⟩
    · rw [updateThread_eq_map h.sorted.ascending]
      refine h.sorted.map fun t => ?_
      split <;> rfl
    · obtain ht | ⟨u, hu, rfl⟩ := mem_updateThread ht
      · exact h.threads t ht hshown
      · have hlive := h.threads u (List.mem_of_find?_eq_some hu) hshown
        exact ⟨hlive.stack, hlive.outcome⟩

theorem minds_takeResult (h : m.Sound turn) (thread : ThreadId) :
    Minds turn (do let _ ← takeResult thread) m := by
  have hend {o : Option Outcome} {n : Machine} (hrun : takeResult thread m = .ok o n)
      (hsound : n.Sound turn) (hslots : m.heap.SameArenas n.heap) :
      Minds turn (do let _ ← takeResult thread) m :=
    .of_ok (bind_run_of_ok hrun) hsound hslots
  have hsame : m.heap.SameArenas m.heap := ⟨rfl, rfl, rfl, rfl, rfl⟩
  have hrun : takeResult thread m = _ := bind_run_of_ok (get_run m)
  cases ht : m.thread? thread with
  | none => exact hend (by rw [hrun, ht]; rfl) h hsame
  | some t =>
    rw [ht] at hrun
    dsimp only at hrun
    cases hzombie : t.isZombie with
    | false => exact hend (by rw [hrun, hzombie]; rfl) h hsame
    | true =>
      let taken : Machine := { m with threads := m.threads.filter (·.id != thread) }
      have htaken : taken.Sound turn :=
        h.rethread (h.sorted.sublist List.filter_sublist) fun t ht =>
          h.threads t (List.mem_of_mem_filter ht)
      have hpin (v : Value) : m.heap.SameArenas (m.heap.pin m.hostValues v).2.2 :=
        sameArenas_pin m.heap m.hostValues v
      rw [hzombie] at hrun
      cases houtcome : t.outcome with
      | none => exact hend (by rw [hrun, houtcome]; rfl) htaken hsame
      | some o =>
        rw [houtcome] at hrun
        cases o with
        | completed v => exact hend hrun (htaken.reslot (hpin v) _ m.config) (hpin v)
        | threw v => exact hend hrun (htaken.reslot (hpin v) _ m.config) (hpin v)
        | killed => exact hend hrun htaken hsame

/-! ## All requests -/

theorem Sound.minds_request {natives : Natives} (h : m.Sound turn) {r : Request}
    (hplain : r.Plain) (hlive : r.Live m.heap) : Minds turn (r.perform natives) m := by
  have hpairs {α : Type} [Carried α] {x : α} (hx : m.heap.Live x) :
      (m.heap.self.acting turn).Pairs x x := m.heap.pairs_self hx turn
  have hdiscard {α : Type} [Carried α] {x : Exec α}
      (hx : (m.heap.self.acting turn).Follows x x) : Minds turn (do let _ ← x) m :=
    h.minds (hx.bind fun _ _ _ _ _ => Pairing.follows_pure Pairing.pairs_unit)
  cases r with
  | load source => exact hdiscard (Pairing.follows_load source)
  | spawnProgram program => exact hdiscard (Pairing.follows_spawnProgram (hpairs hlive))
  | spawn source => exact hdiscard (Pairing.follows_spawn source)
  | call func receiver args delay =>
    obtain ⟨hfunc, hreceiver, hargs⟩ := hlive
    exact hdiscard (Pairing.follows_spawnCall (hpairs hfunc) (hpairs hreceiver) (hpairs hargs)
      delay)
  | settle resolver thread s =>
    exact h.minds (Pairing.mirrors_settle resolver thread (hpairs (α := Settlement) hlive)).follows
  | kill thread => exact hdiscard (Pairing.mirrors_killThread thread).follows
  | take thread => exact minds_takeResult h thread
  | release => exact minds_releaseHostValues h
  | pin v => exact minds_pinHostValue h v
  | limit thread most => exact minds_setTimeLimit h thread most
  | threshold count => exact minds_setGcThreshold h count
  | policy p => exact h.minds (Pairing.mirrors_setPolicy (.inl trivial)).follows
  | pause => exact h.minds Pairing.mirrors_pause.follows
  | resume => exact h.minds Pairing.mirrors_resume.follows
  | stop => exact h.minds Pairing.mirrors_stop.follows
  | setGlobal name v =>
    exact h.minds (Pairing.mirrors_setGlobal name (hpairs (α := Value) hlive)).follows
  | declare name v mutable =>
    exact h.minds (Pairing.follows_get_bind fun _ _ hm =>
      (Pairing.mirrors_declare hm.globalScope name (hpairs (α := Value) hlive) mutable).follows)
  | define name => exact h.minds (Pairing.follows_defineGlobalNative natives name)
  | newScope kind outer owner receiver =>
    obtain ⟨houter, howner, hreceiver⟩ := hlive
    exact hdiscard
      (Pairing.follows_newScope kind (hpairs houter) (hpairs howner) (hpairs hreceiver))
  | declareIn scope name v mutable =>
    exact h.minds
      (Pairing.mirrors_declare (hpairs hlive.1) name (hpairs hlive.2) mutable).follows
  | setBinding scope name v =>
    exact h.minds (Pairing.mirrors_setBinding (hpairs hlive.1) name (hpairs hlive.2)).follows
  | writeBinding scope name v =>
    exact h.minds (Pairing.mirrors_writeBinding (hpairs hlive.1) name (hpairs hlive.2)).follows
  | setScopeOwner scope owner =>
    exact h.minds (Pairing.mirrors_setScopeOwner (hpairs hlive.1) (hpairs hlive.2)).follows
  | alloc o => exact hdiscard (Pairing.follows_alloc (hpairs (α := Object) hlive))
  | createObject proto owner =>
    exact hdiscard (Pairing.follows_createObject (hpairs hlive.1) (hpairs hlive.2))
  | createPlainObject owner =>
    exact hdiscard (Pairing.follows_createPlainObject (hpairs (α := Option Owner) hlive))
  | createArray values owner =>
    exact hdiscard (Pairing.follows_createArray (hpairs hlive.1) (hpairs hlive.2))
  | createFunction id name =>
    exact hdiscard (Pairing.follows_createNativeFunction natives id name)
  | createClosure node scope owner =>
    obtain ⟨hnode, hscope, howner⟩ := hlive
    exact hdiscard (Pairing.follows_createClosure (hpairs hnode) (hpairs hscope) (hpairs howner))
  | createError kind message owner thread =>
    exact hdiscard (Pairing.follows_createError kind message (hpairs (α := Option Owner) hlive)
      fun _ _ => .inl trivial)
  | setProperty base key v actor =>
    obtain ⟨hbase, hv, hactor⟩ := hlive
    exact h.minds
      (Pairing.mirrors_setProperty (hpairs hbase) key (hpairs hv) (hpairs hactor)).follows
  | defineProperty id key d actor =>
    obtain ⟨hid, hd, hactor⟩ := hlive
    exact h.minds
      (Pairing.mirrors_defineProperty (hpairs hid) key (hpairs hd) (hpairs hactor)).follows
  | defineHidden id key v actor =>
    obtain ⟨hid, hv, hactor⟩ := hlive
    exact h.minds
      (Pairing.mirrors_defineHidden (hpairs hid) key (hpairs hv) (hpairs hactor)).follows
  | deleteProperty id key actor =>
    exact hdiscard
      (Pairing.mirrors_deleteProperty (hpairs hlive.1) key (hpairs hlive.2)).follows
  | setPrototype id proto actor =>
    obtain ⟨hid, hproto, hactor⟩ := hlive
    exact h.minds
      (Pairing.mirrors_setPrototype (hpairs hid) (hpairs hproto) (hpairs hactor)).follows
  | preventExtensions id actor =>
    exact h.minds (Pairing.mirrors_preventExtensions (hpairs hlive.1) (hpairs hlive.2)).follows
  | setOwnerOf id owner actor =>
    obtain ⟨hid, howner, hactor⟩ := hlive
    exact h.minds
      (Pairing.mirrors_setOwnerOf (hpairs hid) (hpairs howner) (hpairs hactor)).follows
  | advance millis => exact h.minds (Pairing.mirrors_advance millis).follows
  | wait time => exact h.minds (Pairing.mirrors_waitUntil time).follows
  | setClock time => exact h.minds (Pairing.mirrors_setClock time).follows
  | replaceClock clock => exact h.minds (Pairing.mirrors_replaceClock clock).follows
  | collect => exact hplain.elim
  | step => exact hplain.elim
  | run fuel => exact hplain.elim

/-!
## A new machine is sound

The root owner and the global scope come first, and the builtins are made of what is there. Last of
all the root owner gets a prototype, one that inherits from nothing.
-/

/-- The object that is named the first prototype inherits from nothing, and it is not the root
owner. -/
structure Founded (m : Machine) : Prop where
  tidy : m.heap.Tidy
  root : m.heap.object? m.rootOwner ≠ none
  base : ∀ id, m.builtins.get? "Object.prototype" = some (.object id) →
    m.heap.protoLink id = some none ∧ id ≠ m.rootOwner

theorem protoLink_modifyObject {h : Heap} {id : ObjectId} {f : Object → Object}
    (hf : ∀ o, (f o).proto = o.proto) : (h.modifyObject id f).protoLink = h.protoLink := by
  funext other
  unfold Heap.protoLink
  rw [Heap.object?_modifyObject]
  split
  · cases h.object? other with
    | none => rfl
    | some o => exact congrArg some (hf o)
  · rfl

theorem founded_alloc {m : Machine} (hm : m.Founded) (o : Object) :
    Founded { m with heap := (m.heap.allocObject o).2 } where
  tidy := hm.tidy.allocObject o
  root := by
    obtain ⟨root, hroot⟩ := Option.ne_none_iff_exists'.1 hm.root
    simp [hm.tidy.allocObject_of_live o hroot]
  base id hid := by
    obtain ⟨hlink, hne⟩ := hm.base id hid
    obtain ⟨base, hbase, hproto⟩ := Option.map_eq_some_iff.1 hlink
    exact ⟨by rw [Heap.protoLink, hm.tidy.allocObject_of_live o hbase, Option.map_some, hproto], hne⟩

theorem keeps_founded_setBuiltin {name : String} (hname : name ≠ "Object.prototype") (v : Value) :
    Keeps Founded (setBuiltin name v) :=
  keeps_modify fun m hm => ⟨hm.tidy, hm.root, fun id hid => by
    refine hm.base id ?_
    rwa [Table.get?_insert, if_neg hname.symm] at hid⟩

theorem established_founded : Established Founded where
  alloc o := keeps_modifyGet fun m hm => founded_alloc hm o
  modifyObject id f hf := (keeps_query _).bind fun _ => keeps_modify fun m hm => by
    refine ⟨hm.tidy.modifyObject id f, ?_, fun base hbase => ?_⟩
    · dsimp only
      rw [Heap.object?_modifyObject]
      split
      · simpa using hm.root
      · exact hm.root
    · dsimp only
      rw [protoLink_modifyObject fun o => (hf o).1]
      exact hm.base base hbase
  setBuiltin name v hname := keeps_founded_setBuiltin hname.1 v
  modifyScope id f := keeps_modify fun m hm => ⟨hm.tidy.modifyScope id f, hm.root, hm.base⟩

/-- The first prototype is made before it is named. -/
theorem founded_base (root : Option Owner) {k : ObjectId → Exec Unit}
    (hk : ∀ id, Keeps Founded (k id)) :
    Keeps Founded (createObject none root >>= fun id =>
      setBuiltin "Object.prototype" (.object id) >>= fun _ => k id) := by
  intro m hm
  let o : Object := { owner := root, proto := none, cls := .object }
  let id := (m.heap.allocObject o).1
  let named : Machine := { m with
    heap := (m.heap.allocObject o).2
    builtins := m.builtins.insert "Object.prototype" (.object id) }
  have hne : id ≠ m.rootOwner := fun heq => hm.root (heq ▸ hm.tidy.allocObject_fresh o)
  have hlink : (m.heap.allocObject o).2.protoLink id = some none := by
    rw [Heap.protoLink, hm.tidy.allocObject_self o]
    rfl
  refine hk id named ⟨hm.tidy.allocObject o, (founded_alloc hm o).root, fun base hbase => ?_⟩
  rw [Table.get?_insert, if_pos rfl] at hbase
  obtain rfl : id = base := Value.object.inj (Option.some.inj hbase)
  exact ⟨hlink, hne⟩

/-! ## The root owner and the global scope -/

section Rooted

variable (config : Config) (clock : Host.Clock)

theorem object?_rooted {id : ObjectId} {o : Object}
    (h : (rooted config clock).heap.object? id = some o) :
    id = ⟨0⟩ ∧ o = { owner := some ⟨0⟩, proto := none, cls := .object } := by
  have hobjects : (rooted config clock).heap.objects =
      #[some { owner := some ⟨0⟩, proto := none, cls := .object }] := rfl
  obtain ⟨index⟩ := id
  rw [Heap.object?, hobjects] at h
  cases index with
  | zero => exact ⟨rfl, (Option.some.inj h).symm⟩
  | succ n => simp at h

theorem scope?_rooted {id : ScopeId} {s : Scope}
    (h : (rooted config clock).heap.scope? id = some s) :
    id = ⟨0⟩ ∧
      s = { kind := .global, owner := some ⟨0⟩, outer := none, receiver := .undefined } := by
  have hscopes : (rooted config clock).heap.scopes =
      #[some { kind := .global, owner := some ⟨0⟩, outer := none, receiver := .undefined }] := rfl
  obtain ⟨index⟩ := id
  rw [Heap.scope?, hscopes] at h
  cases index with
  | zero => exact ⟨rfl, (Option.some.inj h).symm⟩
  | succ n => simp at h

theorem sound_rooted : (rooted config clock).Sound none := by
  have hroot : (rooted config clock).heap.Live (⟨0⟩ : ObjectId) := fun h => by cases h
  have hglobal : (rooted config clock).heap.Live (⟨0⟩ : ScopeId) := fun h => by cases h
  have hprotos : (rooted config clock).heap.protoLink ⟨0⟩ = some none := rfl
  have htargets : (rooted config clock).heap.targetLink ⟨0⟩ = some none := rfl
  have houters : (rooted config clock).heap.outerLink ⟨0⟩ = some none := rfl
  exact {
    tidy := (vacant_rooted config clock).tidy
    object := fun id o ho => by
      obtain ⟨-, rfl⟩ := object?_rooted config clock ho
      exact ⟨(within_some _ _).2 hroot, within_none _, within_emptyTable, within_none _⟩
    scope := fun id s hs => by
      obtain ⟨-, rfl⟩ := scope?_rooted config clock hs
      exact ⟨(within_some _ _).2 hroot, within_none _, within_undefined _, within_emptyTable⟩
    protos := fun id hid => by
      obtain ⟨o, ho⟩ := Option.ne_none_iff_exists'.1 hid
      obtain ⟨rfl, -⟩ := object?_rooted config clock ho
      exact ⟨0, .last hprotos⟩
    targets := fun id hid => by
      obtain ⟨o, ho⟩ := Option.ne_none_iff_exists'.1 hid
      obtain ⟨rfl, -⟩ := object?_rooted config clock ho
      exact ⟨0, .last htargets⟩
    outers := fun id hid => by
      obtain ⟨s, hs⟩ := Option.ne_none_iff_exists'.1 hid
      obtain ⟨rfl, -⟩ := scope?_rooted config clock hs
      exact ⟨0, .last houters⟩
    globalScope := hglobal
    rootOwner := hroot
    builtins := within_emptyTable
    threads := fun t ht => by cases ht
    early := within_nil _
    sorted := ⟨.nil, fun t ht => by cases ht⟩ }

end Rooted

/-! ## The whole start -/

theorem founded_rooted (config : Config) (clock : Host.Clock) :
    (rooted config clock).Founded where
  tidy := (vacant_rooted config clock).tidy
  root := fun h => by cases h
  base := fun id hid => by cases hid

/-- The root owner inherits from the first prototype at last. -/
theorem Sound.setRootPrototype {m : Machine} (h : m.Sound none) (hm : m.Founded) {id : ObjectId}
    (hid : m.builtins.get? "Object.prototype" = some (.object id)) :
    ({ m with heap := m.heap.modifyObject m.rootOwner fun o => { o with proto := some id } } :
      Machine).Sound none := by
  obtain ⟨hlink, hne⟩ := hm.base id hid
  have hmachines := h.machines
  have hlive : m.heap.Live id := fun hfree => by
    rw [Heap.protoLink, hfree] at hlink
    cases hlink
  have hkept : (m.heap.modifyObject m.rootOwner fun o => { o with proto := some id }).protoLink id =
      some none := by
    rw [Heap.protoLink, Heap.object?_modifyObject,
      if_neg fun heq => hne (Heap.index_injective heq.symm)]
    exact hlink
  have hheap : (m.heap.self.acting none).Heaps
      (m.heap.modifyObject m.rootOwner fun o => { o with proto := some id })
      (m.heap.modifyObject m.rootOwner fun o => { o with proto := some id }) :=
    hmachines.heap.modifyObject
      (fun o ho => ⟨{ ho with proto := (within_some _ id).2 hlive }, rfl⟩) (fun _ => rfl)
      (hmachines.heap.protos_setPrototype fun next hnext => by
        obtain rfl := Option.some.inj hnext
        exact ⟨0, .last hkept⟩)
  exact sound_of_machines (hmachines.setHeap (le_refl _) hheap) trivial

theorem keeps_founded_install : Keeps Founded Builtin.install :=
  Builtin.keeps_install established_founded (fun root _ hk => founded_base root hk)
    (Builtin.keeps_installPrimitive established_founded (keeps_founded_setBuiltin (by decide)))

theorem sound_install {m : Machine} (h : m.Sound none) : (after Builtin.install m).Sound none :=
  (h.minds Builtin.follows_install).sound

/-- A new machine is sound. -/
theorem sound_boot (config : Config) (clock : Host.Clock) :
    (after boot (blank config clock)).Sound none := by
  unfold boot
  have hroot : (after bootstrap (blank config clock)).Sound none ∧
      (after bootstrap (blank config clock)).Founded := by
    rw [after_of_ok (bootstrap_blank config clock)]
    exact ⟨sound_rooted config clock, founded_rooted config clock⟩
  refine after_bind_of (P := fun m => m.Sound none ∧ m.Founded) (Q := fun m => m.Sound none)
    hroot (fun _ h => h.1) fun _ m _ hm => ?_
  have hinstall : (after Builtin.install m).Sound none ∧ (after Builtin.install m).Founded :=
    ⟨sound_install hm.1, keeps_founded_install m hm.2⟩
  refine after_bind_of (P := fun m => m.Sound none ∧ m.Founded) (Q := fun m => m.Sound none)
    hinstall (fun _ h => h.1) fun _ m _ hm => ?_
  have hnamed : (after (builtinObject "Object.prototype") m) = m := after_query _ m
  refine after_bind_of (P := fun n => n = m) (Q := fun m => m.Sound none)
    hnamed (fun _ h => h ▸ hm.1) fun id n hid hn => ?_
  subst hn
  have hbase : n.builtins.get? "Object.prototype" = some (.object id) := by
    obtain ⟨hid, -⟩ := query_eq_ok_iff.1 hid
    cases hget : n.builtins.get? "Object.prototype" with
    | none => simp [hget] at hid
    | some v =>
      rw [hget] at hid
      cases v <;> cases hid
      rfl
  have hchanged : (after (modifyObject n.rootOwner fun o => { o with proto := some id }) n).Sound
      none := by
    obtain ⟨root, hroot⟩ := Option.ne_none_iff_exists'.1 hm.2.root
    have hread : heapQuery (·.object n.rootOwner) n = .ok root n :=
      query_run_ok (Heap.object_eq_ok_iff.2 hroot)
    rw [modifyObject, after_bind, hread]
    exact hm.1.setRootPrototype hm.2 hbase
  have hstarted : HostOnly fun m => { m with
      clock := m.clock.read.2, previousElapsed := -m.clock.read.1 } :=
    ⟨fun _ _ _ _ _ _ _ _ _ => rfl, fun _ => rfl, fun _ => rfl⟩
  rw [after, bind_run_of_ok (get_run n)]
  exact after_bind_of (P := fun m => m.Sound none) hchanged (fun _ h => h) fun _ m _ hm =>
    hm.host hstarted

theorem sound_of_create {config : Config} {clock : Host.Clock} {m : Machine}
    (h : create config clock = .ok m) : m.Sound none := by
  have hboot := sound_boot config clock
  rwa [after_of_ok (create_eq_ok_iff.1 h)] at hboot

/-!
## Hosts that name handles in use

A machine is curated when its host, and every host function, names only handles in use. Such a
machine is sound between any two requests.
-/

variable {natives : Natives} {turn : Option ThreadId} {m m' : Machine}

/-! ## Host functions -/

/-- A request is made whose handles are in use, which steps no thread and collects no garbage. -/
def Requests (natives : Natives) (m m' : Machine) : Prop :=
  ∃ r : Request, r.Plain ∧ r.Live m.heap ∧ m' = after (r.perform natives) m

/-- A host function that is called with handles in use makes requests with handles in use, and so is
what it answers. -/
structure Courteous (natives : Natives) (code : NativeCode) : Prop where
  requests : ∀ c m, m.heap.Live c → Relation.ReflTransGen (Requests natives) m (after (code c) m)
  reply : ∀ c m reply n, m.heap.Live c → code c m = .ok reply n → n.heap.Live reply
  failure : ∀ c m e n, m.heap.Live c → code c m = .error e n → n.heap.Live e

theorem Sound.requests (h : m.Sound turn) (hrequests : Relation.ReflTransGen (Requests natives) m m') :
    m'.Sound turn ∧ ∀ y, m.heap.InUse y → m'.heap.InUse y := by
  induction hrequests with
  | refl => exact ⟨h, fun _ => id⟩
  | tail _ hlast ih =>
    obtain ⟨r, hplain, hlive, rfl⟩ := hlast
    have hminds : Minds turn (r.perform natives) _ := ih.1.minds_request hplain hlive
    exact ⟨hminds.sound, fun y hy => hminds.kept y (ih.2 y hy)⟩

theorem careful_of_courteous {code : NativeCode} (h : Courteous natives code) : Careful code := by
  intro c m hm hc
  obtain ⟨hsound, hkept⟩ := hm.requests (h.requests c m hc)
  exact ⟨hsound, fun a n => h.reply c m a n hc, fun e n => h.failure c m e n hc, hkept⟩

/-- A host has the builtins, and functions of its own that only alter the machine and that make
requests with handles in use. -/
def Hosting (natives : Natives) : Prop :=
  ∀ e ∈ natives, e ∈ Builtin.natives ∨
    (Civil False e.2.call ∧ Courteous natives e.2.call) ∧
      ∀ code, e.2.construct = some code → Civil False code ∧ Courteous natives code

theorem hosting_builtins : Hosting Builtin.natives := fun _ he => .inl he

theorem Hosting.civil (h : Hosting natives) : natives.Each (Civil False) := fun e he =>
  (h e he).elim (Builtin.each_civil e) fun h => ⟨h.1.1, fun code hcode => (h.2 code hcode).1⟩

theorem Hosting.careful (h : Hosting natives) : natives.Each Careful := fun e he =>
  (h e he).elim (Builtin.each_careful e) fun h =>
    ⟨careful_of_courteous h.1.2, fun code hcode => careful_of_courteous (h.2 code hcode).2⟩

/-! ## Steps and collections -/

theorem Sound.rests (h : m.Sound none) (hcalm : m.Calm none) :
    Pairing.Rests True (Calm none) (m.heap.self.acting none) m m :=
  ⟨Iff.rfl, rfl, h.machines, hcalm, hcalm⟩

theorem sound_of_meets {α : Type} [Carried α] {Q : Machine → Prop} {x : Exec α}
    (h : Pairing.Meets True Q x x m m) : (after x m).Sound none := by
  obtain ⟨q, hwhole, hactor, hagree, -, -⟩ := h
  have hsound {n : Machine} (hn : q.Machines n n) : n.Sound none :=
    hactor ▸ sound_of_machines hn (hwhole.2 trivial)
  unfold after
  cases hrun : x m with
  | ok a n =>
    rw [hrun] at hagree
    exact hsound hagree.1
  | error e n =>
    rw [hrun] at hagree
    exact hsound hagree.1

theorem after_discard {α : Type} (x : Exec α) (m : Machine) :
    after (do let _ ← x) m = after x m := by
  rw [after_bind]
  unfold after
  cases x m <;> rfl

/-- A request with handles in use leaves a machine sound. -/
theorem Sound.request (h : m.Sound none) (hcalm : m.Calm none) (hnatives : Hosting natives)
    {r : Request} (hlive : r.Live m.heap) : (after (r.perform natives) m).Sound none := by
  have hobeyed := obeyed_of_careful hnatives.careful
  have hpolite : natives.Each (Polite False False) :=
    hnatives.civil.mono fun _ hcode => ⟨hcode, False.elim⟩
  have hrests := h.rests hcalm
  cases r with
  | collect =>
    have hcollected : (m.heap.self.acting none).keeping m true |>.Machines (m.collectIf true)
        (m.collectIf true) := (hrests.collectIf fun _ => rfl).machines
    exact sound_of_machines hcollected trivial
  | step =>
    rw [Request.perform, after_discard]
    exact sound_of_meets (Pairing.meets_stepOnce hpolite hobeyed hrests)
  | run fuel =>
    rw [Request.perform, after_discard]
    exact sound_of_meets (Pairing.meets_runToQuiescence hpolite hobeyed hrests fuel)
  | _ => exact Minds.sound (h.minds_request (by trivial) hlive)

/-! ## Curated machines -/

/-- A machine that comes from a new one by requests of a host that names only handles in use. A
request may fail, but a machine whose counters ran out is gone. -/
inductive Curated (natives : Natives) : Machine → Prop where
  | create {config : Config} {clock : Host.Clock} {m : Machine} (h : create config clock = .ok m) :
    Curated natives m
  | request {m : Machine} (h : Curated natives m) (r : Request) (hlive : r.Live m.heap)
    (hcount : ∀ m', r.perform natives m ≠ .error .overflow m') :
    Curated natives (after (r.perform natives) m)

namespace Curated

theorem reachable (h : Curated natives m) : Reachable natives m := by
  induction h with
  | create h => exact .create h
  | request h r _ hcount ih => exact ih.request r hcount

theorem calm (h : Curated natives m) (hnatives : Hosting natives) : m.Calm none :=
  let ⟨ho, hq⟩ := h.reachable.orderly hnatives.civil
  ⟨ho, hq⟩

/-- Every curated machine is sound. -/
theorem sound (h : Curated natives m) (hnatives : Hosting natives) : m.Sound none := by
  induction h with
  | create h => exact sound_of_create h
  | request h r hlive _ ih => exact ih.request (h.calm hnatives) hnatives hlive

theorem serve (h : Curated natives m) {requests : List Request}
    (hlive : ∀ r ∈ requests, ∀ heap, r.Live heap) (hserve : m.serve natives requests = some m') :
    Curated natives m' := by
  induction requests generalizing m with
  | nil =>
    cases hserve
    exact h
  | cons r rest ih =>
    obtain ⟨hr, hrest⟩ := List.forall_mem_cons.1 hlive
    obtain ⟨hcount, hserve⟩ := serve_cons.1 hserve
    exact ih (h.request r (hr m.heap) hcount) hrest hserve

end Curated

end Machine

end ScriptMachine
