import ScriptMachine.Proofs.Restore.Chains
import ScriptMachine.Proofs.Sound.Chains
import ScriptMachine.Proofs.Sound.Host

/-!
# Restored machines are sound

A restored machine names only slots that its snapshot filled. If the chains of its records end and
it is in order, it is sound, and a host that names only handles in use keeps it so.
-/

namespace ScriptMachine

open Machine Exec

/-! ## What is grounded is in use -/

/-- The handles in grounded data of a kind are in use. -/
def Placed (α : Type) [Referring α] [Carried α] : Prop :=
  ∀ ⦃natives : Natives⦄ ⦃h : Heap⦄ ⦃x : α⦄, Grounded (h.referents natives) x → h.Live x

section Containers

variable {α : Type} [Referring α] [Carried α]

theorem Placed.option (ha : Placed α) : Placed (Option α) :=
  fun _ _ _ hx a hsome => ha (hx a hsome)

theorem Placed.list (ha : Placed α) : Placed (List α) := fun _ _ _ hx a hmem => ha (hx a hmem)

theorem Placed.table (ha : Placed α) : Placed (Table α) :=
  fun _ _ _ hx name a hget => ha (hx name a hget)

end Containers

theorem placed_objectId : Placed ObjectId := fun _ _ _ ⟨o, ho⟩ => by
  change _ ≠ none
  rw [ho]
  exact Option.some_ne_none o

theorem placed_scopeId : Placed ScopeId := fun _ _ _ ⟨s, hs⟩ => by
  change _ ≠ none
  rw [hs]
  exact Option.some_ne_none s

theorem placed_nodeRef : Placed NodeRef := fun _ _ _ ⟨p, hp, _⟩ => by
  change _ ≠ none
  rw [hp]
  exact Option.some_ne_none p

theorem placed_value : Placed Value := fun _ _ _ hx id hid => placed_objectId (hx id hid)

theorem placed_property : Placed Property := fun _ _ _ hp => placed_value hp

theorem placed_binding : Placed Binding := fun _ _ _ hb => placed_value hb

theorem placed_callable : Placed Callable := fun _ _ f hf => by
  cases f with
  | closure node scope => exact ⟨placed_nodeRef hf.1, placed_scopeId hf.2⟩
  | bound target receiver args =>
    exact ⟨placed_objectId hf.1, placed_value hf.2.1, placed_value.list hf.2.2⟩
  | native id => trivial

theorem placed_object : Placed Object := fun _ _ _ ho =>
  ⟨placed_objectId.option ho.owner, placed_objectId.option ho.proto,
    placed_property.table ho.properties,
    placed_callable.option ho.function⟩

theorem placed_scope : Placed Scope := fun _ _ _ hs =>
  ⟨placed_objectId.option hs.owner, placed_scopeId.option hs.outer, placed_value hs.receiver,
    placed_binding.table hs.bindings⟩

theorem placed_reference : Placed Reference := fun _ _ r hr => by
  cases r with
  | binding scope name => exact placed_scopeId.option hr
  | property base key => exact placed_value hr

theorem placed_completion : Placed Completion := fun _ _ _ hc => placed_value hc

theorem placed_callInfo : Placed CallInfo := fun _ _ _ hc =>
  ⟨placed_value hc.func, placed_value hc.receiver, placed_value.list hc.args,
    placed_value.list hc.scratch, placed_objectId.option hc.newObject⟩

theorem placed_frameInfo : Placed FrameInfo := fun _ _ info hinfo => by
  cases info with
  | none => trivial
  | operands values => exact placed_value.list hinfo
  | call c => exact placed_callInfo hinfo
  | «try» phase completion => exact placed_completion.option hinfo
  | switch discriminant clause statement isMatched => exact placed_value hinfo
  | forIn keys index subject => exact placed_value hinfo
  | object id => exact placed_objectId hinfo
  | program completion => exact placed_value hinfo

theorem placed_frame : Placed Frame := fun _ _ _ hf =>
  ⟨placed_nodeRef.option hf.node, placed_scopeId hf.scope, placed_value hf.value,
    placed_reference.option hf.reference, placed_frameInfo hf.info⟩

theorem placed_outcome : Placed Outcome := fun _ _ o ho => by
  cases o with
  | completed v => exact placed_value ho
  | threw v => exact placed_value ho
  | killed => trivial

theorem placed_thread : Placed Thread := fun _ _ _ ht =>
  ⟨placed_frame.list ht.stack, placed_outcome.option ht.outcome⟩

namespace Machine

variable {natives : Natives} {m m' : Machine}

/-! ## Restored machines -/

/-- Every chain of prototypes, of bound functions and of scopes ends. -/
structure ChainsEnd (h : Heap) : Prop where
  protos : LinksEnd h.protoLink
  targets : LinksEnd h.targetLink
  outers : LinksEnd h.outerLink

/-- A restored machine that is in order, and whose chains end, is sound. -/
theorem sound_of_restore {j : Json} (h : restore natives j m = .ok () m')
    (hends : ChainsEnd m'.heap) (hcalm : m'.Calm none) : m'.Sound none := by
  obtain ⟨hgrounded, -, -⟩ := restore_grounded h
  exact
    { tidy := hcalm.orderly.tidy
      object := fun id o ho => placed_object (hgrounded.objects id o ho)
      scope := fun id s hs => placed_scope (hgrounded.scopes id s hs)
      protos := fun id hid => hends.protos id (by simpa [Heap.protoLink] using hid)
      targets := fun id hid => hends.targets id (by simpa [Heap.targetLink] using hid)
      outers := fun id hid => hends.outers id (by simpa [Heap.outerLink] using hid)
      globalScope := placed_scopeId hgrounded.globalScope
      rootOwner := placed_objectId hgrounded.rootOwner
      builtins := placed_value.table hgrounded.builtins
      threads := fun t ht _ => placed_thread (hgrounded.threads t ht)
      early := hcalm.quiet.early ▸ within_nil _
      sorted := hcalm.orderly.queued.sorted }

/-- A machine that comes from a new one, or from one that was restored in order and with chains
that end, by requests of a host that names only handles in use. -/
inductive Maintained (natives : Natives) : Machine → Prop where
  | create {config : Config} {clock : Host.Clock} {m : Machine} (h : create config clock = .ok m) :
    Maintained natives m
  | restore {j : Json} {before m : Machine} (h : restore natives j before = .ok () m)
    (hends : ChainsEnd m.heap) (hcalm : m.Calm none) : Maintained natives m
  | request {m : Machine} (h : Maintained natives m) (r : Request) (hlive : r.Live m.heap)
    (hcount : ∀ m', r.perform natives m ≠ .error .overflow m') :
    Maintained natives (after (r.perform natives) m)

/-- A request that no counter fails leaves a machine in order. -/
theorem Calm.request (h : m.Calm none) (hnatives : Hosting natives) {r : Request}
    (hcount : ∀ m', r.perform natives m ≠ .error .overflow m') :
    (after (r.perform natives) m).Calm none := by
  have hpolite : natives.Each (Polite False False) :=
    hnatives.civil.mono fun _ hcode => ⟨hcode, False.elim⟩
  exact after_of_leaves (Calm.leaves (leaves_request hpolite h.settled r)) hcount

namespace Maintained

theorem calm (h : Maintained natives m) (hnatives : Hosting natives) : m.Calm none := by
  induction h with
  | create h => exact (Curated.create h).calm hnatives
  | restore h hends hcalm => exact hcalm
  | request h r hlive hcount ih => exact ih.request hnatives hcount

/-- Every maintained machine is sound. -/
theorem sound (h : Maintained natives m) (hnatives : Hosting natives) : m.Sound none := by
  induction h with
  | create h => exact sound_of_create h
  | restore h hends hcalm => exact sound_of_restore h hends hcalm
  | request h r hlive hcount ih => exact ih.request (h.calm hnatives) hnatives hlive

end Maintained

end Machine

/-!
## When garbage is collected is not seen

Two runs of a machine that differ only in when garbage is collected are answered alike at every
step. They leave machines that are the same up to handles and garbage, and neither meets a slot
that was freed.
-/

/-! ## Requests of a run -/

namespace Request

/-- Whether a request only has to do with when garbage is collected. -/
def collects : Request → Bool
  | threshold _ => true
  | collect => true
  | _ => false

/-- A request of a run. It names no handle, and it starts, steps, settles and ends threads, defines
globals, moves the clock, brings a policy that looks at no more than which owners are the same, or
says when garbage is collected. -/
def Drives : Request → Prop
  | settle _ _ s => ∀ h : Heap, h.Live s
  | policy p => p.ComparesOwners
  | setGlobal _ v => ∀ h : Heap, h.Live v
  | declare _ v _ => ∀ h : Heap, h.Live v
  | spawnProgram _ | call .. | take _ | release | pin _ | limit .. => False
  | newScope .. | declareIn .. | setBinding .. | writeBinding .. | setScopeOwner .. => False
  | alloc _ | createObject .. | createPlainObject _ | createArray .. => False
  | createFunction .. | createClosure .. | createError .. => False
  | setProperty .. | defineProperty .. | defineHidden .. | deleteProperty .. => False
  | setPrototype .. | preventExtensions .. | setOwnerOf .. => False
  | _ => True

end Request

/-- What an operation gives or fails with. -/
def Exec.result {α : Type} (x : Exec α) (m : Machine) : Except Failure α :=
  match x m with
  | .ok a _ => .ok a
  | .error e _ => .error e

/-- What the host is told about the threads that it has stepped. -/
inductive Reply where
  | stepped (went : Bool)
  | ran (result : RunResult)

/-- What a request tells about the threads that it steps. -/
def Request.replies (natives : Natives) (m : Machine) : Request → List (Except Failure Reply)
  | step => [(result (stepOnce natives) m).map .stepped]
  | run fuel => [(result (runToQuiescence natives fuel) m).map .ran]
  | _ => []

namespace Machine

/-- What requests tell, one after the other. -/
def replies (natives : Natives) (m : Machine) : List Request → List (Except Failure Reply)
  | [] => []
  | r :: rest => r.replies natives m ++ replies natives (after (r.perform natives) m) rest

/-- The outcome of a thread, if it is kept. -/
def keptOutcome (m : Machine) (id : ThreadId) : Option Outcome :=
  ((m.thread? id).filter (·.keepOutcome)).bind (·.outcome)

end Machine

namespace Pairing

variable {w : Prop} {Q : Machine → Prop} {p : Pairing} {m m' : Machine} {natives : Natives}

/-! ## Pairs that are not one machine -/

/-- Data that names no handle stands for itself. -/
theorem pairs_of_bare {α : Type} [Carried α] {x : α} (hx : ∀ h : Heap, h.Live x) (p : Pairing) :
    p.Pairs x x := by
  have hnone (y : Handle) : ¬ ({} : Heap).self.known y := by
    cases y <;> exact fun h => h rfl
  have hbare : Within ({} : Heap).self x := hx {}
  refine ⟨Carried.within_mono (fun y hy => (hnone y hy).elim) hbare, ?_⟩
  have hext : ({} : Heap).self.Extends p :=
    ⟨fun _ h => (hnone _ h).elim, fun _ h => (hnone _ h).elim, fun _ h => (hnone _ h).elim⟩
  rw [Carried.image_of_extends hext hbare]
  exact (Carried.image_of_fixes ⟨fun _ => rfl, fun _ => rfl, fun _ => rfl⟩).symm

theorem Heaps.reslot {h h' k k' : Heap} (hp : p.Heaps h h') (hpart : ¬ p.whole)
    (hk : h.SameArenas k) (hk' : h'.SameArenas k') : p.Heaps k k' where
  same hwhole := (hpart hwhole).elim
  tidy := hk.tidy hp.tidy
  tidy' := hk'.tidy hp.tidy'
  object id hid := by
    rw [hk.object?, hk'.object?]
    exact hp.object id hid
  scope id hid := by
    rw [hk.scope?, hk'.scope?]
    exact hp.scope id hid
  program id hid := by
    rw [hk.program?, hk'.program?]
    exact hp.program id hid
  protos id hid := by
    rw [hk.protoLink]
    exact hp.protos id hid
  targets id hid := by
    rw [hk.targetLink]
    exact hp.targets id hid
  outers id hid := by
    rw [hk.outerLink]
    exact hp.outers id hid
  covers hwhole := (hpart hwhole).elim

/-- When garbage is collected next is no part of what is paired. -/
theorem Machines.reslot (hm : p.Machines m m') (hpart : ¬ p.whole) {k k' : Heap}
    (hk : m.heap.SameArenas k) (hk' : m'.heap.SameArenas k') (count count' : Nat) :
    p.Machines { m with heap := k, config := { m.config with gcThreshold := count } }
      { m' with heap := k', config := { m'.config with gcThreshold := count' } } :=
  { hm with
    same := fun hwhole => (hpart hwhole).elim
    heap := hm.heap.reslot hpart hk hk'
    rest := congrArg (fun n : Machine =>
      { n with heap := k', config := { n.config with gcThreshold := count' } }) hm.rest }

/-- What is paired in one machine, although the other one may come to differ. -/
def part (p : Pairing) : Pairing := { p with whole := False }

theorem Machines.part (hm : p.Machines m m') (hcompares : m.policy.ComparesOwners) :
    p.part.Machines m m' := by
  have hext : p.Extends p.part := ⟨fun _ _ => rfl, fun _ _ => rfl, fun _ _ => rfl⟩
  have hwithin {α : Type} [Carried α] {x : α} (hx : Within p x) : Within p.part x :=
    Carried.within_mono (p := p) (fun _ hy => hy) hx
  have hheap : p.part.Heaps m.heap m'.heap :=
    hm.heap.narrow hext (fun _ hx => hx) hm.heap.tidy hm.heap.tidy'
      (fun id o hid ho => by
        obtain ⟨o', ho', -, hw⟩ := hm.heap.object id hid
        obtain rfl := Option.some.inj (ho.symm.trans ho')
        exact ⟨ho, rfl, hwithin hw⟩)
      (fun id s hid hs => by
        obtain ⟨s', hs', -, hw⟩ := hm.heap.scope id hid
        obtain rfl := Option.some.inj (hs.symm.trans hs')
        exact ⟨hs, rfl, hwithin hw⟩)
      (fun id t _ ht => ⟨ht, rfl⟩) False.elim False.elim
  exact hm.narrow hext hheap (hwithin hm.globalScope.within) (hwithin hm.rootOwner.within)
    (hwithin hm.builtins.within) (hwithin hm.early.within)
    (hm.threads.narrow hext (hwithin hm.threads.within)) (.refl _) (.refl _) (.inr hcompares)
    False.elim False.elim

/-- A sound machine is paired with itself although a second run may come to differ. -/
theorem rests_part (hsound : m.Sound none) (hcalm : m.Calm none)
    (hcompares : m.policy.ComparesOwners) :
    Rests False (Calm none) (m.heap.self.acting none).part m m where
  whole := Iff.rfl
  actor := rfl
  machines := hsound.machines.part hcompares
  left := hcalm
  right := hcalm

/-! ## One request on both machines -/

theorem Rests.meets_of_follows {α : Type} [Carried α] {x x' : Exec α}
    (h : Rests w (Calm none) p m m') (hx : p.Follows x x') (hleft : Leaves Q x m)
    (hright : Leaves Q x' m') : Meets w Q x x' m m' := by
  obtain ⟨q, hle, hagree⟩ := hx m m' h.machines
  exact ⟨q, hle.whole.trans h.whole, hle.actor.trans h.actor, hagree, hleft, hright⟩

/-- Where one machine is not out of numbers the other one is not either, and both rest. -/
theorem Meets.rests {α : Type} [Carried α] {x x' : Exec α} (h : Meets w Q x x' m m')
    (hcount : ∀ n, x m ≠ .error .overflow n) :
    (∀ n, x' m' ≠ .error .overflow n) ∧ ∃ q, Rests w Q q (after x m) (after x' m') := by
  obtain ⟨q, hwhole, hactor, hagree, hleft, hright⟩ := h
  have hcount' : ∀ n, x' m' ≠ .error .overflow n := by
    intro n' hrun'
    rw [hrun'] at hagree
    cases hrun : x m with
    | ok a n =>
      rw [hrun] at hagree
      exact hagree
    | error e n =>
      rw [hrun] at hagree
      refine hcount n (hrun.trans ?_)
      cases e <;> first | rfl | cases hagree.2.eq
  refine ⟨hcount', q, hwhole, hactor, ?_, after_of_leaves hleft hcount,
    after_of_leaves hright hcount'⟩
  unfold after
  cases hrun : x m with
  | ok a n =>
    cases hrun' : x' m' with
    | ok a' n' =>
      rw [hrun, hrun'] at hagree
      exact hagree.1
    | error e' n' =>
      rw [hrun, hrun'] at hagree
      exact hagree.elim
  | error e n =>
    cases hrun' : x' m' with
    | ok a' n' =>
      rw [hrun, hrun'] at hagree
      exact hagree.elim
    | error e' n' =>
      rw [hrun, hrun'] at hagree
      exact hagree.1

/-- A fault that meets no free slot names no handle. -/
theorem eq_of_isFault {e e' : Failure} (he : e.isFault = true) (h : p.Pairs e e') : e' = e := by
  rw [h.eq]
  cases e with
  | thrown v message => cases he
  | _ => rfl

/-- An operation that gives data without handles and fails with faults only is answered alike, and
meets no free slot. -/
theorem Meets.result_eq {α : Type} [Carried α] {x : Exec α} (h : Meets w Q x x m m')
    (hplain : ∀ (q : Pairing) (a : α), image q a = a) (hfaults : Faults x) :
    result x m' = result x m ∧ Firm (result x m) := by
  obtain ⟨q, -, -, hagree, -, -⟩ := h
  unfold result
  cases hrun : x m with
  | ok a n =>
    cases hrun' : x m' with
    | ok a' n' =>
      rw [hrun, hrun'] at hagree
      exact ⟨congrArg Except.ok (hagree.2.eq.trans (hplain q a)), fun e he => by cases he⟩
    | error e' n' =>
      rw [hrun, hrun'] at hagree
      exact hagree.elim
  | error e n =>
    cases hrun' : x m' with
    | ok a' n' =>
      rw [hrun, hrun'] at hagree
      exact hagree.elim
    | error e' n' =>
      rw [hrun, hrun'] at hagree
      refine ⟨congrArg Except.error (eq_of_isFault (hfaults m e n hrun) hagree.2), ?_⟩
      rintro _ ⟨⟩
      exact Failure.not_dangling_of_within hagree.2.within

section Requests

variable (hnatives : natives.Each (Polite False False)) (hobeyed : Obeyed False natives)

include hnatives hobeyed

/-- A request of a run comes to the same on both machines. -/
theorem Rests.meets_request (h : Rests False (Calm none) p m m') {r : Request} (hr : r.Drives)
    (hcollects : r.collects = false) :
    Meets False (Calm none) (r.perform natives) (r.perform natives) m m' := by
  have hleft : Leaves (Calm none) (r.perform natives) m :=
    Calm.leaves (leaves_request hnatives h.left.settled r)
  have hright : Leaves (Calm none) (r.perform natives) m' :=
    Calm.leaves (leaves_request hnatives h.right.settled r)
  cases r with
  | load source =>
    exact h.meets_of_follows ((follows_load source).bind fun _ _ _ _ _ =>
      follows_pure pairs_unit) hleft hright
  | spawn source =>
    exact h.meets_of_follows ((follows_spawn source).bind fun _ _ _ _ _ =>
      follows_pure pairs_unit) hleft hright
  | settle resolver thread s =>
    exact h.meets_of_follows (mirrors_settle resolver thread (pairs_of_bare hr p)).follows
      hleft hright
  | kill thread =>
    exact h.meets_of_follows ((mirrors_killThread thread).follows.bind fun _ _ _ _ _ =>
      follows_pure pairs_unit) hleft hright
  | policy policy =>
    exact h.meets_of_follows (mirrors_setPolicy (.inr hr)).follows hleft hright
  | pause => exact h.meets_of_follows mirrors_pause.follows hleft hright
  | resume => exact h.meets_of_follows mirrors_resume.follows hleft hright
  | stop => exact h.meets_of_follows mirrors_stop.follows hleft hright
  | setGlobal name v =>
    exact h.meets_of_follows (mirrors_setGlobal name (pairs_of_bare hr p)).follows hleft hright
  | declare name v mutable =>
    refine h.meets_of_follows (follows_get_bind fun _ _ hm => ?_) hleft hright
    exact (mirrors_declare hm.globalScope name (pairs_of_bare hr p) mutable).follows
  | define name => exact h.meets_of_follows (follows_defineGlobalNative natives name) hleft hright
  | advance millis => exact h.meets_of_follows (mirrors_advance millis).follows hleft hright
  | wait time => exact h.meets_of_follows (mirrors_waitUntil time).follows hleft hright
  | setClock time => exact h.meets_of_follows (mirrors_setClock time).follows hleft hright
  | replaceClock clock =>
    exact h.meets_of_follows (mirrors_replaceClock clock).follows hleft hright
  | step =>
    exact (meets_stepOnce hnatives hobeyed h).bind (fun _ _ _ _ _ _ _ _ hn =>
      hn.pure pairs_unit) fun _ h => h
  | run fuel =>
    exact (meets_runToQuiescence hnatives hobeyed h fuel).bind (fun _ _ _ _ _ _ _ _ hn =>
      hn.pure pairs_unit) fun _ h => h
  | collect => cases hcollects
  | threshold count => cases hcollects
  | _ => exact hr.elim

theorem Rests.replies_eq (h : Rests False (Calm none) p m m') (r : Request) :
    r.replies natives m' = r.replies natives m ∧
      ∀ reply ∈ r.replies natives m, Firm reply := by
  have hfirm {α : Type} {r : Except Failure α} (hr : Firm r) (f : α → Reply) : Firm (r.map f) := by
    rintro e he
    cases r with
    | ok a => cases he
    | error cause =>
      cases he
      exact hr e rfl
  cases r with
  | step =>
    obtain ⟨heq, hsafe⟩ := (meets_stepOnce hnatives hobeyed h).result_eq (fun _ _ => rfl)
      (faults_stepOnce natives)
    exact ⟨congrArg (fun r => [Except.map Reply.stepped r]) heq,
      fun reply hreply => List.mem_singleton.1 hreply ▸ hfirm hsafe _⟩
  | run fuel =>
    obtain ⟨heq, hsafe⟩ := (meets_runToQuiescence hnatives hobeyed h fuel).result_eq
      (fun _ _ => rfl) (faults_runToQuiescence natives fuel)
    exact ⟨congrArg (fun r => [Except.map Reply.ran r]) heq,
      fun reply hreply => List.mem_singleton.1 hreply ▸ hfirm hsafe _⟩
  | _ => exact ⟨rfl, fun _ h => by cases h⟩

/-! ## Collections on one of the machines -/

omit hobeyed in
/-- A request that is never refused leaves a machine in order. -/
theorem calm_after (h : m.Calm none) {r : Request} {n : Machine}
    (hrun : r.perform natives m = .ok () n) : (after (r.perform natives) m).Calm none :=
  after_of_leaves (Calm.leaves (leaves_request hnatives h.settled r))
    fun k h => by cases hrun.symm.trans h

omit hnatives hobeyed in
/-- What has to do with collections is never refused. -/
theorem perform_of_collects (natives : Natives) {r : Request} (hr : r.collects = true)
    (m : Machine) : r.perform natives m = .ok () (after (r.perform natives) m) := by
  cases r with
  | collect => rfl
  | threshold count => rfl
  | _ => cases hr

omit hnatives hobeyed in
theorem replies_of_collects {r : Request} (hr : r.collects = true) : r.replies natives m = [] := by
  cases r with
  | collect => rfl
  | threshold count => rfl
  | _ => cases hr

omit hobeyed in
/-- Garbage is collected on the first machine only. -/
theorem Rests.collects_left (h : Rests False (Calm none) p m m') {r : Request}
    (hr : r.collects = true) :
    ∃ q, Rests False (Calm none) q (after (r.perform natives) m) m' := by
  have hleft := calm_after hnatives h.left (perform_of_collects natives hr m)
  cases r with
  | collect =>
    have hcollected : Rests False (Calm none) (p.keeping m true) (m.collectIf true)
        (m'.collectIf false) := h.collectIf False.elim
    exact ⟨_, hcollected⟩
  | threshold count =>
    have hslots : m.heap.SameArenas { m.heap with gcThreshold := count } :=
      ⟨rfl, rfl, rfl, rfl, rfl⟩
    have hslots' : m'.heap.SameArenas m'.heap := ⟨rfl, rfl, rfl, rfl, rfl⟩
    have hmachines := h.machines.reslot (fun hwhole => h.whole.1 hwhole) hslots hslots' count
      m'.config.gcThreshold
    exact ⟨p, h.whole, h.actor, hmachines, hleft, h.right⟩
  | _ => cases hr

omit hobeyed in
/-- Garbage is collected on the second machine only. -/
theorem Rests.collects_right (h : Rests False (Calm none) p m m') {r : Request}
    (hr : r.collects = true) :
    ∃ q, Rests False (Calm none) q m (after (r.perform natives) m') := by
  have hright := calm_after hnatives h.right (perform_of_collects natives hr m')
  cases r with
  | collect =>
    have hcollected : Rests False (Calm none) (p.keeping m false) (m.collectIf false)
        (m'.collectIf true) := h.collectIf False.elim
    exact ⟨_, hcollected⟩
  | threshold count =>
    have hslots : m.heap.SameArenas m.heap := ⟨rfl, rfl, rfl, rfl, rfl⟩
    have hslots' : m'.heap.SameArenas { m'.heap with gcThreshold := count } :=
      ⟨rfl, rfl, rfl, rfl, rfl⟩
    have hmachines := h.machines.reslot (fun hwhole => h.whole.1 hwhole) hslots hslots'
      m.config.gcThreshold count
    exact ⟨p, h.whole, h.actor, hmachines, h.left, hright⟩
  | _ => cases hr

/-! ## Runs -/

omit hobeyed in
/-- Garbage is collected on the second machine before a run goes on. -/
theorem Rests.serve_right (h : Rests False (Calm none) p m m') {requests : List Request}
    (hcollects : ∀ r ∈ requests, r.collects = true) :
    ∃ k q, Rests False (Calm none) q m k ∧ ∀ rest,
      (∀ n, k.serve natives rest = some n → m'.serve natives (requests ++ rest) = some n) ∧
      m'.replies natives (requests ++ rest) = k.replies natives rest := by
  induction requests generalizing p m' with
  | nil => exact ⟨m', p, h, fun rest => ⟨fun n => id, rfl⟩⟩
  | cons r requests ih =>
    obtain ⟨hr, hrest⟩ := List.forall_mem_cons.1 hcollects
    obtain ⟨q, hq⟩ := h.collects_right hnatives hr
    obtain ⟨k, q', hk, hruns⟩ := ih hq hrest
    refine ⟨k, q', hk, fun rest => ⟨fun n hserve => ?_, ?_⟩⟩
    · refine serve_cons.2 ⟨fun n hrun => ?_, (hruns rest).1 n hserve⟩
      cases hrun.symm.trans (perform_of_collects natives hr m')
    · exact (congrArg (· ++ _) (replies_of_collects hr)).trans (hruns rest).2

/-- Runs that differ only in when garbage is collected are answered alike, and the machines that
they leave rest. -/
theorem Rests.serve (h : Rests False (Calm none) p m m') {requests requests' : List Request}
    (hdrives : ∀ r ∈ requests, r.Drives)
    (hsame : requests'.filter (!·.collects) = requests.filter (!·.collects)) {n : Machine}
    (hserve : m.serve natives requests = some n) :
    ∃ n' q, m'.serve natives requests' = some n' ∧
      m'.replies natives requests' = m.replies natives requests ∧
      (∀ reply ∈ m.replies natives requests, Firm reply) ∧
      Rests False (Calm none) q n n' := by
  induction requests generalizing p m m' requests' with
  | nil =>
    cases hserve
    have hcollects : ∀ r ∈ requests', r.collects = true := by
      simpa [List.filter_eq_nil_iff] using hsame
    obtain ⟨k, q, hk, hruns⟩ := h.serve_right hnatives hcollects
    obtain ⟨hserve', hreplies⟩ := hruns []
    rw [List.append_nil] at hserve' hreplies
    exact ⟨k, q, hserve' k rfl, hreplies, fun _ hreply => (List.not_mem_nil hreply).elim, hk⟩
  | cons r rest ih =>
    obtain ⟨hr, hrest⟩ := List.forall_mem_cons.1 hdrives
    obtain ⟨hcount, hserve⟩ := serve_cons.1 hserve
    cases hcollects : r.collects with
    | true =>
      obtain ⟨q, hq⟩ := h.collects_left hnatives hcollects
      have hfilter : requests'.filter (!·.collects) = rest.filter (!·.collects) := by
        rw [hsame, List.filter_cons_of_neg (by simp [hcollects])]
      have hreplies : m.replies natives (r :: rest) =
          (after (r.perform natives) m).replies natives rest :=
        congrArg (· ++ _) (replies_of_collects hcollects)
      rw [hreplies]
      exact ih hq hrest hfilter hserve
    | false =>
      rw [List.filter_cons_of_pos (by simp [hcollects])] at hsame
      obtain ⟨before, rest', rfl, hbefore, -, hfilter⟩ := List.filter_eq_cons_iff.1 hsame
      have hcollected : ∀ r ∈ before, r.collects = true := fun r hr => by
        simpa using hbefore r hr
      obtain ⟨k, q, hk, hruns⟩ := h.serve_right hnatives hcollected
      obtain ⟨hserve', hreplies⟩ := hruns (r :: rest')
      obtain ⟨heq, hfirm⟩ := hk.replies_eq hnatives hobeyed r
      obtain ⟨hcount', q', hnext⟩ := (hk.meets_request hnatives hobeyed hr hcollects).rests
        hcount
      obtain ⟨n', q'', hn', hsame', hfirm', hrests⟩ := ih hnext hrest hfilter hserve
      refine ⟨n', q'', hserve' n' (serve_cons.2 ⟨hcount', hn'⟩), ?_, ?_, hrests⟩
      · rw [hreplies]
        exact congrArg₂ (· ++ ·) heq hsame'
      · intro reply hreply
        exact (List.mem_append.1 hreply).elim (hfirm reply) (hfirm' reply)

end Requests

end Pairing

namespace Machine

variable {m : Machine}

/-- The outcome of a thread that is kept is the same on both sides. -/
theorem keptOutcome_pairs {p : Pairing} {m m' : Machine} (hm : p.Machines m m') (id : ThreadId) :
    p.Pairs (m.keptOutcome id) (m'.keptOutcome id) := by
  have hkept (n : Machine) : (n.thread? id).filter (·.keepOutcome) =
      ((n.thread? id).filter p.shows).filter (·.keepOutcome) := by
    rw [Option.filter_filter]
    refine congrArg (Option.filter · (n.thread? id)) (funext fun t => ?_)
    unfold Pairing.shows
    cases t.keepOutcome <;> simp
  unfold keptOutcome
  rw [hkept, hkept]
  obtain ⟨hw, heq⟩ := hm.shown id
  rw [heq]
  cases ht : (m.thread? id).filter p.shows with
  | none => exact Pairing.pairs_none
  | some t =>
    have hthread : Within p t := hw t ht
    cases hkeep : t.keepOutcome with
    | false => simpa [Option.filter, hkeep] using Pairing.pairs_none
    | true => simpa [Option.filter, hkeep] using ⟨hthread.outcome, rfl⟩

/-- Whatever run a maintained machine goes through, and whenever garbage is collected on the way,
its steps and runs are answered alike and meet no free slot, the same is written to the console,
the outcomes that are kept are the same, and so is everything else but for handles and garbage. Its
policies may say different things of different owners, but not because of their numbers. -/
theorem Maintained.collections_unseen (h : Maintained Builtin.natives m)
    (hcompares : m.policy.ComparesOwners) {requests requests' : List Request}
    (hdrives : ∀ r ∈ requests, r.Drives)
    (hsame : requests'.filter (!·.collects) = requests.filter (!·.collects)) {n : Machine}
    (hserve : m.serve Builtin.natives requests = some n) :
    ∃ n', m.serve Builtin.natives requests' = some n' ∧
      m.replies Builtin.natives requests' = m.replies Builtin.natives requests ∧
      (∀ reply ∈ m.replies Builtin.natives requests, Firm reply) ∧
      n'.console = n.console ∧
      ∃ p : Pairing, p.Machines n n' ∧ ∀ id, p.Pairs (n.keptOutcome id) (n'.keptOutcome id) := by
  have hpolite : Builtin.natives.Each (Polite False False) :=
    hosting_builtins.civil.mono fun _ hcode => ⟨hcode, False.elim⟩
  have hobeyed : Pairing.Obeyed False Builtin.natives := fun _ _ =>
    Pairing.answers_of_carries Builtin.each_carries
  have hrests := Pairing.rests_part (h.sound hosting_builtins) (h.calm hosting_builtins)
    hcompares
  obtain ⟨n', p, hserve', hreplies, hfirm, hn⟩ := hrests.serve hpolite hobeyed hdrives hsame hserve
  exact ⟨n', hserve', hreplies, hfirm, hn.machines.console, p, hn.machines,
    keptOutcome_pairs hn.machines⟩

/-- A program that makes garbage is run, and garbage is collected once. -/
def rareRequests : List Request :=
  [.spawn "var kept = []; for (var i = 0; i < 3; i++) kept.push({}); kept.join();", .step, .step,
    .collect, .run 200]

/-- The same program is run, and garbage is collected whenever it can be. -/
def frequentRequests : List Request :=
  [.threshold 1, .spawn "var kept = []; for (var i = 0; i < 3; i++) kept.push({}); kept.join();",
    .collect, .step, .collect, .step, .run 200]

theorem collections_unseen_looping : ∃ m n n', Maintained Builtin.natives m ∧
    m.serve Builtin.natives rareRequests = some n ∧
    m.serve Builtin.natives frequentRequests = some n' ∧
    m.replies Builtin.natives frequentRequests = m.replies Builtin.natives rareRequests ∧
    (∀ reply ∈ m.replies Builtin.natives rareRequests, Firm reply) ∧ n'.console = n.console ∧
    ∃ p : Pairing, p.Machines n n' ∧
      ∀ id, p.Pairs (n.keptOutcome id) (n'.keptOutcome id) := by
  have hruns : (hosted Builtin.natives {} rareRequests).isSome = true := by
    rw [hosted_eq]
    decide +kernel
  obtain ⟨n, hn⟩ := Option.isSome_iff_exists.1 hruns
  obtain ⟨m, hm, hserve⟩ := Option.bind_eq_some_iff.1 hn
  have hmaintained : Maintained Builtin.natives m := .create (create_of_toOption hm)
  have hdrives : ∀ r ∈ rareRequests, r.Drives := by
    simp [rareRequests, Request.Drives]
  have hsame : frequentRequests.filter (!·.collects) = rareRequests.filter (!·.collects) := rfl
  have hpolicy : m.policy = Policy.everyone :=
    (unstarted_of_create (create_of_toOption hm)).1
  obtain ⟨n', hserve', hrest⟩ := hmaintained.collections_unseen
    (hpolicy ▸ Policy.comparesOwners_everyone) hdrives hsame hserve
  exact ⟨m, n, n', hmaintained, hserve, hserve', hrest⟩

/-- A host that names a slot that was freed lets a step meet it. -/
theorem freed_slot_met : ∃ m n, Reachable Builtin.natives m ∧
    stepOnce Builtin.natives m = .error (.fault (.danglingObject ⟨103⟩)) n := by
  have hchecks : (hosted Builtin.natives {} (staleRequests ++
      [.setGlobal "x" (.object ⟨104⟩), .spawn "x.foo;", .step, .step, .step, .step, .step])).any
      (fun m => (failure? (stepOnce Builtin.natives) m).any fun failed =>
        decide (failed.1 = .fault (.danglingObject ⟨103⟩))) = true := by
    rw [hosted_eq]
    decide +kernel
  obtain ⟨m, hm, hchecks⟩ := (Option.any_eq_true _ _).1 hchecks
  obtain ⟨failed, hfailed, hfault⟩ := (Option.any_eq_true _ _).1 hchecks
  exact ⟨m, failed.2, reachable_of_hosted hm,
    of_decide_eq_true hfault ▸ error_of_failure? hfailed⟩

end Machine

end ScriptMachine
