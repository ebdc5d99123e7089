import ScriptMachine.Proofs.Order.Call

/-!
# The thread table

A live thread has a stack in order, a blocked one waits in the call on top of its stack, and a
finished one has nothing but an outcome. Numbers of threads, places in the run queue and resolvers
were all issued. All of this holds whatever the host does between two steps and whatever a host
function does in the middle of one, when the stepped frame is off the stack of its thread.
-/

namespace ScriptMachine

open Exec Stack

namespace Machine

/-! ## Numbers and places in the run queue -/

/-- Threads have numbers and places in the run queue that were issued, each to one of them. -/
structure Queued (threads : List Thread) (nextThread nextQueued : Nat) : Prop where
  sorted : Sorted threads nextThread
  behind : ∀ t ∈ threads, t.queued < nextQueued
  apart : threads.Pairwise fun t u => t.queued ≠ u.queued

namespace Queued

variable {threads : List Thread} {nextThread nextThread' nextQueued nextQueued' : Nat}

theorem mono (h : Queued threads nextThread nextQueued) (hthread : nextThread ≤ nextThread')
    (hqueued : nextQueued ≤ nextQueued') : Queued threads nextThread' nextQueued' where
  sorted := ⟨h.sorted.ascending, fun t ht => Nat.lt_of_lt_of_le (h.sorted.issued t ht) hthread⟩
  behind := fun t ht => Nat.lt_of_lt_of_le (h.behind t ht) hqueued
  apart := h.apart

theorem sublist (h : Queued threads nextThread nextQueued) {kept : List Thread}
    (hsub : kept.Sublist threads) : Queued kept nextThread nextQueued :=
  ⟨h.sorted.sublist hsub, fun t ht => h.behind t (hsub.subset ht), h.apart.sublist hsub⟩

theorem map (h : Queued threads nextThread nextQueued) {g : Thread → Thread}
    (hid : ∀ t, (g t).id = t.id) (hqueued : ∀ t, (g t).queued = t.queued) :
    Queued (threads.map g) nextThread nextQueued := by
  refine ⟨h.sorted.map hid, fun t ht => ?_, List.pairwise_map.2 ?_⟩
  · obtain ⟨u, hu, rfl⟩ := List.mem_map.1 ht
    rw [hqueued]
    exact h.behind u hu
  · simpa only [hqueued] using h.apart

/-- A thread is changed, and may be put behind all that wait. -/
theorem update (h : Queued threads nextThread nextQueued) {id : ThreadId} {f : Thread → Thread}
    (hid : ∀ t, (f t).id = t.id)
    (hqueued : ∀ t, (f t).queued = t.queued ∨
      nextQueued ≤ (f t).queued ∧ (f t).queued < nextQueued')
    (hle : nextQueued ≤ nextQueued') :
    Queued (updateThread id f threads) nextThread nextQueued' := by
  have hg (t : Thread) : (if t.id == id then f t else t).id = t.id := by
    split
    · exact hid t
    · rfl
  have hplace (t : Thread) : (if t.id == id then f t else t).queued = t.queued ∨
      t.id = id ∧ nextQueued ≤ (f t).queued ∧
        (if t.id == id then f t else t).queued = (f t).queued := by
    by_cases heq : t.id = id
    · simp only [heq, beq_self_eq_true, if_true]
      exact (hqueued t).imp_right fun hlast => ⟨trivial, hlast.1, trivial⟩
    · simp [heq]
  rw [updateThread_eq_map h.sorted.ascending]
  refine ⟨h.sorted.map hg, fun t ht => ?_, List.pairwise_map.2 ?_⟩
  · obtain ⟨u, hu, rfl⟩ := List.mem_map.1 ht
    have hbehind := h.behind u hu
    rcases hqueued u with hsame | hlast
    · split
      · omega
      · omega
    · split
      · omega
      · omega
  · refine (h.sorted.ascending.and h.apart).imp_of_mem fun {t u} ht hu hne => ?_
    have htu : ¬ (t.id = id ∧ u.id = id) := by
      rintro ⟨rfl, hsame⟩
      have hlt := hne.1
      rw [hsame] at hlt
      omega
    have hbt := h.behind t ht
    have hbu := h.behind u hu
    have hapart := hne.2
    rcases hplace t with ht' | ⟨htid, ht', heq⟩
    · rcases hplace u with hu' | ⟨huid, hu', heq'⟩
      · rwa [ht', hu']
      · rw [ht', heq']
        omega
    · rcases hplace u with hu' | ⟨huid, hu', heq'⟩
      · rw [hu', heq]
        omega
      · exact absurd ⟨htid, huid⟩ htu

/-- A new thread comes last. -/
theorem insert (h : Queued threads nextThread nextQueued) {t : Thread}
    (hid : t.id = ⟨nextThread⟩) (hplace : t.queued = nextQueued)
    (hthread : nextThread < nextThread') (hqueued : nextQueued < nextQueued') :
    insertThread t threads = threads ++ [t] ∧
      Queued (insertThread t threads) nextThread' nextQueued' := by
  have hlast (u : Thread) (hu : u ∈ threads) : u.id.index < t.id.index := by
    rw [hid]
    exact h.sorted.issued u hu
  have hgrown := h.mono (Nat.le_of_lt hthread) (Nat.le_of_lt hqueued)
  rw [insertThread_eq_append hlast]
  refine ⟨rfl, hgrown.sorted.append hlast (by rwa [hid]), fun u hu => ?_,
    List.pairwise_append.2 ⟨h.apart, List.pairwise_singleton _ t, fun u hu v hv => ?_⟩⟩
  · rcases List.mem_append.1 hu with hu | hu
    · exact hgrown.behind u hu
    · obtain rfl := List.mem_singleton.1 hu
      rwa [hplace]
  · obtain rfl := List.mem_singleton.1 hv
    have hbehind := h.behind u hu
    omega

end Queued

end Machine

/-! ## Threads -/

/-- What is so of a thread. The one whose turn it is has the frames below the stepped one left on its
stack. Threads are `steady` when no host function parks its thread after it ended it. -/
structure Thread.Stands (strict steady : Prop) (turn : Option (ThreadId × List Frame))
    (h : Heap) (t : Thread) : Prop where
  finished : t.isZombie = true → t.stack.frames = [] ∧ t.outcome.isSome = true
  unfinished : steady → t.isZombie = false → t.outcome = none
  inTurn : ∀ rest, turn = some (t.id, rest) → t.isZombie = false →
    t.status = .ready ∧ t.stack.frames = rest
  stacked : (∀ rest, turn ≠ some (t.id, rest)) → t.isZombie = false →
    Stacked strict h t.stack.frames ∧
      (t.status = .blocked → ∃ f rest, t.stack.frames = f :: rest ∧ Machine.Waits f)

namespace Thread.Stands

variable {strict steady : Prop} {turn turn' : Option (ThreadId × List Frame)}
  {h h' : Heap} {t u : Thread}

theorem transfer (hs : t.Stands strict steady turn h)
    (hsame : ∀ f ∈ t.stack.frames, ∀ x, f.roots.Holds x → h.Same h' x) :
    t.Stands strict steady turn h' where
  finished := hs.finished
  unfinished := hs.unfinished
  inTurn := hs.inTurn
  stacked := fun hother hlive =>
    let ⟨hstack, hblocked⟩ := hs.stacked hother hlive
    ⟨hstack.transfer hsame, hblocked⟩

theorem retained (hs : t.Stands strict steady turn h) (hr : h.Retains h') :
    t.Stands strict steady turn h' :=
  hs.transfer fun _ _ x _ => hr.same x

/-- A thread whose turn it is not does not depend on whose it is. -/
theorem other (hs : t.Stands strict steady turn h) (ht : ∀ rest, turn ≠ some (t.id, rest))
    (ht' : ∀ rest, turn' ≠ some (t.id, rest)) : t.Stands strict steady turn' h where
  finished := hs.finished
  unfinished := hs.unfinished
  inTurn := fun rest hrest => absurd hrest (ht' rest)
  stacked := fun _ => hs.stacked ht

/-- A thread that was ended is ended, whosever turn it is. -/
theorem of_ended (hzombie : t.isZombie = true) (hframes : t.stack.frames = [])
    (houtcome : t.outcome.isSome = true) : t.Stands strict steady turn h := by
  have hnot (hlive : t.isZombie = false) : False := by
    rw [hzombie] at hlive
    cases hlive
  exact ⟨fun _ => ⟨hframes, houtcome⟩, fun _ hlive => (hnot hlive).elim,
    fun _ _ hlive => (hnot hlive).elim, fun _ hlive => (hnot hlive).elim⟩

/-- The thread whose turn it is runs what is left of its stack. -/
theorem of_turn {id : ThreadId} {frames : List Frame} (hid : t.id = id)
    (hready : t.status = .ready) (hframes : t.stack.frames = frames)
    (houtcome : steady → t.outcome = none) :
    t.Stands strict steady (some (id, frames)) h := by
  have hlive : t.isZombie = false := by
    unfold Thread.isZombie
    rw [hready]
    rfl
  refine ⟨fun h => ?_, fun hsteady _ => houtcome hsteady, fun rest hrest _ => ?_, fun h => ?_⟩
  · rw [hlive] at h
    cases h
  · cases hrest
    exact ⟨hready, hframes⟩
  · exact absurd (by rw [hid]) (h frames)

/-- A thread that is only timed anew stands as it did. -/
theorem same (hs : t.Stands strict steady turn h) (hid : u.id = t.id)
    (hstatus : u.status = t.status) (hstack : u.stack = t.stack) (houtcome : u.outcome = t.outcome) :
    u.Stands strict steady turn h := by
  have hzombie : u.isZombie = t.isZombie := by
    unfold Thread.isZombie
    rw [hstatus]
  refine ⟨?_, ?_, ?_, ?_⟩
  · rw [hzombie, hstack, houtcome]
    exact hs.finished
  · rw [hzombie, houtcome]
    exact hs.unfinished
  · rw [hzombie, hid, hstatus, hstack]
    exact hs.inTurn
  · rw [hzombie, hid, hstatus, hstack]
    exact hs.stacked

/-- A thread that is due wakes up where it stands. -/
theorem wake (hs : t.Stands strict steady none h) (time : Float) :
    (t.wake time).Stands strict steady none h := by
  unfold Thread.wake
  split
  · rename_i hdue
    have hlive : t.isZombie = false := by
      have hsleeping : t.status = .sleeping := by
        simpa using (Bool.and_eq_true_iff.1 hdue).1
      unfold Thread.isZombie
      rw [hsleeping]
      rfl
    exact ⟨fun h => (by cases h), fun hsteady _ => hs.unfinished hsteady hlive,
      fun _ h => (by cases h), fun hturn _ => ⟨(hs.stacked hturn hlive).1, fun h => by cases h⟩⟩
  · exact hs

end Thread.Stands

namespace Machine

variable {strict steady : Prop} {settles : Bool} {turn turn' : Option (ThreadId × List Frame)}
  {m m' : Machine}

/-- The first frame of a thread is a stack in order. -/
theorem stacked_of_starts {h : Heap} {base : Frame} (hg : h.Grammatical) (hbase : Starts h base) :
    Stacked strict h [base] := by
  cases hbase with
  | @program id p scope s hprogram hscope =>
    have hroot := (hg id p hprogram).root
    obtain ⟨body, hoisted, hkind⟩ : ∃ body hoisted,
        p.kind? p.root = some (.program body hoisted) := by
      cases hroot with
      | @node _ _ kind loop parts hkind hloop hparts _ =>
        cases kind with
        | program body hoisted => exact ⟨body, hoisted, hkind⟩
        | _ => cases hparts
    have hbegins : (Frame.ofNode ⟨id, p.root⟩ scope).Begins ⟨id, p.root⟩ scope [] :=
      ⟨rfl, rfl, rfl, rfl, rfl, rfl, rfl⟩
    exact .base (sits_of_begins hbegins ⟨s, hscope⟩ hprogram hroot (grants_empty _ _ _ _))
      ⟨rfl, .inr ⟨id, p, body, hoisted, hprogram, rfl, hkind⟩⟩
  | @call scope s call hscope hphase =>
    exact .base (.call ⟨s, hscope⟩ rfl ⟨rfl, rfl, rfl, rfl⟩) ⟨rfl, .inl rfl⟩

/-- A parked thread that is settled goes on with a stack in order. -/
theorem stacked_settled {h : Heap} {t : Thread} {s : Settlement} {f : Frame}
    (hs : Stacked strict h t.stack.frames) (hsettled : settledFrame t s = .ok f) :
    Stacked strict h (t.stack.modifyTop fun _ => f).frames := by
  rw [Stack.frames_modifyTop]
  unfold settledFrame at hsettled
  cases hframes : t.stack.frames with
  | nil =>
    rw [hframes] at hsettled
    cases hsettled
  | cons top rest =>
    rw [hframes] at hs hsettled
    dsimp only at hsettled
    split at hsettled
    · rename_i call hinfo
      split at hsettled
      · cases hsettled
        exact hs.withCall (hs.sits.node_eq_none hinfo) _ _
      · cases hsettled
    · cases hsettled

/-- A machine in order, in the turn of a thread or between two steps. -/
structure Orderly (strict steady : Prop) (turn : Option (ThreadId × List Frame))
    (m : Machine) : Prop where
  tidy : m.heap.Tidy
  grammatical : m.heap.Grammatical
  global : ∃ s, m.heap.scope? m.globalScope = some s
  queued : Queued m.threads m.nextThreadId m.nextQueued
  stands : ∀ t ∈ m.threads, t.Stands strict steady turn m.heap
  resolvers : ∀ r ∈ m.pendingResolvers, r.1 < m.nextResolverId ∧
    (steady → r.2.index < m.nextThreadId)
  issued : ∀ id rest, turn = some (id, rest) → id.index < m.nextThreadId

namespace Orderly

theorem retained (ho : Orderly strict steady turn m) {h' : Heap} (ht : h'.Tidy)
    (hg : h'.Grammatical) (hr : m.heap.Retains h') :
    Orderly strict steady turn { m with heap := h' } where
  tidy := ht
  grammatical := hg
  global :=
    let ⟨_, hs⟩ := ho.global
    let ⟨s', hs', _⟩ := hr.scope hs
    ⟨s', hs'⟩
  queued := ho.queued
  stands := fun t ht => (ho.stands t ht).retained hr
  resolvers := ho.resolvers
  issued := ho.issued

theorem serves (ho : Orderly strict steady turn m) (h : m.Serves m') :
    Orderly strict steady turn m' where
  tidy := h.alike.tidy ho.tidy
  grammatical := (show Alteration false m m' from .serve h).grammatical ho.grammatical
  global := by
    obtain ⟨s, hs⟩ := ho.global
    obtain ⟨s', hs', -⟩ := h.alike.retains.scope hs
    exact ⟨s', h.globalScope ▸ hs'⟩
  queued := by
    rw [h.threads]
    exact ho.queued.mono h.nextThreadId h.nextQueued
  stands := by
    rw [h.threads]
    exact fun t ht => (ho.stands t ht).retained h.alike.retains
  resolvers := by
    rw [h.pendingResolvers]
    exact fun r hr => ⟨Nat.lt_of_lt_of_le (ho.resolvers r hr).1 h.nextResolverId,
      fun hsteady => Nat.lt_of_lt_of_le ((ho.resolvers r hr).2 hsteady) h.nextThreadId⟩
  issued := fun id rest hrest => Nat.lt_of_lt_of_le (ho.issued id rest hrest) h.nextThreadId

/-- The threads are others. -/
theorem rethread (ho : Orderly strict steady turn m) {threads : List Thread}
    (hqueued : Queued threads m.nextThreadId m.nextQueued)
    (hstands : ∀ t ∈ threads, t.Stands strict steady turn m.heap) :
    Orderly strict steady turn { m with threads } :=
  ⟨ho.tidy, ho.grammatical, ho.global, hqueued, hstands, ho.resolvers, ho.issued⟩

/-- A thread is changed, and may be put behind all that wait. -/
theorem update (ho : Orderly strict steady turn m) {id : ThreadId} {f : Thread → Thread}
    {next : Nat} (hle : m.nextQueued ≤ next) (hid : ∀ t, (f t).id = t.id)
    (hqueued : ∀ t, (f t).queued = t.queued ∨
      m.nextQueued ≤ (f t).queued ∧ (f t).queued < next)
    (hother : ∀ t ∈ m.threads, t.id ≠ id → t.Stands strict steady turn' m.heap)
    (hself : ∀ t ∈ m.threads, t.id = id → (f t).Stands strict steady turn' m.heap)
    (hissued : ∀ id rest, turn' = some (id, rest) → id.index < m.nextThreadId) :
    Orderly strict steady turn' { m with
      threads := updateThread id f m.threads, nextQueued := next } where
  tidy := ho.tidy
  grammatical := ho.grammatical
  global := ho.global
  queued := ho.queued.update hid hqueued hle
  stands := fun t ht => by
    change t ∈ updateThread id f m.threads at ht
    rw [updateThread_eq_map ho.queued.sorted.ascending] at ht
    obtain ⟨u, hu, rfl⟩ := List.mem_map.1 ht
    split
    · rename_i heq
      exact hself u hu (by simpa using heq)
    · rename_i hne
      exact hother u hu (by simpa using hne)
  resolvers := ho.resolvers
  issued := hissued

/-- A thread is changed that stands as it did. -/
theorem tend (ho : Orderly strict steady turn m) (id : ThreadId) {f : Thread → Thread}
    (hf : ∀ t, Tended t (f t)) :
    Orderly strict steady turn { m with threads := updateThread id f m.threads } :=
  ho.update (Nat.le_refl _) (fun t => (hf t).id) (fun t => .inl (hf t).queued)
    (fun t ht _ => ho.stands t ht)
    (fun t ht _ => (ho.stands t ht).same (hf t).id (hf t).status (hf t).stack (hf t).outcome)
    ho.issued

theorem finish (ho : Orderly strict steady turn m) (id : ThreadId) (outcome : Outcome) :
    Orderly strict steady turn { m with
      threads := updateThread id (·.finish outcome) m.threads } :=
  ho.update (Nat.le_refl _) (fun _ => rfl) (fun _ => .inl rfl) (fun t ht _ => ho.stands t ht)
    (fun _ _ _ => .of_ended rfl rfl rfl) ho.issued

/-- A thread that starts is last in the table, and it is not its turn. -/
theorem start (ho : Orderly strict steady turn m) {base : Frame} (hbase : Starts m.heap base)
    (delay : Float) (keepOutcome : Bool) :
    Orderly strict steady turn (after (newThread base delay keepOutcome) m) := by
  rcases after_newThread_cases base delay keepOutcome m with
    hserves | ⟨next, nextQueued, hnext, hqueue, heq⟩
  · exact ho.serves hserves
  rw [heq]
  let t := m.started base delay keepOutcome
  obtain ⟨happend, hqueued⟩ := ho.queued.insert (t := t) rfl rfl hnext hqueue
  have hstatus : t.status = .sleeping ∨ t.status = .ready :=
    (started_status m base delay keepOutcome).imp_right And.left
  have hnot (rest : List Frame) : turn ≠ some (t.id, rest) := fun hrest =>
    Nat.lt_irrefl _ (ho.issued t.id rest hrest)
  have hstands : t.Stands strict steady turn m.heap := by
    refine ⟨fun hzombie => ?_, fun _ _ => rfl, fun rest hrest => absurd hrest (hnot rest),
      fun _ _ => ⟨stacked_of_starts ho.grammatical hbase, fun hblocked => ?_⟩⟩
    · unfold Thread.isZombie at hzombie
      rcases hstatus with h | h <;> rw [h] at hzombie <;> cases hzombie
    · rcases hstatus with h | h <;> rw [h] at hblocked <;> cases hblocked
  refine ⟨ho.tidy, ho.grammatical, ho.global, hqueued, fun u hu => ?_, fun r hr => ?_,
    fun id rest hrest => Nat.lt_trans (ho.issued id rest hrest) hnext⟩
  · change u ∈ insertThread t m.threads at hu
    rw [happend] at hu
    rcases List.mem_append.1 hu with hu | hu
    · exact ho.stands u hu
    · exact List.mem_singleton.1 hu ▸ hstands
  · exact ⟨(ho.resolvers r hr).1, fun hsteady => Nat.lt_trans ((ho.resolvers r hr).2 hsteady) hnext⟩

/-- A parked thread that is settled goes on behind all that wait. -/
theorem resume (ho : Orderly strict steady turn m) {id : ThreadId} {t : Thread} {f : Frame}
    {s : Settlement} (ht : m.thread? id = some t) (hblocked : t.status = .blocked)
    (hframe : settledFrame t s = .ok f) {next : Nat} (hnext : m.nextQueued < next)
    (time : Float) : Orderly strict steady turn { m with
      threads := updateThread id (awakened f time m.nextQueued) m.threads
      nextQueued := next } := by
  refine ho.update (Nat.le_of_lt hnext) (fun _ => rfl)
    (fun _ => .inr ⟨Nat.le_refl _, hnext⟩) (fun u hu _ => ho.stands u hu) (fun u hu hid => ?_)
    ho.issued
  obtain rfl : u = t :=
    Option.some.inj ((ho.queued.sorted.find?_eq hu hid).symm.trans ht)
  have hs := ho.stands u hu
  have hlive : u.isZombie = false := by
    unfold Thread.isZombie
    rw [hblocked]
    rfl
  have hturn (rest : List Frame) : turn ≠ some (u.id, rest) := fun hrest => by
    have hready := (hs.inTurn rest hrest hlive).1
    rw [hblocked] at hready
    cases hready
  exact ⟨fun h => (by cases h), fun hsteady _ => hs.unfinished hsteady hlive,
    fun rest hrest => absurd hrest (hturn rest),
    fun _ _ => ⟨stacked_settled (hs.stacked hturn hlive).1 hframe, fun h => by cases h⟩⟩

/-- A resolver is issued. -/
theorem issue (ho : Orderly strict steady turn m) {id : ThreadId}
    (hid : steady → id.index < m.nextThreadId) :
    Orderly strict steady turn (after (issueResolver id) m) := by
  unfold after
  rw [issueResolver_run]
  cases hcount : nextCount m.nextResolverId with
  | error e => exact ho
  | ok next =>
    have hnext := lt_of_nextCount hcount
    refine ⟨ho.tidy, ho.grammatical, ho.global, ho.queued, ho.stands, fun r hr => ?_, ho.issued⟩
    rcases List.mem_append.1 hr with hr | hr
    · exact ⟨Nat.lt_trans (ho.resolvers r hr).1 hnext, (ho.resolvers r hr).2⟩
    · obtain rfl := List.mem_singleton.1 hr
      exact ⟨hnext, hid⟩

/-- A resolver is used up. -/
theorem drop (ho : Orderly strict steady turn m) (resolver : Nat) :
    Orderly strict steady turn (m.dropResolver resolver) :=
  ⟨ho.tidy, ho.grammatical, ho.global, ho.queued, ho.stands,
    fun r hr => ho.resolvers r (List.mem_of_mem_filter hr), ho.issued⟩

/-- Settling a resolver leaves the machine in order, whatever comes of it. -/
theorem settle (ho : Orderly strict steady turn m) (resolver : Nat) (thread : ThreadId)
    (s : Settlement) : Orderly strict steady turn (after (Machine.settle resolver thread s) m) := by
  have hsettling := settling resolver thread s m
  unfold after
  cases hrun : Machine.settle resolver thread s m with
  | error e m' =>
    rw [hrun] at hsettling
    cases hsettling with
    | unknown => exact ho
    | refused hserves => exact (ho.drop resolver).serves hserves
  | ok a m' =>
    rw [hrun] at hsettling
    cases hsettling with
    | late _ hserves => exact (ho.drop resolver).serves hserves
    | resumed _ ht hblocked hframe hnext =>
      exact ((ho.drop resolver).resume ht hblocked hframe hnext m.reading).serves
        { Serves.refl _ with }
    | early _ _ hnext =>
      have hserved : (m.dropResolver resolver).Serves { m.dropResolver resolver with
          clock := m.clock.read.2, nextQueued := _ } :=
        { Serves.refl _ with nextQueued := Nat.le_of_lt hnext }
      have ho' := (ho.drop resolver).serves hserved
      exact ⟨ho'.tidy, ho'.grammatical, ho'.global, ho'.queued, ho'.stands, ho'.resolvers,
        ho'.issued⟩

/-- Whatever a frame, a host function or the host does leaves the machine in order. -/
theorem alteration (ho : Orderly strict steady turn m) (h : Alteration settles m m') :
    Orderly strict steady turn m' := by
  have hheap {h' : Heap} (h : Alteration settles m { m with heap := h' }) :
      Orderly strict steady turn { m with heap := h' } :=
    ho.retained (h.tidy ho.tidy) (h.grammatical ho.grammatical) (h.retains ho.tidy)
  cases h with
  | allocObject o => exact hheap (.allocObject o)
  | allocScope s => exact hheap (.allocScope s)
  | load hp => exact hheap (.load hp)
  | object id hf => exact hheap (.object id hf)
  | scope id hf => exact hheap (.scope id hf)
  | serve h => exact ho.serves h
  | tend id hf => exact ho.tend id hf
  | start hbase delay keepOutcome => exact ho.start hbase delay keepOutcome
  | @finish id t _ _ outcome => exact ho.finish id outcome
  | @forget id t _ _ =>
    exact ho.rethread (ho.queued.sublist List.filter_sublist) fun t ht =>
      ho.stands t (List.mem_of_mem_filter ht)
  | stop status =>
    refine (ho.rethread (ho.queued.map ?_ ?_) fun t ht => ?_).serves
      { Serves.refl _ with }
    · intro t
      split <;> rfl
    · intro t
      split <;> rfl
    · obtain ⟨u, hu, rfl⟩ := List.mem_map.1 ht
      split
      · exact ho.stands u hu
      · exact .of_ended rfl rfl rfl
  | issue _ ht =>
    have ⟨hmem, hid⟩ := mem_threads_of_thread? ht
    exact ho.issue fun _ => hid ▸ ho.queued.sorted.issued _ hmem
  | settle _ resolver thread s => exact ho.settle resolver thread s

theorem altered (ho : Orderly strict steady turn m) (h : Altered settles m m') :
    Orderly strict steady turn m' := by
  induction h with
  | refl => exact ho
  | tail _ hlast ih => exact ih.alteration hlast

theorem worked {thread : ThreadId} (ho : Orderly strict steady turn m) (h : Worked thread m m') :
    Orderly strict steady turn m' := by
  induction h with
  | refl => exact ho
  | tail _ hlast ih =>
    cases hlast with
    | frame hlast => exact ih.alteration hlast
    | host hlast =>
      have ho' := ih.altered hlast
      exact ⟨ho'.tidy, ho'.grammatical, ho'.global, ho'.queued, ho'.stands, ho'.resolvers,
        ho'.issued⟩

end Orderly

/-! ## Settlements that come early -/

/-- No settlement waits for the end of a host function. -/
structure Quiet (current : Option ThreadId) (m : Machine) : Prop where
  current : m.currentThread = current
  early : m.earlySettlements = []

/-- Only the thread that is being stepped is settled early. -/
theorem Alteration.early_cases (h : Alteration settles m m') :
    m'.currentThread = m.currentThread ∧ (m'.earlySettlements = m.earlySettlements ∨
      settles = true ∧ ∃ id s, m.currentThread = some id ∧
        m'.earlySettlements = (id, s) :: m.earlySettlements.filter (·.1 != id)) := by
  cases h with
  | serve h => exact ⟨h.currentThread, .inl h.earlySettlements⟩
  | start _ delay keepOutcome =>
    rcases after_newThread_cases _ delay keepOutcome m with hserves | ⟨_, _, -, -, heq⟩
    · exact ⟨hserves.currentThread, .inl hserves.earlySettlements⟩
    · rw [heq]
      exact ⟨rfl, .inl rfl⟩
  | issue _ _ =>
    unfold after
    rw [issueResolver_run]
    cases nextCount m.nextResolverId <;> exact ⟨rfl, .inl rfl⟩
  | settle hsettles resolver thread s =>
    have hsettling := settling resolver thread s m
    unfold after
    cases hrun : Machine.settle resolver thread s m with
    | error e m' =>
      rw [hrun] at hsettling
      cases hsettling with
      | unknown => exact ⟨rfl, .inl rfl⟩
      | refused hserves => exact ⟨hserves.currentThread, .inl hserves.earlySettlements⟩
    | ok a m' =>
      rw [hrun] at hsettling
      cases hsettling with
      | late _ hserves => exact ⟨hserves.currentThread, .inl hserves.earlySettlements⟩
      | resumed => exact ⟨rfl, .inl rfl⟩
      | early _ hcurrent _ => exact ⟨rfl, .inr ⟨hsettles, thread, s, hcurrent, rfl⟩⟩
  | _ => exact ⟨rfl, .inl rfl⟩

theorem Altered.early (h : Altered settles m m')
    (he : ∀ e ∈ m.earlySettlements, m.currentThread = some e.1) :
    m'.currentThread = m.currentThread ∧
      ∀ e ∈ m'.earlySettlements, m.currentThread = some e.1 := by
  induction h with
  | refl => exact ⟨rfl, he⟩
  | tail _ hlast ih =>
    obtain ⟨hcurrent, hsame | ⟨-, id, s, hid, hearly⟩⟩ := hlast.early_cases
    · exact ⟨hcurrent.trans ih.1, hsame ▸ ih.2⟩
    · refine ⟨hcurrent.trans ih.1, fun e he => ?_⟩
      rw [hearly] at he
      rcases List.mem_cons.1 he with rfl | he
      · exact ih.1.symm.trans hid
      · exact ih.2 e (List.mem_of_mem_filter he)

namespace Quiet

variable {current : Option ThreadId} {thread : ThreadId}

/-- What a frame does settles nothing. -/
theorem altered (hq : Quiet current m) (h : Altered false m m') : Quiet current m' := by
  induction h with
  | refl => exact hq
  | tail _ hlast ih =>
    obtain ⟨hcurrent, hsame | ⟨hfalse, -⟩⟩ := hlast.early_cases
    · exact ⟨hcurrent.trans ih.current, hsame.trans ih.early⟩
    · cases hfalse

/-- The host settles nothing early between two steps. -/
theorem altered_of_none (hq : Quiet none m) (h : Altered settles m m') : Quiet none m' := by
  obtain ⟨hcurrent, hearly⟩ := h.early (by simp [hq.early])
  refine ⟨hcurrent.trans hq.current, List.eq_nil_iff_forall_not_mem.2 fun e he => ?_⟩
  rw [hq.current] at hearly
  cases hearly e he

/-- What a host function settles early for its thread is taken when it has answered. -/
theorem worked (hq : Quiet (some thread) m) (h : Worked thread m m') :
    Quiet (some thread) m' := by
  induction h with
  | refl => exact hq
  | @tail mid last _ hlast ih =>
    cases hlast with
    | frame hlast => exact ih.altered (.single hlast)
    | @host m' hlast =>
      obtain ⟨hcurrent, hearly⟩ := hlast.early (by simp [ih.early])
      refine ⟨hcurrent.trans ih.current, List.filter_eq_nil_iff.2 fun e he => ?_⟩
      rw [ih.current] at hearly
      simp [← Option.some.inj (hearly e he)]

end Quiet

end Machine

end ScriptMachine
