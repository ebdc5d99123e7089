import ScriptMachine.Proofs.Order.Run
import ScriptMachine.Proofs.Order.Passage

/-!
# Resolvers are settled once

Numbers of resolvers ascend and none is issued twice. A number that was accepted is never pending
again, so whatever comes later, settling it once more is refused and changes nothing. A thread that
is blocked goes on only when a resolver that was issued for it is settled.
-/

namespace ScriptMachine

open Exec

namespace Machine

variable {steady prompt : Prop} {e : Event} {turn turn' : Option ThreadId} {m m' : Machine}
  {past later : History}

/-! ## Pending resolvers -/

/-- A moment issues at most one resolver, under the next number. -/
theorem Moment.resolvers (h : Moment steady prompt e turn m turn' m') :
    m.nextResolverId ≤ m'.nextResolverId ∧ ∀ r ∈ m'.pendingResolvers, r ∈ m.pendingResolvers ∨
      e = .issued r.1 r.2 ∧ r.1 = m.nextResolverId ∧ m.nextResolverId < m'.nextResolverId := by
  have hsame {n : Machine} (hnext : m.nextResolverId ≤ n.nextResolverId)
      (hsub : ∀ r ∈ n.pendingResolvers, r ∈ m.pendingResolvers) :
      m.nextResolverId ≤ n.nextResolverId ∧ ∀ r ∈ n.pendingResolvers, r ∈ m.pendingResolvers ∨
        e = .issued r.1 r.2 ∧ r.1 = m.nextResolverId ∧ m.nextResolverId < n.nextResolverId :=
    ⟨hnext, fun r hr => .inl (hsub r hr)⟩
  have hserved {n : Machine} (hserves : m.Serves n) := hsame hserves.nextResolverId
    fun r hr => hserves.pendingResolvers ▸ hr
  have hdropped {id : Nat} {n : Machine} (hserves : (m.dropResolver id).Serves n) :=
    hsame hserves.nextResolverId fun r hr => by
      rw [hserves.pendingResolvers] at hr
      exact List.mem_of_mem_filter hr
  have hleft {n : Machine} (hnext : n.nextResolverId = m.nextResolverId)
      (hpending : n.pendingResolvers = m.pendingResolvers) :=
    hsame (n := n) (Nat.le_of_eq hnext.symm) fun r hr => hpending ▸ hr
  cases h with
  | alter h _ =>
    cases h with
    | serve h => exact hserved h
    | start _ delay keepOutcome =>
      rcases after_newThread_cases _ delay keepOutcome m with hserves | ⟨_, _, -, -, heq⟩
      · exact hserved hserves
      · rw [heq]
        exact hleft rfl rfl
    | issue h _ => cases h
    | settle h _ _ _ => cases h
    | _ => exact hleft rfl rfl
  | @issue _ _ _ thread id hrun _ =>
    rw [issueResolver_run] at hrun
    cases hcount : nextCount m.nextResolverId with
    | error e => rw [hcount] at hrun; cases hrun
    | ok next =>
      have hnext := lt_of_nextCount hcount
      rw [hcount] at hrun
      cases hrun
      refine ⟨Nat.le_of_lt hnext, fun r hr => ?_⟩
      rcases List.mem_append.1 hr with hr | hr
      · exact .inl hr
      · obtain rfl := List.mem_singleton.1 hr
        exact .inr ⟨rfl, rfl, hnext⟩
  | @accept _ _ _ id thread s hrun _ =>
    have hsettling := settling id thread s m
    rw [hrun] at hsettling
    cases hsettling with
    | late _ hserves => exact hdropped hserves
    | resumed => exact hsame (Nat.le_refl _) fun r hr => List.mem_of_mem_filter hr
    | early => exact hsame (Nat.le_refl _) fun r hr => List.mem_of_mem_filter hr
  | @refuse _ _ _ id thread s e hrun _ =>
    have hsettling := settling id thread s m
    rw [hrun] at hsettling
    cases hsettling with
    | unknown => exact hleft rfl rfl
    | refused hserves => exact hdropped hserves
  | schedule _ hrun =>
    cases hrun
    exact hleft rfl rfl
  | _ => exact hleft rfl rfl

namespace Course

variable {turn₀ : Option ThreadId} {m₀ : Machine}

theorem nextResolverId_le (h : Course steady prompt turn₀ m₀ past turn m) :
    m₀.nextResolverId ≤ m.nextResolverId := by
  induction h with
  | nil => exact Nat.le_refl _
  | cons _ hlast ih => exact Nat.le_trans ih hlast.resolvers.1

/-- Every pending resolver was issued for its thread, under a number that was taken. -/
theorem accounted (h : Course steady prompt turn₀ m₀ past turn m)
    (hnone : m₀.pendingResolvers = []) : ∀ r ∈ m.pendingResolvers,
      r.1 < m.nextResolverId ∧ Event.issued r.1 r.2 ∈ past.map Prod.fst := by
  induction h with
  | nil =>
    rw [hnone]
    exact fun _ h => by cases h
  | cons _ hlast ih =>
    intro r hr
    obtain ⟨hle, hpending⟩ := hlast.resolvers
    rcases hpending r hr with hr | ⟨rfl, hnumber, hlt⟩
    · exact ⟨Nat.lt_of_lt_of_le (ih r hr).1 hle, List.mem_cons_of_mem _ (ih r hr).2⟩
    · exact ⟨hnumber ▸ hlt, List.mem_cons_self⟩

end Course

theorem settle_of_none {id : Nat} (h : m.pendingResolvers.lookup id = none) (thread : ThreadId)
    (s : Settlement) : settle id thread s m = .error (.fault (.alreadySettled id)) m := by
  rw [settle_run, h]

/-- A number that was issued and is pending no more. -/
structure Spent (id : Nat) (m : Machine) : Prop where
  issued : id < m.nextResolverId
  gone : ∀ r ∈ m.pendingResolvers, r.1 ≠ id

namespace Spent

variable {id : Nat}

theorem moment (hs : Spent id m) (h : Moment steady prompt e turn m turn' m') : Spent id m' := by
  obtain ⟨hle, hpending⟩ := h.resolvers
  refine ⟨Nat.lt_of_lt_of_le hs.issued hle, fun r hr => ?_⟩
  rcases hpending r hr with hr | ⟨-, hnumber, -⟩
  · exact hs.gone r hr
  · exact hnumber ▸ Nat.ne_of_gt hs.issued

theorem course (hs : Spent id m) (h : Course steady prompt turn m later turn' m') :
    Spent id m' := by
  induction h with
  | nil => exact hs
  | cons _ hlast ih => exact ih.moment hlast

/-- Settling once more is refused, and nothing changes. -/
theorem refused (hs : Spent id m) (thread : ThreadId) (s : Settlement) :
    settle id thread s m = .error (.fault (.alreadySettled id)) m := by
  have hnone : m.pendingResolvers.lookup id = none := by
    rw [List.lookup_eq_none_iff]
    intro r hr
    simpa using Ne.symm (hs.gone r hr)
  exact settle_of_none hnone thread s

end Spent

/-- A number that is accepted is spent. -/
theorem spent_of_settle {id : Nat} {thread : ThreadId} {s : Settlement}
    (hissued : ∀ r ∈ m.pendingResolvers, r.1 < m.nextResolverId)
    (hrun : settle id thread s m = .ok () m') : Spent id m' := by
  have hsettling := settling id thread s m
  rw [hrun] at hsettling
  have hid (h : m.pendingResolvers.lookup id = some thread) : id < m.nextResolverId := by
    obtain ⟨before, after, hsplit, -⟩ := List.lookup_eq_some_iff.1 h
    refine hissued (id, thread) ?_
    rw [hsplit]
    simp
  have hgone : ∀ r ∈ (m.dropResolver id).pendingResolvers, r.1 ≠ id := fun r hr => by
    simpa using List.of_mem_filter hr
  cases hsettling with
  | late h hserves =>
    exact ⟨Nat.lt_of_lt_of_le (hid h) hserves.nextResolverId, hserves.pendingResolvers ▸ hgone⟩
  | resumed h _ _ _ _ => exact ⟨hid h, hgone⟩
  | early h _ _ => exact ⟨hid h, hgone⟩

/-! ## Blocked threads -/

/-- Only settling a resolver that is pending for a thread has the thread go on. -/
theorem Moment.settled_of_woken (hn : m.Numbered) (h : Moment steady prompt e turn m turn' m')
    {id : ThreadId} {t t' : Thread} (ht : m.thread? id = some t) (hblocked : t.status = .blocked)
    (ht' : m'.thread? id = some t') (hready : t'.status = .ready) :
    ∃ r s, settle r id s m = .ok () m' ∧ (r, id) ∈ m.pendingResolvers ∧ Attended turn m := by
  have hpassage := h.passage hn id
  rw [ht, ht'] at hpassage
  cases hpassage with
  | kept => rw [hblocked] at hready; cases hready
  | tended hstatus _ _ _ _ => rw [hstatus, hblocked] at hready; cases hready
  | ended _ _ => cases hready
  | woken _ hsleeping _ => rw [hblocked] at hsleeping; cases hsleeping
  | blocked _ _ => cases hready
  | asleep _ _ _ _ => cases hready
  | napping _ _ _ => cases hready
  | @resumed _ r f he hpending hfree _ =>
    obtain ⟨before, after, hsplit, -⟩ := List.lookup_eq_some_iff.1 hpending
    have hmem : (r, id) ∈ m.pendingResolvers := by
      rw [hsplit]
      simp
    subst he
    cases h with
    | accept hrun _ => exact ⟨r, _, hrun, hmem, hfree⟩

/-! ## Whatever the host asks for -/

/-- What can be said of resolvers once a machine has come this far. -/
structure SettlesOnce (steady prompt : Prop) (past : History) (turn : Option ThreadId)
    (m : Machine) : Prop where
  /-- No number is issued twice. -/
  issued : ∀ {thread id m₁}, issueResolver thread m = .ok id m₁ →
    ∀ {later turn₂ m₂}, Course steady prompt turn m₁ later turn₂ m₂ →
      ∀ {thread' id' m₃}, issueResolver thread' m₂ = .ok id' m₃ → id ≠ id'
  /-- A number that is accepted is refused for good, and then nothing changes. -/
  accepted : ∀ {id thread s m₁}, settle id thread s m = .ok () m₁ →
    ∀ {later turn₂ m₂}, Course steady prompt turn m₁ later turn₂ m₂ →
      ∀ thread' s', settle id thread' s' m₂ = .error (.fault (.alreadySettled id)) m₂
  /-- A blocked thread goes on when a resolver that was issued for it is accepted. -/
  woken : ∀ {e turn' m'}, Moment steady prompt e turn m turn' m' → ∀ {id t t'},
    m.thread? id = some t → t.status = .blocked →
    m'.thread? id = some t' → t'.status = .ready →
      ∃ r s, settle r id s m = .ok () m' ∧ Event.issued r id ∈ past.map Prod.fst

theorem Course.settles_once {turn₀ : Option ThreadId} {m₀ : Machine}
    (h : Course steady prompt turn₀ m₀ past turn m) (hn : m₀.Numbered)
    (hnone : m₀.pendingResolvers = []) : SettlesOnce steady prompt past turn m where
  issued := by
    intro thread id m₁ hrun later turn₂ m₂ hlater thread' id' m₃ hrun'
    rw [issueResolver_run] at hrun hrun'
    cases hcount : nextCount m.nextResolverId with
    | error e => rw [hcount] at hrun; cases hrun
    | ok next =>
      cases hcount' : nextCount m₂.nextResolverId with
      | error e => rw [hcount'] at hrun'; cases hrun'
      | ok next' =>
        rw [hcount] at hrun
        rw [hcount'] at hrun'
        cases hrun
        cases hrun'
        have hlt := lt_of_nextCount hcount
        have hle : next ≤ m₂.nextResolverId := hlater.nextResolverId_le
        omega
  accepted := by
    intro id thread s m₁ hrun later turn₂ m₂ hlater thread' s'
    have hspent := spent_of_settle (fun r hr => (h.accounted hnone r hr).1) hrun
    exact (hspent.course hlater).refused thread' s'
  woken := by
    intro e turn' m' hmoment id t t' ht hblocked ht' hready
    obtain ⟨r, s, hrun, hmem, -⟩ :=
      hmoment.settled_of_woken (h.numbered hn) ht hblocked ht' hready
    exact ⟨r, s, hrun, (h.accounted hnone _ hmem).2⟩

/-- What the host asks for, if it also issues resolvers for any thread it likes. -/
inductive Ask where
  | request (r : Request)
  | issue (thread : ThreadId)

def Ask.perform (natives : Natives) : Ask → Exec Unit
  | request r => r.perform natives
  | issue thread => do let _ ← issueResolver thread

/-- Machines that come one from the other by what the host asks for. -/
inductive Asked (natives : Natives) (m : Machine) : Machine → Prop where
  | refl : Asked natives m m
  | tail {m' : Machine} (h : Asked natives m m') (a : Ask)
    (hcount : ∀ n, a.perform natives m' ≠ .error .overflow n) :
    Asked natives m (after (a.perform natives) m')

variable {natives : Natives} {origin : Machine}

theorem leaves_ask (hnatives : natives.Each (Polite False prompt))
    (hm : Settled False False prompt origin none none m) (a : Ask) :
    Leaves (Settled False False prompt origin none none) (a.perform natives) m := by
  cases a with
  | request r => exact leaves_request hnatives hm r
  | issue thread =>
    have hled : Led False prompt origin none (after (issueResolver thread) m) := by
      rcases moment_issueResolver thread (hm.orderly.attended hm.quiet.current) with
        hsame | ⟨e, hmoment⟩
      · exact hsame.symm ▸ hm.led
      · exact hm.led.moment hmoment
    have hquiet : Quiet none (after (issueResolver thread) m) := by
      unfold after
      rw [issueResolver_run]
      cases nextCount m.nextResolverId <;> exact ⟨hm.quiet.current, hm.quiet.early⟩
    have hissue : Leaves (Settled False False prompt origin none none)
        (issueResolver thread) m :=
      leaves_of_after ⟨hm.orderly.issue False.elim, hquiet, hled⟩
    exact hissue.bind (fun _ _ _ h => leaves_pure _ h) fun _ h => h

theorem Asked.settled (hnatives : natives.Each (Polite False prompt)) (h : Asked natives m m')
    (hm : Settled False False prompt origin none none m) :
    Settled False False prompt origin none none m' := by
  induction h with
  | refl => exact hm
  | tail _ a hcount ih => exact after_of_leaves (leaves_ask hnatives ih a) hcount

/-- Whatever the host and its functions do, from the first moment on, resolvers are settled once. -/
theorem Asked.settlesOnce (hnatives : natives.Each (Civil False)) {config : Config}
    {clock : Host.Clock} (hcreate : create config clock = .ok origin)
    (h : Asked natives origin m) (h' : Asked natives m m') :
    (∃ past later, Course False False none origin past none m ∧
      Course False False none m later none m') ∧
    ∀ past turn n, Course False False none origin past turn n →
      SettlesOnce False False past turn n := by
  have hpolite : natives.Each (Polite False False) := hnatives.mono fun _ h => ⟨h, False.elim⟩
  have horigin : Settled False False False origin none none origin := settled_of_create hcreate
  have hm := h.settled hpolite horigin
  have hanew : Settled False False False m none none m := ⟨hm.orderly, hm.quiet, [], .nil⟩
  obtain ⟨past, hpast⟩ := hm.led
  obtain ⟨later, hlater⟩ := (h'.settled hpolite hanew).led
  have hn : origin.Numbered := horigin.orderly.queued
  have hvacant := vacant_of_create hcreate
  exact ⟨⟨past, later, hpast, hlater⟩,
    fun _ _ _ hcourse => hcourse.settles_once hn hvacant.idle.pendingResolvers⟩

theorem Asked.serve {requests : List Request} (h : Asked natives origin m)
    (hserve : m.serve natives requests = some m') : Asked natives origin m' := by
  induction requests generalizing m with
  | nil =>
    cases hserve
    exact h
  | cons r rest ih =>
    unfold Machine.serve at hserve
    cases hrun : r.perform natives m with
    | ok a m₁ =>
      rw [hrun] at hserve
      refine ih ?_ hserve
      rw [← after_of_ok hrun]
      refine h.tail (.request r) fun m₂ hfail => ?_
      cases hrun.symm.trans hfail
    | error e m₁ =>
      rw [hrun] at hserve
      cases e with
      | overflow => cases hserve
      | _ =>
        refine ih ?_ hserve
        rw [← after_of_error hrun]
        refine h.tail (.request r) fun m₂ hfail => ?_
        cases hrun.symm.trans hfail

theorem each_civil_waitingNatives_false : waitingNatives.Each (Civil False) :=
  each_civil_waitingNatives.mono fun _ h c m ht halive =>
    (h c m ht halive).mono fun _ _ _ _ hfalse => hfalse.elim

set_option maxRecDepth 100000 in
/-- A thread that waits goes on when its resolver is settled. -/
theorem settlesOnce_waiting : ∃ origin m m', create {} {} = .ok origin ∧
    Asked waitingNatives origin m ∧ Asked waitingNatives m m' ∧
    ((m.threads.map fun t => t.status) = [.blocked] ∧ m.pendingResolvers = [(1, ⟨1⟩)] ∧
      (m'.threads.map fun t => t.status) = [.ready] ∧ m'.pendingResolvers = []) ∧
    (∃ past later, Course False False none origin past none m ∧
      Course False False none m later none m') ∧
    ∀ past turn n, Course False False none origin past turn n →
      SettlesOnce False False past turn n := by
  have hchecks : ((create {} {}).toOption.bind fun origin =>
      (origin.serve waitingNatives [.define "waitFor", .spawn "waitFor();", .run 20]).bind fun m =>
        (m.serve waitingNatives [.settle 1 ⟨1⟩ (.resolved .undefined)]).map fun m' =>
          (origin, m, m')).any (fun x => decide
            ((x.2.1.threads.map fun t => t.status) = [.blocked] ∧
              x.2.1.pendingResolvers = [(1, ⟨1⟩)] ∧
              (x.2.2.threads.map fun t => t.status) = [.ready] ∧
              x.2.2.pendingResolvers = [])) = true := by
    rw [toOption_create]
    decide +kernel
  obtain ⟨x, hx, hchecks⟩ := (Option.any_eq_true _ _).1 hchecks
  obtain ⟨origin, horigin, hx⟩ := Option.bind_eq_some_iff.1 hx
  obtain ⟨m, hm, hx⟩ := Option.bind_eq_some_iff.1 hx
  obtain ⟨m', hm', rfl⟩ := Option.map_eq_some_iff.1 hx
  have hcreate : create {} {} = .ok origin := by
    cases hcreate : create {} {} with
    | error e =>
      rw [hcreate] at horigin
      cases horigin
    | ok found =>
      rw [hcreate] at horigin
      exact congrArg _ (Option.some.inj horigin)
  have h : Asked waitingNatives origin m := Asked.refl.serve hm
  have h' : Asked waitingNatives m m' := Asked.refl.serve hm'
  exact ⟨origin, m, m', hcreate, h, h', of_decide_eq_true hchecks,
    Asked.settlesOnce each_civil_waitingNatives_false hcreate h h'⟩

/-! ## Settlements that fail -/

/-- What is kept under a key stays when what is under another one goes. -/
theorem lookup_filter_ne {α β : Type} [BEq α] [LawfulBEq α] {entries : List (α × β)} {key other : α}
    (hne : key ≠ other) : (entries.filter (·.1 != other)).lookup key = entries.lookup key := by
  induction entries with
  | nil => rfl
  | cons x entries ih =>
    obtain ⟨first, v⟩ := x
    by_cases hother : first = other
    · subst hother
      rw [List.filter_cons_of_neg (by simp), ih, List.lookup_cons, beq_false_of_ne hne]
    · rw [List.filter_cons_of_pos (by simpa using hother), List.lookup_cons, List.lookup_cons, ih]

theorem lookup_filter_self {α β : Type} [BEq α] [LawfulBEq α] (entries : List (α × β)) (key : α) :
    (entries.filter (·.1 != key)).lookup key = none := by
  rw [List.lookup_eq_none_iff]
  intro entry hentry
  have hkept : (entry.1 != key) = true := (List.mem_filter.1 hentry).2
  exact bne_iff_ne.2 (bne_iff_ne.1 hkept).symm

theorem settledFrame_ne_overflow {t : Thread} {s : Settlement} :
    settledFrame t s ≠ .error .overflow := by
  unfold settledFrame
  split
  · rintro ⟨⟩
  · split
    · split <;> rintro ⟨⟩
    · rintro ⟨⟩

/-- The machine when a number is used up, the clock was read and a place in the run queue is taken. -/
def charged (id next : Nat) (m : Machine) : Machine :=
  { m.dropResolver id with clock := m.clock.read.2, nextQueued := next }

/-- How settling a resolver fails. -/
inductive Refusal (id : Nat) (thread : ThreadId) (m : Machine) : Failure → Machine → Prop where
  | unknown (h : m.pendingResolvers.lookup id = none) :
    Refusal id thread m (.fault (.alreadySettled id)) m
  | foreign {holder : ThreadId} (h : m.pendingResolvers.lookup id = some holder)
    (hholder : holder ≠ thread) :
    Refusal id thread m (.fault (.foreignResolver id holder.index thread.index)) (m.dropResolver id)
  | exhausted (h : m.pendingResolvers.lookup id = some thread) :
    Refusal id thread m .overflow (m.charged id m.nextQueued)
  /-- The thread is not parked where a settlement could reach it. -/
  | misplaced {failure : Failure} (h : m.pendingResolvers.lookup id = some thread)
    (hfailure : failure ≠ .overflow) :
    Refusal id thread m failure (m.charged id (m.nextQueued + 1))

theorem refusal_of_settle {id : Nat} {thread : ThreadId} {s : Settlement} {failure : Failure}
    (h : settle id thread s m = .error failure m') : Refusal id thread m failure m' := by
  rw [settle_run] at h
  cases hlookup : m.pendingResolvers.lookup id with
  | none =>
    rw [hlookup] at h
    cases h
    exact .unknown hlookup
  | some holder =>
    rw [hlookup] at h
    dsimp only at h
    by_cases hholder : holder = thread
    · subst hholder
      rw [if_neg (by simp)] at h
      cases hqueue : nextCount m.nextQueued with
      | error e =>
        rw [hqueue] at h
        cases h
        rw [eq_overflow_of_nextCount hqueue]
        exact .exhausted hlookup
      | ok next =>
        obtain rfl : m.nextQueued + 1 = next := by
          unfold nextCount at hqueue
          split at hqueue
          · exact Except.ok.inj hqueue
          · cases hqueue
        rw [hqueue] at h
        dsimp only at h
        have hmisplaced {e : Failure} (he : e ≠ .overflow) :=
          Refusal.misplaced hlookup he
        split at h
        · cases h
        · rename_i t ht
          split at h
          · cases h
          · split at h
            · rename_i e hframe
              cases h
              exact hmisplaced fun he => settledFrame_ne_overflow (he ▸ hframe)
            · cases h
          · split at h
            · cases h
            · cases h
              exact hmisplaced (by rintro ⟨⟩)
    · rw [if_pos (by simpa using hholder)] at h
      cases h
      exact .foreign hlookup hholder

theorem settle_of_foreign {id : Nat} {holder thread : ThreadId}
    (h : m.pendingResolvers.lookup id = some holder) (hholder : holder ≠ thread) (s : Settlement) :
    settle id thread s m =
      .error (.fault (.foreignResolver id holder.index thread.index)) (m.dropResolver id) := by
  rw [settle_run, h]
  dsimp only
  rw [if_pos (bne_iff_ne.2 hholder)]
  rfl

/-- What a settlement that fails leaves behind. -/
structure Lost (id : Nat) (thread : ThreadId) (failure : Failure) (m m' : Machine) : Prop where
  threads : m'.threads = m.threads
  early : m'.earlySettlements = m.earlySettlements
  others : ∀ other, other ≠ id →
    m'.pendingResolvers.lookup other = m.pendingResolvers.lookup other
  /-- Nothing has changed exactly when the number was not pending. -/
  same : m' = m ↔ m.pendingResolvers.lookup id = none
  queued : m'.nextQueued =
    if m.pendingResolvers.lookup id = some thread ∧ failure ≠ .overflow then m.nextQueued + 1
    else m.nextQueued
  /-- Nobody can settle the number any more. -/
  spent : ∀ thread' s', settle id thread' s' m' = .error (.fault (.alreadySettled id)) m'

/-- A settlement that fails changes no thread, no early settlement and no other resolver, but a number
that was pending is lost to everyone, and a place in the run queue is lost if the thread was the
right one. -/
theorem lost_of_settle {id : Nat} {thread : ThreadId} {s : Settlement} {failure : Failure}
    (h : settle id thread s m = .error failure m') : Lost id thread failure m m' := by
  have hdropped : ∀ {n : Machine} {holder : ThreadId}, m.pendingResolvers.lookup id = some holder →
      n.threads = m.threads → n.earlySettlements = m.earlySettlements →
      n.pendingResolvers = m.pendingResolvers.filter (·.1 != id) →
      n.nextQueued = (if m.pendingResolvers.lookup id = some thread ∧ failure ≠ .overflow then
        m.nextQueued + 1 else m.nextQueued) → Lost id thread failure m n := by
    intro n holder hholder hthreads hearly hpending hqueued
    have hnone : n.pendingResolvers.lookup id = none := by
      rw [hpending, lookup_filter_self]
    refine ⟨hthreads, hearly, ?_, ?_, hqueued, settle_of_none hnone⟩
    · intro other hother
      rw [hpending, lookup_filter_ne hother]
    · refine iff_of_false ?_ ?_
      · rintro rfl
        rw [hholder] at hnone
        cases hnone
      · rw [hholder]
        rintro ⟨⟩
  cases refusal_of_settle h with
  | unknown hnone =>
    refine ⟨rfl, rfl, fun _ _ => rfl, iff_of_true rfl hnone, ?_, settle_of_none hnone⟩
    rw [if_neg]
    rintro ⟨hsome, -⟩
    rw [hnone] at hsome
    cases hsome
  | @foreign holder hlookup hholder =>
    refine hdropped hlookup rfl rfl rfl ?_
    rw [if_neg]
    · rfl
    · rintro ⟨hsome, -⟩
      exact hholder (Option.some.inj (hlookup.symm.trans hsome))
  | exhausted hlookup =>
    refine hdropped hlookup rfl rfl rfl ?_
    rw [if_neg fun h => h.2 rfl]
    rfl
  | misplaced hlookup hfailure =>
    refine hdropped hlookup rfl rfl rfl ?_
    rw [if_pos ⟨hlookup, hfailure⟩]
    rfl

/-- The resolver of a thread that waits, tried for another thread. -/
theorem lost_waiting : ∃ m m', hosted waitingNatives {} waitingRequests = some m ∧
    settle 1 ⟨9⟩ (.resolved .undefined) m = .error (.fault (.foreignResolver 1 1 9)) m' ∧
    Lost 1 ⟨9⟩ (.fault (.foreignResolver 1 1 9)) m m' := by
  obtain ⟨m, hm, -, hpending⟩ := hosted_waiting
  have hholder : m.pendingResolvers.lookup 1 = some ⟨1⟩ := by rw [hpending]; rfl
  have hforeign : (⟨1⟩ : ThreadId) ≠ ⟨9⟩ := by decide
  have hrun := settle_of_foreign hholder hforeign (.resolved .undefined)
  exact ⟨m, _, hm, hrun, lost_of_settle hrun⟩

/-- A thread waits and its resolver is pending. Tried for another thread it is refused, and then it is
refused for the thread that waits. -/
theorem rightful_settlement_refused : ∃ m m', Reachable waitingNatives m ∧
    m.pendingResolvers = [(1, ⟨1⟩)] ∧
    settle 1 ⟨9⟩ (.resolved .undefined) m = .error (.fault (.foreignResolver 1 1 9)) m' ∧
    m'.pendingResolvers = [] ∧ m'.threads = m.threads ∧
    settle 1 ⟨1⟩ (.resolved .undefined) m' = .error (.fault (.alreadySettled 1)) m' := by
  obtain ⟨m, hm, -, hpending⟩ := hosted_waiting
  have hnone : (m.dropResolver 1).pendingResolvers = [] := by
    rw [dropResolver, hpending]
    rfl
  have hholder : m.pendingResolvers.lookup 1 = some ⟨1⟩ := by rw [hpending]; rfl
  refine ⟨m, m.dropResolver 1, reachable_of_hosted hm, hpending,
    settle_of_foreign hholder (by decide) _, hnone, rfl, settle_of_none ?_ _ _⟩
  rw [hnone]
  rfl

end Machine

end ScriptMachine
