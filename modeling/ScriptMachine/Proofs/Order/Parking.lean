import ScriptMachine.Proofs.Order.Settlement

/-!
# The turn in which a thread is parked

A thread takes one step in a turn, so a turn in which it is parked is the run of the host function
that asked for it. A resolver names the thread that it wakes and not that run: it wakes the thread
whatever run it is parked in, whether it was issued in that run, left over from before it, or issued
since.
-/

namespace ScriptMachine

open Exec

namespace Machine

variable {steady prompt : Prop} {e : Event} {turn turn' turn₀ : Option ThreadId}
  {m m' m₀ : Machine} {past earlier later : History} {id : ThreadId} {r : Nat}

/-! ## Turns -/

/-- A moment leaves the turn as it is, begins one or ends one. -/
theorem Moment.turn_cases (h : Moment steady prompt e turn m turn' m') :
    turn' = turn ∧ (∀ id, e ≠ .begun id ∧ e ≠ .ended id) ∨
    (∃ id, turn = none ∧ turn' = some id ∧ e = .begun id) ∨
    ∃ id, turn = some id ∧ turn' = none ∧ e = .ended id ∧ m' = m := by
  cases h with
  | begin _ _ _ => exact .inr (.inl ⟨_, rfl, rfl, rfl⟩)
  | finish => exact .inr (.inr ⟨_, rfl, rfl, rfl, rfl⟩)
  | _ => exact .inl ⟨rfl, fun _ => ⟨Event.noConfusion, Event.noConfusion⟩⟩

/-- Whether a thread is parked until a resolver is settled. -/
def IsBlocked (id : ThreadId) (m : Machine) : Prop :=
  ∃ t, m.thread? id = some t ∧ t.status = .blocked

/-- A thread is only parked in its own turn. -/
theorem Moment.isBlocked_of_isBlocked (hn : m.Numbered)
    (h : Moment steady prompt e turn m turn' m') (hturn : turn ≠ some id) (hm' : IsBlocked id m') :
    IsBlocked id m := by
  obtain ⟨t', ht', hblocked⟩ := hm'
  have hpassage := h.passage hn id
  rw [ht'] at hpassage
  generalize hfound : m.thread? id = found at hpassage
  cases hpassage with
  | kept => exact ⟨t', hfound, hblocked⟩
  | @tended t _ hstatus => exact ⟨t, hfound, hstatus ▸ hblocked⟩
  | born _ _ _ hstatus =>
    rcases hstatus with hstatus | ⟨hstatus, -⟩ <;> rw [hblocked] at hstatus <;> cases hstatus
  | ended => cases hblocked
  | woken => cases hblocked
  | resumed => cases hblocked
  | blocked hmine => exact absurd hmine hturn
  | asleep => cases hblocked
  | napping => cases hblocked

/-- The course up to some point of a history, and from there on. -/
theorem Course.split (h : Course steady prompt turn₀ m₀ (later ++ earlier) turn m) :
    ∃ turn₁ n, Course steady prompt turn₀ m₀ earlier turn₁ n ∧
      Course steady prompt turn₁ n later turn m := by
  induction later generalizing turn m with
  | nil => exact ⟨turn, m, h, .nil⟩
  | cons x later ih =>
    cases h with
    | cons hfirst hlast =>
      obtain ⟨turn₁, n, hearlier, hlater⟩ := ih hfirst
      exact ⟨turn₁, n, hearlier, hlater.cons hlast⟩

/-- A moment of a history was a moment of the course. -/
theorem Course.split_cons (h : Course steady prompt turn₀ m₀ (later ++ (e, m') :: earlier) turn m) :
    ∃ turn₁, Course steady prompt turn₀ m₀ earlier turn₁ m' ∧
      Course steady prompt turn₁ m' (later ++ [(e, m')]) turn m := by
  rw [← List.singleton_append, ← List.append_assoc] at h
  obtain ⟨turn₁, n, hearlier, hlater⟩ := h.split
  obtain ⟨turn₂, n', hfirst, -⟩ := hlater.split
  cases hfirst with
  | cons hnil hlast =>
    cases hnil
    exact ⟨turn₁, hearlier, hlater⟩

/-! ## When a resolver was issued -/

/-- A resolver was issued for a thread somewhere in a history. -/
def IssuedIn (r : Nat) (id : ThreadId) (h : History) : Prop := Event.issued r id ∈ h.map Prod.fst

theorem issuedIn_append : IssuedIn r id (later ++ earlier) ↔
    IssuedIn r id later ∨ IssuedIn r id earlier := by
  unfold IssuedIn
  rw [List.map_append, List.mem_append]

/-- What is issued gets the next number. -/
theorem Moment.number_of_issued (h : Moment steady prompt (.issued r id) turn m turn' m') :
    r = m.nextResolverId ∧ m.nextResolverId < m'.nextResolverId := by
  cases h with
  | issue hrun _ =>
    rw [issueResolver_run] at hrun
    cases hcount : nextCount m.nextResolverId with
    | error e => rw [hcount] at hrun; cases hrun
    | ok next =>
      rw [hcount] at hrun
      cases hrun
      exact ⟨rfl, lt_of_nextCount hcount⟩

theorem Course.number_of_issued (h : Course steady prompt turn₀ m₀ later turn m)
    (hissued : IssuedIn r id later) : m₀.nextResolverId ≤ r ∧ r < m.nextResolverId := by
  induction h with
  | nil => cases hissued
  | cons hfirst hlast ih =>
    rcases List.mem_cons.1 hissued with rfl | hissued
    · obtain ⟨rfl, hlt⟩ := hlast.number_of_issued
      exact ⟨hfirst.nextResolverId_le, hlt⟩
    · exact ⟨(ih hissued).1, Nat.lt_of_lt_of_le (ih hissued).2 hlast.resolvers.1⟩

/-- A resolver that is pending was pending at any time before, or was issued since. -/
theorem Course.pending_or_issued (h : Course steady prompt turn₀ m₀ later turn m)
    (hr : (r, id) ∈ m.pendingResolvers) :
    (r, id) ∈ m₀.pendingResolvers ∨ IssuedIn r id later := by
  induction h with
  | nil => exact .inl hr
  | cons _ hlast ih =>
    rcases hlast.resolvers.2 (r, id) hr with hr | ⟨rfl, -, -⟩
    · exact (ih hr).imp_right (List.mem_cons_of_mem _)
    · exact .inr List.mem_cons_self

/-- A resolver that is pending was issued since some time exactly when it was not pending then. -/
theorem Course.issuedIn_iff (h : Course steady prompt turn₀ m₀ earlier turn m)
    (hnone : m₀.pendingResolvers = []) (h' : Course steady prompt turn m later turn' m')
    (hr : (r, id) ∈ m'.pendingResolvers) :
    IssuedIn r id later ↔ (r, id) ∉ m.pendingResolvers := by
  constructor
  · intro hissued hleft
    have hlt := (h.accounted hnone _ hleft).1
    exact Nat.not_lt.2 (h'.number_of_issued hissued).1 hlt
  · exact (h'.pending_or_issued hr).resolve_left

/-! ## Parked threads -/

/-- The history of a parked thread: the turn in which it was parked began in one machine and ended
in another, and since then the thread has been parked. -/
structure ParkedAt (id : ThreadId) (past before during since : History) (begun ended : Machine) :
    Prop where
  split : past = since ++ (.ended id, ended) :: (during ++ (.begun id, begun) :: before)
  /-- It was one turn. -/
  turn : ∀ x ∈ during, ∀ other, x.1 ≠ .begun other ∧ x.1 ≠ .ended other
  /-- The thread has had no turn since. -/
  still : ∀ x ∈ since, x.1 ≠ .begun id
  parked : IsBlocked id ended ∧ ∀ x ∈ since, IsBlocked id x.2

/-- The turn of a thread is the last thing that began, and a thread that is parked has its
history. -/
structure Placed (id : ThreadId) (past : History) (turn : Option ThreadId) (m : Machine) :
    Prop where
  inTurn : turn = some id → ∃ before during begun, past = during ++ (.begun id, begun) :: before ∧
    ∀ x ∈ during, ∀ other, x.1 ≠ .begun other ∧ x.1 ≠ .ended other
  parked : turn ≠ some id → IsBlocked id m →
    ∃ before during since begun ended, ParkedAt id past before during since begun ended

theorem Placed.moment (hp : Placed id past turn m) (hn : m.Numbered)
    (h : Moment steady prompt e turn m turn' m') : Placed id ((e, m) :: past) turn' m' := by
  -- In a turn of the thread.
  have hmine (hturn : turn = some id) : Placed id ((e, m) :: past) turn' m' := by
    obtain ⟨before, during, begun, hsplit, hone⟩ := hp.inTurn hturn
    rcases h.turn_cases with ⟨hsame, hneither⟩ | ⟨other, hnone, -, -⟩ |
        ⟨other, hother, hnone, rfl, rfl⟩
    · refine ⟨fun _ => ?_, fun hne => absurd (hsame.trans hturn) hne⟩
      exact ⟨before, (e, m) :: during, begun, by rw [hsplit]; rfl,
        List.forall_mem_cons.2 ⟨hneither, hone⟩⟩
    · rw [hnone] at hturn
      cases hturn
    · obtain rfl : other = id := Option.some.inj (hother.symm.trans hturn)
      refine ⟨fun hsome => ?_, fun _ hblocked => ?_⟩
      · rw [hnone] at hsome
        cases hsome
      · exact ⟨before, during, [], begun, _, by rw [hsplit]; rfl, hone, by simp, hblocked, by simp⟩
  by_cases hturn : turn = some id
  · exact hmine hturn
  constructor
  · intro hturn'
    rcases h.turn_cases with ⟨hsame, -⟩ | ⟨other, -, hother, rfl⟩ | ⟨other, -, hnone, -, -⟩
    · exact absurd (hsame.symm.trans hturn') hturn
    · obtain rfl : other = id := Option.some.inj (hother.symm.trans hturn')
      exact ⟨past, [], m, rfl, by simp⟩
    · rw [hnone] at hturn'
      cases hturn'
  · intro hturn' hblocked'
    have hblocked := h.isBlocked_of_isBlocked hn hturn hblocked'
    obtain ⟨before, during, since, begun, ended, hparked⟩ := hp.parked hturn hblocked
    have hquiet : e ≠ .begun id := by
      rintro rfl
      rcases h.turn_cases with ⟨-, hneither⟩ | ⟨other, -, hother, heq⟩ | ⟨other, -, -, heq, -⟩
      · exact (hneither id).1 rfl
      · cases heq
        exact hturn' hother
      · cases heq
    exact ⟨before, during, (e, m) :: since, begun, ended, by rw [hparked.split]; rfl, hparked.turn,
      List.forall_mem_cons.2 ⟨hquiet, hparked.still⟩, hparked.parked.1,
      List.forall_mem_cons.2 ⟨hblocked, hparked.parked.2⟩⟩

theorem Course.placed (h : Course steady prompt none m₀ past turn m) (hn : m₀.Numbered)
    (hvacant : m₀.threads = []) (id : ThreadId) : Placed id past turn m := by
  induction h with
  | nil =>
    refine ⟨fun h => (by cases h), fun _ ⟨t, ht, _⟩ => ?_⟩
    have hmem := (mem_threads_of_thread? ht).1
    rw [hvacant] at hmem
    cases hmem
  | cons hfirst hlast ih => exact ih.moment (hfirst.numbered hn) hlast

/-! ## What wakes a thread -/

/-- What comes of a settlement that is accepted for a thread in the table. -/
inductive Accepted (id : ThreadId) (s : Settlement) (m : Machine) (t : Thread) (m' : Machine) :
    Prop where
  | resumed {f : Frame} (hblocked : t.status = .blocked) (hframe : settledFrame t s = .ok f)
    (ht' : m'.thread? id = some (awakened f m.reading m.nextQueued t))
  /-- The host function that the thread is in has not answered yet. -/
  | kept (hready : t.status = .ready) (hcurrent : m.currentThread = some id)
    (ht' : m'.thread? id = some t) (hearly : m'.earlySettlements.lookup id = some s)
  | late (hended : t.status = .zombie) (ht' : m'.thread? id = some t)

theorem accepted_of_settle {s : Settlement} {t : Thread} (hrun : settle r id s m = .ok () m')
    (ht : m.thread? id = some t) : Accepted id s m t m' := by
  rw [settle_run] at hrun
  cases hlookup : m.pendingResolvers.lookup r with
  | none =>
    rw [hlookup] at hrun
    cases hrun
  | some holder =>
    rw [hlookup] at hrun
    dsimp only at hrun
    split at hrun
    · cases hrun
    rename_i hholder
    obtain rfl : holder = id := by simpa using hholder
    split at hrun
    · cases hrun
    rw [ht] at hrun
    dsimp only at hrun
    split at hrun
    · cases hrun
      exact .late ‹_› ht
    · rename_i hblocked
      split at hrun
      · cases hrun
      · rename_i f hframe
        cases hrun
        refine .resumed hblocked hframe ?_
        have hwoken : (updateThread holder (awakened f m.reading m.nextQueued) m.threads).find?
            (·.id == holder) = (m.thread? holder).map (awakened f m.reading m.nextQueued) :=
          find?_updateThread (f := awakened f m.reading m.nextQueued) (fun _ => rfl) m.threads
        rwa [ht] at hwoken
    · split at hrun
      · rename_i hgoes
        obtain ⟨hready, hcurrent⟩ : t.status = .ready ∧ m.currentThread = some holder := by
          simpa using hgoes
        cases hrun
        exact .kept hready hcurrent ht (by simp)
      · cases hrun

/-- What can be said of the resolver that wakes a thread, once a machine has come this far. -/
structure Wakes (steady prompt : Prop) (past : History) (turn : Option ThreadId) (m : Machine) :
    Prop where
  /-- A parked thread goes on when a resolver that is pending for it is settled. That resolver was
  issued in the turn in which the thread was parked exactly when it was not pending before that turn
  and not issued since. -/
  woken : ∀ {e turn' m'}, Moment steady prompt e turn m turn' m' → ∀ {id t'}, IsBlocked id m →
    m'.thread? id = some t' → t'.status = .ready →
      ∃ r s before during since begun ended, settle r id s m = .ok () m' ∧
        (r, id) ∈ m.pendingResolvers ∧ ParkedAt id past before during since begun ended ∧
        (IssuedIn r id during ↔ (r, id) ∉ begun.pendingResolvers ∧ ¬ IssuedIn r id since)
  /-- A resolver that is pending was issued since some time exactly when it was not pending then. -/
  issued : ∀ {r id}, (r, id) ∈ m.pendingResolvers → ∀ {later e n earlier},
    past = later ++ (e, n) :: earlier →
      (IssuedIn r id (later ++ [(e, n)]) ↔ (r, id) ∉ n.pendingResolvers)
  /-- What is accepted for a thread wakes it if it is parked, whatever turn the resolver was issued
  in. If it is not parked, it is in its turn or has ended. -/
  accepted : ∀ {r id s m'}, settle r id s m = .ok () m' → ∀ {t}, m.thread? id = some t →
    Accepted id s m t m'

namespace ParkedAt

variable {before during since : History} {begun ended : Machine}

/-- What is pending for a parked thread was issued in the turn in which it was parked exactly when
it was not left over from before that turn and not issued since. -/
theorem issuedIn_iff (hp : ParkedAt id past before during since begun ended)
    (h : Course steady prompt none m₀ past turn m) (hnone : m₀.pendingResolvers = [])
    (hr : (r, id) ∈ m.pendingResolvers) : IssuedIn r id during ↔
      (r, id) ∉ begun.pendingResolvers ∧ ¬ IssuedIn r id since := by
  obtain ⟨turn₁, hbefore, hparking⟩ :
      ∃ turn₁, Course steady prompt none m₀ before turn₁ begun ∧ Course steady prompt turn₁ begun
        (since ++ (.ended id, ended) :: during ++ [(.begun id, begun)]) turn m := by
    refine Course.split_cons ?_
    simpa [hp.split] using h
  obtain ⟨turn₂, hparked, hsince⟩ : ∃ turn₂, Course steady prompt none m₀
      (during ++ (.begun id, begun) :: before) turn₂ ended ∧
        Course steady prompt turn₂ ended (since ++ [(.ended id, ended)]) turn m :=
    Course.split_cons (hp.split ▸ h)
  have hissued : IssuedIn r id since ∨ IssuedIn r id during ↔
      (r, id) ∉ begun.pendingResolvers := by
    rw [← hbefore.issuedIn_iff hnone hparking hr]
    simp [IssuedIn]
  constructor
  · intro hduring
    refine ⟨hissued.1 (.inr hduring), fun hlater => ?_⟩
    have hlt := (hparked.number_of_issued (issuedIn_append.2 (.inl hduring))).2
    have hle := (hsince.number_of_issued (issuedIn_append.2 (.inl hlater))).1
    omega
  · rintro ⟨hleft, hnot⟩
    exact (hissued.2 hleft).resolve_left hnot

end ParkedAt

/-- The turn in which a thread was parked, and what was issued in it. -/
theorem wakes_of_course (h : Course steady prompt none m₀ past turn m) (hn : m₀.Numbered)
    (hvacant : m₀.threads = []) (hnone : m₀.pendingResolvers = []) :
    Wakes steady prompt past turn m where
  woken := by
    intro e turn' m' hmoment id t' hblocked ht' hready
    obtain ⟨t, ht, hstatus⟩ := hblocked
    obtain ⟨r, s, hrun, hmem, hfree⟩ :=
      hmoment.settled_of_woken (h.numbered hn) ht hstatus ht' hready
    have hturn : turn ≠ some id := fun hturn => by
      rcases hfree.going id t hturn ht with hgoes | hgoes <;> rw [hstatus] at hgoes <;> cases hgoes
    obtain ⟨before, during, since, begun, ended, hparked⟩ :=
      (h.placed hn hvacant id).parked hturn ⟨t, ht, hstatus⟩
    exact ⟨r, s, before, during, since, begun, ended, hrun, hmem, hparked,
      hparked.issuedIn_iff h hnone hmem⟩
  issued := by
    rintro r id hr later e n earlier rfl
    obtain ⟨turn₁, hearlier, hlater⟩ := h.split_cons
    exact hearlier.issuedIn_iff hnone hlater hr
  accepted := by
    intro r id s m' hrun t ht
    exact accepted_of_settle hrun ht

/-! ## Whatever the host asks for -/

variable {natives : Natives} {origin : Machine}

/-- What the host asks for makes up moments from the first one on. -/
theorem Asked.course (hnatives : natives.Each (Civil False)) {config : Config}
    {clock : Host.Clock} (hcreate : create config clock = .ok origin) (h : Asked natives origin m) :
    ∃ past, Course False False none origin past none m := by
  have hpolite : natives.Each (Polite False False) := hnatives.mono fun _ h => ⟨h, False.elim⟩
  exact (h.settled hpolite (settled_of_create hcreate)).led

/-- Whatever the host and its functions do, from the first moment on, a parked thread goes on by a
resolver that is pending for it, and only the turn in which that was issued tells whether the thread
is parked for it. -/
theorem Asked.wakes (hnatives : natives.Each (Civil False)) {config : Config}
    {clock : Host.Clock} (hcreate : create config clock = .ok origin) (h : Asked natives origin m) :
    (∃ past, Course False False none origin past none m) ∧
    ∀ past turn n, Course False False none origin past turn n → Wakes False False past turn n := by
  have horigin : Settled False False False origin none none origin := settled_of_create hcreate
  have hvacant := vacant_of_create hcreate
  exact ⟨h.course hnatives hcreate, fun _ _ _ hcourse =>
    wakes_of_course hcourse horigin.orderly.queued hvacant.threads hvacant.idle.pendingResolvers⟩

theorem Asked.trans (h : Asked natives m₀ m) (h' : Asked natives m m') : Asked natives m₀ m' := by
  induction h' with
  | refl => exact h
  | tail _ a hcount ih => exact ih.tail a hcount

theorem Asked.ran (h : Asked natives m₀ m) (a : Ask) (hran : ran? (a.perform natives) m = some m') :
    Asked natives m₀ m' := by
  have hrun := ok_of_ran? hran
  have htail := h.tail a fun n hfail => by cases hrun.symm.trans hfail
  rwa [after_of_ok hrun] at htail

/-- How the threads of a machine stand. -/
def statuses (m : Machine) : List ThreadStatus := m.threads.map fun t => t.status

set_option maxRecDepth 100000 in
/-- A thread is parked in its first call with a resolver, and the host issues another one and
settles that. Then the thread is parked in its second call, and the resolver of the first call is
settled. -/
theorem exists_left_over : ∃ origin first between second woken finished,
    create {} {} = .ok origin ∧ Asked waitingNatives origin first ∧
    Asked waitingNatives first between ∧ Asked waitingNatives between second ∧
    settle 1 ⟨1⟩ (.resolved (.string "one")) second = .ok () woken ∧
    Asked waitingNatives woken finished ∧
    (statuses first = [.blocked] ∧ first.pendingResolvers = [(1, ⟨1⟩)] ∧
      statuses between = [.ready] ∧ between.pendingResolvers = [(1, ⟨1⟩)] ∧
      statuses second = [.blocked] ∧ second.pendingResolvers = [(1, ⟨1⟩), (3, ⟨1⟩)] ∧
      statuses woken = [.ready] ∧ statuses finished = [.zombie] ∧
      finished.global? "a" = some (.string "two") ∧
      finished.global? "b" = some (.string "one")) := by
  have hchecks : ((create {} {}).toOption.bind fun origin =>
      (origin.serve waitingNatives [.define "waitFor",
        .spawn "var a = waitFor(); var b = waitFor();", .run 60]).bind fun first =>
      (ran? ((Ask.issue ⟨1⟩).perform waitingNatives) first).bind fun issued =>
      (issued.serve waitingNatives [.settle 2 ⟨1⟩ (.resolved (.string "two"))]).bind fun between =>
      (between.serve waitingNatives [.run 60]).bind fun second =>
      (ran? (settle 1 ⟨1⟩ (.resolved (.string "one"))) second).bind fun woken =>
      (woken.serve waitingNatives [.run 60]).map fun finished =>
        (origin, first, issued, between, second, woken, finished)).any (fun
          (_, first, _, between, second, woken, finished) => decide
            (statuses first = [.blocked] ∧ first.pendingResolvers = [(1, ⟨1⟩)] ∧
              statuses between = [.ready] ∧ between.pendingResolvers = [(1, ⟨1⟩)] ∧
              statuses second = [.blocked] ∧ second.pendingResolvers = [(1, ⟨1⟩), (3, ⟨1⟩)] ∧
              statuses woken = [.ready] ∧ statuses finished = [.zombie] ∧
              finished.global? "a" = some (.string "two") ∧
              finished.global? "b" = some (.string "one"))) = true := by
    rw [toOption_create]
    decide +kernel
  obtain ⟨_, hsession, hchecks⟩ := (Option.any_eq_true _ _).1 hchecks
  obtain ⟨origin, horigin, hsession⟩ := Option.bind_eq_some_iff.1 hsession
  obtain ⟨first, hfirst, hsession⟩ := Option.bind_eq_some_iff.1 hsession
  obtain ⟨issued, hissued, hsession⟩ := Option.bind_eq_some_iff.1 hsession
  obtain ⟨between, hbetween, hsession⟩ := Option.bind_eq_some_iff.1 hsession
  obtain ⟨second, hsecond, hsession⟩ := Option.bind_eq_some_iff.1 hsession
  obtain ⟨woken, hwoken, hsession⟩ := Option.bind_eq_some_iff.1 hsession
  obtain ⟨finished, hfinished, rfl⟩ := Option.map_eq_some_iff.1 hsession
  exact ⟨origin, first, between, second, woken, finished, create_of_toOption horigin,
    Asked.refl.serve hfirst, (Asked.refl.ran _ hissued).serve hbetween, Asked.refl.serve hsecond,
    ok_of_ran? hwoken, Asked.refl.serve hfinished, of_decide_eq_true hchecks⟩

/-- A thread that waits in its only call goes on by the resolver of that call. -/
theorem wakes_waiting : ∃ origin m, create {} {} = .ok origin ∧ Asked waitingNatives origin m ∧
    statuses m = [.blocked] ∧ m.pendingResolvers = [(1, ⟨1⟩)] ∧
    (∃ past, Course False False none origin past none m) ∧
    ∀ past turn n, Course False False none origin past turn n → Wakes False False past turn n := by
  obtain ⟨origin, m, _, _, _, _, hcreate, h, _, _, _, _, hstatus, hpending, _⟩ := exists_left_over
  exact ⟨origin, m, hcreate, h, hstatus, hpending,
    Asked.wakes each_civil_waitingNatives_false hcreate h⟩

/-- A resolver that was left over from an earlier call wakes a thread that is parked in a later one:
the thread was ready in between, with the resolver pending. -/
theorem left_over_resolver_wakes : ∃ origin between second woken,
    waitingNatives.Each (Civil False) ∧ create {} {} = .ok origin ∧
    Asked waitingNatives origin between ∧ Asked waitingNatives between second ∧
    (statuses between = [.ready] ∧ between.pendingResolvers = [(1, ⟨1⟩)]) ∧
    statuses second = [.blocked] ∧
    settle 1 ⟨1⟩ (.resolved (.string "one")) second = .ok () woken ∧
    statuses woken = [.ready] := by
  obtain ⟨origin, first, between, second, woken, _, hcreate, hfirst, hbetween, hsecond, hrun, _, _,
    _, hready, hleft, hblocked, _, hwoken, _⟩ := exists_left_over
  exact ⟨origin, between, second, woken, each_civil_waitingNatives_false, hcreate,
    hfirst.trans hbetween, hsecond, ⟨hready, hleft⟩, hblocked, hrun, hwoken⟩

end Machine

end ScriptMachine
