import ScriptMachine.Proofs.Fault
import ScriptMachine.Proofs.Order.Run
import ScriptMachine.Proofs.Pairing.Collect

/-!
# Paired runs

Between two steps a machine rests: it is in order and no settlement waits. Steps and whole runs take
resting machines that are paired to such machines, wherever garbage is collected on the way.
-/

namespace ScriptMachine

open Machine Exec

/-- A machine is in order and no settlement waits. -/
structure Machine.Calm (current : Option ThreadId) (m : Machine) : Prop where
  orderly : Orderly False False none m
  quiet : Quiet current m

namespace Machine.Calm

variable {current : Option ThreadId} {m : Machine}

/-- The history of a machine may begin with it. -/
theorem settled (h : m.Calm current) : Settled False False False m none current m :=
  ⟨h.orderly, h.quiet, [], .nil⟩

theorem of_settled {origin : Machine} (h : Settled False False False origin none current m) :
    m.Calm current :=
  ⟨h.orderly, h.quiet⟩

theorem leaves {α : Type} {x : Exec α}
    (h : Leaves (Settled False False False m none current) x m) : Leaves (Calm current) x m :=
  h.mono fun _ => of_settled

end Machine.Calm

namespace Pairing

variable {w : Prop} {P Q : Machine → Prop} {p q : Pairing} {m m' : Machine}

/-- Host functions answer alike on machines that are paired, or on machines that are one. -/
def Obeyed (w : Prop) (natives : Natives) : Prop :=
  ∀ p : Pairing, (p.whole ↔ w) → p.Answers natives

/-- Two machines are paired while no thread is being stepped. -/
structure Rests (w : Prop) (Q : Machine → Prop) (p : Pairing) (m m' : Machine) : Prop where
  whole : p.whole ↔ w
  actor : p.actor = none
  machines : p.Machines m m'
  left : Q m
  right : Q m'

/-- Two operations come to the same, and the machines that they leave rest. -/
def Meets {α : Type} [Carried α] (w : Prop) (Q : Machine → Prop) (x x' : Exec α)
    (m m' : Machine) : Prop :=
  ∃ q : Pairing, (q.whole ↔ w) ∧ q.actor = none ∧ q.Agree (x m) (x' m') ∧
    Leaves Q x m ∧ Leaves Q x' m'

section Rules

variable {α β : Type} [Carried α] [Carried β] {x x' : Exec α}

theorem Rests.mono (h : Rests w P p m m') (hPQ : ∀ n, P n → Q n) : Rests w Q p m m' :=
  { h with left := hPQ m h.left, right := hPQ m' h.right }

theorem Rests.pure (h : Rests w Q p m m') {a a' : α} (ha : p.Pairs a a') :
    Meets w Q (pure a : Exec α) (pure a') m m' :=
  ⟨p, h.whole, h.actor, ⟨h.machines, ha⟩, h.left, h.right⟩

theorem Rests.query (h : Rests w Q p m m') {r r' : Except Failure α} (hr : p.Pairs r r') :
    Meets w Q (query fun _ => r) (query fun _ => r') m m' :=
  ⟨p, h.whole, h.actor, mirrors_query (fun _ _ _ => hr) m m' h.machines, leaves_query _ h.left,
    leaves_query _ h.right⟩

/-- Where the first part fails on either side, the machine that is left is one that may be left. -/
theorem Meets.bind_of {f f' : α → Exec β} (hx : Meets w P x x' m m')
    (hf : ∀ q a a' n n', x m = .ok a n → x' m' = .ok a' n' → q.Pairs a a' → Rests w P q n n' →
      Meets w Q (f a) (f' a') n n')
    (herror : ∀ e n, x m = .error e n ∨ x' m' = .error e n → P n → e = .overflow ∨ Q n) :
    Meets w Q (x >>= f) (x' >>= f') m m' := by
  obtain ⟨q, hwhole, hactor, hagree, hleft, hright⟩ := hx
  unfold Leaves at hleft hright
  unfold Meets Leaves
  rw [bind_run, bind_run]
  cases hrun : x m with
  | ok a n =>
    cases hrun' : x' m' with
    | ok a' n' =>
      rw [hrun, hrun'] at hagree
      rw [hrun] at hleft
      rw [hrun'] at hright
      exact hf q a a' n n' hrun hrun' hagree.2 ⟨hwhole, hactor, hagree.1, hleft, hright⟩
    | error e' n' =>
      rw [hrun, hrun'] at hagree
      exact hagree.elim
  | error e n =>
    cases hrun' : x' m' with
    | ok a' n' =>
      rw [hrun, hrun'] at hagree
      exact hagree.elim
    | error e' n' =>
      rw [hrun, hrun'] at hagree
      rw [hrun] at hleft
      rw [hrun'] at hright
      exact ⟨q, hwhole, hactor, hagree, hleft.elim .inl (herror e n (.inl hrun)),
        hright.elim .inl (herror e' n' (.inr hrun'))⟩

theorem Meets.bind {f f' : α → Exec β} (hx : Meets w P x x' m m')
    (hf : ∀ q a a' n n', x m = .ok a n → x' m' = .ok a' n' → q.Pairs a a' → Rests w P q n n' →
      Meets w Q (f a) (f' a') n n') (h : ∀ n, P n → Q n) :
    Meets w Q (x >>= f) (x' >>= f') m m' :=
  hx.bind_of hf fun _ n _ hn => .inr (h n hn)

/-- A failure is looked at on both sides, unless a counter ran out. -/
theorem Meets.attempt_bind {k k' : Except Failure α → Exec β} (hx : Meets w P x x' m m')
    (hk : ∀ q r r' n n', Exec.attempt x m = .ok r n → Exec.attempt x' m' = .ok r' n' →
      q.Pairs r r' → Rests w P q n n' → Meets w Q (k r) (k' r') n n') :
    Meets w Q (Exec.attempt x >>= k) (Exec.attempt x' >>= k') m m' := by
  have hleaves {x : Exec α} {m : Machine} (h : Leaves P x m) : Leaves P (Exec.attempt x) m := by
    rw [← bind_pure (Exec.attempt x)]
    exact h.attempt_bind (fun _ _ _ hn => leaves_pure _ hn) fun _ _ _ _ hn => leaves_pure _ hn
  have hoverflow {x : Exec α} {m n : Machine} {e : Failure}
      (h : Exec.attempt x m = .error e n) : e = .overflow := by
    unfold Exec.attempt at h
    split at h <;> cases h
    rfl
  obtain ⟨q, hwhole, hactor, hagree, hleft, hright⟩ := hx
  have hattempt : Meets w P (Exec.attempt x) (Exec.attempt x') m m' :=
    ⟨q, hwhole, hactor, agree_attempt hagree, hleaves hleft, hleaves hright⟩
  exact hattempt.bind_of hk fun _ _ h _ => .inl (h.elim hoverflow hoverflow)

omit [Carried α] in
/-- Both operations begin with a part that succeeds. -/
theorem meets_of_run {f f' : α → Exec β} {a a' : α} {n n' : Machine} (hrun : x m = .ok a n)
    (hrun' : x' m' = .ok a' n') (h : Meets w Q (f a) (f' a') n n') :
    Meets w Q (x >>= f) (x' >>= f') m m' := by
  obtain ⟨q, hwhole, hactor, hagree, hleft, hright⟩ := h
  refine ⟨q, hwhole, hactor, ?_, leaves_of_bind_run hrun hleft, leaves_of_bind_run hrun' hright⟩
  rwa [bind_run_of_ok hrun, bind_run_of_ok hrun']

end Rules

/-! ## Turns -/

section Turns

variable {thread : ThreadId} {current : Option ThreadId} {natives : Natives}

/-- The same threads can run on both machines. -/
theorem Machines.ready_iff (hm : p.Machines m m') :
    m'.threadStatus thread = some .ready ↔ m.threadStatus thread = some .ready := by
  have hshown {t : Thread} (hready : t.status = .ready) : p.shows t = true := by
    simp [shows, Thread.isZombie, hready]
  unfold Machine.threadStatus
  constructor
  · intro hstatus
    obtain ⟨t', ht', hready⟩ := Option.map_eq_some_iff.1 hstatus
    by_cases hfound : ∃ t, m.thread? thread = some t ∧ p.shows t = true
    · obtain ⟨t, ht, hshows⟩ := hfound
      obtain rfl := Option.some.inj (ht'.symm.trans (hm.thread?_of_shows ht hshows).2)
      exact Option.map_eq_some_iff.2 ⟨t, ht, hready⟩
    · have hhidden := hm.thread?_of_not_shows
        (fun t ht => Bool.eq_false_iff.2 fun hshows => hfound ⟨t, ht, hshows⟩) ht'
      rw [hshown hready] at hhidden
      cases hhidden
  · intro hstatus
    obtain ⟨t, ht, hready⟩ := Option.map_eq_some_iff.1 hstatus
    exact Option.map_eq_some_iff.2 ⟨_, (hm.thread?_of_shows ht (hshown hready)).2, hready⟩

/-- No thread is being stepped any more. -/
theorem agree_rest {α : Type} [Carried α] {r r' : EStateM.Result Failure Machine α}
    (h : p.Agree r r') : (p.acting none).Agree r r' := by
  revert h
  cases r with
  | ok a n =>
    cases r' with
    | ok a' n' => exact fun h => ⟨h.1.rest_turn, h.2.acting none⟩
    | error e' n' => exact id
  | error e n =>
    cases r' with
    | ok a' n' => exact id
    | error e' n' => exact fun h => ⟨h.1.rest_turn, h.2.acting none⟩

/-- A step of a thread does the same on both machines. -/
theorem meets_stepThread (hnatives : natives.Each (Polite False False))
    (hobeyed : Obeyed w natives) (h : Rests w (Calm (some thread)) p m m') {t : Thread}
    (ht : m.thread? thread = some t) (hready : t.status = .ready) :
    Meets w (Calm (some thread)) (stepThread natives thread) (stepThread natives thread) m m' := by
  obtain ⟨t', ht', hready'⟩ := Option.map_eq_some_iff.1
    (h.machines.ready_iff.2 (Option.map_eq_some_iff.2 ⟨t, ht, hready⟩))
  have hturn := h.machines.take_turn_ready h.actor ht hready
  obtain ⟨q, hle, hagree⟩ := follows_stepThread (p := p.acting (some thread)) rfl
    (hobeyed _ h.whole) m m' hturn
  exact ⟨q.acting none, hle.whole.trans h.whole, rfl, agree_rest hagree,
    Calm.leaves (leaves_stepThread hnatives h.left.settled ht hready False.elim),
    Calm.leaves (leaves_stepThread hnatives h.right.settled ht' hready' False.elim)⟩

theorem maybeCollectGarbage_run (m : Machine) :
    maybeCollectGarbage m = .ok () (m.collectIf m.heap.shouldCollect) := by
  unfold maybeCollectGarbage collectIf
  rw [bind_run, get_run]
  dsimp only
  split <;> rfl

theorem Calm.collectIf (h : m.Calm current) (collects : Bool) :
    (m.collectIf collects).Calm current := by
  cases collects with
  | false => exact h
  | true => exact Calm.of_settled h.settled.collected

/-- Garbage may be collected on either side. -/
theorem Rests.collectIf (h : Rests w (Calm current) p m m') {collects collects' : Bool}
    (hsame : w → collects' = collects) :
    Rests w (Calm current) (p.keeping m collects) (m.collectIf collects)
      (m'.collectIf collects') where
  whole := h.whole
  actor := h.actor
  machines := h.machines.collected h.actor h.left.quiet.early fun hwhole => hsame (h.whole.1 hwhole)
  left := Calm.collectIf h.left collects
  right := Calm.collectIf h.right collects'

/-- The machines attend to a thread. -/
theorem Rests.attend (h : Rests w (Calm none) p m m') (hforemost : m.Foremost thread)
    (hforemost' : m'.Foremost thread) : Rests w (Calm (some thread)) p
      { m with currentThread := some thread } { m' with currentThread := some thread } where
  whole := h.whole
  actor := h.actor
  machines := h.machines.host (hostOnly_attend (some thread))
  left := Calm.of_settled (h.left.settled.attend hforemost)
  right := Calm.of_settled (h.right.settled.attend hforemost')

/-- The machines attend to no thread any more. -/
theorem Rests.rest (h : Rests w (Calm current) p m m') :
    Rests w (Calm none) p { m with currentThread := none } { m' with currentThread := none } where
  whole := h.whole
  actor := h.actor
  machines := h.machines.host (hostOnly_attend none)
  left := Calm.of_settled h.left.settled.rest
  right := Calm.of_settled h.right.settled.rest

/-- Both machines pick the same thread. -/
theorem Rests.schedule (h : Rests w (Calm none) p m m') :
    ∃ found n n', schedule m = .ok found n ∧ schedule m' = .ok found n' ∧
      Rests w (Calm none) p n n' ∧
      ∀ id, found = .run id → n.Foremost id ∧ n'.Foremost id := by
  obtain ⟨found, n, hrun, hn, hforemost, -⟩ := schedule_run h.left.settled
  obtain ⟨found', n', hrun', hn', hforemost', -⟩ := schedule_run h.right.settled
  have hagree := mirrors_schedule m m' h.machines
  rw [hrun, hrun'] at hagree
  obtain rfl : found' = found := hagree.2.eq
  exact ⟨found', n, n', hrun, hrun',
    ⟨h.whole, h.actor, hagree.1, Calm.of_settled hn, Calm.of_settled hn'⟩,
    fun id hid => ⟨hforemost id hid, hforemost' id hid⟩⟩

/-- A thread that goes first on both machines starts its run. -/
theorem meets_startRun (h : Rests w (Calm none) p m m') (hforemost : m.Foremost thread)
    (hforemost' : m'.Foremost thread) :
    Meets w (fun n => n.Calm none ∧ n.Foremost thread) (startRun thread) (startRun thread)
      m m' := by
  have hleaves {m : Machine} (hm : m.Calm none) (hfirst : m.Foremost thread) :
      Leaves (fun n => n.Calm none ∧ n.Foremost thread) (startRun thread) m :=
    (leaves_startRun hm.settled ⟨hfirst, False.elim⟩).mono fun n hn =>
      ⟨Calm.of_settled hn.1, hn.2.foremost⟩
  have hturn : (p.acting (some thread)).Machines m m' := by
    obtain ⟨t, ht, hready, -⟩ := hforemost
    exact h.machines.take_turn_ready h.actor ht hready
  exact ⟨p.acting none, h.whole, rfl, agree_rest (p := p.acting (some thread)) (mirrors_startRun rfl m m' hturn),
    hleaves h.left hforemost, hleaves h.right hforemost'⟩

/-! ## Runs -/

/-- A fault that met no handle without a slot is known to every pairing. -/
theorem within_of_isFault {e : Failure} (he : e.isFault = true) (hw : Within p e) :
    Within q e := by
  cases e with
  | fault cause =>
    cases cause with
    | danglingObject id => exact hw.elim
    | danglingScope id => exact hw.elim
    | danglingProgram id => exact hw.elim
    | _ => trivial
  | image message => trivial
  | json => trivial
  | overflow => trivial
  | _ => cases he

/-- What a step gave is the same after a collection. -/
theorem Pairs.keeping {r r' : Except Failure Unit} (hr : p.Pairs r r')
    (hfault : ∀ e, r = .error e → e.isFault = true) (m : Machine) (collects : Bool) :
    (p.keeping m collects).Pairs r r' := by
  refine hr.narrow (extends_keeping m collects) ?_
  cases r with
  | ok a => trivial
  | error e => exact within_of_isFault (hfault e rfl) (show Within p e from hr.within)

theorem isFault_of_attempt_stepThread {n : Machine} {r : Except Failure Unit}
    (hrun : Exec.attempt (stepThread natives thread) m = .ok r n) {e : Failure}
    (he : r = .error e) : e.isFault = true := by
  subst he
  unfold Exec.attempt at hrun
  cases hstep : stepThread natives thread m with
  | ok a m' =>
    rw [hstep] at hrun
    cases hrun
  | error e' m' =>
    have hfault := faults_stepThread thread natives m e' m' hstep
    rw [hstep] at hrun
    cases e' <;> cases hrun <;> exact hfault

variable (hnatives : natives.Each (Polite False False)) (hobeyed : Obeyed w natives)

include hnatives hobeyed

/-- The turn of the thread that goes first, with the collection behind it. -/
theorem meets_turn (h : Rests w (Calm none) p m m') (hforemost : m.Foremost thread)
    (hforemost' : m'.Foremost thread) :
    let turn : Exec Bool := do
      modify fun m => { m with currentThread := some thread }
      let result ← Exec.attempt (stepThread natives thread)
      modify fun m => { m with currentThread := none }
      maybeCollectGarbage
      query fun _ => result.map fun _ => true
    Meets w (Calm none) turn turn m m' := by
  refine meets_of_run rfl rfl ?_
  obtain ⟨t, ht, hready, -⟩ := id hforemost
  refine (meets_stepThread hnatives hobeyed (h.attend hforemost hforemost') ht
    hready).attempt_bind fun q r r' n n' hrun _ hr hn => ?_
  refine meets_of_run rfl rfl (meets_of_run (maybeCollectGarbage_run _)
    (maybeCollectGarbage_run _) ?_)
  refine (hn.rest.collectIf fun hw => ?_).query ?_
  · rw [hn.machines.same (hn.whole.2 hw)]
  · have hkept := hr.keeping (fun e he => isFault_of_attempt_stepThread hrun he)
      { n with currentThread := none } n.heap.shouldCollect
    obtain ⟨hw, rfl⟩ := hkept
    cases r with
    | ok a => exact ⟨trivial, rfl⟩
    | error e => exact ⟨hw, rfl⟩

/-- One step of the machine comes to the same. -/
theorem meets_stepOnce (h : Rests w (Calm none) p m m') :
    Meets w (Calm none) (stepOnce natives) (stepOnce natives) m m' := by
  unfold stepOnce
  refine meets_of_run rfl rfl ?_
  rw [h.machines.status]
  split
  · exact h.pure ⟨trivial, rfl⟩
  obtain ⟨found, n, n', hrun, hrun', hn, hforemost⟩ := h.schedule
  refine meets_of_run hrun hrun' ?_
  cases found with
  | waitUntil time => exact hn.pure ⟨trivial, rfl⟩
  | blocked => exact hn.pure ⟨trivial, rfl⟩
  | idle => exact hn.pure ⟨trivial, rfl⟩
  | run thread =>
    obtain ⟨hfirst, hfirst'⟩ := hforemost thread rfl
    refine meets_of_run rfl rfl ?_
    rw [hn.machines.lastStepped]
    split
    · exact (meets_startRun hn hfirst hfirst').bind
        (fun q _ _ k k' _ _ _ hk => meets_turn hnatives hobeyed (hk.mono fun _ h => h.1)
          hk.left.2 hk.right.2) fun _ h => h.1
    · exact meets_turn hnatives hobeyed hn hfirst hfirst'

theorem meets_runSteps (h : Rests w (Calm (some thread)) p m m') (fuel : Nat) :
    Meets w (Calm (some thread)) (runSteps natives thread fuel) (runSteps natives thread fuel)
      m m' := by
  induction fuel generalizing p m m' with
  | zero => exact h.pure ⟨trivial, rfl⟩
  | succ fuel ih =>
    unfold runSteps
    refine meets_of_run rfl rfl ?_
    rw [h.machines.status, show (m'.threadStatus thread != some .ready) =
      (m.threadStatus thread != some .ready) from Bool.eq_iff_iff.2 (by simp [h.machines.ready_iff])]
    split
    · exact h.pure ⟨trivial, rfl⟩
    · rename_i hgoes
      obtain ⟨t, ht, hready⟩ := Option.map_eq_some_iff.1 (threadStatus_of_goes hgoes)
      refine (meets_stepThread hnatives hobeyed h ht hready).bind
        (fun q _ _ n n' _ _ _ hn => ?_) fun _ h => h
      refine meets_of_run (maybeCollectGarbage_run n) (maybeCollectGarbage_run n') ?_
      exact ih (hn.collectIf fun hw => by rw [hn.machines.same (hn.whole.2 hw)])

theorem meets_runThread (h : Rests w (Calm none) p m m') (hforemost : m.Foremost thread)
    (hforemost' : m'.Foremost thread) (fuel : Nat) :
    Meets w (Calm none) (runThread natives thread fuel) (runThread natives thread fuel) m m' := by
  refine (meets_startRun h hforemost hforemost').bind (fun q _ _ n n' _ _ _ hn => ?_)
    fun _ h => h.1
  refine meets_of_run rfl rfl ?_
  have hattended := (hn.mono fun _ h => h.1).attend hn.left.2 hn.right.2
  refine (meets_runSteps hnatives hobeyed hattended fuel).attempt_bind
    fun q r r' k k' _ _ hr hk => ?_
  exact meets_of_run rfl rfl (hk.rest.query hr)

theorem meets_runRounds (h : Rests w (Calm none) p m m') (rounds fuel : Nat) :
    Meets w (Calm none) (runRounds natives rounds fuel) (runRounds natives rounds fuel) m m' := by
  induction rounds generalizing p m m' fuel with
  | zero => exact h.pure ⟨trivial, rfl⟩
  | succ rounds ih =>
    unfold runRounds
    refine meets_of_run rfl rfl ?_
    rw [h.machines.status]
    split
    · exact h.pure ⟨trivial, rfl⟩
    · exact h.pure ⟨trivial, rfl⟩
    · obtain ⟨found, n, n', hrun, hrun', hn, hforemost⟩ := h.schedule
      refine meets_of_run hrun hrun' ?_
      cases found with
      | waitUntil time => exact hn.pure ⟨trivial, rfl⟩
      | blocked => exact hn.pure ⟨trivial, rfl⟩
      | idle => exact hn.pure ⟨trivial, rfl⟩
      | run thread =>
        obtain ⟨hfirst, hfirst'⟩ := hforemost thread rfl
        refine (meets_runThread hnatives hobeyed hn hfirst hfirst' fuel).bind
          (fun q left left' k k' _ _ hleft hk => ?_) fun _ h => h
        obtain rfl : left' = left := hleft.eq
        split
        · exact hk.pure ⟨trivial, rfl⟩
        · exact ih hk left'

/-- A whole run comes to the same. -/
theorem meets_runToQuiescence (h : Rests w (Calm none) p m m') (fuel : Nat) :
    Meets w (Calm none) (runToQuiescence natives fuel) (runToQuiescence natives fuel) m m' :=
  meets_runRounds hnatives hobeyed h _ _

end Turns

end Pairing

end ScriptMachine
