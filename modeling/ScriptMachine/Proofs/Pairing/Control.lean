import ScriptMachine.Proofs.Pairing.Call

/-!
# Paired control by the host

A host that starts a thread or settles a resolver does the same on paired machines.
-/

namespace ScriptMachine

open Machine Exec

namespace Pairing

variable {p : Pairing}

/-! ## New threads -/

theorem follows_spawnProgram {program program' : ProgramId} (hprogram : p.Pairs program program') :
    p.Follows (spawnProgram program) (spawnProgram program') := by
  refine (mirrors_heapQuery fun _ _ hk => hk.pairs_program hprogram).bind_follows fun t _ => ?_
  refine follows_get_bind fun m m' hm => ?_
  exact (mirrors_newThread (pairs_ofNode
    (show p.Pairs (⟨program, t.root⟩ : NodeRef) ⟨program', t.root⟩ from
      ⟨hprogram.within, by rw [hprogram.eq]; rfl⟩) hm.globalScope) 0 true).follows

theorem follows_spawn (source : String) : p.Follows (spawn source) (spawn source) :=
  (follows_load source).bind fun _ _ _ _ hprogram => follows_spawnProgram hprogram

theorem follows_spawnCall {func func' receiver receiver' : Value} (hfunc : p.Pairs func func')
    (hreceiver : p.Pairs receiver receiver') {args args' : List Value} (hargs : p.Pairs args args')
    (delay : Float) :
    p.Follows (spawnCall func receiver args delay) (spawnCall func' receiver' args' delay) :=
  follows_get_bind fun _ _ hm => follows_spawnCallAs hfunc hreceiver hargs delay hm.rootOwner true

/-! ## Resolvers -/

theorem pairs_settledFrame {t : Thread} (ht : Within p t) {s : Settlement} (hs : Within p s) :
    p.Pairs (settledFrame t s) (settledFrame (image p t) (image p s)) := by
  have hframes : Within p t.stack.frames := ht.stack
  unfold settledFrame
  rw [image_stack, image_frames]
  revert hframes
  cases t.stack.frames with
  | nil => exact fun _ => pairs_error ⟨trivial, rfl⟩
  | cons f rest =>
    intro hframes
    obtain ⟨hf, -⟩ := (within_cons p f rest).1 hframes
    have hinfo := hf.info
    rw [image_cons]
    dsimp only
    rw [image_info]
    revert hinfo
    cases f.info with
    | call c =>
      intro hc
      rw [image_call]
      dsimp only
      rw [image_phase]
      split
      · obtain ⟨hvalue, hphase⟩ := pairs_toPhase s hs
        have hcall := Pairs.withCallValue (pairs_image hf) (pairs_image (x := c) hc)
          s.toPhase.1 hvalue
        refine pairs_ok ?_
        rw [hphase]
        exact hcall
      · exact pairs_error ⟨trivial, rfl⟩
    | _ => exact fun _ => pairs_error ⟨trivial, rfl⟩

theorem mirrors_removeResolver (id : Nat) :
    p.Mirrors (removeResolver id) (removeResolver id) :=
  mirrors_modifyHost ⟨fun _ _ _ _ _ _ _ _ _ => rfl, fun _ => rfl, fun _ => rfl⟩

theorem mirrors_keepEarly (thread : ThreadId) {s s' : Settlement} (hs : p.Pairs s s') :
    p.Mirrors (keepEarly thread s) (keepEarly thread s') := by
  refine mirrors_modify fun m m' hm => hm.setEarly ?_
  obtain ⟨hw, heq⟩ := pairs_dropEarly hm.early thread
  refine ⟨(within_cons p _ _).2 ⟨⟨trivial, hs.within⟩, hw⟩, ?_⟩
  rw [heq, hs.eq]
  rfl

/-- What settling a resolver does for the thread that holds it. -/
def settling (holder : ThreadId) (time : Float) (queued id : Nat) (s : Settlement) : Exec Unit := do
  match (← get).thread? holder with
  | none => return
  | some t =>
    match t.status with
    | .zombie => return
    | .blocked =>
      let f ← query fun _ => settledFrame t s
      modifyThread holder fun t =>
        { t with
          stack := t.stack.modifyTop fun _ => f
          status := .ready, runAt := time, runStarted := time, queued }
    | status =>
      if status == .ready && (← get).currentThread == some holder then keepEarly holder s
      else throw (.fault (.settledWhile id holder.index status.name))

/-- A thread that is not shown has ended. -/
theorem isZombie_of_not_shows {t : Thread} (h : p.shows t = false) : t.isZombie = true := by
  unfold shows at h
  simp only [Bool.or_eq_false_iff, Bool.not_eq_false'] at h
  exact h.1.1

/-- Nothing is settled for a thread that is not shown. -/
theorem settling_of_not_shows {m : Machine} {holder : ThreadId}
    (h : ∀ t, m.thread? holder = some t → p.shows t = false) (time : Float) (queued id : Nat)
    (s : Settlement) : settling holder time queued id s m = .ok () m := by
  unfold settling
  rw [bind_run_of_ok (get_run m)]
  cases ht : m.thread? holder with
  | none => rfl
  | some t =>
    have hended : t.status = .zombie := eq_of_beq (isZombie_of_not_shows (h t ht))
    dsimp only
    rw [hended]
    rfl

theorem mirrors_settling (holder : ThreadId) (time : Float) (queued id : Nat) {s s' : Settlement}
    (hs : p.Pairs s s') :
    p.Mirrors (settling holder time queued id s) (settling holder time queued id s') := by
  intro m m' hm
  by_cases hshown : ∃ t, m.thread? holder = some t ∧ p.shows t = true
  · obtain ⟨t, ht, hshows⟩ := hshown
    obtain ⟨hw, ht'⟩ := hm.thread?_of_shows ht hshows
    obtain ⟨hs, rfl⟩ := hs
    unfold settling
    rw [bind_run_of_ok (get_run m), bind_run_of_ok (get_run m'), ht, ht']
    dsimp only
    rw [image_status]
    have hother (status : ThreadStatus) : p.Agree
        ((do
          if status == .ready && (← get).currentThread == some holder then keepEarly holder s
          else throw (.fault (.settledWhile id holder.index status.name)) : Exec Unit) m)
        ((do
          if status == .ready && (← get).currentThread == some holder then
            keepEarly holder (image p s)
          else throw (.fault (.settledWhile id holder.index status.name)) : Exec Unit) m') := by
      rw [bind_run_of_ok (get_run m), bind_run_of_ok (get_run m'), hm.currentThread]
      split
      · exact mirrors_keepEarly holder (pairs_image hs) m m' hm
      · exact ⟨hm, trivial, rfl⟩
    cases t.status with
    | zombie => exact ⟨hm, trivial, rfl⟩
    | ready => exact hother .ready
    | sleeping => exact hother .sleeping
    | blocked =>
      refine agree_query_bind hm (pairs_settledFrame hw hs) fun f hf _ => ?_
      rw [modifyThread_run, modifyThread_run, all_ne_eq_isNone, all_ne_eq_isNone, ht, ht']
      refine ⟨hm.updateThread (fun _ => rfl) (fun _ => rfl)
        (fun u hu => ⟨within_modifyTop hu.stack fun _ _ => hf, hu.outcome⟩) (fun u => ?_)
        (fun u hu => ?_) fun u hu => ?_, trivial, rfl⟩
      · exact congrArg (fun stack => ({ image p u with
          stack, status := .ready, runAt := time, runStarted := time, queued } : Thread))
          (modifyTop_image p u.stack fun _ => rfl)
      · exact Option.some.inj (ht.symm.trans hu) ▸ hshows
      · exact Option.some.inj (ht'.symm.trans hu) ▸ hshows
  · have hhidden : ∀ t, m.thread? holder = some t → p.shows t = false := fun t ht =>
      Bool.eq_false_iff.2 fun hshows => hshown ⟨t, ht, hshows⟩
    rw [settling_of_not_shows hhidden,
      settling_of_not_shows fun t ht => hm.thread?_of_not_shows hhidden ht]
    exact ⟨hm, trivial, rfl⟩

/-- A resolver is settled for a thread that is shown, or for one that has ended. -/
theorem mirrors_settle (id : Nat) (thread : ThreadId) {s s' : Settlement} (hs : p.Pairs s s') :
    p.Mirrors (settle id thread s) (settle id thread s') := by
  refine mirrors_get_bind fun m m' hm => ?_
  rw [hm.pendingResolvers]
  cases m.pendingResolvers.lookup id with
  | none => exact mirrors_throw ⟨trivial, rfl⟩
  | some holder =>
    dsimp only
    refine (mirrors_removeResolver id).bind fun _ _ => ?_
    split
    · exact mirrors_throw_bind ⟨by trivial, rfl⟩ _ _
    refine mirrors_now.bind fun time _ => mirrors_takeQueuePosition.bind fun queued _ => ?_
    exact mirrors_settling holder time queued id hs

/-! ## Properties -/

theorem mirrors_defineHidden {id id' : ObjectId} (hid : p.Pairs id id') (key : String)
    {v v' : Value} (hv : p.Pairs v v') {actor actor' : Option Owner}
    (hactor : p.Pairs actor actor') :
    p.Mirrors (defineHidden id key v actor) (defineHidden id' key v' actor') :=
  (mirrors_authorize hactor hid .define).bind fun _ _ =>
    mirrors_editObject hid (fun _ ho => (pairs_image ho).put (pairs_hidden hv) key) (fun _ => rfl)
      fun _ => rfl

/-! ## Services -/

theorem mirrors_advance (millis : Float) :
    p.Mirrors (modify fun m => { m with clock := m.clock.advance millis } : Exec Unit)
      (modify fun m => { m with clock := m.clock.advance millis }) :=
  mirrors_modifyHost ⟨fun _ _ _ _ _ _ _ _ _ => rfl, fun _ => rfl, fun _ => rfl⟩

theorem mirrors_waitUntil (time : Float) : p.Mirrors (waitUntil time) (waitUntil time) := by
  refine mirrors_now.bind fun reading _ => ?_
  rw [image_float]
  dsimp only
  split
  · exact mirrors_modifyHost ⟨fun _ _ _ _ _ _ _ _ _ => rfl, fun _ => rfl, fun _ => rfl⟩
  · exact mirrors_pure pairs_unit

theorem mirrors_setClock (time : Float) : p.Mirrors (setClock time) (setClock time) :=
  mirrors_modifyHost ⟨fun _ _ _ _ _ _ _ _ _ => rfl, fun _ => rfl, fun _ => rfl⟩

theorem mirrors_replaceClock (clock : Host.Clock) :
    p.Mirrors (replaceClock clock) (replaceClock clock) := by
  have hstart (time : Float) : p.Mirrors (do
        modify fun m => { m with clock }
        modify fun m => { m with clock := clock.read.2, previousElapsed := time - clock.read.1 })
      (do
        modify fun m => { m with clock }
        modify fun m => { m with clock := clock.read.2, previousElapsed := time - clock.read.1 }) :=
    (mirrors_modifyHost (g := fun m => { m with clock })
      ⟨fun _ _ _ _ _ _ _ _ _ => rfl, fun _ => rfl, fun _ => rfl⟩).bind fun _ _ =>
        mirrors_modifyHost ⟨fun _ _ _ _ _ _ _ _ _ => rfl, fun _ => rfl, fun _ => rfl⟩
  refine mirrors_get_bind fun m m' hm => ?_
  rw [hm.clockStarted]
  cases m.clockStarted with
  | true => exact mirrors_now.bind fun time _ => hstart time
  | false => exact hstart 0

theorem mirrors_setPolicy {policy : Policy} (h : p.whole ∨ policy.ComparesOwners) :
    p.Mirrors (modify fun m => { m with policy } : Exec Unit)
      (modify fun m => { m with policy }) :=
  mirrors_modify fun m m' hm =>
    { hm with
      same := fun hwhole => by rw [hm.same hwhole]
      compares := h
      rest := congrArg (fun n : Machine => { n with policy }) hm.rest }

theorem mirrors_pause : p.Mirrors pause pause := by
  refine mirrors_modifyHost ⟨fun m _ _ _ _ _ _ _ _ => ?_, fun m => ?_, fun m => ?_⟩
  all_goals split <;> rfl

theorem mirrors_resume : p.Mirrors resume resume := by
  refine mirrors_modifyHost ⟨fun m _ _ _ _ _ _ _ _ => ?_, fun m => ?_, fun m => ?_⟩
  all_goals split <;> rfl

/-- Every thread ends on both machines. -/
theorem mirrors_stop : p.Mirrors stop stop := by
  refine mirrors_modify fun m m' hm => ?_
  have hstopped : HostOnly fun m => { m with status := .stopped } :=
    ⟨fun _ _ _ _ _ _ _ _ _ => rfl, fun _ => rfl, fun _ => rfl⟩
  refine (hm.mapThreads (fun t => ?_) (fun t => ?_) (fun t ht => ?_) (fun t => ?_)
    (fun t _ hhidden => ?_) fun t _ hhidden => ?_).host hstopped
  · split <;> rfl
  · split <;> rfl
  · split
    · exact ht
    · exact within_finish t trivial
  · rw [isZombie_image]
    split <;> rfl
  · rwa [if_pos (isZombie_of_not_shows hhidden)]
  · rwa [if_pos (isZombie_of_not_shows hhidden)]

end Pairing

end ScriptMachine
