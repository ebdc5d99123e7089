import ScriptMachine.Proofs.Order.Run
import ScriptMachine.Proofs.Order.Passage

/-!
# Threads that have ended

A thread that has ended stays as it is until it is forgotten, and its number is not used again. That
rests on host functions not asking for their own thread to be parked after they ended it: the answer
of a host function is carried out without looking at the thread again.
-/

namespace ScriptMachine

open Exec

namespace Machine

variable {steady prompt : Prop} {e : Event} {turn turn' : Option ThreadId} {m m' : Machine}
  {past later : History} {id : ThreadId}

/-- Numbers of threads ascend. -/
theorem Moment.nextThreadId_le (h : Moment steady prompt e turn m turn' m') :
    m.nextThreadId ≤ m'.nextThreadId := by
  have hserved {n : Machine} (hserves : m.Serves n) := hserves.nextThreadId
  cases h with
  | alter h _ =>
    cases h with
    | serve h => exact h.nextThreadId
    | start _ delay keepOutcome =>
      rcases after_newThread_cases _ delay keepOutcome m with hserves | ⟨_, _, hlt, -, heq⟩
      · exact hserves.nextThreadId
      · rw [heq]
        exact Nat.le_of_lt hlt
    | issue h _ => cases h
    | settle h _ _ _ => cases h
    | _ => exact Nat.le_refl _
  | issue hrun _ =>
    rw [issueResolver_run] at hrun
    cases hcount : nextCount m.nextResolverId <;> rw [hcount] at hrun <;> cases hrun
    exact Nat.le_refl _
  | @accept _ _ _ r thread s hrun _ =>
    have hsettling := settling r thread s m
    rw [hrun] at hsettling
    cases hsettling with
    | late _ hserves => exact hserves.nextThreadId
    | _ => exact Nat.le_refl _
  | @refuse _ _ _ r thread s _ hrun _ =>
    have hsettling := settling r thread s m
    rw [hrun] at hsettling
    cases hsettling with
    | refused hserves => exact hserves.nextThreadId
    | _ => exact Nat.le_refl _
  | schedule _ hrun =>
    cases hrun
    exact Nat.le_refl _
  | _ => exact Nat.le_refl _

/-- A thread has ended with an outcome, and is in the table as a zombie without frames or not at
all. -/
structure Over (id : ThreadId) (outcome : Option Outcome) (m : Machine) : Prop where
  issued : id.index < m.nextThreadId
  ended : ∀ t, m.thread? id = some t →
    t.status = .zombie ∧ t.stack.frames = [] ∧ t.outcome = outcome

/-- A thread that has ended stays so, whatever happens. -/
theorem Over.moment {outcome : Option Outcome} (ho : Over id outcome m) (hn : m.Numbered)
    (h : Moment True prompt e turn m turn' m') : Over id outcome m' := by
  refine ⟨Nat.lt_of_lt_of_le ho.issued h.nextThreadId_le, fun t' ht' => ?_⟩
  have hended := ho.ended
  have hpassage := h.passage hn id
  rw [ht'] at hpassage
  generalize m.thread? id = found at hpassage hended
  have hzombie {t : Thread} (hfound : found = some t) : t.isZombie = true := by
    simp [Thread.isZombie, (hended t hfound).1]
  cases hpassage with
  | kept => exact hended t' rfl
  | @tended t _ hstatus _ _ houtcome hstack =>
    obtain ⟨hended, hempty, hsame⟩ := hended t rfl
    exact ⟨hstatus.trans hended, hstack (hzombie rfl) hempty, houtcome.trans hsame⟩
  | born _ hid =>
    have hlt := ho.issued
    omega
  | ended hlive =>
    rw [hzombie rfl] at hlive
    cases hlive
  | @woken t _ hsleeping =>
    rw [(hended t rfl).1] at hsleeping
    cases hsleeping
  | @resumed t _ _ _ _ _ hblocked =>
    rw [(hended t rfl).1] at hblocked
    cases hblocked
  | blocked _ hlive =>
    have hlive := hlive trivial
    rw [hzombie rfl] at hlive
    cases hlive
  | asleep _ _ hlive =>
    have hlive := hlive trivial
    rw [hzombie rfl] at hlive
    cases hlive
  | napping _ hlive =>
    have hlive := hlive trivial
    rw [hzombie rfl] at hlive
    cases hlive

theorem Over.course {outcome : Option Outcome} (ho : Over id outcome m) (hn : m.Numbered)
    (h : Course True prompt turn m later turn' m') : Over id outcome m' := by
  induction h with
  | nil => exact ho
  | cons hfirst hlast ih => exact ih.moment (hfirst.numbered hn) hlast

/-- What has ended has no frames. -/
def Emptied (m : Machine) : Prop :=
  ∀ id t, m.thread? id = some t → t.isZombie = true → t.stack.frames = []

theorem Emptied.moment (hm : m.Emptied) (hn : m.Numbered)
    (h : Moment steady prompt e turn m turn' m') : m'.Emptied := by
  intro id t' ht' hzombie
  have hpassage := h.passage hn id
  have hempty := hm id
  rw [ht'] at hpassage
  generalize m.thread? id = found at hpassage hempty
  cases hpassage with
  | kept => exact hempty t' rfl hzombie
  | @tended t _ hstatus _ _ _ hstack =>
    have hended : t.isZombie = true := by rwa [Thread.isZombie, ← hstatus]
    exact hstack hended (hempty t rfl hended)
  | born _ _ _ hstatus =>
    rcases hstatus with hstatus | ⟨hstatus, -⟩ <;> rw [Thread.isZombie, hstatus] at hzombie <;>
      cases hzombie
  | ended => rfl
  | _ => cases hzombie

theorem Emptied.course (hm : m.Emptied) (hn : m.Numbered)
    (h : Course steady prompt turn m later turn' m') : m'.Emptied := by
  induction h with
  | nil => exact hm
  | cons hfirst hlast ih => exact ih.moment (hfirst.numbered hn) hlast

/-- A thread that has ended, in the middle of a step of its own or in between, has no frames, and it
stays ended with its outcome and without frames until it is forgotten. All that the host asks for is
made of such moments, as long as no host function asks for its own thread to be parked after it ended
it. -/
theorem ended_for_good {natives : Natives} (hnatives : natives.Each (Civil True))
    {config : Config} {clock : Host.Clock} {origin : Machine}
    (hcreate : create config clock = .ok origin) :
    (∀ {first second : List Request} {m m' : Machine}, origin.serve natives first = some m →
      m.serve natives second = some m' → ∃ past later, Course True False none origin past none m ∧
        Course True False none m later none m') ∧
    ∀ {past turn n id t}, Course True False none origin past turn n → n.thread? id = some t →
      t.status = .zombie → t.stack.frames = [] ∧
      ∀ {later turn' n'}, Course True False turn n later turn' n' → ∀ u, n'.thread? id = some u →
        u.status = .zombie ∧ u.stack.frames = [] ∧ u.outcome = t.outcome := by
  have hpolite : natives.Each (Polite True False) := hnatives.mono fun _ h => ⟨h, False.elim⟩
  have horigin : Settled False True False origin none none origin := settled_of_create hcreate
  constructor
  · intro first second m m' hfirst hsecond
    have hm := horigin.serve hpolite hfirst
    obtain ⟨past, hpast⟩ := hm.led
    have hanew : Settled False True False m none none m := ⟨hm.orderly, hm.quiet, [], .nil⟩
    obtain ⟨later, hlater⟩ := (hanew.serve hpolite hsecond).led
    exact ⟨past, later, hpast, hlater⟩
  · intro past turn n id t hpast ht hzombie
    have hn := hpast.numbered horigin.orderly.queued
    obtain ⟨hmem, rfl⟩ := mem_threads_of_thread? ht
    have hstart : origin.Emptied := fun _ v hv =>
      fun hended => ((horigin.orderly.stands v (mem_threads_of_thread? hv).1).finished hended).1
    have hempty := hstart.course horigin.orderly.queued hpast t.id t ht
      (by simp [Thread.isZombie, hzombie])
    refine ⟨hempty, fun hlater u hu => ?_⟩
    have hover : Over t.id t.outcome n := by
      refine ⟨hn.sorted.issued t hmem, fun v hv => ?_⟩
      obtain rfl := Option.some.inj (ht.symm.trans hv)
      exact ⟨hzombie, hempty, rfl⟩
    exact (hover.course hn hlater).ended u hu

set_option maxRecDepth 100000 in
/-- A thread that finished stays finished while another waits and goes on. -/
theorem ended_for_good_waiting : ∃ origin m m' past later t,
    create {} {} = .ok origin ∧ origin.serve waitingNatives [.define "waitFor", .spawn "waitFor();",
      .spawn "2;", .run 20] = some m ∧
    m.serve waitingNatives [.settle 1 ⟨1⟩ (.resolved .undefined), .run 20] = some m' ∧
    (m.threads.map fun t => t.status) = [.blocked, .zombie] ∧
    (m'.threads.map fun t => t.status) = [.zombie, .zombie] ∧
    Course True False none origin past none m ∧ Course True False none m later none m' ∧
    m.thread? ⟨2⟩ = some t ∧ t.status = .zombie ∧ t.stack.frames = [] ∧
    ∀ u, m'.thread? ⟨2⟩ = some u →
      u.status = .zombie ∧ u.stack.frames = [] ∧ u.outcome = t.outcome := by
  have hchecks : ((hosted waitingNatives {} [.define "waitFor", .spawn "waitFor();", .spawn "2;",
      .run 20]).bind fun m =>
        (m.serve waitingNatives [.settle 1 ⟨1⟩ (.resolved .undefined), .run 20]).map
          fun m' => (m, m')).any (fun x => decide
            ((x.1.threads.map fun t => t.status) = [.blocked, .zombie] ∧
              (x.2.threads.map fun t => t.status) = [.zombie, .zombie] ∧
              (x.1.thread? ⟨2⟩).map (·.status) = some .zombie)) = true := by
    rw [hosted_eq]
    decide +kernel
  obtain ⟨x, hx, hchecks⟩ := (Option.any_eq_true _ _).1 hchecks
  obtain ⟨m, hm, hx⟩ := Option.bind_eq_some_iff.1 hx
  obtain ⟨m', hm', rfl⟩ := Option.map_eq_some_iff.1 hx
  obtain ⟨hbefore, hafter, hended⟩ := of_decide_eq_true hchecks
  obtain ⟨t, ht, hzombie⟩ := Option.map_eq_some_iff.1 hended
  obtain ⟨origin, horigin, hm⟩ := Option.bind_eq_some_iff.1 hm
  have hcreate := create_of_toOption horigin
  obtain ⟨hruns, hstays⟩ := ended_for_good each_civil_waitingNatives hcreate
  obtain ⟨past, later, hpast, hlater⟩ := hruns hm hm'
  obtain ⟨hempty, hkept⟩ := hstays hpast ht hzombie
  exact ⟨origin, m, m', past, later, t, hcreate, hm, hm', hbefore, hafter, hpast, hlater, ht,
    hzombie, hempty, hkept hlater⟩

/-! ## A host function that parks what it ended -/

/-- Ends its own thread and waits. -/
def endAndWait : NativeCode := fun c => do
  let _ ← killThread c.thread
  return c.reply .block

/-- The builtins and a function that parks the thread it has ended. -/
def revivingNatives : Natives :=
  Builtin.natives ++ [("endAndWait", { arity := 0, call := endAndWait })]

set_option maxRecDepth 100000 in
/-- A thread is blocked after it was ended, with its outcome and a frame on its stack. -/
theorem revived_when_parked : ∃ m,
    hosted revivingNatives {} [.define "endAndWait", .spawn "endAndWait();", .run 20] = some m ∧
    (m.threads.map fun t => (t.status, t.outcome, t.stack.depth)) =
      [(.blocked, some .killed, 1)] := by
  have hchecks : (hosted revivingNatives {} [.define "endAndWait", .spawn "endAndWait();",
      .run 20]).any (fun m => decide
        ((m.threads.map fun t => (t.status, t.outcome, t.stack.depth)) =
          [(.blocked, some .killed, 1)])) = true := by
    rw [hosted_eq]
    decide +kernel
  obtain ⟨m, hm, hchecks⟩ := (Option.any_eq_true _ _).1 hchecks
  exact ⟨m, hm, of_decide_eq_true hchecks⟩

end Machine

end ScriptMachine
