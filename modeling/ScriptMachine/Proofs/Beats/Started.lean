import ScriptMachine.Proofs.Beats.Beat
import ScriptMachine.Proofs.Beginning

/-!
# When the run of a thread starts

A thread that has not been stepped yet, that sleeps or that is blocked is not charged for the time
until its next step: the run that it starts then is timed from the call that takes this step. There
is one exception. A blocked thread that was the last to be stepped, and is the next to be stepped by
a single step, is charged from the moment its resolver was settled.
-/

namespace ScriptMachine

open Machine Exec

/-- A thread with another number is inserted. -/
theorem find?_insertThread_of_ne {t : Thread} {id : ThreadId} (hne : t.id ≠ id)
    (threads : List Thread) :
    (insertThread t threads).find? (·.id == id) = threads.find? (·.id == id) := by
  have hfirst (rest : List Thread) :
      (t :: rest).find? (·.id == id) = rest.find? (·.id == id) :=
    List.find?_cons_of_neg (by simpa using hne)
  induction threads with
  | nil => exact hfirst []
  | cons u rest ih =>
    unfold insertThread
    split
    · exact hfirst _
    · split
      · rename_i hsame
        have hu : ¬ u.id = id := fun h => hne ((of_decide_eq_true hsame).trans h)
        rw [hfirst, List.find?_cons_of_neg (by simpa using hu)]
      · rw [List.find?_cons, List.find?_cons, ih]

namespace Machine

variable {natives : Natives} {origin k m m' m'' n : Machine} {id thread : ThreadId}
  {who : Option ThreadId} {starts : Bool}

/-! ## A thread that is not stepped -/

/-- A thread that was there bides: it has ended, or it is still timed as it was. -/
structure Bides (id : ThreadId) (m m' : Machine) : Prop where
  issued : id.index < m.nextThreadId → id.index < m'.nextThreadId
  bides : id.index < m.nextThreadId → ∀ t', m'.thread? id = some t' →
    ∃ t, m.thread? id = some t ∧
      (t'.status = .zombie ∨ t'.status = t.status ∧ t'.runStarted = t.runStarted)

namespace Bides

theorem of_threads (hthreads : m'.threads = m.threads) (hnext : m.nextThreadId ≤ m'.nextThreadId) :
    Bides id m m' where
  issued := fun hissued => Nat.lt_of_lt_of_le hissued hnext
  bides := by
    intro _ t ht
    refine ⟨t, ?_, .inr ⟨rfl, rfl⟩⟩
    unfold thread?
    rw [← hthreads]
    exact ht

theorem refl (m : Machine) : Bides id m m := of_threads rfl (Nat.le_refl _)

theorem trans (h : Bides id m m') (h' : Bides id m' m'') : Bides id m m'' where
  issued := h'.issued ∘ h.issued
  bides := by
    intro hissued t'' ht''
    obtain ⟨t', ht', hlast⟩ := h'.bides (h.issued hissued) t'' ht''
    obtain ⟨t, ht, hfirst⟩ := h.bides hissued t' ht'
    refine ⟨t, ht, ?_⟩
    rcases hlast with hended | ⟨hstatus, hrun⟩
    · exact .inl hended
    · rw [hstatus, hrun]
      exact hfirst

/-- A thread is changed that ends, or is timed as it was. -/
theorem update (other : ThreadId) {g : Thread → Thread} (hid : ∀ t, (g t).id = t.id)
    (hg : ∀ t, (g t).status = .zombie ∨
      (g t).status = t.status ∧ (g t).runStarted = t.runStarted) :
    Bides id m { m with threads := updateThread other g m.threads } where
  issued := fun hissued => hissued
  bides := by
    intro _ t' ht'
    by_cases hsame : id = other
    · subst hsame
      rw [thread?_updateThread hid, Option.map_eq_some_iff] at ht'
      obtain ⟨t, ht, rfl⟩ := ht'
      exact ⟨t, ht, hg t⟩
    · exact ⟨t', (find?_updateThread_of_ne hid hsame m.threads).symm.trans ht', .inr ⟨rfl, rfl⟩⟩

/-- Threads are dropped, and what is left is found as before. -/
theorem filter (hn : m.Numbered) (q : Thread → Bool) :
    Bides id m { m with threads := m.threads.filter q } where
  issued := fun hissued => hissued
  bides := by
    intro _ t ht
    have hkept : (m.thread? id).filter q = some t :=
      (filter_find? id q hn.sorted.ascending).trans ht
    exact ⟨t, (Option.filter_eq_some_iff.1 hkept).1, .inr ⟨rfl, rfl⟩⟩

theorem collected (hn : m.Numbered) : Bides id m (after collectGarbage m) := by
  have hkept : Bides id m { m with
      threads := m.threads.filter fun t => !t.isZombie || t.keepOutcome } := .filter hn _
  exact hkept.trans (.of_threads rfl (Nat.le_refl _))

end Bides

end Machine

namespace Exec

variable {α β : Type} {id : ThreadId}

/-- An operation lets a thread bide. -/
def LetsBide (id : ThreadId) (x : Exec α) : Prop := ∀ m, Bides id m (after x m)

theorem LetsBide.bind {x : Exec α} {f : α → Exec β} (hx : LetsBide id x)
    (hf : ∀ a, LetsBide id (f a)) : LetsBide id (x >>= f) :=
  fun m => after_bind_of (hx m) (fun _ h => h) fun a m' _ h => h.trans (hf a m')

theorem Aloof.letsBide {x : Exec α} (hx : Aloof x) : LetsBide id x := fun m =>
  .of_threads (congrArg Roster.threads (hx m))
    (Nat.le_of_eq (congrArg Roster.nextThreadId (hx m)).symm)

theorem letsBide_get : LetsBide id (get : Exec Machine) := aloof.get.letsBide

theorem letsBide_pure (a : α) : LetsBide id (pure a : Exec α) := (aloof.pure a).letsBide

end Exec

namespace Machine

variable {natives : Natives} {origin k m m' m'' n : Machine} {id thread : ThreadId}
  {who : Option ThreadId} {starts : Bool}

theorem letsBide_modifyThread (other : ThreadId) {g : Thread → Thread} (hid : ∀ t, (g t).id = t.id)
    (hg : ∀ t, (g t).status = .zombie ∨
      (g t).status = t.status ∧ (g t).runStarted = t.runStarted) :
    LetsBide id (modifyThread other g) := by
  intro m
  unfold after
  rw [modifyThread_run]
  cases m.threads.all (·.id != other) with
  | true => exact .refl m
  | false => exact .update other hid hg

/-- A new thread is none of those that were there. -/
theorem letsBide_newThread (base : Frame) (delay : Float) (keepOutcome : Bool) :
    LetsBide id (newThread base delay keepOutcome) := by
  intro m
  rcases after_newThread_cases base delay keepOutcome m with
    hserves | ⟨next, nextQueued, hnext, -, heq⟩
  · exact .of_threads hserves.threads hserves.nextThreadId
  · rw [heq]
    refine ⟨fun hissued => Nat.lt_trans hissued hnext, fun hissued t ht => ?_⟩
    have hne : (m.started base delay keepOutcome).id ≠ id := by
      rintro rfl
      exact Nat.lt_irrefl _ hissued
    exact ⟨t, (find?_insertThread_of_ne hne m.threads).symm.trans ht, .inr ⟨rfl, rfl⟩⟩

theorem letsBide_spawnProgram (program : ProgramId) : LetsBide id (spawnProgram program) :=
  (aloof.heapQuery _).letsBide.bind fun _ => letsBide_get.bind fun _ => letsBide_newThread _ _ _

theorem letsBide_spawn (source : String) : LetsBide id (spawn source) :=
  (aloof.load source).letsBide.bind letsBide_spawnProgram

theorem letsBide_spawnCall (func receiver : Value) (args : List Value) (delay : Float) :
    LetsBide id (spawnCall func receiver args delay) := by
  refine letsBide_get.bind fun m => letsBide_get.bind fun m' => ?_
  dsimp only
  split
  · exact letsBide_get.bind fun _ => (aloof.throw_bind _ _).letsBide
  · refine letsBide_get.bind fun _ => (aloof.newScope _ _ _ _).letsBide.bind fun _ => ?_
    exact letsBide_newThread _ _ _

theorem letsBide_killThread (thread : ThreadId) : LetsBide id (killThread thread) := by
  refine letsBide_get.bind fun m => ?_
  split
  · split
    · exact letsBide_pure _
    · have hkill : LetsBide id (modifyThread thread (·.finish .killed)) :=
        letsBide_modifyThread thread (fun _ => rfl) fun _ => .inl rfl
      exact hkill.bind fun _ => letsBide_pure _
  · exact letsBide_pure _

theorem letsBide_stop : LetsBide id stop := by
  intro m
  refine ⟨fun hissued => hissued, fun _ t' ht' => ?_⟩
  have hfound : (m.threads.map fun t => if t.isZombie then t else t.finish .killed).find?
      (·.id == id) = some t' := ht'
  rw [find?_map (fun t => by split <;> rfl), Option.map_eq_some_iff] at hfound
  obtain ⟨t, ht, rfl⟩ := hfound
  refine ⟨t, ht, ?_⟩
  split
  · exact .inr ⟨rfl, rfl⟩
  · exact .inl rfl

/-- Taking the outcome of a thread drops that thread at most. -/
theorem bides_takeResult (hn : m.Numbered) (thread : ThreadId) :
    Bides id m (after (takeResult thread) m) := by
  have hkept : Bides id m { m with threads := m.threads.filter (·.id != thread) } := .filter hn _
  unfold takeResult
  rw [after_bind, get_run]
  dsimp only
  cases m.thread? thread with
  | none => exact .refl m
  | some t =>
    dsimp only
    split
    · exact .refl m
    · rw [after_bind, modify_run]
      dsimp only
      have hpin (v : Value) : LetsBide id (do pinHostValue v; return t.outcome) :=
        (aloof_pinHostValue v).letsBide.bind fun _ => letsBide_pure _
      split
      · exact hkept.trans (hpin _ _)
      · exact hkept.trans (hpin _ _)
      · exact hkept

/-- Unless the host runs threads or settles a resolver it lets a thread bide. -/
theorem bides_request (hn : m.Numbered) (r : Request) (hstep : r ≠ .step)
    (hrun : ∀ fuel, r ≠ .run fuel) (hsettle : ∀ resolver thread s, r ≠ .settle resolver thread s) :
    Bides id m (after (r.perform natives) m) := by
  have hdiscard {α : Type} {x : Exec α} (hx : LetsBide id x) :
      Bides id m (after (do let _ ← x) m) := (hx.bind fun _ => letsBide_pure _) m
  have haloof {x : Exec Unit} (hx : Aloof x) : Bides id m (after x m) := hx.letsBide m
  cases r with
  | load source => exact hdiscard (aloof.load source).letsBide
  | spawnProgram program => exact hdiscard (letsBide_spawnProgram program)
  | spawn source => exact hdiscard (letsBide_spawn source)
  | call func receiver args delay => exact hdiscard (letsBide_spawnCall func receiver args delay)
  | settle resolver thread s => exact absurd rfl (hsettle resolver thread s)
  | kill thread => exact hdiscard (letsBide_killThread thread)
  | take thread =>
    refine after_bind_of (P := Bides id m) (bides_takeResult hn thread) (fun _ h => h) ?_
    exact fun _ _ _ h => h
  | release => exact haloof aloof_releaseHostValues
  | pin v => exact haloof (aloof_pinHostValue v)
  | limit thread most =>
    have hlimit : LetsBide id (setTimeLimit thread most) :=
      letsBide_modifyThread thread (fun _ => rfl) fun _ => .inr ⟨rfl, rfl⟩
    exact hlimit m
  | threshold count => exact haloof (aloof_setGcThreshold count)
  | policy p => exact haloof (aloof_modify fun _ => rfl)
  | pause => exact haloof aloof_pause
  | resume => exact haloof aloof_resume
  | stop => exact letsBide_stop m
  | setGlobal name v => exact haloof (aloof.setGlobal name v)
  | declare name v mutable => exact haloof (aloof.get.bind fun _ => aloof.declare _ name v mutable)
  | define name => exact haloof (aloof.defineGlobalNative natives name)
  | newScope kind outer owner receiver => exact hdiscard (aloof.newScope kind outer owner receiver).letsBide
  | declareIn scope name v mutable => exact haloof (aloof.declare scope name v mutable)
  | setBinding scope name v => exact haloof (aloof.setBinding scope name v)
  | writeBinding scope name v => exact haloof (aloof.writeBinding scope name v)
  | setScopeOwner scope owner => exact haloof (aloof.setScopeOwner scope owner)
  | alloc o => exact hdiscard (aloof.alloc o).letsBide
  | createObject proto owner => exact hdiscard (aloof.createObject proto owner).letsBide
  | createPlainObject owner => exact hdiscard (aloof.createPlainObject owner).letsBide
  | createArray values owner => exact hdiscard (aloof.createArray values owner).letsBide
  | createFunction id name => exact hdiscard (aloof.createNativeFunction natives id name).letsBide
  | createClosure node scope owner => exact hdiscard (aloof.createClosure node scope owner).letsBide
  | createError kind message owner thread =>
    exact hdiscard (aloof.createError kind message owner thread).letsBide
  | setProperty base key v actor => exact haloof (aloof.setProperty base key v actor)
  | defineProperty id key d actor => exact haloof (aloof.defineProperty id key d actor)
  | defineHidden id key v actor => exact haloof (aloof.defineHidden id key v actor)
  | deleteProperty id key actor => exact hdiscard (aloof.deleteProperty id key actor).letsBide
  | setPrototype id proto actor => exact haloof (aloof.setPrototype id proto actor)
  | preventExtensions id actor => exact haloof (aloof.preventExtensions id actor)
  | setOwnerOf id owner actor => exact haloof (aloof.setOwnerOf id owner actor)
  | advance millis => exact haloof (aloof_modify fun _ => rfl)
  | wait time => exact haloof (aloof_waitUntil time)
  | setClock time => exact haloof (aloof_setClock time)
  | replaceClock clock => exact haloof (aloof_replaceClock clock)
  | collect => exact .collected hn
  | step => exact absurd rfl hstep
  | run fuel => exact absurd rfl (hrun fuel)

/-! ## The thread that was stepped last -/

theorem lastStepped_attended (hforemost : m.Foremost thread)
    (hstarts : starts = false → m.lastStepped = some thread) :
    (m.attended thread starts).lastStepped = some thread := by
  unfold attended
  cases starts with
  | false => exact hstarts rfl
  | true =>
    have ⟨t, ht, _⟩ := hforemost
    rw [if_pos rfl, after_of_ok (startRun_run ht)]

section Beats

variable (hcivil : natives.Each (Civil True)) (hmoderate : natives.Each Moderate)

include hcivil hmoderate

/-- The thread that a beat belongs to was stepped last; other beats change nothing there. -/
theorem Beat.lastStepped (hm : Beating origin m) (h : Beat natives m who m') :
    m'.lastStepped = m.lastStepped ∨
      ∃ thread, who = some thread ∧ m'.lastStepped = some thread := by
  cases h with
  | pick starts hidle hpick hstarts =>
    have hforemost := (settled_of_pick (hm.idle hidle) hpick).2 _ rfl
    exact .inr ⟨_, rfl, lastStepped_attended hforemost hstarts⟩
  | turn hcurrent hready hcount =>
    rw [Beating, hcurrent] at hm
    have hapart := after_of_leaves (leaves_apart_stepThread hcivil hmoderate hm hready) hcount
    exact .inl (hapart.fixed ⟨rfl, rfl⟩).2
  | request _ r hstep hrun _ => exact .inl (fixed_request natives r hstep hrun m ⟨rfl, rfl⟩).2
  | _ => exact .inl rfl

/-- The thread that has its turns was stepped last. -/
theorem Beat.attends (hm : Beating origin m)
    (hattends : ∀ thread, m.currentThread = some thread → m.lastStepped = some thread)
    (h : Beat natives m who m') :
    ∀ thread, m'.currentThread = some thread → m'.lastStepped = some thread := by
  have hlast := h.lastStepped hcivil hmoderate hm
  have hpolite : natives.Each (Polite True False) := hcivil.mono fun _ h => ⟨h, False.elim⟩
  cases h with
  | pick starts hidle hpick hstarts =>
    rintro _ ⟨⟩
    have hforemost := (settled_of_pick (hm.idle hidle) hpick).2 _ rfl
    exact lastStepped_attended hforemost hstarts
  | @turn thread hcurrent hready hcount =>
    obtain ⟨t, ht, hstatus⟩ := Option.map_eq_some_iff.1 hready
    rw [Beating, hcurrent] at hm
    have hm' := after_of_leaves (leaves_stepThread hpolite hm ht hstatus fun h => h.elim) hcount
    intro thread' hcurrent'
    cases hm'.quiet.current.symm.trans hcurrent'
    rcases hlast with hsame | ⟨_, ⟨⟩, hlast⟩
    · rw [hsame]
      exact hattends thread hcurrent
    · exact hlast
  | look _ _ => exact hattends
  | rest => rintro _ ⟨⟩
  | collect => exact hattends
  | request hidle r _ _ hcount =>
    have hm' := after_of_leaves (leaves_request hpolite (hm.idle hidle) r) hcount
    intro thread' hcurrent'
    cases hm'.quiet.current.symm.trans hcurrent'

theorem Beats.attends (hm : Beating origin m)
    (hattends : ∀ thread, m.currentThread = some thread → m.lastStepped = some thread)
    (h : Beats natives m m') :
    ∀ thread, m'.currentThread = some thread → m'.lastStepped = some thread := by
  induction h with
  | refl => exact hattends
  | tail hbefore hlast ih =>
    obtain ⟨who, hlast⟩ := hlast
    exact hlast.attends hcivil hmoderate (hm.beats hcivil hbefore) ih

end Beats

/-! ## Away from a thread -/

/-- Beats none of which belongs to a thread. -/
abbrev Away (natives : Natives) (id : ThreadId) : Machine → Machine → Prop :=
  Relation.ReflTransGen fun m m' => ∃ who, who ≠ some id ∧ Beat natives m who m'

theorem Away.beats (h : Away natives id k m) : Beats natives k m :=
  Relation.ReflTransGen.mono (fun _ _ ⟨who, _, hbeat⟩ => ⟨who, hbeat⟩) _ _ h

/-- A resolver of the thread was settled at this time. It has not been stepped before or since. -/
def SettledAt (natives : Natives) (id : ThreadId) (k m : Machine) (time : Float) : Prop :=
  ∃ n n' resolver s, Away natives id k n ∧ settle resolver id s n = .ok () n' ∧
    n.reading = time ∧ Away natives id n' m

theorem SettledAt.tail {time : Float} (h : SettledAt natives id k m time) (hwho : who ≠ some id)
    (hbeat : Beat natives m who m') : SettledAt natives id k m' time := by
  obtain ⟨n, n', resolver, s, hbefore, hrun, htime, hsince⟩ := h
  exact ⟨n, n', resolver, s, hbefore, hrun, htime, hsince.tail ⟨who, hwho, hbeat⟩⟩

/-- What is true of a thread until its next step, if it was stepped last. -/
def Rests (natives : Natives) (id : ThreadId) (k : Machine) (status : ThreadStatus)
    (m : Machine) : Prop :=
  ∀ t, m.thread? id = some t → t.status = .zombie ∨ t.status = status ∨
    status = .blocked ∧ t.status = .ready ∧ SettledAt natives id k m t.runStarted

theorem Rests.bides {status : ThreadStatus} (h : Rests natives id k status m)
    (hissued : id.index < m.nextThreadId) (hwho : who ≠ some id) (hbeat : Beat natives m who m')
    (hbides : Bides id m m') : Rests natives id k status m' := by
  intro t' ht'
  obtain ⟨t, ht, hended | ⟨hstatus, hrun⟩⟩ := hbides.bides hissued t' ht'
  · exact .inl hended
  · rw [hstatus, hrun]
    exact (h t ht).imp_right (Or.imp_right fun ⟨hblocked, hready, hsettled⟩ =>
      ⟨hblocked, hready, hsettled.tail hwho hbeat⟩)

/-- A thread that is due is woken. -/
theorem wake_cases (time : Float) (t : Thread) :
    t.wake time = t ∨ t.status = .sleeping ∧ (t.wake time).status = .ready ∧
      (t.wake time).runStarted = time := by
  unfold Thread.wake
  split
  · rename_i hdue
    rw [Bool.and_eq_true, beq_iff_eq] at hdue
    exact .inr ⟨hdue.1, rfl, rfl⟩
  · exact .inl rfl

theorem thread?_schedule (m : Machine) (id : ThreadId) :
    (after schedule m).thread? id = (m.thread? id).map (·.wake m.reading) := by
  refine find?_map (g := (·.wake m.reading)) (fun t => ?_) id m.threads
  unfold Thread.wake
  split <;> rfl

/-- When a thread can run one is picked. -/
theorem exists_pick_run {threads : List Thread} {t : Thread} (ht : t ∈ threads)
    (hready : t.status = .ready) : ∃ id, pick threads = .run id := by
  have hmem : t ∈ threads.filter (·.status == .ready) := by
    rw [List.mem_filter]
    exact ⟨ht, beq_iff_eq.2 hready⟩
  unfold pick
  cases hfirst : firstOf (threads.filter (·.status == .ready)) with
  | none =>
    rw [firstOf_eq_none hfirst] at hmem
    cases hmem
  | some u => exact ⟨u.id, rfl⟩

/-- When no thread can run, all that are due have been woken, and none was. -/
theorem Rests.look {status : ThreadStatus} (h : Rests natives id k status m)
    (hidle : m.currentThread = none) (hvain : ∀ thread n, schedule m ≠ .ok (.run thread) n) :
    Rests natives id k status (after schedule m) := by
  have hbeat : Beat natives m none (after schedule m) := .look hidle hvain
  intro t' ht'
  have hnone : t'.status ≠ .ready := by
    intro hready
    obtain ⟨thread, hpick⟩ := exists_pick_run (mem_threads_of_thread? ht').1 hready
    apply hvain thread (after schedule m)
    rw [← hpick]
    rfl
  rw [thread?_schedule, Option.map_eq_some_iff] at ht'
  obtain ⟨t, ht, rfl⟩ := ht'
  rcases wake_cases m.reading t with hsame | ⟨-, hready, -⟩
  · rw [hsame] at hnone ⊢
    rcases h t ht with hended | hstatus | ⟨-, hready, -⟩
    · exact .inl hended
    · exact .inr (.inl hstatus)
    · exact absurd hready hnone
  · exact absurd hready hnone

/-- A settlement lets a thread bide, or wakes it when it is blocked. -/
theorem settle_cases (id : ThreadId) (hidle : m.currentThread = none) (resolver : Nat)
    (thread : ThreadId) (s : Settlement) : Bides id m (after (settle resolver thread s) m) ∨
      thread = id ∧ ∃ t t' m', m.thread? id = some t ∧ t.status = .blocked ∧
        settle resolver thread s m = .ok () m' ∧ m'.thread? id = some t' ∧
        t'.status = .ready ∧ t'.runStarted = m.reading := by
  have hsettling := settling resolver thread s m
  cases hrun : settle resolver thread s m with
  | error e m' =>
    rw [hrun] at hsettling
    rw [after_of_error hrun]
    cases hsettling with
    | unknown => exact .inl (.refl m)
    | refused hserves => exact .inl (.of_threads hserves.threads hserves.nextThreadId)
  | ok a m' =>
    rw [hrun] at hsettling
    rw [after_of_ok hrun]
    cases hsettling with
    | late _ hserves => exact .inl (.of_threads hserves.threads hserves.nextThreadId)
    | early _ hcurrent _ =>
      rw [hidle] at hcurrent
      cases hcurrent
    | @resumed t f next _ ht hblocked _ _ =>
      by_cases hthread : id = thread
      · subst hthread
        refine .inr ⟨rfl, t, awakened f m.reading m.nextQueued t, _, ht, hblocked, rfl, ?_,
          rfl, rfl⟩
        refine (thread?_updateThread (f := awakened f m.reading m.nextQueued)
          (fun _ => rfl) m).trans ?_
        rw [ht]
        rfl
      · refine .inl ⟨fun hissued => hissued, fun _ t' ht' => ⟨t', ?_, .inr ⟨rfl, rfl⟩⟩⟩
        exact (find?_updateThread_of_ne (f := awakened f m.reading m.nextQueued)
          (fun _ => rfl) hthread m.threads).symm.trans ht'

theorem Rests.settle {status : ThreadStatus} (h : Rests natives id k status m)
    (hissued : id.index < m.nextThreadId) (haway : Away natives id k m)
    (hidle : m.currentThread = none) {resolver : Nat} {thread : ThreadId} {s : Settlement}
    (hbeat : Beat natives m none (after (settle resolver thread s) m)) :
    Rests natives id k status (after (settle resolver thread s) m) := by
  rcases settle_cases id hidle resolver thread s with
    hbides | ⟨rfl, t, t', m', ht, hblocked, hrun, ht', hready, htime⟩
  · have hwho : (none : Option ThreadId) ≠ some id := nofun
    exact h.bides hissued hwho hbeat hbides
  · have hstatus : status = .blocked := by
      rcases h t ht with hended | hstatus | ⟨-, hready, -⟩
      · rw [hblocked] at hended
        cases hended
      · exact hstatus.symm.trans hblocked
      · rw [hblocked] at hready
        cases hready
    rw [after_of_ok hrun]
    intro u hu
    cases ht'.symm.trans hu
    exact .inr (.inr ⟨hstatus, hready, m, m', resolver, s, haway, hrun, htime.symm, .refl⟩)

section Away

variable (hcivil : natives.Each (Civil True)) (hmoderate : natives.Each Moderate)

include hcivil hmoderate

/-- A thread that was stepped last rests as long as no beat belongs to another thread. -/
theorem Away.rests {status : ThreadStatus} (hk : Beating origin k)
    (hattends : ∀ thread, k.currentThread = some thread → k.lastStepped = some thread)
    (hissued : id.index < k.nextThreadId) (hstatus : k.threadStatus id = some status)
    (h : Away natives id k m) : id.index < m.nextThreadId ∧
      (m.lastStepped = some id → Rests natives id k status m) := by
  induction h with
  | refl =>
    refine ⟨hissued, fun _ t ht => .inr (.inl ?_)⟩
    unfold threadStatus at hstatus
    rw [ht] at hstatus
    exact Option.some.inj hstatus
  | @tail m m' hbefore hlast ih =>
    obtain ⟨who, hwho, hbeat⟩ := hlast
    obtain ⟨hissued, hrests⟩ := ih
    have hm := hk.beats hcivil (Away.beats hbefore)
    have hn : m.Numbered := hm.orderly.queued
    have hissued' : id.index < m'.nextThreadId :=
      ((hbeat.spares hcivil hmoderate hm).others hwho).issued hissued
    refine ⟨hissued', fun hstepped => ?_⟩
    -- A beat of another thread would have stepped that thread last.
    have hsame : m.lastStepped = some id := by
      rcases hbeat.lastStepped hcivil hmoderate hm with hsame | ⟨thread, rfl, hthread⟩
      · exact hsame.symm.trans hstepped
      · exact absurd (congrArg some (Option.some.inj (hthread.symm.trans hstepped))) hwho
    have hrests := hrests hsame
    cases hbeat with
    | @pick thread n starts hidle hpick hstarts =>
      have hforemost := (settled_of_pick (hm.idle hidle) hpick).2 _ rfl
      cases (lastStepped_attended hforemost hstarts).symm.trans hstepped
      exact absurd rfl hwho
    | turn hcurrent hready hcount =>
      have hlast := Beats.attends hcivil hmoderate hk hattends (Away.beats hbefore) _ hcurrent
      cases hlast.symm.trans hsame
      exact absurd rfl hwho
    | look hidle hvain => exact hrests.look hidle hvain
    | rest => exact hrests.bides hissued hwho .rest (.of_threads rfl (Nat.le_refl _))
    | collect => exact hrests.bides hissued hwho .collect (.collected hn)
    | request hidle r hstep hrun hcount =>
      have hbeat := Beat.request hidle r hstep hrun hcount
      by_cases hsettle : ∃ resolver thread s, r = .settle resolver thread s
      · obtain ⟨resolver, thread, s, rfl⟩ := hsettle
        exact hrests.settle hissued hbefore hidle hbeat
      · refine hrests.bides hissued hwho hbeat (bides_request hn r hstep hrun ?_)
        exact fun resolver thread s heq => hsettle ⟨resolver, thread, s, heq⟩

/-- A thread that another one was stepped after is not stepped last until it is picked. -/
theorem Away.lastStepped (hk : Beating origin k) (hlast : k.lastStepped ≠ some id)
    (h : Away natives id k m) : m.lastStepped ≠ some id := by
  induction h with
  | refl => exact hlast
  | tail hbefore hlast ih =>
    obtain ⟨who, hwho, hbeat⟩ := hlast
    have hm := hk.beats hcivil (Away.beats hbefore)
    rcases hbeat.lastStepped hcivil hmoderate hm with hsame | ⟨thread, rfl, hthread⟩
    · rw [hsame]
      exact ih
    · rw [hthread]
      exact hwho

end Away

/-! ## The first step of a run -/

/-- The next step of the thread is its first one, or the first since it slept or was blocked. -/
inductive Unstepped (id : ThreadId) (k : Machine) : Prop where
  | new {config : Config} {clock : Host.Clock} (h : create config clock = .ok k)
  | asleep (h : k.threadStatus id = some .sleeping)
  | blocked (h : k.threadStatus id = some .blocked)

/-- The time from which a run is charged that starts when a thread is picked in a machine, which
leaves another; before, the thread waited. -/
inductive Charged (natives : Natives) (id : ThreadId) (k m n : Machine) : Bool → Float → Prop where
  /-- The call reads the clock when it starts the run. -/
  | started : Charged natives id k m n true n.reading
  /-- The thread goes on with its run, and the call has read the clock to wake it. -/
  | woken (h : k.threadStatus id = some .sleeping) : Charged natives id k m n false m.reading
  | settled (h : k.threadStatus id = some .blocked) {time : Float}
    (hsettled : SettledAt natives id k m time) : Charged natives id k m n false time

/-- The time that a thread takes is checked against its limit. -/
theorem checkTimeLimit_run {t : Thread} (ht : m.thread? id = some t) : checkTimeLimit id m =
    match t.timeLimit with
    | none => .ok () { m with clock := m.clock.read.2 }
    | some limit =>
      if m.reading - t.runStarted > limit then
        .error (.rangeError "Thread ran too long") { m with
          clock := m.clock.read.2
          threads := updateThread id (fun t => { t with runStarted := m.reading }) m.threads }
      else .ok () { m with clock := m.clock.read.2 } := by
  let read : Machine := { m with clock := m.clock.read.2 }
  have hfound : read.thread? id = some t := ht
  have hnow : now m = .ok m.reading read := rfl
  unfold checkTimeLimit
  rw [bind_run_of_ok hnow, bind_run_of_ok (get_run read), hfound]
  dsimp only
  cases t.timeLimit with
  | none => rfl
  | some limit =>
    dsimp only
    split
    · exact bind_run_of_ok (modifyThread_run_of_some hfound _)
    · rfl

/-- A thread that goes on with its run was woken by the call, or was settled while it was the one
stepped last. -/
theorem charged_of_rests {status : ThreadStatus} {t : Thread}
    (hstatus : k.threadStatus id = some status) (hwaits : status = .sleeping ∨ status = .blocked)
    (hrests : Rests natives id k status m)
    (ht : m.thread? id = some t) (hready : (t.wake m.reading).status = .ready) :
    Charged natives id k m n false (t.wake m.reading).runStarted := by
  rcases wake_cases m.reading t with hsame | ⟨hsleeping, -, htime⟩
  · rw [hsame] at hready ⊢
    rcases hrests t ht with hended | hkept | ⟨rfl, -, hsettled⟩
    · rw [hready] at hended
      cases hended
    · rw [hready] at hkept
      rcases hwaits with rfl | rfl <;> cases hkept
    · exact .settled hstatus hsettled
  · rw [htime]
    rcases hrests t ht with hended | rfl | ⟨-, hready, -⟩
    · rw [hsleeping] at hended
      cases hended
    · rw [hsleeping] at hstatus
      exact .woken hstatus
    · rw [hsleeping] at hready
      cases hready

/-- The first run after a thread waited is charged from the call that takes its first step; but if
the thread was blocked, is still the one that was stepped last and goes on by a single step, it is
charged from the settlement of its resolver. A thread has run too long when more time than its limit
has passed since. -/
theorem Played.charged (hcivil : natives.Each (Civil True)) (hmoderate : natives.Each Moderate)
    (hk : Played natives k) (hunstepped : Unstepped id k) (haway : Away natives id k m)
    (hidle : m.currentThread = none) (hpick : schedule m = .ok (.run id) n) (starts : Bool)
    (hstarts : starts = false → n.lastStepped = some id) :
    (∃ t, (n.attended id starts).thread? id = some t ∧
      Charged natives id k m n starts t.runStarted) ∧
    ∀ m' t, m'.thread? id = some t →
      ((∃ m'', checkTimeLimit id m' = .error (.rangeError "Thread ran too long") m'') ↔
        ∃ limit, t.timeLimit = some limit ∧ m'.reading - t.runStarted > limit) := by
  refine ⟨?_, fun m' t ht => ?_⟩
  · obtain ⟨config, clock, m₀, hcreate, hbeats⟩ := hk
    have hm₀ : Beating m₀ m₀ := (settled_of_create hcreate).beating
    have hk := hm₀.beats hcivil hbeats
    have hattends := Beats.attends hcivil hmoderate hm₀ (fun thread hthread => by
      rw [(vacant_of_create hcreate).idle.currentThread] at hthread
      cases hthread) hbeats
    have hm := hk.beats hcivil (Away.beats haway)
    obtain ⟨hn, hforemost⟩ := settled_of_pick (hm.idle hidle) hpick
    obtain ⟨t', ht', hready, -⟩ := hforemost id rfl
    refine ⟨_, thread?_attended ht' starts, ?_⟩
    cases starts with
    | true => exact .started
    | false =>
      have hlast : m.lastStepped = some id := by
        rw [← hstarts rfl, ← after_of_ok hpick]
        rfl
      rw [← after_of_ok hpick, thread?_schedule, Option.map_eq_some_iff] at ht'
      obtain ⟨t, ht, rfl⟩ := ht'
      have hrests {status : ThreadStatus} (hstatus : k.threadStatus id = some status) :
          Rests natives id k status m := by
        obtain ⟨u, hu, -⟩ := Option.map_eq_some_iff.1 hstatus
        obtain ⟨hmem, hid⟩ := mem_threads_of_thread? hu
        have hissued : id.index < k.nextThreadId := hid ▸ hk.orderly.queued.sorted.issued u hmem
        exact (haway.rests hcivil hmoderate hk hattends hissued hstatus).2 hlast
      cases hunstepped with
      | new hcreate' =>
        refine absurd hlast (haway.lastStepped hcivil hmoderate hk ?_)
        rw [(vacant_of_create hcreate').idle.lastStepped]
        nofun
      | asleep hstatus => exact charged_of_rests hstatus (.inl rfl) (hrests hstatus) ht hready
      | blocked hstatus => exact charged_of_rests hstatus (.inr rfl) (hrests hstatus) ht hready
  · rw [checkTimeLimit_run ht]
    cases t.timeLimit with
    | none =>
      constructor
      · rintro ⟨m'', ⟨⟩⟩
      · rintro ⟨limit, ⟨⟩, -⟩
    | some limit =>
      dsimp only
      constructor
      · rintro ⟨m'', hrun⟩
        refine ⟨limit, rfl, ?_⟩
        by_contra hwithin
        rw [if_neg hwithin] at hrun
        cases hrun
      · rintro ⟨_, ⟨⟩, hlong⟩
        rw [if_pos hlong]
        exact ⟨_, rfl⟩

/-! ## A thread that waits for its resolver -/

theorem moderate_waitFor : Moderate waitFor := by
  intro c m depth last _ _ hm
  refine after_bind_of (P := Fixed depth last) ?_ (fun _ h => h) fun _ _ _ h => h
  unfold after
  rw [issueResolver_run]
  cases nextCount m.nextResolverId <;> exact hm

theorem each_moderate_waitingNatives : waitingNatives.Each Moderate :=
  .append Builtin.each_moderate (.cons moderate_waitFor (fun _ h => by cases h) .nil)

/-- Requests that run nothing are away from every thread. -/
theorem away_of_serve (hcivil : natives.Each (Civil True)) (hk : Reachable natives k)
    {requests : List Request} (hquiet : ∀ r ∈ requests, r ≠ .step ∧ ∀ fuel, r ≠ .run fuel)
    (hserve : k.serve natives requests = some m) : Away natives id k m := by
  induction requests generalizing k with
  | nil =>
    cases hserve
    exact .refl
  | cons r rest ih =>
    obtain ⟨hcount, hserve⟩ := serve_cons.1 hserve
    obtain ⟨hstep, hrun⟩ := hquiet r List.mem_cons_self
    have hbeat : Beat natives k none (after (r.perform natives) k) :=
      .request (hk.played hcivil).2 r hstep hrun hcount
    have hquiet : ∀ r ∈ rest, r ≠ .step ∧ ∀ fuel, r ≠ .run fuel :=
      fun r hr => hquiet r (List.mem_cons_of_mem _ hr)
    have hrest := ih (hk.request r hcount) hquiet hserve
    exact .head ⟨none, nofun, hbeat⟩ hrest

/-- A thread with a time limit of a second waits for its resolver. -/
def waitingLimited : List Request :=
  [.define "waitFor", .spawn "waitFor(); while (false) {}", .limit ⟨1⟩ (some 1000), .run 60]

/-- The resolver is settled, and five seconds pass. -/
def settledLate : List Request := [.settle 1 ⟨1⟩ (.resolved .undefined), .advance 5000]

set_option maxRecDepth 100000 in
theorem served_late : ∃ k m n t m', hosted waitingNatives {} waitingLimited = some k ∧
    k.threadStatus ⟨1⟩ = some .blocked ∧ k.serve waitingNatives settledLate = some m ∧
    schedule m = .ok (.run ⟨1⟩) n ∧ n.lastStepped = some ⟨1⟩ ∧ n.thread? ⟨1⟩ = some t ∧
    ((t.runStarted == m.reading) = false ∧ (t.runStarted == n.reading) = false) ∧
    m.serve waitingNatives (List.replicate 6 .step) = some m' ∧
    m'.console.messages = ["Uncaught RangeError: Thread ran too long"] := by
  have hchecks : (hosted waitingNatives {} waitingLimited).any (fun k =>
      (k.serve waitingNatives settledLate).any fun m =>
        ((after schedule m).thread? ⟨1⟩).any fun t =>
          (m.serve waitingNatives (List.replicate 6 .step)).any fun m' => decide
            (k.threadStatus ⟨1⟩ = some .blocked ∧
              (after schedule m).threadStatus ⟨1⟩ = some .ready ∧
              (after schedule m).threads.length = 1 ∧ m.lastStepped = some ⟨1⟩ ∧
              ((t.runStarted == m.reading) = false ∧
                (t.runStarted == (after schedule m).reading) = false) ∧
              m'.console.messages = ["Uncaught RangeError: Thread ran too long"])) = true := by
    rw [hosted_eq]
    decide +kernel
  obtain ⟨k, hk, hchecks⟩ := (Option.any_eq_true _ _).1 hchecks
  obtain ⟨m, hm, hchecks⟩ := (Option.any_eq_true _ _).1 hchecks
  obtain ⟨t, ht, hchecks⟩ := (Option.any_eq_true _ _).1 hchecks
  obtain ⟨m', hm', hchecks⟩ := (Option.any_eq_true _ _).1 hchecks
  obtain ⟨hblocked, hready, hone, hlast, htimes, hconsole⟩ := of_decide_eq_true hchecks
  refine ⟨k, m, after schedule m, t, m', hk, hblocked, hm, ?_, hlast, ht, htimes, hm', hconsole⟩
  -- There is no other thread.
  obtain ⟨only, honly⟩ := List.length_eq_one_iff.1 hone
  obtain ⟨hmem, hid⟩ := mem_threads_of_thread? ht
  unfold threadStatus at hready
  rw [ht] at hready
  obtain ⟨thread, hpick⟩ := exists_pick_run hmem (Option.some.inj hready)
  obtain ⟨u, hu, rfl, -⟩ := first_of_pick hpick
  rw [honly, List.mem_singleton] at hmem hu
  rw [hu, ← hmem, hid] at hpick
  rw [← hpick]
  rfl

/-- The thread goes on with its run by a single step, and is charged from the settlement. -/
theorem charged_late : ∃ k m n t, hosted waitingNatives {} waitingLimited = some k ∧
    k.threadStatus ⟨1⟩ = some .blocked ∧ k.serve waitingNatives settledLate = some m ∧
    schedule m = .ok (.run ⟨1⟩) n ∧ n.lastStepped = some ⟨1⟩ ∧
    (n.attended ⟨1⟩ false).thread? ⟨1⟩ = some t ∧
    Charged waitingNatives ⟨1⟩ k m n false t.runStarted := by
  obtain ⟨k, m, n, -, -, hk, hblocked, hm, hpick, hlast, -⟩ := served_late
  have hreachable := reachable_of_hosted hk
  have hquiet : ∀ r ∈ settledLate, r ≠ .step ∧ ∀ fuel, r ≠ .run fuel := by
    simp [settledLate]
  have hidle := ((hreachable.serve hm).played each_civil_waitingNatives).2
  obtain ⟨⟨t, ht, hcharged⟩, -⟩ := Played.charged each_civil_waitingNatives
    each_moderate_waitingNatives (hreachable.played each_civil_waitingNatives).1
    (.blocked hblocked) (away_of_serve each_civil_waitingNatives hreachable hquiet hm) hidle hpick
    false fun _ => hlast
  exact ⟨k, m, n, t, hk, hblocked, hm, hpick, hlast, ht, hcharged⟩

/-- A thread that was settled and then queued for five seconds is picked for a single step. Its run
started at neither of the times that the call reads, and a few steps later it has run too long. -/
theorem queued_time_charged : ∃ m n t m', Reachable waitingNatives m ∧
    schedule m = .ok (.run ⟨1⟩) n ∧ n.lastStepped = some ⟨1⟩ ∧ n.thread? ⟨1⟩ = some t ∧
    ((t.runStarted == m.reading) = false ∧ (t.runStarted == n.reading) = false) ∧
    m.serve waitingNatives (List.replicate 6 .step) = some m' ∧
    m'.console.messages = ["Uncaught RangeError: Thread ran too long"] := by
  obtain ⟨k, m, n, t, m', hk, -, hm, hpick, hlast, ht, htimes, hm', hconsole⟩ := served_late
  exact ⟨m, n, t, m', (reachable_of_hosted hk).serve hm, hpick, hlast, ht, htimes, hm', hconsole⟩

/-- A thread without a time limit waits, and gives itself one when it goes on. -/
def waitingUnlimited : List Request :=
  [.define "waitFor", .spawn "waitFor(); Thread.setTimeLimit(1000); while (false) {}", .run 60] ++
    settledLate

set_option maxRecDepth 100000 in
/-- A thread that was settled and then queued for five seconds has run too long when it is stepped,
and not when it is run. -/
theorem steps_differ_from_run : ∃ m n m', Reachable waitingNatives m ∧
    (∀ t ∈ m.threads, t.timeLimit = none ∧ t.runAt ≤ m.reading) ∧
    m.serve waitingNatives (List.replicate 30 .step) = some n ∧
    n.console.messages = ["Uncaught RangeError: Thread ran too long"] ∧
    m.serve waitingNatives [.run 60] = some m' ∧ m'.console.messages = [] := by
  have hchecks : (hosted waitingNatives {} waitingUnlimited).any (fun m =>
      (m.serve waitingNatives (List.replicate 30 .step)).any fun n =>
        (m.serve waitingNatives [.run 60]).any fun m' => decide
          ((∀ t ∈ m.threads, t.timeLimit = none ∧ t.runAt ≤ m.reading) ∧
            n.console.messages = ["Uncaught RangeError: Thread ran too long"] ∧
            m'.console.messages = [])) = true := by
    rw [hosted_eq]
    decide +kernel
  obtain ⟨m, hm, hchecks⟩ := (Option.any_eq_true _ _).1 hchecks
  obtain ⟨n, hn, hchecks⟩ := (Option.any_eq_true _ _).1 hchecks
  obtain ⟨m', hm', hchecks⟩ := (Option.any_eq_true _ _).1 hchecks
  obtain ⟨hthreads, hlate, hprompt⟩ := of_decide_eq_true hchecks
  exact ⟨m, n, m', reachable_of_hosted hm, hthreads, hn, hlate, hm', hprompt⟩

end Machine

end ScriptMachine
