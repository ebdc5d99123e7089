import ScriptMachine.Proofs.Natives
import ScriptMachine.Proofs.Order.Alteration
import ScriptMachine.Proofs.Threads

/-!
# Operations that alter the machine

Plain operations alter the heap only, and services of the host little else. Threads are timed anew,
ended, forgotten and started. Host functions do all of that for the thread that calls them.
-/

namespace ScriptMachine

open Machine Exec

namespace Machine

variable {settles : Bool} {m m' : Machine}

/-! ## Time and counters -/

theorem alters_serve {f : Machine → Machine} (h : ∀ m : Machine, m.Serves (f m)) :
    Alters settles (modify f : Exec Unit) :=
  alters_modify fun m => .serve (h m)

/-- What is loaded is a program of the grammar. -/
theorem altersTo_load (source : String) :
    AltersTo settles m (fun _ m' => m'.globalScope = m.globalScope) (load source) := by
  unfold load
  cases hparse : Tree.parse source with
  | error e => exact altersTo_throw _
  | ok p =>
    refine ⟨.single (.load (Tree.proper_of_parse hparse)), fun id m' hrun => ?_⟩
    cases hrun
    rfl

/-- Bindings, objects, functions and errors are changed on the heap only, and no operation changes
what a function does, or the kind of a scope and the scope around it. -/
theorem alters : Free (Alters settles) where
  pure := alters_pure
  throw := alters_throw
  bind hx hf := hx.bind hf
  get := alters_get
  query := alters_query
  alloc o := alters_modifyGet fun _ => .allocObject o
  allocScope s := alters_modifyGet fun _ => .allocScope s
  modifyScope id _ hf := alters_modify fun _ => .scope id fun s => ⟨(hf s).kind, (hf s).outer⟩
  load source := fun _ _ => (altersTo_load source).altered
  now := alters_modifyGet fun m => .serve { Serves.refl m with }
  write _ _ := alters_serve fun m => { Serves.refl m with }
  random _ := alters_modifyGet fun m => .serve { Serves.refl m with }
  modifyHeapObject id _ hf := alters_modify fun _ => .object id hf
  setScopeOwner id _ := (alters_query _).bind fun _ => alters_modify fun _ =>
    .scope id fun _ => ⟨rfl, rfl⟩

theorem alters_setClock (time : Float) : Alters settles (setClock time) :=
  alters_serve fun m => { Serves.refl m with }

theorem alters_waitUntil (time : Float) : Alters settles (waitUntil time) :=
  alters.waitUntil (fun _ _ => alters_serve fun m => { Serves.refl m with }) time

theorem alters_replaceClock (clock : Host.Clock) : Alters settles (replaceClock clock) :=
  alters.replaceClock (fun _ _ => alters_serve fun m => { Serves.refl m with }) clock

/-! ## Threads -/

theorem alters_tend (id : ThreadId) {f : Thread → Thread} (hf : ∀ t, Tended t (f t)) :
    Alters settles (modifyThread id f) := by
  intro m _
  unfold after
  rw [modifyThread_run]
  cases m.threads.all (·.id != id) with
  | true => exact .refl
  | false => exact .single (.tend id hf)

theorem Tended.restart (t : Thread) (time : Float) : Tended t { t with runStarted := time } :=
  ⟨rfl, rfl, rfl, rfl, rfl, rfl⟩

theorem alters_checkTimeLimit (thread : ThreadId) : Alters settles (checkTimeLimit thread) := by
  refine alters.now.bind fun time => alters.get.bind fun m => ?_
  split
  · exact alters.throw _
  · split
    · exact alters.pure ()
    · split
      · exact (alters_tend thread fun t => Tended.restart t time).bind fun _ => alters.throw _
      · exact alters.pure ()

theorem alters_setTimeLimit (thread : ThreadId) (limit : Option Float) :
    Alters settles (setTimeLimit thread limit) :=
  alters_tend thread fun _ => ⟨rfl, rfl, rfl, rfl, rfl, rfl⟩

theorem killThread_run (thread : ThreadId) (m : Machine) :
    killThread thread m =
      match m.thread? thread with
      | none => .ok false m
      | some t =>
        if t.isZombie = true then .ok false m
        else .ok true { m with threads := updateThread thread (·.finish .killed) m.threads } := by
  unfold killThread
  rw [bind_run, get_run]
  dsimp only
  cases ht : m.thread? thread with
  | none => rfl
  | some t =>
    dsimp only
    by_cases hzombie : t.isZombie = true
    · exact (congrFun (if_pos hzombie) m).trans (if_pos hzombie).symm
    · refine (congrFun (if_neg hzombie) m).trans (.trans ?_ (if_neg hzombie).symm)
      exact bind_run_of_ok (modifyThread_run_of_some ht _)

theorem alters_killThread (thread : ThreadId) : Alters settles (killThread thread) := by
  intro m _
  unfold after
  rw [killThread_run]
  cases ht : m.thread? thread with
  | none => exact .refl
  | some t =>
    dsimp only
    cases hzombie : t.isZombie with
    | true => exact .refl
    | false => exact .single (.finish ht hzombie .killed)

theorem alters_pinHostValue (v : Value) : Alters settles (pinHostValue v) := by
  refine alters_serve fun m => ?_
  change m.Serves { m with
    hostValues := (m.heap.pin m.hostValues v).2.1, heap := (m.heap.pin m.hostValues v).2.2 }
  unfold Heap.pin
  split
  · split
    · exact { Serves.refl m with }
    · exact .refl m
  · exact .refl m

theorem alters_takeResult (thread : ThreadId) : Alters settles (takeResult thread) := by
  intro m ht
  unfold takeResult after
  rw [bind_run, get_run]
  dsimp only
  cases hfound : m.thread? thread with
  | none => exact .refl
  | some t =>
    dsimp only
    by_cases hzombie : t.isZombie = true
    · rw [hzombie, Bool.not_true, if_neg Bool.false_ne_true, bind_run, modify_run]
      dsimp only
      have hforget : Alteration settles m
          { m with threads := m.threads.filter (·.id != thread) } := .forget hfound hzombie
      refine .head hforget ?_
      cases t.outcome with
      | none => exact .refl
      | some o =>
        cases o with
        | completed v =>
          exact ((alters_pinHostValue v).bind fun _ =>
            alters.pure (some (Outcome.completed v))) _ ht
        | threw v =>
          exact ((alters_pinHostValue v).bind fun _ =>
            alters.pure (some (Outcome.threw v))) _ ht
        | killed => exact .refl
    · rw [Bool.not_eq_true] at hzombie
      rw [hzombie]
      exact .refl

theorem alters_releaseHostValues : Alters settles releaseHostValues := by
  refine alters_serve fun m => ?_
  unfold Heap.clearGuard Heap.release
  dsimp only
  split
  · exact { Serves.refl m with }
  · exact { Serves.refl m with }

theorem alters_stop : Alters settles Machine.stop :=
  alters_modify fun _ => .stop .stopped

theorem alters_issueResolver {thread : ThreadId} {t : Thread} (h : m.thread? thread = some t) :
    Altered true m (after (issueResolver thread) m) :=
  .single (.issue rfl h)

theorem alters_settle (resolver : Nat) (thread : ThreadId) (s : Settlement) :
    Alters true (settle resolver thread s) :=
  fun _ _ => .single (.settle rfl resolver thread s)

theorem alters_setGcThreshold (threshold : Nat) : Alters settles (setGcThreshold threshold) :=
  alters_serve fun m => { Serves.refl m with }

theorem alters_pause : Alters settles pause := by
  refine alters_serve fun m => ?_
  split
  · exact { Serves.refl m with }
  · exact .refl m

theorem alters_resume : Alters settles Machine.resume := by
  refine alters_serve fun m => ?_
  split
  · exact { Serves.refl m with }
  · exact .refl m

/-! ## New threads -/

/-- A thread starts on a frame that can be the first one. -/
theorem altersTo_newThread {base : Frame} (hbase : Starts m.heap base) (delay : Float)
    (keepOutcome : Bool) :
    AltersTo settles m (fun _ _ => True) (newThread base delay keepOutcome) :=
  ⟨.single (.start hbase delay keepOutcome), fun _ _ _ => trivial⟩

/-- A new scope is live, of the kind and under the scope that were asked for, and was free. -/
theorem altersTo_newScope (ht : m.heap.Tidy) (kind : ScopeKind) (outer : Option ScopeId)
    (owner : Option Owner) (receiver : Option Value) :
    AltersTo settles m (fun id m' => m.heap.scope? id = none ∧
      ∃ s, m'.heap.scope? id = some s ∧ s.kind = kind ∧ s.outer = outer)
      (newScope kind outer owner receiver) := by
  have halloc (v : Value) : AltersTo settles m (fun id m' => m.heap.scope? id = none ∧
      ∃ s, m'.heap.scope? id = some s ∧ s.kind = kind ∧ s.outer = outer)
      (allocScope { kind, owner, outer, receiver := v }) := by
    refine ⟨alters.allocScope _ m ht, fun id m' hrun => ?_⟩
    cases hrun
    exact ⟨ht.allocScope_fresh _, _, ht.allocScope_self _, rfl, rfl⟩
  unfold newScope
  dsimp only
  split
  · exact halloc _
  · refine (altersTo_query _).bind fun s m' _ hm' => ?_
    obtain ⟨rfl, -⟩ := hm'
    exact halloc _
  · exact halloc _

theorem altersTo_spawnProgram (hglobal : ∃ s, m.heap.scope? m.globalScope = some s)
    (program : ProgramId) : AltersTo settles m (fun _ _ => True) (spawnProgram program) := by
  obtain ⟨s, hs⟩ := hglobal
  refine (altersTo_query _).bind fun p m₁ _ hm₁ => ?_
  obtain ⟨rfl, hp⟩ := hm₁
  exact altersTo_get_bind
    (altersTo_newThread (.program (Heap.program_eq_ok_iff.1 hp) hs) 0 true)

theorem altersTo_spawn (ht : m.heap.Tidy) (hglobal : ∃ s, m.heap.scope? m.globalScope = some s)
    (source : String) : AltersTo settles m (fun _ _ => True) (spawn source) := by
  refine (altersTo_load source).bind fun id m₁ h₁ hsame => ?_
  obtain ⟨s, hs⟩ := hglobal
  obtain ⟨s', hs', -⟩ := (h₁.retains ht).scope hs
  exact altersTo_spawnProgram ⟨s', hsame ▸ hs'⟩ id

theorem alters_spawnCallAs (func receiver : Value) (args : List Value)
    (delay : Float) (owner : Owner) (keepOutcome : Bool) :
    Alters settles (spawnCallAs func receiver args delay owner keepOutcome) := by
  refine alters.get.bind fun _ => ?_
  dsimp only
  split
  · exact alters.get.bind fun _ => alters.throw_bind _ _
  refine alters.get.bind fun _ m ht => ?_
  refine ((altersTo_newScope ht _ _ _ _).bind (Q := fun _ _ => True) fun id m' _ hid => ?_).altered
  obtain ⟨-, s, hs, -⟩ := hid
  exact altersTo_newThread (.call hs rfl) delay keepOutcome

theorem alters_spawnCall (func receiver : Value) (args : List Value) (delay : Float) :
    Alters settles (spawnCall func receiver args delay) :=
  alters.get.bind fun _ => alters_spawnCallAs _ _ _ _ _ _

end Machine

/-!
## Host functions that alter the machine

A host function may do what the host may do between two steps, but for collecting garbage, stepping
threads, writing to an object past its checks and issuing resolvers for threads that are not in the
table. All builtins are such functions, and none of them ends its own thread and asks for that
thread to be parked.
-/

/-- A behaviour that only alters the machine. It is steady if its thread is still alive whenever it
asks for that thread to be parked. -/
def Civil (steady : Prop) (code : NativeCode) : Prop :=
  ∀ (c : NativeCall) (m : Machine), m.heap.Tidy → m.isAlive c.thread = true →
    AltersTo true m (fun reply m' =>
      steady → reply.result.parks = true → m'.isAlive c.thread = true) (code c)

/-- A behaviour puts its thread to sleep only as suspending does: for a time from now on, and having
done nothing else. -/
def Prompt (code : NativeCode) : Prop :=
  ∀ (c : NativeCall) (m : Machine), m.heap.Tidy → ∀ reply m' time, code c m = .ok reply m' →
    reply.result = .sleep time →
      ∃ delay, time = m.reading + validDelay delay ∧ m' = { m with clock := m.clock.read.2 }

/-- A behaviour keeps the rules that are asked of host functions. -/
structure Polite (steady prompt : Prop) (code : NativeCode) : Prop where
  civil : Civil steady code
  prompt : prompt → Prompt code

/-- An operation that only alters the machine, and whose answer parks nothing. -/
abbrev Answers (x : Exec NativeReply) : Prop := Gives true (·.result.parks = false) x

theorem polite_of_answers {steady prompt : Prop} {code : NativeCode}
    (h : ∀ c, Answers (code c)) : Polite steady prompt code := by
  constructor
  · refine fun c m ht _ => (h c m ht).mono fun reply m' _ hanswers _ hparks => ?_
    rw [hanswers] at hparks
    cases hparks
  · intro _ c m ht reply m' time hrun hsleep
    have hanswers : reply.result.parks = false := (h c m ht).result reply m' hrun
    rw [hsleep] at hanswers
    cases hanswers

theorem answers_serving (c : NativeCall) : Serving c (Alters true) (Alters true) Answers where
  toWriting := (alters.plain _).writing
  reply _ hr := gives_pure hr
  fail e := gives_throw e
  after hx hf := hx.gives hf
  value hx := hx.gives fun _ => gives_pure rfl
  push := Builtin.Arrays.plain_push alters.toRegular fun id _ => (alters.plain _).crafts id
  pop := Builtin.Arrays.plain_pop alters.toRegular fun id _ => (alters.plain _).crafts id

namespace Builtin

variable {settles : Bool} {steady prompt : Prop}

/-! ## Threads -/

namespace Threads

theorem alters_setTimeout (c : NativeCall) :
    Alters settles (setTimeout c) := by
  unfold setTimeout
  split
  · exact alters.throw _
  · rename_i owner howner
    exact (alters_spawnCallAs _ _ _ _ owner _).bind fun _ => alters.pure _

theorem alters_clearTimeout (c : NativeCall) :
    Alters settles (clearTimeout c) := by
  unfold clearTimeout
  dsimp only
  split
  · exact (alters_killThread _).bind fun _ => alters.pure _
  · exact alters.pure _

/-- Reading the clock kills no thread. -/
theorem polite_suspend : Polite steady prompt suspend := by
  constructor
  · intro c m ht halive
    refine ⟨(alters.now.bind fun _ => alters.pure _) m ht, fun reply m' hrun _ _ => ?_⟩
    obtain ⟨_, _, hnow, hrest⟩ := bind_eq_ok_iff.1 hrun
    cases hnow
    cases hrest
    exact halive
  · intro _ c m _ reply m' time hrun hsleep
    obtain ⟨_, _, hnow, hrest⟩ := bind_eq_ok_iff.1 hrun
    cases hnow
    cases hrest
    cases hsleep
    exact ⟨_, rfl, rfl⟩

theorem alters_kill (c : NativeCall) :
    Alters settles (kill c) := by
  unfold kill
  split
  · exact (alters_killThread _).bind fun _ => alters.pure _
  · exact alters.pure _

theorem alters_limitThread (c : NativeCall) :
    Alters settles (limitThread c) := by
  unfold limitThread
  dsimp only
  split
  · exact (alters_setTimeLimit _ _).bind fun _ => alters.pure _
  · split
    · exact alters.throw_bind _ _
    · exact (alters_setTimeLimit _ _).bind fun _ => alters.pure _

end Threads

/-- Every builtin alters the machine as the host may, and suspending is the only way to sleep. -/
theorem each_polite : natives.Each (Polite steady prompt) := by
  have hvalue {f : NativeCall → Exec Value} (hf : ∀ c, Alters true (f c)) :
      Polite steady prompt (.ofValue f) :=
    good_ofValue answers_serving (fun _ => polite_of_answers) hf
  refine each_of_serving answers_serving (fun _ => polite_of_answers) (hvalue Threads.alters_setTimeout)
    (hvalue Threads.alters_clearTimeout) Threads.polite_suspend (hvalue fun c => ?_) (hvalue Threads.alters_kill)
    (hvalue Threads.alters_limitThread)
  exact (plain_objectArg alters.toRegular 0 _).bind fun _ => (alters.query _).bind fun _ =>
    (alters.setScopeOwner _ _).bind fun _ => alters.pure _

theorem each_civil : natives.Each (Civil steady) :=
  (show natives.Each (Polite steady False) from each_polite).mono fun _ h => h.civil

end Builtin

end ScriptMachine
