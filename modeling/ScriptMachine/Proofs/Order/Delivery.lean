import ScriptMachine.Proofs.Order.Parking

/-!
# What becomes of a settlement

A settlement that is accepted for a thread that is parked is put into the call that the thread is
parked in, and that call completes with the value or throws the reason when the thread has its turn.
One that is accepted in the turn of the thread is kept until the host function answers: it is put
into the call if the thread is to be parked, it is a fault if the function answers anything else,
and it is lost if the function fails or another settlement takes its place.
-/

namespace ScriptMachine

open Exec

namespace Machine

variable {steady prompt : Prop} {e : Event} {turn turn' turn₀ : Option ThreadId}
  {m m' m₀ : Machine} {past later : History} {id : ThreadId} {r : Nat} {s : Settlement}
  {natives : Natives}

/-! ## Calls that were settled -/

/-- The frame of a call that was settled. -/
def settledCall (f : Frame) (call : CallInfo) (s : Settlement) : Frame :=
  { f with info := .call { call with phase := s.toPhase.1 }, value := s.toPhase.2 }

/-- How a call that was settled ends: it completes with the value, or throws the reason. -/
def settledStep (call : CallInfo) : Settlement → Step
  | .resolved v => .done (callResult call v)
  | .rejected reason => .throwing reason

theorem settledFrame_eq_ok {t : Thread} {g : Frame} (h : settledFrame t s = .ok g) :
    ∃ f rest call, t.stack.frames = f :: rest ∧ f.info = .call call ∧ call.phase = .blocked ∧
      g = settledCall f call s := by
  unfold settledFrame at h
  cases hframes : t.stack.frames with
  | nil =>
    rw [hframes] at h
    cases h
  | cons f rest =>
    rw [hframes] at h
    dsimp only at h
    split at h
    · rename_i call hinfo
      split at h
      · rename_i hphase
        cases h
        exact ⟨f, rest, call, rfl, hinfo, by simpa using hphase, rfl⟩
      · cases h
    · cases h

/-- A thread that can run has some frames. -/
def Goes (id : ThreadId) (frames : List Frame) (m : Machine) : Prop :=
  ∃ t, m.thread? id = some t ∧ t.status = .ready ∧ t.stack.frames = frames

theorem isAlive_of_goes {frames : List Frame} (h : Goes id frames m) : m.isAlive id = true := by
  obtain ⟨t, ht, hready, -⟩ := h
  exact isAlive_iff.2 ⟨t, ht, by simp [Thread.isZombie, hready]⟩

/-- The machine when the top frame of a thread has been taken. -/
def popped (id : ThreadId) (m : Machine) : Machine :=
  { m with threads := updateThread id (fun t => { t with stack := t.stack.dropTop }) m.threads }

/-- A step of a settled call completes it or throws. -/
theorem stepCall_settledCall (f : Frame) (call : CallInfo) (s : Settlement) :
    stepCall natives id (settledCall f call s) m = .ok (settledStep call s) m := by
  cases s <;> rfl

/-- In its next turn the thread completes the call or throws. -/
theorem stepThread_settledCall {f : Frame} {call : CallInfo} {rest : List Frame}
    (h : Goes id (settledCall f call s :: rest) m) (hnode : f.node = none) :
    stepThread natives id m = applyStep id (settledStep call s) (popped id m) := by
  have halive : (popped id m).isAlive id = true :=
    (isAlive_restack (m := m) (·.dropTop)).trans (isAlive_of_goes h)
  obtain ⟨t, ht, -, hframes⟩ := h
  have htop : t.stack.top? = some (settledCall f call s) := by
    unfold Stack.top?
    rw [hframes]
    rfl
  have hpop : popFrame id m = .ok (some (settledCall f call s)) (popped id m) := by
    rw [popFrame_run ht, htop]
    rfl
  have hdispatch : attempt (dispatch natives id (settledCall f call s)) (popped id m) =
      .ok (.ok (settledStep call s)) (popped id m) := by
    have hrun : dispatch natives id (settledCall f call s) (popped id m) =
        .ok (settledStep call s) (popped id m) := by
      unfold dispatch
      rw [show (settledCall f call s).node = none from hnode]
      exact stepCall_settledCall f call s
    rw [attempt, hrun]
  unfold stepThread
  rw [bind_run_of_ok hpop]
  dsimp only
  rw [bind_run_of_ok hdispatch, bind_run_of_ok (get_run _), if_pos halive]

/-- A frame that stays is put back. -/
theorem applyStep_stay {frames : List Frame} (h : Goes id frames m) (g : Frame) :
    ∃ m', applyStep id (.stay g) m = .ok () m' ∧ Goes id (g :: frames) m' := by
  obtain ⟨t, ht, hready, rfl⟩ := h
  refine ⟨_, modifyThread_run_of_some ht _, { t with stack := t.stack.push g }, ?_, hready, rfl⟩
  rw [thread?_updateThread (f := fun t => { t with stack := t.stack.push g }) (fun _ => rfl) m, ht]
  rfl

/-! ## Between two turns -/

/-- Until its turn begins a thread keeps its frames, unless it is ended. -/
theorem Moment.goes (hn : m.Numbered) (h : Moment steady prompt e turn m turn' m')
    {frames : List Frame} (hgoes : Goes id frames m) (hturn : turn ≠ some id)
    (hquiet : e ≠ .begun id) : Goes id frames m' ∨ m'.isAlive id = false := by
  obtain ⟨t, ht, hready, hframes⟩ := hgoes
  rcases h.waits hn ht hready hturn with ⟨t', ht', hready', -, -, hsame⟩ | hdead
  · exact .inl ⟨t', ht', hready', by rw [hsame hquiet, hframes]⟩
  · exact .inr hdead

/-- A thread does not get its turn unless the turn begins. -/
theorem Course.turn_ne (h : Course steady prompt turn₀ m₀ later turn m) (hturn : turn₀ ≠ some id)
    (hquiet : ∀ x ∈ later, x.1 ≠ .begun id) : turn ≠ some id := by
  induction h with
  | nil => exact hturn
  | cons _ hlast ih =>
    obtain ⟨hlater, hearlier⟩ := List.forall_mem_cons.1 hquiet
    rcases hlast.turn_cases with ⟨rfl, -⟩ | ⟨other, -, rfl, rfl⟩ | ⟨other, -, rfl, -, -⟩
    · exact ih hearlier
    · rintro ⟨⟩
      exact hlater rfl
    · rintro ⟨⟩

theorem Course.goes (h : Course steady prompt turn₀ m₀ later turn m) (hn : m₀.Numbered)
    {frames : List Frame} (hgoes : Goes id frames m₀) (hturn : turn₀ ≠ some id)
    (hquiet : ∀ x ∈ later, x.1 ≠ .begun id) :
    Goes id frames m ∨ ∃ n ∈ m :: later.map Prod.snd, n.isAlive id = false := by
  induction h with
  | nil => exact .inl hgoes
  | cons hfirst hlast ih =>
    obtain ⟨hlater, hearlier⟩ := List.forall_mem_cons.1 hquiet
    rcases ih hearlier with hgoes | ⟨n, hmem, hdead⟩
    · have hkept := hlast.goes (hfirst.numbered hn) hgoes (hfirst.turn_ne hturn hearlier) hlater
      exact hkept.imp_right fun hdead => ⟨_, List.mem_cons_self, hdead⟩
    · exact .inr ⟨n, List.mem_cons_of_mem _ hmem, hdead⟩

/-! ## In the turn of the thread -/

/-- A settlement that came early is kept until it is taken, or another one takes its place. -/
theorem Moment.early (h : Moment steady prompt e turn m turn' m')
    (hearly : m.earlySettlements.lookup id = some s) :
    m'.earlySettlements.lookup id = some s ∨ m' = m.forgetEarly id ∨
      ∃ r s', e = .accepted r id ∧ settle r id s' m = .ok () m' ∧
        m'.earlySettlements.lookup id = some s' := by
  have hsame {n : Machine} (hn : n.earlySettlements = m.earlySettlements) :
      n.earlySettlements.lookup id = some s := hn ▸ hearly
  cases h with
  | alter h _ =>
    obtain ⟨-, hn | ⟨hfalse, -⟩⟩ := h.early_cases
    · exact .inl (hsame hn)
    · cases hfalse
  | issue hrun _ =>
    refine .inl (hsame ?_)
    rw [issueResolver_run] at hrun
    cases hcount : nextCount m.nextResolverId <;> rw [hcount] at hrun <;> cases hrun
    rfl
  | @accept _ _ _ r thread s' hrun _ =>
    have hsettling := settling r thread s' m
    rw [hrun] at hsettling
    cases hsettling with
    | late _ hserves => exact .inl (hsame hserves.earlySettlements)
    | resumed => exact .inl hearly
    | early =>
      by_cases hid : id = thread
      · subst hid
        exact .inr (.inr ⟨r, s', rfl, hrun, by simp⟩)
      · refine .inl ?_
        rw [List.lookup_cons, beq_false_of_ne hid]
        exact (lookup_filter_ne hid).trans hearly
  | @refuse _ _ _ r thread s' _ hrun _ =>
    have hsettling := settling r thread s' m
    rw [hrun] at hsettling
    cases hsettling with
    | unknown => exact .inl hearly
    | refused hserves => exact .inl (hsame hserves.earlySettlements)
  | answer thread =>
    by_cases hid : id = thread
    · exact .inr (.inl (by rw [hid]))
    · exact .inl ((lookup_filter_ne hid).trans hearly)
  | schedule _ hrun =>
    cases hrun
    exact .inl hearly
  | _ => exact .inl hearly

/-- A settlement that came early is kept until, at some moment, it is taken or replaced. -/
theorem Course.early (h : Course steady prompt turn₀ m₀ later turn m)
    (hearly : m₀.earlySettlements.lookup id = some s) :
    m.earlySettlements.lookup id = some s ∨
      ∃ n ∈ later.map Prod.snd, n.earlySettlements.lookup id = some s ∧
        ∃ n' ∈ m :: later.map Prod.snd, n' = n.forgetEarly id ∨
          ∃ r s', settle r id s' n = .ok () n' ∧ n'.earlySettlements.lookup id = some s' := by
  induction h with
  | nil => exact .inl hearly
  | cons _ hlast ih =>
    rcases ih with hkept | ⟨n, hn, hheld, n', hn', htaken⟩
    · rcases hlast.early hkept with hkept' | heq | ⟨r, s', -, hrun, hearly'⟩
      · exact .inl hkept'
      · exact .inr ⟨_, List.mem_cons_self, hkept, _, List.mem_cons_self, .inl heq⟩
      · exact .inr ⟨_, List.mem_cons_self, hkept, _, List.mem_cons_self,
          .inr ⟨r, s', hrun, hearly'⟩⟩
    · exact .inr ⟨n, List.mem_cons_of_mem _ hn, hheld, n', List.mem_cons_of_mem _ hn', htaken⟩

/-- A call runs a host function. -/
inductive Invokes (natives : Natives) (id : ThreadId) (f : Frame) (call : CallInfo)
    (resumed : Option Value) (m : Machine) : String → Exec NativeReply → Prop where
  | intro {owner : Option Owner} {func : ObjectId} {o : Object} {name : String} {code : NativeCode}
    (howner : scopeOwner f.scope m = .ok owner m) (hfunc : call.func.object? = some func)
    (hobject : m.heap.object? func = some o) (hnative : o.function = some (.native name))
    (hcode : nativeCode natives name call.construct = .ok code) :
    Invokes natives id f call resumed m name (code
      { func, receiver := call.receiver, args := call.args, owner, scope := f.scope, thread := id
        construct := call.construct, phase := call.nativePhase, scratch := call.scratch, resumed })

/-- What comes of the answer of a host function that settled early for its own thread: only asking
for the thread to be parked has the settlement delivered. -/
def answerEarly (f : Frame) (call : CallInfo) (name : String) (s : Settlement) (m : Machine) :
    Except Failure NativeReply → EStateM.Result Failure Machine Step
  | .error e => .error e m
  | .ok reply =>
    if reply.result.isBlock then
      .ok (.stay (settledCall f
        { call with nativePhase := reply.phase, scratch := reply.scratch } s)) m
    else .error (.fault (.settledWithoutBlocking name)) m

/-- Whatever a host function answers, what it settled early is taken. -/
theorem invokeNative_early {f : Frame} {call : CallInfo} {resumed : Option Value} {name : String}
    {x : Exec NativeReply} {answer : Except Failure NativeReply} {n : Machine}
    (h : Invokes natives id f call resumed m name x) (hrun : attempt x m = .ok answer n)
    (hearly : n.earlySettlements.lookup id = some s) :
    invokeNative natives id f call resumed m =
      answerEarly f call name s (n.forgetEarly id) answer := by
  obtain @⟨owner, func, o, _, code, howner, hfunc, hobject, hnative, hcode⟩ := h
  have hread : heapQuery (·.object func) m = .ok o m :=
    query_run_ok (Heap.object_eq_ok_iff.2 hobject)
  have hbehaviour : query (fun _ => nativeCode natives name call.construct) m = .ok code m :=
    query_run_ok hcode
  have htake : takeEarly id n = .ok (some s) (n.forgetEarly id) := by
    rw [takeEarly, modifyGet_run]
    exact congrArg (EStateM.Result.ok · _) hearly
  unfold invokeNative
  rw [bind_run_of_ok howner, hfunc]
  dsimp only
  rw [bind_run_of_ok hread, hnative]
  dsimp only
  rw [bind_run_of_ok hbehaviour, bind_run_of_ok hrun, bind_run_of_ok htake]
  cases answer with
  | error e => rfl
  | ok reply =>
    obtain ⟨result, phase, scratch⟩ := reply
    cases result <;> cases s <;> rfl

/-! ## What is accepted -/

/-- A thread is parked in a call. -/
def ParkedIn (id : ThreadId) (f : Frame) (call : CallInfo) (rest : List Frame) (m : Machine) :
    Prop :=
  ∃ t, m.thread? id = some t ∧ t.status = .blocked ∧ t.stack.frames = f :: rest ∧
    f.info = .call call ∧ call.phase = .blocked

/-- A settlement that is accepted for a thread that has not ended is put into the call that the
thread is parked in, or kept in the turn of the thread. -/
theorem Moment.delivered (h : Moment steady prompt (.accepted r id) turn m turn' m')
    (halive : m.isAlive id = true) : ∃ s, settle r id s m = .ok () m' ∧
      ((turn ≠ some id ∧ ∃ f call rest, ParkedIn id f call rest m ∧
          Goes id (settledCall f call s :: rest) m') ∨
        turn = some id ∧ m'.earlySettlements.lookup id = some s) := by
  obtain ⟨t, ht, hlive⟩ := isAlive_iff.1 halive
  cases h with
  | @accept _ _ _ _ _ s hrun hfree =>
    refine ⟨s, hrun, ?_⟩
    cases accepted_of_settle hrun ht with
    | @resumed g hblocked hframe ht' =>
      obtain ⟨f, rest, call, hframes, hinfo, hphase, rfl⟩ := settledFrame_eq_ok hframe
      refine .inl ⟨fun hturn => ?_, f, call, rest, ⟨t, ht, hblocked, hframes, hinfo, hphase⟩,
        _, ht', rfl, ?_⟩
      · rcases hfree.going id t hturn ht with hgoes | hgoes <;> rw [hblocked] at hgoes <;>
          cases hgoes
      · change (t.stack.modifyTop _).frames = _
        rw [Stack.frames_modifyTop, hframes]
        rfl
    | kept _ hcurrent _ hearly => exact .inr ⟨hfree.current.symm.trans hcurrent, hearly⟩
    | late hended _ =>
      rw [Thread.isZombie, hended] at hlive
      cases hlive

/-- What becomes of a settlement, once a machine has come this far. -/
structure Delivers (natives : Natives) (steady prompt : Prop) (turn : Option ThreadId)
    (m : Machine) : Prop where
  /-- One that is accepted for a thread that has not ended is put into the call that the thread is
  parked in, or kept in the turn of the thread. -/
  accepted : ∀ {r id turn' m'}, Moment steady prompt (.accepted r id) turn m turn' m' →
    m.isAlive id = true → ∃ s, settle r id s m = .ok () m' ∧
      ((turn ≠ some id ∧ ∃ f call rest, ParkedIn id f call rest m ∧
          Goes id (settledCall f call s :: rest) m') ∨
        turn = some id ∧ m'.earlySettlements.lookup id = some s)
  /-- The call that it is put into completes with the value or throws the reason when the thread has
  its turn, unless the thread is ended before. -/
  resumed : ∀ {id s f call rest}, Goes id (settledCall f call s :: rest) m → turn ≠ some id →
    ∀ {later turn' m'}, Course steady prompt turn m later turn' m' →
      (∀ x ∈ later, x.1 ≠ .begun id) →
        (Goes id (settledCall f call s :: rest) m' ∧ (f.node = none →
          stepThread natives id m' = applyStep id (settledStep call s) (popped id m'))) ∨
        ∃ n ∈ m' :: later.map Prod.snd, n.isAlive id = false
  /-- One that came early is kept until it is taken or another one takes its place. -/
  kept : ∀ {id s}, m.earlySettlements.lookup id = some s →
    ∀ {later turn' m'}, Course steady prompt turn m later turn' m' →
      m'.earlySettlements.lookup id = some s ∨
        ∃ n ∈ later.map Prod.snd, n.earlySettlements.lookup id = some s ∧
          ∃ n' ∈ m' :: later.map Prod.snd, n' = n.forgetEarly id ∨
            ∃ r s', settle r id s' n = .ok () n' ∧ n'.earlySettlements.lookup id = some s'
  /-- The one that is there when the host function answers is taken whatever the answer is. It is
  put into the call if the thread is to be parked, any other result is a fault, and a failure is
  passed on without it. -/
  answered : ∀ {id s f call resumed name x answer n}, Invokes natives id f call resumed m name x →
    attempt x m = .ok answer n → n.earlySettlements.lookup id = some s →
      invokeNative natives id f call resumed m =
        answerEarly f call name s (n.forgetEarly id) answer
  /-- The frame of a call that was settled so is put back on the thread. -/
  stays : ∀ {id frames}, Goes id frames m →
    ∀ g, ∃ m', applyStep id (.stay g) m = .ok () m' ∧ Goes id (g :: frames) m'

theorem delivers_of_course (h : Course steady prompt turn₀ m₀ past turn m) (hn : m₀.Numbered) :
    Delivers natives steady prompt turn m where
  accepted := Moment.delivered
  resumed := by
    intro id s f call rest hgoes hturn later turn' m' hlater hquiet
    refine (hlater.goes (h.numbered hn) hgoes hturn hquiet).imp_left fun hgoes' => ⟨hgoes', ?_⟩
    exact stepThread_settledCall hgoes'
  kept := by
    intro id s hearly later turn' m' hlater
    exact hlater.early hearly
  answered := invokeNative_early
  stays := applyStep_stay

/-! ## Whatever the host asks for -/

variable {origin : Machine}

/-- Between two turns a thread is parked in the frame of a call. -/
theorem Settled.node_of_parkedIn (hm : Settled False steady prompt origin none none m) {f : Frame}
    {call : CallInfo} {rest : List Frame} (hparked : ParkedIn id f call rest m) :
    f.node = none := by
  obtain ⟨t, ht, hblocked, hframes, hinfo, -⟩ := hparked
  have hlive : t.isZombie = false := by
    rw [Thread.isZombie, hblocked]
    rfl
  have hstacked := ((hm.orderly.stands t (mem_threads_of_thread? ht).1).stacked
    (fun _ h => by cases h) hlive).1
  rw [hframes] at hstacked
  exact hstacked.sits.node_eq_none hinfo

/-- Whatever the host and its functions do, from the first moment on, a settlement that is accepted
for a thread that is parked has the call that the thread is parked in complete or throw. One that is
accepted in the turn of the thread does so if the host function then asks for its thread to be
parked, and no other is accepted in between. -/
theorem Asked.delivers (hnatives : natives.Each (Civil False)) {config : Config}
    {clock : Host.Clock} (hcreate : create config clock = .ok origin) (h : Asked natives origin m) :
    (∃ past, Course False False none origin past none m) ∧
    (∀ id f call rest, ParkedIn id f call rest m → f.node = none) ∧
    ∀ past turn n, Course False False none origin past turn n →
      Delivers natives False False turn n := by
  have hpolite : natives.Each (Polite False False) := hnatives.mono fun _ h => ⟨h, False.elim⟩
  have horigin : Settled False False False origin none none origin := settled_of_create hcreate
  have hm := h.settled hpolite horigin
  exact ⟨h.course hnatives hcreate, fun _ _ _ _ => hm.node_of_parkedIn,
    fun _ _ _ hcourse => delivers_of_course hcourse horigin.orderly.queued⟩

/-! ## Host functions that settle early -/

/-- Issues a resolver for a thread and settles it at once, for every settlement of a list. -/
def settleAtOnce (thread : ThreadId) : List Settlement → Exec Unit
  | [] => return ()
  | s :: rest => do
    let r ← issueResolver thread
    settle r thread s
    settleAtOnce thread rest

theorem altersTo_settleAtOnce (thread : ThreadId) (settlements : List Settlement)
    (hfound : (m.thread? thread).isSome) :
    AltersTo true m (fun _ _ => True) (settleAtOnce thread settlements) := by
  induction settlements generalizing m with
  | nil => exact altersTo_pure trivial
  | cons s rest ih =>
    obtain ⟨t, ht⟩ := Option.isSome_iff_exists.1 hfound
    have hissue : AltersTo true m (fun _ m' => m'.thread? thread = some t)
        (issueResolver thread) := by
      refine ⟨alters_issueResolver ht, fun r m' hrun => ?_⟩
      rw [issueResolver_run] at hrun
      cases hcount : nextCount m.nextResolverId <;> rw [hcount] at hrun <;> cases hrun
      exact ht
    refine hissue.bind fun r m₁ _ ht₁ => ?_
    have hsettle : AltersTo true m₁ (fun _ m' => (m'.thread? thread).isSome)
        (settle r thread s) := by
      refine ⟨.single (.settle rfl r thread s), fun _ m' hrun => ?_⟩
      cases accepted_of_settle hrun ht₁ with
      | resumed _ _ ht' => rw [ht']; rfl
      | kept _ _ ht' _ => rw [ht']; rfl
      | late _ ht' => rw [ht']; rfl
    exact hsettle.bind fun _ m₂ _ hfound₂ => ih hfound₂

/-- Settles for its own thread and then goes on, to be parked or to fail. -/
def settleFirst (settlements : List Settlement) (k : Except Failure NativeResult) : NativeCode :=
  fun c => do
    settleAtOnce c.thread settlements
    let result ← query fun _ => k
    return c.reply result

theorem civil_settleFirst (settlements : List Settlement) (k : Except Failure NativeResult) :
    Civil False (settleFirst settlements k) := by
  intro c m _ halive
  obtain ⟨t, ht, -⟩ := isAlive_iff.1 halive
  have hfound : (m.thread? c.thread).isSome := by rw [ht]; rfl
  refine (altersTo_settleAtOnce c.thread settlements hfound).bind fun _ m₁ _ _ => ?_
  exact (altersTo_query _).bind fun _ _ _ _ => altersTo_pure False.elim

/-- Settles twice and then asks for its thread to be parked. -/
def settleTwice : NativeCode :=
  settleFirst [.resolved (.string "one"), .resolved (.string "two")] (.ok .block)

def settleAndThrow : NativeCode :=
  settleFirst [.resolved (.string "one")] (.error (.typeError "refused"))

/-- The builtins and two functions that settle early. -/
def hastyNatives : Natives :=
  Builtin.natives ++ [("settleTwice", { arity := 0, call := settleTwice }),
    ("settleAndThrow", { arity := 0, call := settleAndThrow })]

theorem each_civil_hastyNatives : hastyNatives.Each (Civil False) :=
  .append Builtin.each_civil
    (.cons (civil_settleFirst _ _) (fun _ h => by cases h)
      (.cons (civil_settleFirst _ _) (fun _ h => by cases h) .nil))

/-- No program catches what settling fails with. -/
theorem settle_ne_typeError {thread : ThreadId} {message : String} :
    settle r thread s m ≠ .error (.typeError message) m' := by
  intro hrun
  rw [settle_run] at hrun
  split at hrun
  · cases hrun
  dsimp only at hrun
  split at hrun
  · cases hrun
  split at hrun
  · rename_i hcount
    cases hrun
    cases eq_overflow_of_nextCount hcount
  split at hrun
  · cases hrun
  split at hrun
  · cases hrun
  · split at hrun
    · rename_i hframe
      cases hrun
      unfold settledFrame at hframe
      repeat' split at hframe
      all_goals cases hframe
    · cases hrun
  · split at hrun <;> cases hrun

/-- It fails as it means to only when what it settled was accepted. -/
theorem settled_of_settleAndThrow {c : NativeCall} {n : Machine}
    (hrun : settleAndThrow c m = .error (.typeError "refused") n) :
    ∃ r m₁, issueResolver c.thread m = .ok r m₁ ∧
      settle r c.thread (.resolved (.string "one")) m₁ = .ok () n := by
  unfold settleAndThrow settleFirst settleAtOnce at hrun
  cases hissue : issueResolver c.thread m with
  | error e m₁ =>
    rw [bind_assoc, bind_run, hissue] at hrun
    cases hrun
    rw [issueResolver_run] at hissue
    cases hcount : nextCount m.nextResolverId with
    | error e' =>
      rw [hcount] at hissue
      cases hissue
      cases eq_overflow_of_nextCount hcount
    | ok next =>
      rw [hcount] at hissue
      cases hissue
  | ok r m₁ =>
    refine ⟨r, m₁, rfl, ?_⟩
    rw [bind_assoc, bind_run_of_ok hissue, bind_assoc] at hrun
    cases hsettle : settle r c.thread (.resolved (.string "one")) m₁ with
    | error e m₂ =>
      rw [bind_run, hsettle] at hrun
      cases hrun
      exact absurd hsettle settle_ne_typeError
    | ok a m₂ =>
      rw [bind_run_of_ok hsettle] at hrun
      cases hrun
      rfl

set_option maxRecDepth 100000 in
/-- A thread calls a function that settles twice, and one that settles and then throws. -/
theorem exists_hasty : ∃ origin finished, create {} {} = .ok origin ∧
    Asked hastyNatives origin finished ∧
    (statuses finished = [.zombie] ∧ finished.nextResolverId = 4 ∧
      finished.pendingResolvers = [] ∧ finished.earlySettlements = [] ∧
      finished.global? "a" = some (.string "two") ∧
      finished.global? "b" = some (.string "refused")) := by
  have hchecks : ((create {} {}).toOption.bind fun origin =>
      (origin.serve hastyNatives [.define "settleTwice", .define "settleAndThrow",
        .spawn ("var a = settleTwice(); var b;" ++
          "try { settleAndThrow(); } catch (e) { b = e.message; }"), .run 90]).map
            fun finished => (origin, finished)).any (fun (_, finished) => decide
              (statuses finished = [.zombie] ∧ finished.nextResolverId = 4 ∧
                finished.pendingResolvers = [] ∧ finished.earlySettlements = [] ∧
                finished.global? "a" = some (.string "two") ∧
                finished.global? "b" = some (.string "refused"))) = true := by
    rw [toOption_create]
    decide +kernel
  obtain ⟨_, hsession, hchecks⟩ := (Option.any_eq_true _ _).1 hchecks
  obtain ⟨origin, horigin, hsession⟩ := Option.bind_eq_some_iff.1 hsession
  obtain ⟨finished, hfinished, rfl⟩ := Option.map_eq_some_iff.1 hsession
  exact ⟨origin, finished, create_of_toOption horigin, Asked.refl.serve hfinished,
    of_decide_eq_true hchecks⟩

/-- A thread that waits in its only call has it delivered. -/
theorem delivers_waiting : ∃ origin m, create {} {} = .ok origin ∧ Asked waitingNatives origin m ∧
    statuses m = [.blocked] ∧ m.pendingResolvers = [(1, ⟨1⟩)] ∧
    (∃ past, Course False False none origin past none m) ∧
    (∀ id f call rest, ParkedIn id f call rest m → f.node = none) ∧
    ∀ past turn n, Course False False none origin past turn n →
      Delivers waitingNatives False False turn n := by
  obtain ⟨origin, m, _, _, _, _, hcreate, h, _, _, _, _, hstatus, hpending, _⟩ := exists_left_over
  exact ⟨origin, m, hcreate, h, hstatus, hpending,
    Asked.delivers each_civil_waitingNatives_false hcreate h⟩

/-- What is accepted is lost. A thread is parked in its second call when the resolver of the first
one is settled: the first call has completed with another value, and the second one completes with
this one. Of two settlements that a host function makes early only the last is delivered, and what
it settles before it throws is not. -/
theorem accepted_settlements_lost :
    (∃ origin first second woken finished, waitingNatives.Each (Civil False) ∧
      create {} {} = .ok origin ∧ Asked waitingNatives origin first ∧
      (statuses first = [.blocked] ∧ first.pendingResolvers = [(1, ⟨1⟩)]) ∧
      Asked waitingNatives first second ∧ statuses second = [.blocked] ∧
      settle 1 ⟨1⟩ (.resolved (.string "one")) second = .ok () woken ∧
      Asked waitingNatives woken finished ∧ statuses finished = [.zombie] ∧
      finished.global? "a" = some (.string "two") ∧
      finished.global? "b" = some (.string "one")) ∧
    (∃ origin finished, hastyNatives.Each (Civil False) ∧ create {} {} = .ok origin ∧
      Asked hastyNatives origin finished ∧ statuses finished = [.zombie] ∧
      finished.nextResolverId = 4 ∧ finished.pendingResolvers = [] ∧
      finished.earlySettlements = [] ∧ finished.global? "a" = some (.string "two") ∧
      finished.global? "b" = some (.string "refused")) ∧
    ∀ c m n, settleAndThrow c m = .error (.typeError "refused") n →
      ∃ r m₁, issueResolver c.thread m = .ok r m₁ ∧
        settle r c.thread (.resolved (.string "one")) m₁ = .ok () n := by
  refine ⟨?_, ?_, fun _ _ _ => settled_of_settleAndThrow⟩
  · obtain ⟨origin, first, between, second, woken, finished, hcreate, hfirst, hbetween, hsecond,
      hrun, hfinished, hparked, hpending, _, _, hblocked, _, _, hended, ha, hb⟩ := exists_left_over
    exact ⟨origin, first, second, woken, finished, each_civil_waitingNatives_false, hcreate,
      hfirst, ⟨hparked, hpending⟩, hbetween.trans hsecond, hblocked, hrun, hfinished, hended, ha,
      hb⟩
  · obtain ⟨origin, finished, hcreate, hfinished, hchecks⟩ := exists_hasty
    exact ⟨origin, finished, each_civil_hastyNatives, hcreate, hfinished, hchecks⟩

end Machine

end ScriptMachine
