import ScriptMachine.Proofs.Authority
import ScriptMachine.Proofs.Finality
import ScriptMachine.Proofs.Quiet

/-!
# Attributes along runs

Most of what threads and the host do leaves a given object alone. What does not edits it at most once,
but for the two methods of arrays that push and pop. A relation between objects that allows for these
holds between what the object was before a deed and what it is after it.
-/

namespace ScriptMachine

open Exec Machine Builtin

theorem Machine.topFrame?_of_popFrame {thread : ThreadId} {f : Frame} {m m' : Machine}
    (hrun : popFrame thread m = .ok (some f) m') : m.topFrame? thread = some f := by
  cases hthread : m.thread? thread with
  | none =>
    unfold popFrame at hrun
    rw [bind_run, get_run] at hrun
    dsimp only at hrun
    rw [hthread] at hrun
    cases hrun
  | some t =>
    rw [popFrame_run hthread] at hrun
    rw [topFrame?, hthread]
    cases htop : t.stack.top? with
    | none =>
      rw [htop] at hrun
      cases hrun
    | some g =>
      rw [htop] at hrun
      cases hrun
      exact htop

namespace Exec

variable {α β : Type} {id : ObjectId} {R S T : Object → Object → Prop} {m : Machine} {o : Object}

/-- After an operation a live object is as a relation allows. -/
def Touches (id : ObjectId) (R : Object → Object → Prop) (x : Exec α) : Prop :=
  ∀ m o, m.Has id o → ∃ o', (after x m).Has id o' ∧ R o o'

theorem Quiet.touches {x : Exec α} (hx : Quiet id x) (hrefl : ∀ o, R o o) : Touches id R x :=
  fun m o hm => ⟨o, hx o m hm, hrefl o⟩

theorem Touches.bind {x : Exec α} {f : α → Exec β} (hx : Touches id R x)
    (hf : ∀ a, Touches id S (f a)) (hfirst : ∀ o o', R o o' → T o o')
    (hboth : ∀ o o₁ o', R o o₁ → S o₁ o' → T o o') : Touches id T (x >>= f) := by
  intro m o hm
  obtain ⟨o₁, ho₁, hR⟩ := hx m o hm
  refine after_bind_of (P := (·.Has id o₁)) (Q := fun m' => ∃ o', m'.Has id o' ∧ T o o') ho₁
    (fun m' hm' => ⟨o₁, hm', hfirst o o₁ hR⟩) fun a m' _ hm' => ?_
  obtain ⟨o', ho', hS⟩ := hf a m' o₁ hm'
  exact ⟨o', ho', hboth o o₁ o' hR hS⟩

theorem Touches.after_quiet {x : Exec α} {f : α → Exec β} (hrefl : ∀ o, R o o) (hx : Quiet id x)
    (hf : ∀ a, Touches id R (f a)) : Touches id R (x >>= f) :=
  (hx.touches (R := Eq) fun _ => rfl).bind hf (fun o _ h => h ▸ hrefl o) fun _ _ _ h h' => h ▸ h'

theorem Touches.then_quiet {x : Exec α} {f : α → Exec β} (hx : Touches id R x)
    (hf : ∀ a, Quiet id (f a)) : Touches id R (x >>= f) :=
  hx.bind (fun a => (hf a).touches (R := Eq) fun _ => rfl) (fun _ _ h => h) fun _ _ _ h h' => h' ▸ h

theorem Touches.attempt {x : Exec α} (hx : Touches id R x) : Touches id R (attempt x) := by
  intro m o hm
  rw [after_attempt]
  exact hx m o hm

/-- What is read may decide how the object is touched. -/
theorem Touches.of_read {f : Machine → Except Failure α} {k : α → Exec β} (hrefl : ∀ o, R o o)
    (hk : ∀ m o a, m.Has id o → f m = .ok a → ∃ o', (after (k a) m).Has id o' ∧ R o o') :
    Touches id R (query f >>= k) := by
  intro m o hm
  rw [after_bind]
  cases hread : f m with
  | error e =>
    rw [query_run_error hread]
    exact ⟨o, hm, hrefl o⟩
  | ok a =>
    rw [query_run_ok hread]
    exact hk m o a hm hread

theorem touches_of_edits {actor : Option Owner} {access : Access} {idle : Prop}
    {E : Object → Object → Prop} {x : Exec α} (hrefl : ∀ o, R o o)
    (hx : ∀ m, Edits id actor access idle E m x) (hE : ∀ o o', E o o' → R o o') :
    Touches id R x := by
  intro m o hm
  cases hrun : x m with
  | error e m' =>
    rw [after_of_error hrun, (hx m).eq_of_error hrun]
    exact ⟨o, hm, hrefl o⟩
  | ok a m' =>
    rw [after_of_ok hrun]
    rcases (hx m).of_ok hrun with ⟨-, rfl⟩ | ⟨p, o', hp, hedited, rfl⟩
    · exact ⟨o, hm, hrefl o⟩
    · obtain rfl := Option.some.inj (hm.live.symm.trans hp)
      exact ⟨o', ⟨hm.tidy.modifyObject id _, object?_withObject hm.live _⟩, hE o o' hedited⟩

/-- A relation between objects that allows for one edit, and for the methods that push and pop. -/
structure Permits (R : Object → Object → Prop) : Prop where
  refl (o : Object) : R o o
  assigned {o o' : Object} {key : String} {v : Value} (h : o.Assigned key v o') : R o o'
  redefined {o o' : Object} {key : String} {d : Descriptor} (h : o.Redefined key d o') : R o o'
  erased {o o' : Object} {key : String} (h : o.Erased key o') : R o o'
  reshelled {o o' : Object} (h : o.Reshelled o') : R o o'
  push (c : NativeCall) {id : ObjectId} (hid : c.receiver.object? = some id) :
    Touches id R (Arrays.push c)
  pop (c : NativeCall) {id : ObjectId} (hid : c.receiver.object? = some id) :
    Touches id R (Arrays.pop c)

namespace Permits

variable (h : Permits R)

include h

theorem quiet {x : Exec α} (hx : Quiet id x) : Touches id R x := hx.touches h.refl

/-- The object that is edited may be another one. -/
theorem edits {other : ObjectId} {actor : Option Owner} {access : Access} {idle : Prop}
    {E : Object → Object → Prop} {x : Exec α} (hx : ∀ m, Edits other actor access idle E m x)
    (hE : ∀ o o', E o o' → R o o') : Touches id R x := by
  by_cases hother : other = id
  · subst hother
    exact touches_of_edits h.refl hx hE
  · exact h.quiet (quiet_of_edits hother hx)

theorem writing (acts : Option Owner → Prop) : Writing acts (Quiet id) (Touches id R) where
  toRegular := Exec.quiet
  mild := h.quiet
  first := .after_quiet h.refl
  last := .then_quiet
  setProperty base key v actor _ := by
    cases base with
    | object other => exact h.edits (edits_setProperty · other key v actor) fun _ _ => h.assigned
    | _ => exact h.quiet (Exec.quiet.throw _)
  defineProperty other key d actor _ :=
    h.edits (edits_defineProperty · other key d actor) fun _ _ => h.redefined
  deleteProperty other key actor _ :=
    h.edits (edits_deleteProperty · other key actor) fun _ _ => h.erased
  setPrototype other proto actor _ :=
    h.edits (edits_setPrototype · other proto actor) fun _ _ => h.reshelled
  preventExtensions other actor _ :=
    h.edits (edits_preventExtensions · other actor) fun _ _ => h.reshelled
  setOwnerOf other owner actor _ :=
    h.edits (edits_setOwnerOf · other owner actor) fun _ _ => h.reshelled
  createClosure := quiet_createClosure
  build owner _ _ _ := quiet_craftPlain owner fun _ hother =>
    Exec.quiet.bind (quiet_modifyObject hother _) fun _ => Exec.quiet.pure _
  craft o _ hk := quiet_craft o fun other hother => hk other (crafts_of_ne hother)

theorem acting (scope : ScopeId) : Acting scope (fun _ => True) (Quiet id) (Touches id R) where
  toWriting := h.writing _
  owned hk := .after_quiet h.refl (Exec.quiet.scopeOwner scope) fun actor => hk actor trivial

theorem serving (c : NativeCall) : Serving c (Quiet id) (Touches id R) (Touches id R) where
  toWriting := h.writing _
  reply r _ := h.quiet (Exec.quiet.pure r)
  fail e := h.quiet (Exec.quiet.throw e)
  after := .after_quiet h.refl
  value hx := hx.then_quiet fun _ => Exec.quiet.pure _
  push := by
    by_cases hid : c.receiver.object? = some id
    · exact h.push c hid
    · exact h.quiet (Arrays.plain_push Exec.quiet fun other hother =>
        crafts_of_ne fun heq => hid (heq ▸ hother))
  pop := by
    by_cases hid : c.receiver.object? = some id
    · exact h.pop c hid
    · exact h.quiet (Arrays.plain_pop Exec.quiet fun other hother =>
        crafts_of_ne fun heq => hid (heq ▸ hother))

theorem each : natives.Each fun code => ∀ c, Touches id R (code c) := by
  have hvalue {f : NativeCall → Exec Value} (hf : ∀ c, Quiet id (f c)) :
      ∀ c, Touches id R (NativeCode.ofValue f c) :=
    fun c => (h.serving c).value (h.quiet (hf c))
  refine each_of_serving h.serving (fun _ hcode => hcode) (hvalue fun c => ?_) (hvalue fun c => ?_)
    (fun c => Threads.reply_suspend (h.serving c) fun _ => h.quiet (Exec.quiet.pure _))
    (hvalue fun c => ?_) (hvalue fun c => ?_) (hvalue fun c => ?_)
  · unfold Threads.setTimeout
    split
    · exact Exec.quiet.throw _
    · exact Exec.quiet.bind (quiet_spawnCallAs _ _ _ _ _ _) fun _ => Exec.quiet.pure _
  · unfold Threads.clearTimeout
    split
    · exact Exec.quiet.bind (turning_quiet _).killThread fun _ => Exec.quiet.pure _
    · exact Exec.quiet.pure _
  · refine Exec.quiet.bind (plain_objectArg Exec.quiet 0 _) fun _ =>
      Exec.quiet.bind (Exec.quiet.query _) fun _ => Exec.quiet.bind ?_ fun _ => Exec.quiet.pure _
    exact quiet_setScopeOwner _ _
  · unfold Threads.kill
    split
    · exact Exec.quiet.bind (turning_quiet _).killThread fun _ => Exec.quiet.pure _
    · exact Exec.quiet.pure _
  · unfold Threads.limitThread
    extract_lets n rest
    split
    · exact Exec.quiet.bind (quiet_modifyThread _ _) fun _ => Exec.quiet.pure _
    · split
      · exact Exec.quiet.throw_bind _ _
      · exact Exec.quiet.bind (quiet_modifyThread _ _) fun _ => Exec.quiet.pure _

theorem stepwise (thread : ThreadId) : Stepwise thread (Quiet id) (Touches id R) (Quiet id)
    fun code => ∀ c, Touches id R (code c) where
  toRegular := Exec.quiet
  mild := h.quiet
  first := .after_quiet h.refl
  read hk := .of_read h.refl fun m o a hm hread => hk m a hread m o hm
  rest hx := hx
  restFirst := Exec.quiet.bind
  limit := (turning_quiet thread).checkTimeLimit
  enter := (h.writing fun _ => True).enterFunction
  reply := quiet_applyReply thread
  answer hcode _ _ _ hk _ := (hcode _).attempt.then_quiet fun answer =>
    Exec.quiet.bind (quiet_modifyGet fun _ => rfl) fun early => hk answer early

/-- A step of a thread touches no object that it is building a literal of. -/
theorem stepThread (hm : m.Has id o) (thread : ThreadId)
    (hbuilt : ∀ f, m.topFrame? thread = some f → f.info ≠ .object id) :
    ∃ o', (after (stepThread natives thread) m).Has id o' ∧ R o o' := by
  rw [stepThread_eq, after_bind]
  have hpop : (after (popFrame thread) m).Has id o := (turning_quiet thread).popFrame o m hm
  cases hrun : popFrame thread m with
  | error e m' =>
    rw [after_of_error hrun] at hpop
    exact ⟨o, hpop, h.refl o⟩
  | ok top m' =>
    rw [after_of_ok hrun] at hpop
    cases top with
    | none => exact h.quiet ((turning_quiet thread).finishThread _) m' o hpop
    | some f =>
      have hf : f.info ≠ .object id := hbuilt f (topFrame?_of_popFrame hrun)
      have hdispatch : Touches id R (dispatch natives thread f) :=
        (h.stepwise thread).dispatch h.each fun here program kind =>
          plain_stepNode (h.acting f.scope) f here (turning_quiet thread).checkTimeLimit rfl program
            kind (fun _ _ _ _ => quiet_modifyThread thread _)
            (fun elements _ => quiet_stepArray hf here elements)
            fun properties _ => quiet_stepObject hf here properties
      exact hdispatch.attempt.then_quiet ((turning_quiet thread).settleStep f) m' o hpop

end Permits

end Exec

/-! ## Relations that are permitted -/

/-- What an object is after some edits. -/
abbrev Object.Evolves : Object → Object → Prop := Relation.ReflTransGen Object.Edit

namespace Exec

variable {α : Type} {id : ObjectId} {R : Object → Object → Prop} {m : Machine} {o : Object}

theorem touches_regular (hrefl : ∀ o, R o o) (htrans : ∀ o o₁ o', R o o₁ → R o₁ o' → R o o') :
    Regular (Touches id R) where
  pure a := (quiet.pure a).touches hrefl
  throw e := (quiet.throw e).touches hrefl
  bind hx hf := hx.bind hf (fun _ _ h => h) htrans
  get := quiet.get.touches hrefl
  query f := (quiet.query f).touches hrefl
  alloc o := (quiet.alloc o).touches hrefl
  allocScope s := (quiet.allocScope s).touches hrefl
  modifyScope scope _ hf := (quiet.modifyScope scope hf).touches hrefl
  load source := (quiet.load source).touches hrefl
  now := quiet.now.touches hrefl
  write level text := (quiet.write level text).touches hrefl
  random c := (quiet.random c).touches hrefl

/-- What edits lead to, one after another. -/
theorem permits_evolves : Permits Object.Evolves := by
  have hrefl : ∀ o : Object, o.Evolves o := fun _ => .refl
  have htwice {o o' : Object} (h : o.Rewritten o') : o.Evolves o' := by
    cases h with
    | once h => exact .single h
    | twice h _ h' => exact .head h (.single h')
  have hregular {id : ObjectId} : Regular (Touches id Object.Evolves) :=
    touches_regular hrefl fun _ _ _ => .trans
  have hcrafts {id : ObjectId} (acts : Option Owner → Prop) :
      Crafts acts (Touches id Object.Evolves) id :=
    ⟨fun key v actor _ => touches_of_edits hrefl (edits_setProperty · id key v actor)
        fun _ _ h => .single h.edit,
      fun key d actor _ => touches_of_edits hrefl (edits_defineProperty · id key d actor)
        fun _ _ h => htwice h.rewritten,
      fun key actor _ => touches_of_edits hrefl (edits_deleteProperty · id key actor)
        fun _ _ h => .single h.edit⟩
  refine ⟨hrefl, fun h => .single h.edit, fun h => htwice h.rewritten, fun h => .single h.edit,
    fun h => .single h.edit, fun c id hid => ?_, fun c id hid => ?_⟩
  · refine Arrays.plain_push hregular fun other hother => ?_
    obtain rfl := Option.some.inj (hid.symm.trans hother)
    exact hcrafts _
  · refine Arrays.plain_pop hregular fun other hother => ?_
    obtain rfl := Option.some.inj (hid.symm.trans hother)
    exact hcrafts _

/-- The length of an array is what the methods see. -/
theorem eq_length_of_lengthOf {actor : Option Owner} {n k : Nat} (ho : m.heap.object? id = some o)
    (hn : o.Extent n) (hlength : Arrays.lengthOf m id actor = .ok k) : k = n := by
  cases hread : m.authorize actor id .read with
  | error e =>
    rw [Arrays.lengthOf, getProperty, getOfObject, hread] at hlength
    cases hlength
  | ok p =>
    obtain rfl := Option.some.inj (ho.symm.trans (authorize_eq_ok_iff.1 hread).1)
    obtain ⟨writable, hp⟩ := hn.length
    rw [Arrays.lengthOf, JsonText.getProperty_of_own hread hp] at hlength
    cases hlength
    have hbounded := hn.bounded
    refine (Number.clampNat_toInteger (Number.ofNat n) (by decide)).trans ?_
    rw [Strings.place_ofNat (by omega), Number.clamped]
    omega

theorem touches_pushFrom (actor : Option Owner) {k : Nat} {f : Nat → Exec α} (i : Nat)
    (values : List Value) (hk : i + values.length ≤ k)
    (hf : Touches id (Object.Pushed k) (f (i + values.length))) :
    Touches id (Object.Pushed k) (Arrays.pushFrom (.object id) actor i values >>= f) := by
  induction values generalizing i with
  | nil => exact hf
  | cons v rest ih =>
    rw [List.length_cons] at hk hf
    have hset : Touches id (Object.Pushed k) (setProperty (.object id) (Number.natText i) v actor) :=
      touches_of_edits (.refl k) (edits_setProperty · id _ v actor) fun _ _ h => h.pushed (by omega)
    unfold Arrays.pushFrom
    rw [bind_assoc]
    refine hset.bind (fun _ => ih (i + 1) (by omega) ?_) (fun _ _ h => h) fun _ _ _ => .trans
    rwa [show i + 1 + rest.length = i + (rest.length + 1) by omega]

theorem touches_push {c : NativeCall} (hid : c.receiver.object? = some id) :
    Touches id Object.Turned (Arrays.push c) := by
  unfold Arrays.push receiverObject
  rw [hid]
  dsimp only
  rw [pure_bind]
  refine .of_read (fun _ => .refl) fun m o start hm hlength => ?_
  have hset : Touches id (Object.Pushed (start + c.args.length)) (do
      setProperty (.object id) "length" (.nat (start + c.args.length)) c.owner
      return (.nat (start + c.args.length) : Value)) :=
    (touches_of_edits (.refl _) (edits_setProperty · id _ _ c.owner)
      fun _ _ h => h.pushed_length).then_quiet fun _ => quiet.pure _
  obtain ⟨o', ho', hpushed⟩ := touches_pushFrom c.owner start c.args (Nat.le_refl _)
    (f := fun length => do
      setProperty (.object id) "length" (.nat length) c.owner
      return (.nat length : Value)) hset m o hm
  refine ⟨o', ho', fun hmeasured => (hpushed hmeasured fun harray => ?_).1⟩
  obtain ⟨n, hn⟩ := hmeasured harray
  rw [hn.length_eq, eq_length_of_lengthOf hm.live hn hlength]
  exact Nat.le_add_right ..

theorem touches_pop {c : NativeCall} (hid : c.receiver.object? = some id) :
    Touches id Object.Turned (Arrays.pop c) := by
  have hset (v : Value) : Touches id Object.Turned (setProperty (.object id) "length" v c.owner) :=
    touches_of_edits (fun _ => .refl) (edits_setProperty · id _ v c.owner) fun _ _ h => h.turned
  unfold Arrays.pop receiverObject
  rw [hid]
  dsimp only
  rw [pure_bind]
  refine .after_quiet (fun _ => .refl) (quiet.query _) fun length => ?_
  cases length with
  | zero => exact (hset _).then_quiet fun _ => quiet.pure _
  | succ last =>
    refine .after_quiet (fun _ => .refl) (quiet.query _) fun v => ?_
    have hdelete : Touches id (fun o o' => o = o' ∨ o.Erased (Number.natText last) o')
        (deleteProperty id (Number.natText last) c.owner) :=
      touches_of_edits (fun _ => .inl rfl) (edits_deleteProperty · id _ c.owner) fun _ _ => .inr
    refine hdelete.bind (fun _ => (hset _).then_quiet fun _ => quiet.pure _) ?_ ?_
    · rintro o o' (rfl | herased)
      · exact .refl
      · exact herased.turned
    · rintro o o₁ o' (rfl | herased) hturned
      · exact hturned
      · exact herased.turned_trans hturned

/-- What a deed leaves of an object that is measured. -/
theorem permits_turned : Permits Object.Turned where
  refl _ := .refl
  assigned := Object.Assigned.turned
  redefined := Object.Redefined.turned
  erased := Object.Erased.turned
  reshelled := Object.Reshelled.turned
  push _ _ := touches_push
  pop _ _ := touches_pop

end Exec

/-! ## Runs -/

namespace Action

variable {R : Object → Object → Prop} {m : Machine} {id : ObjectId} {o : Object}

/-- The object is there, and as a relation to what it was allows, or it is gone. -/
def Leaves (R : Object → Object → Prop) (id : ObjectId) (o : Object) (m : Machine) : Prop :=
  (∃ o', m.heap.object? id = some o' ∧ R o o') ∨ m.heap.object? id = none

theorem leaves_of_touches {α : Type} {x : Exec α} (hx : Touches id R x) (hm : m.Has id o) :
    Leaves R id o (after x m) := by
  obtain ⟨o', ho', hR⟩ := hx m o hm
  exact .inl ⟨o', ho'.live, hR⟩

/-- Taking a result pins it at most. -/
theorem sameSlots_takeResult (m : Machine) (thread : ThreadId) :
    m.heap.SameSlots (after (takeResult thread) m).heap := by
  have hself : m.heap.SameSlots m.heap := ⟨rfl, rfl, rfl, rfl⟩
  unfold takeResult
  rw [after_bind, get_run]
  dsimp only
  cases m.thread? thread with
  | none => exact hself
  | some t =>
    dsimp only
    split
    · exact hself
    · rw [after_bind, modify_run]
      dsimp only
      split
      · exact .pin m.heap m.hostValues _
      · exact .pin m.heap m.hostValues _
      · exact hself

/-- Whatever happens to a machine, an object that no literal is building is touched or freed. -/
theorem leaves_apply (hR : Permits R) (hm : m.Has id o) (a : Action)
    (hbuilt : ∀ thread ∈ a.stepped?, ∀ f, m.topFrame? thread = some f → f.info ≠ .object id) :
    Leaves R id o (a.apply m) := by
  have hsame {m' : Machine} (hobjects : m'.heap.objects = m.heap.objects) : Leaves R id o m' := by
    refine .inl ⟨o, ?_, hR.refl o⟩
    rw [Heap.object?, hobjects]
    exact hm.live
  have hquiet {α : Type} {x : Exec α} (hx : Quiet id x) : Leaves R id o (after x m) :=
    leaves_of_touches (hR.quiet hx) hm
  cases a with
  | step thread =>
    obtain ⟨o', ho', h⟩ := hR.stepThread hm thread (hbuilt thread rfl)
    exact .inl ⟨o', ho'.live, h⟩
  | schedule => exact hsame rfl
  | start thread =>
    obtain ⟨threads, lastStepped, hstarted, -⟩ := exists_after_startRun thread m
    rw [apply, hstarted]
    exact hsame rfl
  | attend thread => exact hsame rfl
  | collect =>
    cases hcollected : (after collectGarbage m).heap.object? id with
    | none => exact .inr hcollected
    | some p =>
      have hp := hm.tidy.object?_of_collect hcollected
      obtain rfl := Option.some.inj (hm.live.symm.trans hp)
      exact .inl ⟨o, hcollected, hR.refl o⟩
  | spawn source => exact hquiet (quiet_spawn source)
  | call func receiver args delay =>
    exact hquiet (quiet.bind quiet.get fun _ => quiet_spawnCallAs func receiver args delay _ true)
  | settle resolver thread s => exact hquiet (quiet_settle resolver thread s)
  | kill thread => exact hquiet (turning_quiet thread).killThread
  | take thread => exact hsame (sameSlots_takeResult m thread).objects
  | release => exact hsame (Heap.SameSlots.clearGuard m.heap m.hostValues).objects
  | limit thread most => exact hquiet (quiet_modifyThread thread _)
  | threshold count => exact hsame rfl
  | pause => exact hquiet (quiet_modify fun m => by split <;> rfl)
  | resume => exact hquiet (quiet_modify fun m => by split <;> rfl)
  | stop => exact hsame rfl
  | setGlobal name v => exact hquiet (quiet.setGlobal name v)
  | advance millis => exact hsame rfl
  | wait time => exact hquiet (quiet_waitUntil time)
  | setClock time => exact hsame rfl
  | replaceClock clock => exact hquiet (quiet_replaceClock clock)

end Action

/-- What can happen between two looks at an object: an action, or an access by the host on behalf of
any owner. -/
inductive Deed where
  | act (a : Action)
  | put (base : Value) (key : String) (v : Value) (actor : Option Owner)
  | define (id : ObjectId) (key : String) (d : Descriptor) (actor : Option Owner)
  | delete (id : ObjectId) (key : String) (actor : Option Owner)

namespace Deed

/-- The machine after a deed, which may have failed. -/
def apply (m : Machine) : Deed → Machine
  | act a => a.apply m
  | put base key v actor => after (setProperty base key v actor) m
  | define id key d actor => after (defineProperty id key d actor) m
  | delete id key actor => after (deleteProperty id key actor) m

/-- The thread that takes a step. -/
def stepped? : Deed → Option ThreadId
  | act a => a.stepped?
  | _ => none

variable {m : Machine} {id : ObjectId} {o : Object}

theorem ordered (h : Ordered m) (d : Deed) : Ordered (d.apply m) := by
  have hdeed : ∀ {actor : Option Owner} {m' : Machine},
      Changes (fun _ => False) actor m m' → Ordered m' := by
    intro actor m' hchanges
    exact ((h.confined ⟨0⟩).changes hchanges fun _ _ hmember => hmember.elim).toOrdered
  cases d with
  | act a =>
    refine ((h.confined ⟨0⟩).act a ?_ ?_).toOrdered
    · exact fun _ _ hmember => hmember.elim
    · exact fun _ _ hmember => hmember.elim
  | put base key v actor => exact hdeed (doesAt_setProperty m base key v).1
  | define id key d actor => exact hdeed (doesAt_defineProperty m id key d).1
  | delete id key actor => exact hdeed (doesAt_deleteProperty m id key).1

theorem leaves_apply {R : Object → Object → Prop} (hR : Permits R) (hm : m.Has id o) (d : Deed)
    (hbuilt : ∀ thread ∈ d.stepped?, ∀ f, m.topFrame? thread = some f → f.info ≠ .object id) :
    Action.Leaves R id o (d.apply m) := by
  have hwriting : Writing (fun _ => True) (Quiet id) (Touches id R) := hR.writing _
  cases d with
  | act a => exact a.leaves_apply hR hm hbuilt
  | put base key v actor =>
    exact Action.leaves_of_touches (hwriting.setProperty base key v actor trivial) hm
  | define other key d actor =>
    exact Action.leaves_of_touches (hwriting.defineProperty other key d actor trivial) hm
  | delete other key actor =>
    exact Action.leaves_of_touches (hwriting.deleteProperty other key actor trivial) hm

end Deed

namespace Machine

/-- The machine after some deeds. -/
def afterDeeds (m : Machine) (deeds : List Deed) : Machine := deeds.foldl Deed.apply m

/-- Along some deeds an object is live, and is not being built by the frames that are stepped. -/
def LiveAlong (id : ObjectId) : Machine → List Deed → Prop
  | m, [] => (m.heap.object? id).isSome
  | m, d :: rest => (m.heap.object? id).isSome ∧
      (∀ thread ∈ d.stepped?, ∀ f ∈ m.topFrame? thread, f.info ≠ .object id) ∧
      LiveAlong id (d.apply m) rest

instance decidableLiveAlong (id : ObjectId) :
    (m : Machine) → (deeds : List Deed) → Decidable (LiveAlong id m deeds)
  | m, [] => inferInstanceAs (Decidable ((m.heap.object? id).isSome = true))
  | m, d :: rest =>
    have := decidableLiveAlong id (d.apply m) rest
    inferInstanceAs (Decidable ((m.heap.object? id).isSome = true ∧
      (∀ thread ∈ d.stepped?, ∀ f ∈ m.topFrame? thread, f.info ≠ .object id) ∧
      LiveAlong id (d.apply m) rest))

/-- An object that has a property, and keeps it as far as that is final. -/
def KeepsFinal (m : Machine) (id : ObjectId) (key : String) (p : Property) : Prop :=
  ∃ o q, m.heap.object? id = some o ∧ o.properties.get? key = some q ∧ p.KeptAs q

/-- A deed takes a property from an object: it cuts an array below the item, or lets one grow whose
length is read-only. -/
def LosesBy (m : Machine) (d : Deed) (id : ObjectId) (key : String) (p : Property) : Prop :=
  ∃ o q o', m.heap.object? id = some o ∧ o.properties.get? key = some q ∧ p.KeptAs q ∧
    (d.apply m).heap.object? id = some o' ∧ o.Loses key q o'

/-- Along deeds a property that is not configurable is kept, or one of the deeds is the first that takes
it from its object. -/
theorem keepsFinal_or_losesBy {m : Machine} {id : ObjectId} {deeds : List Deed} (h : Ordered m)
    (hrun : LiveAlong id m deeds) {o : Object} (ho : m.heap.object? id = some o)
    (hmeasured : o.Measured) {key : String} {p q : Property}
    (hq : o.properties.get? key = some q) (hkept : p.KeptAs q) :
    (m.afterDeeds deeds).KeepsFinal id key p ∨
      ∃ before d rest, deeds = before ++ d :: rest ∧ (m.afterDeeds before).LosesBy d id key p := by
  induction deeds generalizing m o q with
  | nil => exact .inl ⟨o, q, ho, hq, hkept⟩
  | cons d rest ih =>
    obtain ⟨-, hbuilt, hrest⟩ := hrun
    rcases d.leaves_apply permits_turned ⟨h.tidy, ho⟩ hbuilt with ⟨o', ho', hturned⟩ | hnone
    · have hturns := hturned hmeasured
      rcases hturns.final hmeasured hq hkept.configurable with ⟨r, hr, hkept'⟩ | hloses
      · rcases ih (d.ordered h) hrest ho' hturns.measured hr (hkept.trans hkept') with
          hkeeps | ⟨before, d', rest', rfl, hloses⟩
        · exact .inl hkeeps
        · exact .inr ⟨d :: before, d', rest', rfl, hloses⟩
      · exact .inr ⟨[], d, rest, rfl, o, q, o', ho, hq, hkept, ho', hloses⟩
    · cases rest with
      | nil =>
        rw [LiveAlong, hnone] at hrest
        cases hrest
      | cons =>
        rw [LiveAlong, hnone] at hrest
        cases hrest.1

/-- A property that is not configurable stays on its object for as long as that is live. It keeps its
flags, but for one that may be written becoming read-only, and a read-only one keeps its value; unless
a deed on the way cut its array below the item, or let the array grow in spite of a read-only length. -/
theorem Reached.final_property_kept {m : Machine} (h : Reached m) {id : ObjectId}
    {deeds : List Deed} (hrun : LiveAlong id m deeds) {o : Object}
    (ho : m.heap.object? id = some o) (hmeasured : o.Measured) {key : String} {p : Property}
    (hp : o.properties.get? key = some p) (hfinal : p.configurable = false) :
    (m.afterDeeds deeds).KeepsFinal id key p ∨
      ∃ before d rest, deeds = before ++ d :: rest ∧ (m.afterDeeds before).LosesBy d id key p :=
  keepsFinal_or_losesBy h.ordered hrun ho hmeasured hp (.refl hfinal)

/-- Some steps of the first thread. -/
def turns (count : Nat) : List Deed := List.replicate count (.act (.step ⟨1⟩))

/-- Whether an object has a property that is not configurable. -/
def hasFinal (m : Machine) (id : ObjectId) (key : String) : Bool :=
  ((m.heap.object? id).bind (·.properties.get? key)).any fun p => !p.configurable

set_option maxRecDepth 100000 in
/-- An item that is final is kept while the length of its array is looked up. -/
theorem final_item_kept :
    ∃ m o p, trial ("var a = [1]; Object.defineProperty(a, 0, {configurable: false}); " ++
        "a.length = 0;") 31 = some m ∧ LiveAlong ⟨103⟩ m (turns 2) ∧
      m.heap.object? ⟨103⟩ = some o ∧ o.Measured ∧ o.properties.get? "0" = some p ∧
      p.configurable = false ∧
      ((m.afterDeeds (turns 2)).KeepsFinal ⟨103⟩ "0" p ∨
        ∃ before d rest, turns 2 = before ++ d :: rest ∧
          (m.afterDeeds before).LosesBy d ⟨103⟩ "0" p) := by
  have hchecks : (trial ("var a = [1]; Object.defineProperty(a, 0, {configurable: false}); " ++
      "a.length = 0;") 31).any (fun m => (m.heap.object? ⟨103⟩).any fun o =>
        (o.properties.get? "0").any fun p => decide (LiveAlong ⟨103⟩ m (turns 2) ∧
          o.isArray = true ∧ o.properties.get? "length" = some (.length (.nat 1)) ∧
          o.properties.keys.length ≤ 2 ∧ p.configurable = false)) = true := by
    decide +kernel
  obtain ⟨m, hm, hchecks⟩ := (Option.any_eq_true _ _).1 hchecks
  obtain ⟨o, ho, hchecks⟩ := (Option.any_eq_true _ _).1 hchecks
  obtain ⟨p, hp, hchecks⟩ := (Option.any_eq_true _ _).1 hchecks
  obtain ⟨hrun, harray, hlength, hsize, hfinal⟩ := of_decide_eq_true hchecks
  -- Its names are the item and the length, as there are two of them.
  have hkeys : ["0", "length"].Perm o.properties.keys := by
    refine (List.subperm_of_subset (by decide) fun key hkey => ?_).perm_of_length_le hsize
    refine (Object.mem_keys_iff o key).2 ?_
    rcases List.mem_pair.1 hkey with rfl | rfl
    · rw [hp]
      rfl
    · rw [hlength]
      rfl
  have hmeasured : o.Measured := by
    refine fun _ => ⟨1, harray, by decide, ⟨true, hlength⟩, fun key i hkey hitem => ?_⟩
    rcases List.mem_pair.1 (hkeys.mem_iff.2 hkey) with rfl | rfl
    · obtain rfl := eq_of_arrayIndex?_natText (n := 0) hitem
      exact Nat.one_pos
    · rw [Object.arrayIndex?_length] at hitem
      cases hitem
  exact ⟨m, o, p, hm, hrun, ho, hmeasured, hp, hfinal,
    (reached_of_trial hm).final_property_kept hrun ho hmeasured hp hfinal⟩

set_option maxRecDepth 100000 in
/-- An item that is final is cut off its array when the length is set. -/
theorem final_item_cut_off :
    ∃ m, trial ("var a = [1]; Object.defineProperty(a, 0, {configurable: false}); " ++
        "a.length = 0;") 34 = some m ∧ LiveAlong ⟨103⟩ m (turns 2) ∧
      m.hasFinal ⟨103⟩ "0" = true ∧
      ((m.afterDeeds (turns 2)).heap.object? ⟨103⟩).isSome = true ∧
      (m.afterDeeds (turns 2)).hasFinal ⟨103⟩ "0" = false := by
  have hchecks : (trial ("var a = [1]; Object.defineProperty(a, 0, {configurable: false}); " ++
      "a.length = 0;") 34).any (fun m => decide (LiveAlong ⟨103⟩ m (turns 2) ∧
        m.hasFinal ⟨103⟩ "0" = true ∧
        ((m.afterDeeds (turns 2)).heap.object? ⟨103⟩).isSome = true ∧
        (m.afterDeeds (turns 2)).hasFinal ⟨103⟩ "0" = false)) = true := by
    decide +kernel
  obtain ⟨m, hm, hchecks⟩ := (Option.any_eq_true _ _).1 hchecks
  exact ⟨m, hm, of_decide_eq_true hchecks⟩

end Machine

end ScriptMachine
