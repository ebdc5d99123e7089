import ScriptMachine.Proofs.Beginning
import ScriptMachine.Proofs.Enumeration.Keys
import ScriptMachine.Proofs.Evaluation.Story

/-!
# The keys that a for-in loop assigns

A for-in loop lists its keys once, when its right side is evaluated. Before each round it looks at
the keys that are left, passes over those that the object does not have any more and assigns the
first that it still has. What the body does in between only matters by what the object has then.
-/

namespace ScriptMachine

open Exec Machine Stack
open ScriptMachine.Tree (NodeId)

namespace Machine

variable {m : Machine} {v : Value} {actor : Option Owner}

theorem chainKeys_restacked (m : Machine) (thread : ThreadId) (g : Stack → Stack)
    (actor : Option Owner) (fuel : Nat) (start : Option ObjectId) (seen keys : List String) :
    (m.restacked thread g).chainKeys actor fuel start seen keys =
      m.chainKeys actor fuel start seen keys := by
  induction fuel generalizing start seen keys with
  | zero => rfl
  | succ fuel ih =>
    cases start with
    | none => rfl
    | some id =>
      simp only [chainKeys, ih]
      rfl

/-- The keys that are listed do not depend on the stacks. -/
theorem forInKeys_restacked (m : Machine) (thread : ThreadId) (g : Stack → Stack) (v : Value)
    (actor : Option Owner) : (m.restacked thread g).forInKeys v actor = m.forInKeys v actor := by
  rw [forInKeys_eq, forInKeys_eq]
  simp only [chainKeys_restacked]
  cases v <;> rfl

/-- A key is present: where an object is enumerated, that or one behind it has it. -/
def Present (m : Machine) (v : Value) (key : String) : Prop :=
  ∀ id, v = .object id → m.heap.Has key id

theorem nextKey_cons_eq_ok {key : String} {left : List String} {found : Option (String × Nat)}
    (h : nextKey m v actor (key :: left) = .ok found) :
    m.Present v key ∧ found = some (key, 1) ∨ ¬ m.Present v key ∧
      ∃ later, nextKey m v actor left = .ok later ∧ found = later.map fun e => (e.1, e.2 + 1) := by
  have hprimitive (hv : ∀ id, v ≠ .object id) : m.Present v key := fun id hid => absurd hid (hv id)
  rw [nextKey.eq_def] at h
  cases v with
  | object id =>
    obtain ⟨present, hpresent, h⟩ := bind_reading_eq_ok_iff.1 h
    have hiff : m.Present (.object id) key ↔ present = true := by
      rw [← has_iff_of_hasProperty hpresent]
      constructor
      · exact fun hkey => hkey id rfl
      · rintro hkey _ ⟨⟩
        exact hkey
    cases present with
    | true =>
      cases h
      exact .inl ⟨hiff.2 rfl, rfl⟩
    | false =>
      obtain ⟨later, hlater, h⟩ := bind_reading_eq_ok_iff.1 h
      cases h
      exact .inr ⟨fun hkey => Bool.false_ne_true (hiff.1 hkey), later, hlater, rfl⟩
  | _ =>
    cases h
    exact .inl ⟨hprimitive (by simp), rfl⟩

/-- The next key is the first that is present. -/
theorem nextKey_eq_ok {left : List String} {found : Option (String × Nat)}
    (h : nextKey m v actor left = .ok found) :
    found = none ∧ (∀ k ∈ left, ¬ m.Present v k) ∨
      ∃ missing key later, found = some (key, missing.length + 1) ∧
        left = missing ++ key :: later ∧ (∀ k ∈ missing, ¬ m.Present v k) ∧ m.Present v key := by
  induction left generalizing found with
  | nil =>
    cases h
    exact .inl ⟨rfl, fun k hk => absurd hk List.not_mem_nil⟩
  | cons key left ih =>
    rcases nextKey_cons_eq_ok h with ⟨hkey, rfl⟩ | ⟨hnot, found, hfound, rfl⟩
    · exact .inr ⟨[], key, left, rfl, rfl, fun k hk => absurd hk List.not_mem_nil, hkey⟩
    · rcases ih hfound with ⟨rfl, habsent⟩ | ⟨missing, k, later, rfl, rfl, habsent, hk⟩
      · exact .inl ⟨rfl, List.forall_mem_cons.2 ⟨hnot, habsent⟩⟩
      · exact .inr ⟨key :: missing, k, later, rfl, rfl,
          List.forall_mem_cons.2 ⟨hnot, habsent⟩, hk⟩

end Machine

/-- The evaluation of a for-in loop. -/
structure ForIn where
  thread : ThreadId
  /-- So many frames are below it. -/
  below : Nat
  node : NodeRef
  scope : ScopeId
  labels : List String
  left : NodeId
  right : NodeId
  body : NodeId

namespace ForIn

/-- The node that is evaluated. -/
abbrev evaluation (a : ForIn) : Evaluation where
  thread := a.thread
  below := a.below
  node := a.node
  kind := .forInStatement a.left a.right a.body

/-! ## What a loop does -/

/-- A part of the loop begins. -/
def enters (a : ForIn) (n : NodeId) : Seen := .pushed (.ofNode { a.node with node := n } a.scope)

/-- The left side begins, where it is a place rather than a variable. -/
def aims (a : ForIn) : Seen :=
  .pushed { Frame.ofNode { a.node with node := a.left } a.scope with wantRef := true }

/-- What the left side names: a variable, or nothing but a place. -/
def Names (a : ForIn) (m : Machine) (name : Option String) : Prop :=
  ∃ p, m.heap.program? a.node.program = some p ∧ loopVariable p a.left = .ok name

/-- The keys of a value are listed for the owner of the loop. There are none of a value that is
`undefined` or `null`. -/
def Lists (a : ForIn) (m : Machine) (v : Value) (keys : List String) : Prop :=
  ∃ actor, m.ActsAs a.scope actor ∧
    (if v.isNullish then keys = [] else m.forInKeys v actor = .ok keys)

/-- The loop does something to the heap in the turn that comes next. -/
def Does (a : ForIn) (natives : Natives) (m : Machine) (x : Exec Unit) : Prop :=
  ∃ f rest step m₁ m₂, m.frames a.thread = f :: rest ∧
    stepOf natives a.thread f m = .ok step m₂ ∧ m₁.heap = m.heap ∧ x m₁ = .ok () m₂

/-- How far a loop is. -/
inductive Stage where
  | start
  /-- The right side is evaluated. -/
  | right
  /-- The right side has come to a value. -/
  | subject (v : Value)
  /-- These keys are left. -/
  | next (v : Value) (keys : List String)
  /-- The body is executed for the key that was assigned last. -/
  | body (v : Value) (keys : List String)
  /-- The left side is evaluated, for a key. -/
  | target (v : Value) (keys : List String) (key : String)
  /-- The left side has come to a place. -/
  | placed (v : Value) (keys : List String) (key : String) (place : Reference)
  /-- The left side has come to no place, and there is nothing to go on with. -/
  | astray
  | gone
  deriving DecidableEq

/-- The right side comes to a value. -/
inductive Yields : Seen → Value → Prop where
  | handed (v : Value) : Yields (.handed v) v
  | caught {c : Completion} (hkind : c.kind = .continue) : Yields (.caught c) .undefined

/-- What is above the loop comes to an end with which the loop goes on. -/
inductive GoesOn : Seen → Prop where
  | handed (v : Value) : GoesOn (.handed v)
  | freed : GoesOn .freed
  | caught {c : Completion} (hkind : c.kind = .continue) : GoesOn (.caught c)

/-- The loop ends before its time. -/
inductive Abrupt : Seen → Prop where
  | raised {c : Completion} (hthrow : c.kind = .throw) : Abrupt (.raised c)
  | dropped (c : Completion) : Abrupt (.dropped c)
  | claimed {c : Completion} (hkind : c.kind = .break) : Abrupt (.claimed c)

/-- What leads a loop from one stage to the next. Each round assigns the first of the keys left that
is present when its turn comes; keys before it are passed over. -/
inductive Turn (a : ForIn) (natives : Natives) : Stage → Machine → Seen → Stage → Prop where
  | begins {m : Machine} : Turn a natives .start m (a.enters a.right) .right
  | evaluated {m : Machine} {e : Seen} {v : Value} (h : Yields e v) :
    Turn a natives .right m e (.subject v)
  | listed {m : Machine} {v : Value} {keys : List String} (h : a.Lists m v keys) :
    Turn a natives (.subject v) m .stayed (.next v keys)
  | ends {m : Machine} {v : Value} {keys : List String} (habsent : ∀ k ∈ keys, ¬ m.Present v k) :
    Turn a natives (.next v keys) m (.done .undefined) .gone
  /-- The variable is assigned, and the body begins. -/
  | binds {m : Machine} {v : Value} {missing later : List String} {key name : String}
    (habsent : ∀ k ∈ missing, ¬ m.Present v k) (hpresent : m.Present v key)
    (hname : a.Names m (some name))
    (hdoes : a.Does natives m (setBinding a.scope name (.string key))) :
    Turn a natives (.next v (missing ++ key :: later)) m (a.enters a.body) (.body v later)
  | aims {m : Machine} {v : Value} {missing later : List String} {key : String}
    (habsent : ∀ k ∈ missing, ¬ m.Present v k) (hpresent : m.Present v key)
    (hname : a.Names m none) :
    Turn a natives (.next v (missing ++ key :: later)) m a.aims (.target v later key)
  | placed {m : Machine} {v : Value} {keys : List String} {key : String} (place : Reference) :
    Turn a natives (.target v keys key) m (.referred place) (.placed v keys key place)
  /-- The place is assigned, and the body begins. -/
  | writes {m : Machine} {v : Value} {keys : List String} {key : String} {place : Reference}
    (hdoes : a.Does natives m (writeReference place (.string key) a.scope)) :
    Turn a natives (.placed v keys key place) m (a.enters a.body) (.body v keys)
  | goesOn {m : Machine} {e : Seen} {v : Value} {keys : List String} (h : GoesOn e) :
    Turn a natives (.body v keys) m e (.next v keys)
  | strays {m : Machine} {e : Seen} {v : Value} {keys : List String} {key : String} (h : GoesOn e) :
    Turn a natives (.target v keys key) m e .astray
  | abrupt {s : Stage} {m : Machine} {e : Seen} (hs : s ≠ .gone) (h : Abrupt e) :
    Turn a natives s m e .gone

/-! ## The frame of a loop -/

/-- The frame once the loop has begun. -/
structure Running (a : ForIn) (step : Nat) (reference : Option Reference) (f : Frame) : Prop where
  scope : f.scope = a.scope
  labels : f.labels = a.labels
  isLoop : f.isLoop = true
  step : f.step = step
  reference : f.reference = reference

/-- A frame evaluates a part of the loop. -/
structure Serves (a : ForIn) (n : NodeId) (wantRef : Bool) (x : Frame) : Prop where
  node : x.node = some { a.node with node := n }
  wantRef : x.wantRef = wantRef

/-- The frame is on top of the stack. -/
inductive Top (a : ForIn) : Stage → Frame → Prop where
  | start {f : Frame} (hf : f = { Frame.ofNode a.node a.scope with labels := a.labels }) :
    Top a .start f
  | subject {f : Frame} (hrunning : a.Running 1 none f) (hinfo : f.info = .none) :
    Top a (.subject f.value) f
  | next {f : Frame} {keys : List String} {index : Nat} {v : Value} (hrunning : a.Running 2 none f)
    (hinfo : f.info = .forIn keys index v) : Top a (.next v (keys.drop index)) f
  | placed {f : Frame} {keys : List String} {index : Nat} {v : Value} {key : String}
    {place : Reference} (hrunning : a.Running 3 (some place) f) (hvalue : f.value = .string key)
    (hinfo : f.info = .forIn keys index v) : Top a (.placed v (keys.drop index) key place) f
  | astray {f : Frame} {keys : List String} {index : Nat} {v : Value}
    (hrunning : a.Running 3 none f) (hinfo : f.info = .forIn keys index v) : Top a .astray f

/-- The frame is below another. -/
inductive Under (a : ForIn) : Stage → Frame → Frame → Prop where
  | right {f x : Frame} (hrunning : a.Running 1 none f) (hvalue : f.value = .undefined)
    (hinfo : f.info = .none) (hx : a.Serves a.right false x) : Under a .right f x
  | body {f x : Frame} {keys : List String} {index : Nat} {v : Value}
    (hrunning : a.Running 2 none f) (hinfo : f.info = .forIn keys index v)
    (hx : a.Serves a.body false x) : Under a (.body v (keys.drop index)) f x
  | target {f x : Frame} {keys : List String} {index : Nat} {v : Value} {key : String}
    (hrunning : a.Running 3 none f) (hvalue : f.value = .string key)
    (hinfo : f.info = .forIn keys index v) (hx : a.Serves a.left true x) :
    Under a (.target v (keys.drop index) key) f x

/-- The course of a loop. -/
def course (a : ForIn) (natives : Natives) : Course where
  Stage := Stage
  start := .start
  gone := .gone
  turn := a.Turn natives
  top := a.Top
  under := a.Under

/-! ## Steps -/

variable {a : ForIn} {natives : Natives} {origin m m₂ : Machine} {f x y : Frame}
  {rest : List Frame} {s : Stage} {c : Completion}

/-- The turn that comes next does what the step does. -/
theorem does_of_run {step : Step} {m₁ : Machine} {x : Exec Unit}
    (hon : a.evaluation.On origin m [] f rest) (hrun : stepOf natives a.thread f m = .ok step m₂)
    (hheap : m₁.heap = m.heap) (hx : x m₁ = .ok () m₂) : a.Does natives m x :=
  ⟨f, rest, step, m₁, m₂, hon.frames, hrun, hheap, hx⟩

/-- A part of the loop that begins leads to a stage, and to the end where there is no room for it. -/
theorem onward_push {s s' : Stage} {g child : Frame} (hs : s ≠ .gone)
    (hturn : a.Turn natives s m (.pushed child) s') (hunder : a.Under s' g child) :
    (a.course natives).Onward s m (.push g child) :=
  ⟨⟨s', hturn, hunder⟩, fun c _ => Turn.abrupt hs (.dropped c)⟩

theorem onward_stepForInKey {step : Step} {keys : List String} {index : Nat} {v : Value}
    {p : Tree.Program} {m₁ : Machine} (hon : a.evaluation.On origin m [] f rest)
    (hstep : stepOf natives a.thread f m = .ok step m₂) (hrunning : a.Running 2 none f)
    (hinfo : f.info = .forIn keys index v) (hp : m.heap.program? a.node.program = some p)
    (hheap : m₁.heap = m.heap)
    (hrun : stepForInKey f a.node p a.left a.body m₁ = .ok step m₂) :
    (a.course natives).Onward (.next v (keys.drop index)) m step := by
  have hpresent (k : String) : m₁.Present v k ↔ m.Present v k := by
    unfold Present
    rw [hheap]
  unfold stepForInKey at hrun
  rw [hinfo] at hrun
  obtain ⟨actor, m₁', hactor, hrun⟩ := bind_eq_ok_iff.1 hrun
  unfold scopeOwner heapQuery at hactor
  obtain ⟨-, rfl⟩ := query_eq_ok_iff.1 hactor
  obtain ⟨found, m₁', hquery, hrun⟩ := bind_eq_ok_iff.1 hrun
  obtain ⟨hfound, rfl⟩ := query_eq_ok_iff.1 hquery
  rcases nextKey_eq_ok hfound with
    ⟨rfl, habsent⟩ | ⟨missing, key, later, rfl, hleft, habsent, hkey⟩
  · cases hrun
    exact .ends fun k hk hyes => habsent k hk ((hpresent k).2 hyes)
  · have habsent' : ∀ k ∈ missing, ¬ m.Present v k :=
      fun k hk hyes => habsent k hk ((hpresent k).2 hyes)
    have hlater : keys.drop (index + (missing.length + 1)) = later := by
      rw [← List.drop_drop, hleft, ← List.drop_drop, List.drop_left]
      rfl
    obtain ⟨name, m₁', hquery, hrun⟩ := bind_eq_ok_iff.1 hrun
    obtain ⟨hname, rfl⟩ := query_eq_ok_iff.1 hquery
    have hnames : a.Names m name := ⟨p, hp, hname⟩
    rw [hleft]
    cases name with
    | some name =>
      obtain ⟨⟨⟩, m₁', hset, hrun⟩ := bind_eq_ok_iff.1 hrun
      obtain ⟨rfl, rfl⟩ := pure_eq_ok_iff.1 hrun
      rw [hrunning.scope] at hset
      apply onward_push (by simp)
      · rw [hrunning.scope]
        exact .binds habsent' ((hpresent key).1 hkey) hnames (does_of_run hon hstep hheap hset)
      · rw [← hlater]
        exact .body ⟨hrunning.scope, hrunning.labels, hrunning.isLoop, hrunning.step,
          hrunning.reference⟩ rfl ⟨rfl, rfl⟩
    | none =>
      obtain ⟨rfl, rfl⟩ := pure_eq_ok_iff.1 hrun
      apply onward_push (by simp)
      · rw [hrunning.scope]
        exact .aims habsent' ((hpresent key).1 hkey) hnames
      · rw [← hlater]
        exact .target ⟨hrunning.scope, hrunning.labels, hrunning.isLoop, rfl,
          hrunning.reference⟩ rfl rfl ⟨rfl, rfl⟩

/-- Looking at the clock leaves the heap as it is. -/
theorem heap_of_checkTimeLimit {thread : ThreadId} {m m' : Machine}
    (h : checkTimeLimit thread m = .ok () m') : m'.heap = m.heap := by
  unfold checkTimeLimit at h
  obtain ⟨time, m₁, hnow, h⟩ := bind_eq_ok_iff.1 h
  obtain ⟨m₂, m₃, hget, h⟩ := bind_eq_ok_iff.1 h
  cases hnow
  cases hget
  generalize hfound : thread? _ thread = found at h
  cases found with
  | none => cases h
  | some t =>
    dsimp only at h
    cases hlimit : t.timeLimit with
    | none =>
      rw [hlimit] at h
      cases h
      rfl
    | some limit =>
      rw [hlimit] at h
      dsimp only at h
      split at h
      · obtain ⟨⟨⟩, m₄, -, h⟩ := bind_eq_ok_iff.1 h
        cases h
      · cases h
        rfl

/-- A step of the loop leads to the next stage. -/
theorem onward_step {step : Step} {p : Tree.Program} (hon : a.evaluation.On origin m [] f rest)
    (hp : m.heap.program? a.node.program = some p) (htop : a.Top s f)
    (hstep : stepOf natives a.thread f m = .ok step m₂)
    (hrun : stepForIn a.thread f a.node p a.left a.right a.body
      (m.restacked a.thread (·.dropTop)) = .ok step m₂) :
    (a.course natives).Onward s m step := by
  unfold stepForIn at hrun
  cases htop with
  | start hf =>
    subst hf
    cases hrun
    exact onward_push (by simp) .begins (.right ⟨rfl, rfl, rfl, rfl, rfl⟩ rfl rfl ⟨rfl, rfl⟩)
  | subject hrunning hinfo =>
    rw [hrunning.step] at hrun
    dsimp only at hrun
    obtain ⟨actor, m₁, hquery, hrun⟩ := bind_eq_ok_iff.1 hrun
    unfold scopeOwner heapQuery at hquery
    obtain ⟨hactor, rfl⟩ := query_eq_ok_iff.1 hquery
    have hacts : m.ActsAs a.scope actor := hrunning.scope ▸ actsAs_of_scopeOwner hactor
    have hlisted {keys : List String} (hlists : a.Lists m f.value keys) :
        (a.course natives).Onward (.subject f.value) m
          (.stay { f.clearValue with info := .forIn keys 0 f.value, step := 2 }) := by
      refine ⟨.next f.value keys, .listed hlists, ?_⟩
      change a.Top (.next f.value (keys.drop 0)) _
      exact .next ⟨hrunning.scope, hrunning.labels, hrunning.isLoop, rfl, hrunning.reference⟩ rfl
    split at hrun
    · rename_i hnullish
      obtain ⟨rfl, -⟩ := pure_eq_ok_iff.1 hrun
      exact hlisted ⟨actor, hacts, by rw [if_pos hnullish]⟩
    · rename_i hnullish
      obtain ⟨keys, m₁, hquery, hrun⟩ := bind_eq_ok_iff.1 hrun
      obtain ⟨rfl, -⟩ := pure_eq_ok_iff.1 hrun
      refine hlisted ⟨actor, hacts, ?_⟩
      rw [if_neg hnullish]
      exact (forInKeys_restacked m _ _ f.value actor).symm.trans (query_eq_ok_iff.1 hquery).1
  | next hrunning hinfo =>
    rw [hrunning.step] at hrun
    obtain ⟨⟨⟩, m₁, hclock, hrun⟩ := bind_eq_ok_iff.1 hrun
    have hheap : m₁.heap = (m.restacked a.thread (·.dropTop)).heap :=
      heap_of_checkTimeLimit hclock
    exact onward_stepForInKey hon hstep hrunning hinfo hp hheap hrun
  | placed hrunning hvalue hinfo =>
    rw [hrunning.step] at hrun
    dsimp only at hrun
    unfold takeReference at hrun
    rw [hrunning.reference, hvalue, hrunning.scope] at hrun
    obtain ⟨place', m₁, hplace, hrun⟩ := bind_eq_ok_iff.1 hrun
    obtain ⟨rfl, rfl⟩ := pure_eq_ok_iff.1 hplace
    obtain ⟨⟨⟩, m₁, hwrite, hrun⟩ := bind_eq_ok_iff.1 hrun
    obtain ⟨rfl, rfl⟩ := pure_eq_ok_iff.1 hrun
    apply onward_push (by simp)
    · change a.Turn natives _ m (.pushed (.ofNode { a.node with node := a.body } f.scope)) _
      rw [hrunning.scope]
      have hheap : (m.restacked a.thread (·.dropTop)).heap = m.heap := rfl
      exact .writes (does_of_run hon hstep hheap hwrite)
    · exact .body ⟨hrunning.scope, hrunning.labels, hrunning.isLoop, rfl, rfl⟩ hinfo ⟨rfl, rfl⟩
  | astray hrunning hinfo =>
    rw [hrunning.step] at hrun
    dsimp only at hrun
    unfold takeReference at hrun
    rw [hrunning.reference] at hrun
    obtain ⟨place, m₁, hplace, -⟩ := bind_eq_ok_iff.1 hrun
    cases hplace

/-! ## What is above -/

/-- What is above may go on, as long as it serves for the same node. -/
theorem Under.replace (h : a.Under s f x) (hnode : y.node = x.node)
    (hwant : y.wantRef = x.wantRef) : a.Under s f y := by
  have hy {n : NodeId} {wantRef : Bool} (hx : a.Serves n wantRef x) : a.Serves n wantRef y :=
    ⟨hnode.trans hx.node, hwant.trans hx.wantRef⟩
  cases h with
  | right hrunning hvalue hinfo hx => exact .right hrunning hvalue hinfo (hy hx)
  | body hrunning hinfo hx => exact .body hrunning hinfo (hy hx)
  | target hrunning hvalue hinfo hx => exact .target hrunning hvalue hinfo (hy hx)

theorem Running.with_value {step : Nat} {reference : Option Reference}
    (h : a.Running step reference f) (v : Value) :
    a.Running step reference { f with value := v } :=
  ⟨h.scope, h.labels, h.isLoop, h.step, h.reference⟩

/-- What is above comes to an end with which the loop goes on. -/
theorem Under.goesOn (h : a.Under s f x) (m : Machine) {e : Seen} (he : GoesOn e) {v : Value}
    (hyields : s = .right → f.value = .undefined → a.Serves a.right false x → Yields e v) :
    ∃ s', a.Turn natives s m e s' ∧ a.Top s' { f with value := v } := by
  cases h with
  | right hrunning hvalue hinfo hx =>
    exact ⟨_, .evaluated (hyields rfl hvalue hx), .subject (hrunning.with_value v) hinfo⟩
  | body hrunning hinfo hx => exact ⟨_, .goesOn he, .next (hrunning.with_value v) hinfo⟩
  | target hrunning hvalue hinfo hx =>
    exact ⟨_, .strays he, .astray (hrunning.with_value v) hinfo⟩

/-- The right side is an expression. -/
theorem expression_right (loop : Bool) (place : Tree.Place) (parts : List (Tree.Place × NodeId))
    (hparts : a.evaluation.kind.parts? loop place = some parts) :
    (.expression, a.right) ∈ parts := by
  cases place with
  | statement scope =>
    cases hparts
    simp
  | program => cases hparts
  | expression => cases hparts
  | head scope => cases hparts

/-- A completion ends the loop, or is a `continue` with which it goes on. -/
theorem met_of_under (hunder : a.Under s f x) (m : Machine) (c : Completion) :
    (a.course natives).Met s m c (meetPlain f c) := by
  have hs : s ≠ .gone := by cases hunder <;> simp
  have hinfo : ∀ call, f.info ≠ .call call := by
    intro call hcall
    cases hunder with
    | right _ _ hinfo _ => cases hinfo.symm.trans hcall
    | body _ hinfo _ => cases hinfo.symm.trans hcall
    | target _ _ hinfo _ => cases hinfo.symm.trans hcall
  have hdrop : (a.course natives).Met s m c .drop := Turn.abrupt hs (.dropped c)
  unfold meetPlain
  cases hkind : c.kind with
  | normal => exact hdrop
  | throw => exact hdrop
  | «return» =>
    dsimp only
    split
    · rename_i call hcall
      exact absurd hcall (hinfo call)
    · exact hdrop
  | «break» =>
    dsimp only
    split
    · exact Turn.abrupt hs (.claimed hkind)
    · exact hdrop
  | «continue» =>
    dsimp only
    split
    · refine hunder.goesOn m (.caught hkind) fun _ hvalue _ => ?_
      rw [hvalue]
      exact .caught hkind
    · exact hdrop

/-! ## The course is that of the loop -/

theorem truthful_course (natives : Natives) (a : ForIn) :
    (a.course natives).Truthful natives a.evaluation where
  gone_top := by
    intro f htop
    cases (htop : a.Top .gone f)
  gone_under := by
    intro f x hunder
    cases (hunder : a.Under .gone f x)
  steady_top := by
    intro s f htop
    cases (htop : a.Top s f) with
    | start hf => rw [hf]; rfl
    | subject _ hinfo => rw [hinfo]; rfl
    | next _ hinfo => rw [hinfo]; rfl
    | placed _ _ hinfo => rw [hinfo]; rfl
    | astray _ hinfo => rw [hinfo]; rfl
  steady_under := by
    intro s f x hunder
    cases (hunder : a.Under s f x) with
    | right _ _ hinfo _ => rw [hinfo]; rfl
    | body _ hinfo _ => rw [hinfo]; rfl
    | target _ _ hinfo _ => rw [hinfo]; rfl
  under_stays := fun hunder hy => Under.replace hunder hy.agrees.node hy.agrees.wantRef
  under_follows := by
    intro origin m up s f x y rest hon hunder hy
    obtain ⟨hnode, hwant⟩ := hy.serves hon.beating.orderly.tidy
    exact Under.replace hunder hnode hwant
  step := by
    intro origin m s f rest step m₂ hon htop hrun
    obtain ⟨p, hp, hstep⟩ := hon.stepOf_run natives
    exact onward_step hon hp htop hrun (hstep.symm.trans hrun)
  fail := by
    intro origin m s f rest hon htop hthrows c hthrow
    refine Turn.abrupt ?_ (.raised hthrow)
    rintro rfl
    cases (htop : a.Top .gone f)
  handed := fun _ hunder _ => Under.goesOn hunder _ (.handed _) fun _ _ _ => .handed _
  referred := by
    intro origin m s f x rest r m₂ hon hunder hwant hrun
    cases (hunder : a.Under s f x) with
    | right _ _ _ hx => cases hx.wantRef.symm.trans hwant
    | body _ _ hx => cases hx.wantRef.symm.trans hwant
    | target hrunning hvalue hinfo hx =>
      exact ⟨_, .placed r, .placed ⟨hrunning.scope, hrunning.labels, hrunning.isLoop,
        hrunning.step, rfl⟩ hvalue hinfo⟩
  freed := by
    intro origin m up s f x rest hon hunder hstops
    refine Under.goesOn hunder m .freed fun _ _ hx => ?_
    refine absurd hstops (hon.not_mayStop ?_ expression_right hx.node)
    intro label body hkind
    cases hkind
  meets := fun m c hunder => met_of_under hunder m c

/-! ## Whole loops -/

/-- The frame of the loop has just been put on the stack. -/
structure Fresh (a : ForIn) (m : Machine) : Prop where
  known : a.evaluation.Known m.heap
  pushed : ∃ rest, rest.length = a.below ∧ m.frames a.thread =
    { Frame.ofNode a.node a.scope with labels := a.labels } :: rest

/-- Unless the thread is ended, all that is told of a for-in loop leads from one of its stages to the
next, and to the last when it leaves the stack. So whatever the body does, the keys that are assigned
are those of the list that are present when their turn comes, in order. What is listed of a value
whose chain of prototypes comes to an end is each name once that the first object to have it has
enumerable, given that the policy lets the owner of the loop enumerate all of them. -/
theorem keys_assigned_in_order {natives : Natives} (hcivil : natives.Each (Civil True))
    (hmoderate : natives.Each Moderate) {k m : Machine} (hk : Played natives k) {a : ForIn}
    (hfresh : a.Fresh k) {log : List (Machine × Seen)}
    (hlog : Told natives a.thread a.below (fun m => (a.evaluation.seen natives m).toldAt m) k log m)
    (hcut : ∀ e ∈ log, e.2 ≠ .cut) :
    (∃ s, Passes (a.Turn natives) .start log s ∧
      (s = .gone ↔ (m.frames a.thread).length ≤ a.below)) ∧
    ∀ (n : Machine) (v : Value) (actor : Option Owner) (start : Option ObjectId)
      (objects : List Object), n.chainStart v = .ok start → n.heap.Protos start objects →
      ((∃ keys, n.forInKeys v actor = .ok keys) ↔
        ∀ o ∈ objects, n.authorizeOwner actor o.owner .enumerate = .ok ()) ∧
      ∀ keys, n.forInKeys v actor = .ok keys → Machine.Lists (unitIndices v) objects keys := by
  constructor
  · obtain ⟨rest, hbelow, hframes⟩ := hfresh.pushed
    exact Course.passes_of_told hcivil hmoderate (truthful_course natives a) hk hfresh.known hframes
      hbelow rfl (Top.start rfl) hlog hcut
  · exact fun n v actor start objects => forInKeys_lists

/-! ## A key that the body deletes -/

/-- The loop of `var o = { a: 1, b: 2 }; for (var k in o) delete o.b;`. -/
def deleting : ForIn where
  thread := ⟨1⟩
  below := 1
  node := ⟨⟨0⟩, 12⟩
  scope := ⟨0⟩
  labels := []
  left := 6
  right := 7
  body := 11

/-- The host runs the program up to its loop. -/
def deletingBegun : List Request :=
  .spawn "var o = \x7b a: 1, b: 2 \x7d; for (var k in o) delete o.b;" :: List.replicate 12 .step

/-- What is seen of the loop: it lists two keys, and there is one round. -/
def deletingSeen : List Seen :=
  [deleting.enters 7, .handed (.object ⟨103⟩), .stayed, deleting.enters 11, .handed (.bool true),
    .done .undefined]

set_option maxRecDepth 100000 in
/-- The first key is assigned. The second is gone when its turn comes, and the object would be listed
without it from then on. -/
theorem keys_assigned_in_order_deleting : ∃ k m log, Played Builtin.natives k ∧ deleting.Fresh k ∧
    Told Builtin.natives ⟨1⟩ 1 (fun m => (deleting.evaluation.seen Builtin.natives m).toldAt m) k
      log m ∧
    log.map (·.2) = deletingSeen ∧ Passes (deleting.Turn Builtin.natives) .start log .gone ∧
    ∃ actor o base, m.heap.Protos (some ⟨103⟩) [o, base] ∧
      m.forInKeys (.object ⟨103⟩) actor = .ok ["a"] ∧ Machine.Lists [] [o, base] ["a"] := by
  have hchecks : (recital Builtin.natives deletingBegun ⟨1⟩ 1
      (fun m => (deleting.evaluation.seen Builtin.natives m).toldAt m) 12).any (fun result =>
        (result.1.heap.program? ⟨0⟩).any fun p =>
          (result.2.2.heap.object? ⟨103⟩).any fun o =>
            (o.proto.bind result.2.2.heap.object?).any fun base => decide
              (p.kind? 12 = some deleting.evaluation.kind ∧
                (result.1.frames ⟨1⟩).head? = some (.ofNode ⟨⟨0⟩, 12⟩ ⟨0⟩) ∧
                (result.1.frames ⟨1⟩).length = 2 ∧ result.2.1.map (·.2) = deletingSeen ∧
                (result.2.2.frames ⟨1⟩).length ≤ 1 ∧ base.proto = none ∧
                (result.2.2.forInKeys (.object ⟨103⟩) result.2.2.rootOwner).toOption =
                  some ["a"])) = true := by
    rw [recital, hosted_eq]
    decide +kernel
  obtain ⟨⟨k, log, m⟩, hrecital, hchecks⟩ := (Option.any_eq_true _ _).1 hchecks
  obtain ⟨p, hp, hchecks⟩ := (Option.any_eq_true _ _).1 hchecks
  obtain ⟨o, ho, hchecks⟩ := (Option.any_eq_true _ _).1 hchecks
  obtain ⟨base, hbase, hchecks⟩ := (Option.any_eq_true _ _).1 hchecks
  obtain ⟨hkind, hhead, hlength, hlog, hgone, hlast, hkeys⟩ := of_decide_eq_true hchecks
  dsimp only at hhead hlength hlog hgone hkeys
  obtain ⟨hplayed, htold⟩ := told_of_recital Builtin.each_civil hrecital
  have hfresh : deleting.Fresh k := by
    obtain ⟨rest, hframes⟩ := List.head?_eq_some_iff.1 hhead
    refine ⟨⟨p, hp, hkind⟩, rest, ?_, hframes⟩
    rw [hframes] at hlength
    exact Nat.succ.inj hlength
  have hcut : ∀ e ∈ log, e.2 ≠ .cut := by
    intro e he hcut
    have hmem : e.2 ∈ deletingSeen := hlog ▸ List.mem_map_of_mem he
    rw [hcut] at hmem
    revert hmem
    decide
  have hprotos : m.heap.Protos (some ⟨103⟩) [o, base] := by
    obtain ⟨id, hproto, hbase⟩ := Option.bind_eq_some_iff.1 hbase
    refine .cons ho ?_
    rw [hproto]
    refine .cons hbase ?_
    rw [hlast]
    exact .nil
  have hlisted : m.forInKeys (.object ⟨103⟩) m.rootOwner = .ok ["a"] := by
    cases hrun : m.forInKeys (.object ⟨103⟩) m.rootOwner with
    | error e =>
      rw [hrun] at hkeys
      cases hkeys
    | ok keys =>
      rw [hrun] at hkeys
      rw [Option.some.inj hkeys]
  obtain ⟨⟨s, hs, hend⟩, hlists⟩ :=
    keys_assigned_in_order Builtin.each_civil Builtin.each_moderate hplayed hfresh htold hcut
  obtain rfl := hend.2 hgone
  exact ⟨k, m, log, hplayed, hfresh, htold, hlog, hs, m.rootOwner, o, base, hprotos, hlisted,
    (hlists m (.object ⟨103⟩) m.rootOwner (some ⟨103⟩) [o, base] rfl hprotos).2 _ hlisted⟩

end ForIn

end ScriptMachine
