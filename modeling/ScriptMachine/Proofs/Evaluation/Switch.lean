import ScriptMachine.Proofs.Beginning
import ScriptMachine.Proofs.Evaluation.Story
import ScriptMachine.Proofs.Fault

/-!
# What a switch statement evaluates

The tests of a switch are evaluated in source order up to the first that is strictly equal to the
discriminant. Then the statements of its clause and of all later ones are executed, each once. A jump or
a throw ends this anywhere.
-/

namespace ScriptMachine

open Exec Machine Stack
open Tree (NodeId SwitchCase)

/-! ## Clauses -/

namespace Switch

/-- The statements of some clauses. -/
def body (clauses : List SwitchCase) : List NodeId := clauses.flatMap (·.consequent)

/-- The tests in source order, each with the statements of its clause and of all later ones. The
default clause has none. -/
def tests : List SwitchCase → List (NodeId × List NodeId)
  | [] => []
  | c :: later =>
    match c.test with
    | some test => (test, body (c :: later)) :: tests later
    | none => tests later

/-- The statements of the default clause and of all later ones, if there is a default clause. -/
def fallback : List SwitchCase → List NodeId
  | [] => []
  | c :: later => if c.test.isNone then body (c :: later) else fallback later

/-- The statements of some clauses but for the first few. -/
def remaining (statement : Nat) : List SwitchCase → List NodeId
  | [] => []
  | c :: later => c.consequent.drop statement ++ body later

theorem remaining_zero (clauses : List SwitchCase) : remaining 0 clauses = body clauses := by
  cases clauses <;> rfl

end Switch

/-- The evaluation of a switch statement. -/
structure Switch where
  thread : ThreadId
  /-- So many frames are below it. -/
  below : Nat
  node : NodeRef
  scope : ScopeId
  labels : List String
  discriminant : NodeId
  clauses : List SwitchCase

namespace Switch

/-- The node that is evaluated. -/
abbrev evaluation (a : Switch) : Evaluation where
  thread := a.thread
  below := a.below
  node := a.node
  kind := .switchStatement a.discriminant a.clauses

/-! ## What is told -/

/-- A test or a statement begins. -/
def enters (a : Switch) (n : NodeId) : Seen := .pushed (.ofNode { a.node with node := n } a.scope)

/-- A jump is one out of the switch: a `break` without a label or with one of its own. -/
def IsLeftBy (a : Switch) (c : Completion) : Prop :=
  c.kind = .break ∧ ∀ label, c.label = some label → label ∈ a.labels

/-- A completion ends the switch, with it or further out. -/
inductive Abrupt (a : Switch) : Seen → Prop where
  | claimed {c : Completion} (h : a.IsLeftBy c) : Abrupt a (.claimed c)
  | dropped {c : Completion} (h : ¬ a.IsLeftBy c) : Abrupt a (.dropped c)

/-- A statement comes to its end, by a jump that ends with it or otherwise. -/
inductive Ended : Seen → Prop where
  | handed (v : Value) : Ended (.handed v)
  | freed : Ended .freed

/-- What is told of statements that are executed one after the other. -/
inductive Executes (a : Switch) : List NodeId → List Seen → Prop where
  | done : Executes a [] [.done .undefined]
  | ended {n : NodeId} {nodes : List NodeId} {e : Seen} {log : List Seen} (hended : Ended e)
    (h : Executes a nodes log) : Executes a (n :: nodes) (a.enters n :: e :: log)
  | abrupt {n : NodeId} {nodes : List NodeId} {e : Seen} (h : a.Abrupt e) :
    Executes a (n :: nodes) [a.enters n, e]
  /-- There is no room on the stack for the statement. -/
  | crowded {n : NodeId} {nodes : List NodeId} {c : Completion} (hthrow : c.kind = .throw) :
    Executes a (n :: nodes) [.dropped c]

/-- What is told of tests that are evaluated until one is equal to the discriminant. -/
inductive Tests (a : Switch) (d : Value) : List (NodeId × List NodeId) → List Seen → Prop where
  | none {log : List Seen} (h : a.Executes (fallback a.clauses) log) : Tests a d [] log
  | equal {n : NodeId} {nodes : List NodeId} {later : List (NodeId × List NodeId)} {v : Value}
    {log : List Seen} (hequal : v.strictEquals d = true) (h : a.Executes nodes log) :
    Tests a d ((n, nodes) :: later) (a.enters n :: .handed v :: log)
  | unequal {n : NodeId} {nodes : List NodeId} {later : List (NodeId × List NodeId)} {v : Value}
    {log : List Seen} (hunequal : v.strictEquals d = false) (h : Tests a d later log) :
    Tests a d ((n, nodes) :: later) (a.enters n :: .handed v :: log)
  | abrupt {n : NodeId} {nodes : List NodeId} {later : List (NodeId × List NodeId)} {e : Seen}
    (h : a.Abrupt e) : Tests a d ((n, nodes) :: later) [a.enters n, e]
  | crowded {n : NodeId} {nodes : List NodeId} {later : List (NodeId × List NodeId)}
    {c : Completion} (hthrow : c.kind = .throw) : Tests a d ((n, nodes) :: later) [.dropped c]

/-- What is told of a switch from the time that its frame is pushed until it leaves the stack. -/
inductive Complete (a : Switch) : List Seen → Prop where
  | tested {d : Value} {log : List Seen} (h : a.Tests d (tests a.clauses) log) :
    Complete a (a.enters a.discriminant :: .handed d :: log)
  | abrupt {e : Seen} (h : a.Abrupt e) : Complete a [a.enters a.discriminant, e]
  | crowded {c : Completion} (hthrow : c.kind = .throw) : Complete a [.dropped c]

/-! ## How far the frame is -/

/-- The frame once the switch has begun. -/
structure Running (a : Switch) (f : Frame) : Prop where
  scope : f.scope = a.scope
  labels : f.labels = a.labels
  isSwitch : f.isSwitch = true
  isLoop : f.isLoop = false

/-- A frame evaluates a node for the switch. -/
structure Serves (a : Switch) (n : NodeId) (x : Frame) : Prop where
  node : x.node = some { a.node with node := n }
  wantRef : x.wantRef = false

/-- The frame is on top of the stack. -/
inductive Top (a : Switch) (log : List Seen) (f : Frame) : Prop where
  | fresh (hlog : log = []) (hf : f = { Frame.ofNode a.node a.scope with labels := a.labels })
  | discriminant (hrunning : a.Running f) (hstep : f.step = 1) (hinfo : f.info = .none)
    (h : ∀ later, a.Tests f.value (tests a.clauses) later → a.Complete (log ++ later))
  | test {d : Value} {clause statement : Nat} {matched : Bool} (hrunning : a.Running f)
    (hstep : f.step = 3) (hinfo : f.info = .switch d clause statement matched)
    (hequal : f.value.strictEquals d = true →
      ∀ later, a.Executes (body (a.clauses.drop clause)) later → a.Complete (log ++ later))
    (hunequal : f.value.strictEquals d = false →
      ∀ later, a.Tests d (tests (a.clauses.drop (clause + 1))) later → a.Complete (log ++ later))
  | statement {d : Value} {clause statement : Nat} {matched : Bool} (hrunning : a.Running f)
    (hstep : f.step = 4) (hinfo : f.info = .switch d clause statement matched)
    (h : ∀ later, a.Executes (remaining statement (a.clauses.drop clause)) later →
      a.Complete (log ++ later))

/-- The frame is below another. -/
inductive Under (a : Switch) (log : List Seen) (f x : Frame) : Prop where
  | discriminant (hrunning : a.Running f) (hstep : f.step = 1) (hinfo : f.info = .none)
    (hx : a.Serves a.discriminant x)
    (habrupt : ∀ e, a.Abrupt e → a.Complete (log ++ [e]))
    (h : ∀ v later, a.Tests v (tests a.clauses) later → a.Complete (log ++ .handed v :: later))
  | test {n : NodeId} {d : Value} {clause statement : Nat} {matched : Bool}
    (hrunning : a.Running f) (hstep : f.step = 3)
    (hinfo : f.info = .switch d clause statement matched) (hx : a.Serves n x)
    (hn : ∃ c ∈ a.clauses, c.test = some n)
    (habrupt : ∀ e, a.Abrupt e → a.Complete (log ++ [e]))
    (hequal : ∀ v : Value, v.strictEquals d = true → ∀ later,
      a.Executes (body (a.clauses.drop clause)) later → a.Complete (log ++ .handed v :: later))
    (hunequal : ∀ v : Value, v.strictEquals d = false → ∀ later,
      a.Tests d (tests (a.clauses.drop (clause + 1))) later →
        a.Complete (log ++ .handed v :: later))
  | statement {n : NodeId} {d : Value} {clause statement : Nat} {matched : Bool}
    (hrunning : a.Running f) (hstep : f.step = 4)
    (hinfo : f.info = .switch d clause statement matched) (hx : a.Serves n x)
    (habrupt : ∀ e, a.Abrupt e → a.Complete (log ++ [e]))
    (h : ∀ e, Ended e → ∀ later,
      a.Executes (remaining statement (a.clauses.drop clause)) later →
        a.Complete (log ++ e :: later))

/-- The story of a switch. -/
def story (a : Switch) : Story Seen where
  tell := fun _ seen => seen.told
  cut := (· = .cut)
  top := a.Top
  under := a.Under
  complete := a.Complete

/-! ## The next test and the next statement -/

section Clauses

variable {clauses : List SwitchCase} {clause : Nat} {c : SwitchCase} {n : NodeId}

theorem drop_of_getElem? (h : clauses[clause]? = some c) :
    clauses.drop clause = c :: clauses.drop (clause + 1) := by
  obtain ⟨hlt, rfl⟩ := List.getElem?_eq_some_iff.1 h
  exact List.drop_eq_getElem_cons hlt

theorem nextTest?_of_getElem? (h : clauses[clause]? = some c) :
    nextTest? clauses clause =
      (c.test.map fun node => (clause, node)).or (nextTest? clauses (clause + 1)) := by
  have hdrop : clauses.zipIdx.drop clause =
      (c, clause) :: clauses.zipIdx.drop (clause + 1) := by
    obtain ⟨hlt, rfl⟩ := List.getElem?_eq_some_iff.1 h
    rw [List.drop_eq_getElem_cons (by simpa using hlt)]
    simp
  unfold nextTest?
  rw [hdrop, List.findSome?_cons]
  dsimp only
  cases c.test <;> rfl

/-- The next test is the first that is left. -/
theorem nextTest?_eq (clauses : List SwitchCase) (clause : Nat) :
    nextTest? clauses clause = none ∧ tests (clauses.drop clause) = [] ∨
      ∃ i n, nextTest? clauses clause = some (i, n) ∧ (∃ c ∈ clauses, c.test = some n) ∧
        tests (clauses.drop clause) =
          (n, body (clauses.drop i)) :: tests (clauses.drop (i + 1)) := by
  induction hleft : clauses.length - clause generalizing clause with
  | zero =>
    have hle : clauses.length ≤ clause := by omega
    left
    unfold nextTest?
    rw [List.drop_eq_nil_of_le (by simpa using hle), List.drop_eq_nil_of_le hle]
    exact ⟨rfl, rfl⟩
  | succ left ih =>
    have hlt : clause < clauses.length := by omega
    have hc : clauses[clause]? = some clauses[clause] := List.getElem?_eq_getElem hlt
    rw [nextTest?_of_getElem? hc, drop_of_getElem? hc, tests]
    cases htest : clauses[clause].test with
    | some n =>
      refine .inr ⟨clause, n, rfl, ⟨_, List.getElem_mem hlt, htest⟩, ?_⟩
      rw [drop_of_getElem? hc]
    | none => exact ih (clause + 1) (by omega)

/-- Without an equal test execution starts with the default clause. -/
theorem fallback_eq (clauses : List SwitchCase) :
    fallback clauses =
      ((clauses.findIdx? (·.test.isNone)).map fun i => body (clauses.drop i)).getD [] := by
  induction clauses with
  | nil => rfl
  | cons c later ih =>
    rw [fallback, List.findIdx?_cons]
    cases htest : c.test with
    | none => rfl
    | some n =>
      rw [ih]
      cases later.findIdx? (·.test.isNone) <;> rfl

/-- The next statement is the first of those that are left. -/
theorem switchFrom_eq (f : Frame) (here : NodeRef) (d : Value) (matched : Bool)
    (clauses left : List SwitchCase) (clause statement : Nat)
    (hleft : left = clauses.drop clause) :
    switchFrom f here d matched clause statement left = .done .undefined ∧
      remaining statement left = [] ∨
    ∃ n i s, switchFrom f here d matched clause statement left =
        .enter { f with info := .switch d i s matched } here n ∧
      remaining statement left = n :: remaining s (clauses.drop i) := by
  induction left generalizing clause statement with
  | nil => exact .inl ⟨rfl, rfl⟩
  | cons c later ih =>
    have hlater : later = clauses.drop (clause + 1) := by
      rw [← List.drop_drop, ← hleft]
      rfl
    rw [switchFrom, remaining]
    cases hnode : c.consequent[statement]? with
    | some n =>
      obtain ⟨hlt, rfl⟩ := List.getElem?_eq_some_iff.1 hnode
      refine .inr ⟨_, clause, statement + 1, rfl, ?_⟩
      rw [← hleft, remaining, List.drop_eq_getElem_cons hlt]
      rfl
    | none =>
      rw [List.drop_eq_nil_of_le (List.getElem?_eq_none_iff.1 hnode), List.nil_append,
        ← remaining_zero]
      exact ih (clause + 1) 0 hlater

end Clauses

/-! ## Steps -/

variable {a : Switch} {natives : Natives} {m m₂ : Machine} {f g x y : Frame} {log : List Seen}
  {c : Completion} {n : NodeId}

theorem Running.of_same (h : a.Running f) (hg : g = { f with
    step := g.step, value := g.value, reference := g.reference, info := g.info }) :
    a.Running g := by
  rw [hg]
  exact ⟨h.scope, h.labels, h.isSwitch, h.isLoop⟩

/-- A node is entered for the switch. -/
theorem Running.enters (h : a.Running f) (n : NodeId) :
    Seen.told (.pushed (.ofNode { a.node with node := n } f.scope)) = [a.enters n] := by
  rw [h.scope]
  rfl

/-- Statements go on with the next that is left, or the switch is done. -/
theorem onward_statements (m : Machine) (hrunning : a.Running f) (hstep : f.step = 4) (d : Value)
    (matched : Bool) {clause statement : Nat}
    (h : ∀ later, a.Executes (remaining statement (a.clauses.drop clause)) later →
      a.Complete (log ++ later)) :
    a.story.Onward log m
      (switchFrom f a.node d matched clause statement (a.clauses.drop clause)) := by
  rcases switchFrom_eq f a.node d matched a.clauses _ clause statement rfl with
    ⟨hdone, hnone⟩ | ⟨n, i, s, henter, hnext⟩
  · rw [hdone]
    exact h _ (hnone ▸ .done)
  · rw [henter]
    rw [hnext] at h
    constructor
    · change a.Under (log ++ Seen.told (.pushed (.ofNode { a.node with node := n } f.scope))) _ _
      rw [hrunning.enters]
      have hstep' : { f with info := .switch d i s matched }.step = 4 := hstep
      apply Under.statement (hrunning.of_same rfl) hstep' rfl ⟨rfl, rfl⟩
      · intro e he
        rw [← List.append_cons]
        exact h _ (.abrupt he)
      · intro e he later hlater
        rw [← List.append_cons]
        exact h _ (.ended he hlater)
    · exact fun c hthrow => h _ (.crowded hthrow)

/-- Tests go on with the next that is left, or with the statements of the default clause. -/
theorem onward_tests (m : Machine) (hrunning : a.Running f) (d : Value) (statement : Nat)
    (matched : Bool) {clause : Nat}
    (h : ∀ later, a.Tests d (tests (a.clauses.drop clause)) later → a.Complete (log ++ later)) :
    a.story.Onward log m (switchTest f a.node a.clauses d clause statement matched) := by
  unfold switchTest
  rcases nextTest?_eq a.clauses clause with ⟨hnone, htests⟩ | ⟨i, n, hsome, hn, htests⟩
  · rw [hnone]
    dsimp only
    have hdefault : ∀ later, a.Executes (fallback a.clauses) later → a.Complete (log ++ later) :=
      fun later hlater => h later (htests ▸ .none hlater)
    rw [fallback_eq] at hdefault
    cases hfind : a.clauses.findIdx? (·.test.isNone) with
    | none =>
      rw [hfind] at hdefault
      exact hdefault _ .done
    | some i =>
      rw [hfind] at hdefault
      apply onward_statements m (hrunning.of_same rfl) rfl
      rw [remaining_zero]
      exact hdefault
  · rw [hsome]
    rw [htests] at h
    constructor
    · change a.Under (log ++ Seen.told (.pushed (.ofNode { a.node with node := n } f.scope))) _ _
      rw [hrunning.enters]
      apply Under.test (hrunning.of_same rfl) rfl rfl ⟨rfl, rfl⟩ hn
      · intro e he
        rw [← List.append_cons]
        exact h _ (.abrupt he)
      · intro v hequal later hlater
        rw [← List.append_cons]
        exact h _ (.equal hequal hlater)
      · intro v hunequal later hlater
        rw [← List.append_cons]
        exact h _ (.unequal hunequal hlater)
    · exact fun c hthrow => h _ (.crowded hthrow)

/-- A step of the switch takes it on. -/
theorem onward_step {step : Step} (htop : a.Top log f)
    (hrun : stepSwitch f a.node a.discriminant a.clauses m = .ok step m₂) (m' : Machine) :
    a.story.Onward log m' step := by
  unfold stepSwitch at hrun
  cases htop with
  | fresh hlog hf =>
    subst hlog hf
    cases hrun
    constructor
    · apply Under.discriminant ⟨rfl, rfl, rfl, rfl⟩ rfl rfl ⟨rfl, rfl⟩
      · exact fun e he => .abrupt he
      · exact fun v later hlater => .tested hlater
    · exact fun c hthrow => .crowded hthrow
  | discriminant hrunning hstep hinfo h =>
    rw [hstep] at hrun
    cases hrun
    exact onward_tests m' (hrunning.of_same rfl) f.value 0 false h
  | @test d clause statement matched hrunning hstep hinfo hequal hunequal =>
    rw [hstep] at hrun
    dsimp only at hrun
    rw [hinfo] at hrun
    dsimp only at hrun
    by_cases hsame : f.value.strictEquals d = true
    · rw [if_pos hsame] at hrun
      cases hrun
      apply onward_statements m' (hrunning.of_same rfl) rfl
      rw [remaining_zero]
      exact hequal hsame
    · rw [if_neg hsame] at hrun
      obtain ⟨next, n, hnext, hrun⟩ := bind_eq_ok_iff.1 hrun
      obtain ⟨hcount, rfl⟩ := query_eq_ok_iff.1 hnext
      cases hrun
      unfold nextCount at hcount
      split at hcount
      · cases hcount
        exact onward_tests m' (hrunning.of_same rfl) d statement matched
          (hunequal (Bool.eq_false_iff.2 hsame))
      · cases hcount
  | @statement d clause statement matched hrunning hstep hinfo h =>
    rw [hstep] at hrun
    dsimp only at hrun
    rw [hinfo] at hrun
    cases hrun
    exact onward_statements m' hrunning hstep d matched h

/-- A switch itself only fails with faults. -/
theorem faults_stepSwitch (f : Frame) (here : NodeRef) (discriminant : NodeId)
    (clauses : List SwitchCase) : Faults (stepSwitch f here discriminant clauses) := by
  unfold stepSwitch
  split
  · exact faults_pure _
  · exact faults_pure _
  · split
    · split
      · exact faults_pure _
      · split
        · exact faults_pure _
        · refine (faults_query fun _ => ?_).bind fun _ => faults_pure _
          unfold nextCount
          split
          · exact .pure _
          · exact .throw rfl
      · exact faults_pure _
    · exact faults_pure _

/-- A completion leaves the switch, or goes further. -/
theorem met_of_running (hrunning : a.Running f) (hinfo : ∀ call, f.info ≠ .call call)
    (habrupt : ∀ e, a.Abrupt e → a.Complete (log ++ [e])) (m : Machine) (c : Completion) :
    a.story.Met log m c (meetPlain f c) := by
  have hdrop (hc : ¬ a.IsLeftBy c) : a.story.Met log m c .drop := habrupt _ (.dropped hc)
  unfold meetPlain
  cases hkind : c.kind with
  | normal => exact hdrop fun hleft => by cases hkind.symm.trans hleft.1
  | throw => exact hdrop fun hleft => by cases hkind.symm.trans hleft.1
  | «return» =>
    have hplain : a.story.Met log m c .drop :=
      hdrop fun hleft => by cases hkind.symm.trans hleft.1
    dsimp only
    split
    · rename_i call hcall
      exact absurd hcall (hinfo call)
    · exact hplain
  | «continue» =>
    have htarget : isJumpTarget f .continue c.label = false := by
      unfold isJumpTarget
      rw [hrunning.isLoop]
      cases c.label <;> rfl
    dsimp only
    rw [htarget]
    exact hdrop fun hleft => by cases hkind.symm.trans hleft.1
  | «break» =>
    have htarget : isJumpTarget f .break c.label = true ↔ a.IsLeftBy c := by
      unfold isJumpTarget IsLeftBy
      cases c.label with
      | none => simp [hkind, hrunning.isSwitch]
      | some label => simp [hkind, hrunning.labels]
    dsimp only
    split
    · rename_i hstop
      exact habrupt _ (.claimed (htarget.1 hstop))
    · rename_i hpass
      exact hdrop fun hleft => hpass (htarget.2 hleft)

/-! ## The story is true -/

/-- What is above may go on, as long as it serves for the same node. -/
theorem Under.replace (h : a.Under log f x) (hnode : y.node = x.node)
    (hwant : y.wantRef = x.wantRef) : a.Under log f y := by
  have hy {n : NodeId} (hx : a.Serves n x) : a.Serves n y :=
    ⟨hnode.trans hx.node, hwant.trans hx.wantRef⟩
  cases h with
  | discriminant hrunning hstep hinfo hx habrupt h =>
    exact .discriminant hrunning hstep hinfo (hy hx) habrupt h
  | test hrunning hstep hinfo hx hn habrupt hequal hunequal =>
    exact .test hrunning hstep hinfo (hy hx) hn habrupt hequal hunequal
  | statement hrunning hstep hinfo hx habrupt h =>
    exact .statement hrunning hstep hinfo (hy hx) habrupt h

/-- The discriminant and the tests are expressions. -/
theorem expression_parts {n : NodeId} (hn : n = a.discriminant ∨ ∃ c ∈ a.clauses, c.test = some n)
    (loop : Bool) (place : Tree.Place) (parts : List (Tree.Place × NodeId))
    (hparts : a.evaluation.kind.parts? loop place = some parts) : (.expression, n) ∈ parts := by
  cases place with
  | statement scope =>
    cases hparts
    rcases hn with rfl | ⟨c, hc, htest⟩
    · exact List.mem_cons_self
    · refine List.mem_cons_of_mem _ (List.mem_flatMap.2 ⟨c, hc, ?_⟩)
      rw [htest]
      exact List.mem_cons_self
  | program => cases hparts
  | expression => cases hparts
  | head scope => cases hparts

/-- What is on top of the frame comes to its end. -/
theorem Under.ended (h : a.Under log f x) {e : Seen} {g : Frame}
    (hg : g = { f with value := g.value }) (hended : Ended e)
    (hvalue : ∀ n, a.Serves n x → (n = a.discriminant ∨ ∃ c ∈ a.clauses, c.test = some n) →
      e = .handed g.value) : a.Top (log ++ [e]) g := by
  have hrunning' (hrunning : a.Running f) : a.Running g := hrunning.of_same (by rw [hg])
  have hstep' : g.step = f.step := by rw [hg]
  have hinfo' : g.info = f.info := by rw [hg]
  cases h with
  | discriminant hrunning hstep hinfo hx habrupt h =>
    obtain rfl := hvalue _ hx (.inl rfl)
    refine .discriminant (hrunning' hrunning) (hstep'.trans hstep) (hinfo'.trans hinfo) ?_
    intro later hlater
    rw [← List.append_cons]
    exact h _ later hlater
  | test hrunning hstep hinfo hx hn habrupt hequal hunequal =>
    obtain rfl := hvalue _ hx (.inr hn)
    refine .test (hrunning' hrunning) (hstep'.trans hstep) (hinfo'.trans hinfo) ?_ ?_
    · intro hsame later hlater
      rw [← List.append_cons]
      exact hequal _ hsame later hlater
    · intro hsame later hlater
      rw [← List.append_cons]
      exact hunequal _ hsame later hlater
  | statement hrunning hstep hinfo hx habrupt h =>
    refine .statement (hrunning' hrunning) (hstep'.trans hstep) (hinfo'.trans hinfo) ?_
    intro later hlater
    rw [← List.append_cons]
    exact h e hended later hlater

theorem truthful_story (natives : Natives) (a : Switch) :
    a.story.Truthful natives a.evaluation where
  tell_cut := fun _ => ⟨.cut, List.mem_cons_self, rfl⟩
  tell_covered := fun _ => rfl
  steady_top := by
    intro log f htop
    cases htop with
    | fresh _ hf => rw [hf]; rfl
    | discriminant _ _ hinfo _ => rw [hinfo]; rfl
    | test _ _ hinfo _ _ => rw [hinfo]; rfl
    | statement _ _ hinfo _ => rw [hinfo]; rfl
  steady_under := by
    intro log f x hunder
    cases hunder with
    | discriminant _ _ hinfo _ _ _ => rw [hinfo]; rfl
    | test _ _ hinfo _ _ _ _ _ => rw [hinfo]; rfl
    | statement _ _ hinfo _ _ _ => rw [hinfo]; rfl
  under_stays := fun hunder hy => Under.replace hunder hy.agrees.node hy.agrees.wantRef
  under_follows := by
    intro origin m up log f x y rest hon hunder hy
    obtain ⟨hnode, hwant⟩ := hy.serves hon.beating.orderly.tidy
    exact Under.replace hunder hnode hwant
  step := by
    intro origin m log f rest step m₂ hon htop hrun
    obtain ⟨p, -, hstep⟩ := hon.stepOf_run natives
    rw [hstep] at hrun
    exact onward_step htop hrun m
  fail := by
    rintro origin m log f rest hon htop ⟨failure, m₂, hrun, hfault⟩
    obtain ⟨p, -, hstep⟩ := hon.stepOf_run natives
    rw [hstep] at hrun
    have hfaults : failure.isFault = true :=
      faults_stepSwitch f a.node a.discriminant a.clauses _ _ _ hrun
    cases hfaults.symm.trans hfault
  handed := fun _ hunder _ => Under.ended hunder rfl (.handed _) fun _ _ _ => rfl
  referred := by
    intro origin m log f x rest r m₂ hon hunder hwant hrun
    have hnever {n : NodeId} (hx : a.Serves n x) : False := by
      cases hx.wantRef.symm.trans hwant
    cases hunder with
    | discriminant _ _ _ hx _ _ => exact (hnever hx).elim
    | test _ _ _ hx _ _ _ _ => exact (hnever hx).elim
    | statement _ _ _ hx _ _ => exact (hnever hx).elim
  freed := by
    intro origin m up log f x rest hon hunder hstops
    refine Under.ended hunder rfl .freed fun n hx hn => ?_
    refine absurd hstops (hon.not_mayStop (fun label body hkind => ?_) (expression_parts hn) hx.node)
    cases hkind
  meets := by
    intro log f x m c hunder
    cases hunder with
    | discriminant hrunning _ hinfo _ habrupt _ =>
      exact met_of_running hrunning (fun call hcall => by cases hinfo.symm.trans hcall) habrupt m c
    | test hrunning _ hinfo _ _ habrupt _ _ =>
      exact met_of_running hrunning (fun call hcall => by cases hinfo.symm.trans hcall) habrupt m c
    | statement hrunning _ hinfo _ habrupt _ =>
      exact met_of_running hrunning (fun call hcall => by cases hinfo.symm.trans hcall) habrupt m c

/-! ## Whole switches -/

/-- The frame of the switch has just been put on the stack. -/
structure Fresh (a : Switch) (m : Machine) : Prop where
  known : a.evaluation.Known m.heap
  pushed : ∃ rest, rest.length = a.below ∧ m.frames a.thread =
    { Frame.ofNode a.node a.scope with labels := a.labels } :: rest

theorem exists_executes (a : Switch) (nodes : List NodeId) : ∃ log, a.Executes nodes log := by
  cases nodes with
  | nil => exact ⟨_, .done⟩
  | cons n nodes => exact ⟨_, .crowded (c := { kind := .throw }) rfl⟩

theorem exists_tests (a : Switch) (d : Value) (tests : List (NodeId × List NodeId)) :
    ∃ log, a.Tests d tests log := by
  cases tests with
  | nil =>
    obtain ⟨log, h⟩ := a.exists_executes (fallback a.clauses)
    exact ⟨log, .none h⟩
  | cons test tests => exact ⟨_, .crowded (c := { kind := .throw }) rfl⟩

theorem Executes.ne_nil {nodes : List NodeId} {log : List Seen} (h : a.Executes nodes log) :
    log ≠ [] := by
  cases h <;> exact List.cons_ne_nil _ _

theorem Tests.ne_nil {d : Value} {tests : List (NodeId × List NodeId)} {log : List Seen}
    (h : a.Tests d tests log) : log ≠ [] := by
  cases h with
  | none h => exact h.ne_nil
  | _ => exact List.cons_ne_nil _ _

/-- A switch that goes on can be completed. -/
theorem exists_complete_of_at {frames : List Frame}
    (hat : a.story.At a.evaluation log frames) :
    ∃ later, later ≠ [] ∧ a.Complete (log ++ later) := by
  have habrupt : a.Abrupt (.dropped { kind := .throw }) := .dropped fun h => by cases h.1
  have hexecutes {nodes : List NodeId}
      (h : ∀ later, a.Executes nodes later → a.Complete (log ++ later)) :
      ∃ later, later ≠ [] ∧ a.Complete (log ++ later) := by
    obtain ⟨later, hlater⟩ := a.exists_executes nodes
    exact ⟨later, hlater.ne_nil, h later hlater⟩
  have htests {d : Value} {left : List (NodeId × List NodeId)}
      (h : ∀ later, a.Tests d left later → a.Complete (log ++ later)) :
      ∃ later, later ≠ [] ∧ a.Complete (log ++ later) := by
    obtain ⟨later, hlater⟩ := a.exists_tests d left
    exact ⟨later, hlater.ne_nil, h later hlater⟩
  cases hat with
  | @top f _ _ _ htop =>
    cases htop with
    | fresh hlog _ =>
      rw [hlog]
      exact ⟨_, List.cons_ne_nil _ _, .crowded (c := { kind := .throw }) rfl⟩
    | discriminant _ _ _ h => exact htests h
    | @test d _ _ _ _ _ _ hequal hunequal =>
      cases hsame : f.value.strictEquals d with
      | true => exact hexecutes (hequal hsame)
      | false => exact htests (hunequal hsame)
    | statement _ _ _ h => exact hexecutes h
  | under _ _ hunder =>
    refine ⟨[.dropped { kind := .throw }], List.cons_ne_nil _ [], ?_⟩
    cases hunder with
    | discriminant _ _ _ _ h _ => exact h _ habrupt
    | test _ _ _ _ _ h _ _ => exact h _ habrupt
    | statement _ _ _ _ h _ => exact h _ habrupt

/-- Unless the thread is ended, what is told of a switch when it leaves the stack is complete, and
until then it is the beginning of something complete. So the tests are evaluated in source order up to
the first that is equal to the discriminant, and then the statements of its clause and of those behind
it, or of the default clause, are executed one by one until the switch is left. -/
theorem clauses_run_in_order {natives : Natives} (hcivil : natives.Each (Civil True))
    (hmoderate : natives.Each Moderate) {k m : Machine} (hk : Played natives k) {a : Switch}
    (hfresh : a.Fresh k) {log : List Seen}
    (hlog : Told natives a.thread a.below (fun m => (a.evaluation.seen natives m).told) k log m)
    (hcut : .cut ∉ log) : ∃ later, a.Complete (log ++ later) ∧
      (later = [] ↔ (m.frames a.thread).length ≤ a.below) := by
  obtain ⟨rest, hbelow, hframes⟩ := hfresh.pushed
  have hstory : a.story.Fresh a.evaluation k :=
    ⟨hfresh.known, _, rest, hframes, hbelow, rfl, .fresh rfl rfl⟩
  cases Story.proceeds_of_told hcivil hmoderate (truthful_story natives a) hk hstory hlog with
  | on hat _ =>
    obtain ⟨above, f, rest, hon, hlength, -⟩ := hat.exists_frame
    obtain ⟨later, hne, hcomplete⟩ := exists_complete_of_at hat
    refine ⟨later, hcomplete, fun hnil => absurd hnil hne, fun hgone => ?_⟩
    have hlength' : rest.length = a.below := hlength
    have hon' : m.frames a.thread = above ++ f :: rest := hon
    rw [hon', List.length_append, List.length_cons, hlength'] at hgone
    omega
  | off hcomplete hgone =>
    exact ⟨[], by rwa [List.append_nil], fun _ => hgone, fun _ => rfl⟩
  | cut h =>
    obtain ⟨e, he, rfl⟩ := h
    exact absurd he hcut

/-! ## A clause in the middle -/

/-- The switch of `switch (2) { case 1: 1; default: 0; case 2: 2; case 3: break; case 4: 4 }`. -/
def halfway : Switch where
  thread := ⟨1⟩
  below := 1
  node := ⟨⟨0⟩, 14⟩
  scope := ⟨0⟩
  labels := []
  discriminant := 0
  clauses := [⟨some 1, [3]⟩, ⟨none, [5]⟩, ⟨some 6, [8]⟩, ⟨some 9, [10]⟩, ⟨some 11, [13]⟩]

/-- The host runs the program up to its switch. -/
def halfwayBegun : List Request :=
  [.spawn "switch (2) \x7b case 1: 1; default: 0; case 2: 2; case 3: break; case 4: 4 \x7d", .step,
    .step]

/-- What is told of the switch: two tests, and then two statements. -/
def halfwayLog : List Seen :=
  [halfway.enters 0, .handed (.nat 2), halfway.enters 1, .handed (.nat 1), halfway.enters 6,
    .handed (.nat 2), halfway.enters 8, .handed (.nat 2), halfway.enters 10,
    .claimed { kind := .break }]

set_option maxRecDepth 100000 in
/-- The default clause is passed by, and the statement behind the `break` is not executed. -/
theorem clauses_run_in_order_halfway : ∃ k m, Played Builtin.natives k ∧ halfway.Fresh k ∧
    Told Builtin.natives ⟨1⟩ 1 (fun m => (halfway.evaluation.seen Builtin.natives m).told) k
      halfwayLog m ∧
    (m.frames ⟨1⟩).length ≤ 1 ∧ halfway.Complete halfwayLog := by
  have hchecks : (recital Builtin.natives halfwayBegun ⟨1⟩ 1
      (fun m => (halfway.evaluation.seen Builtin.natives m).told) 12).any (fun result =>
        (result.1.heap.program? ⟨0⟩).any fun p => decide
          (p.kind? 14 = some halfway.evaluation.kind ∧
            (result.1.frames ⟨1⟩).head? = some (.ofNode ⟨⟨0⟩, 14⟩ ⟨0⟩) ∧
            (result.1.frames ⟨1⟩).length = 2 ∧ result.2.1 = halfwayLog ∧
            (result.2.2.frames ⟨1⟩).length ≤ 1)) = true := by
    rw [recital, hosted_eq]
    decide +kernel
  obtain ⟨⟨k, log, m⟩, hrecital, hchecks⟩ := (Option.any_eq_true _ _).1 hchecks
  obtain ⟨p, hp, hchecks⟩ := (Option.any_eq_true _ _).1 hchecks
  obtain ⟨hkind, hhead, hlength, hlog, hgone⟩ := of_decide_eq_true hchecks
  dsimp only at hhead hlength hlog hgone
  subst hlog
  obtain ⟨hplayed, htold⟩ := told_of_recital Builtin.each_civil hrecital
  have hfresh : halfway.Fresh k := by
    obtain ⟨rest, hframes⟩ := List.head?_eq_some_iff.1 hhead
    refine ⟨⟨p, hp, hkind⟩, rest, ?_, hframes⟩
    rw [hframes] at hlength
    exact Nat.succ.inj hlength
  obtain ⟨later, hcomplete, hleft⟩ :=
    clauses_run_in_order Builtin.each_civil Builtin.each_moderate hplayed hfresh htold (by decide)
  obtain rfl := hleft.2 hgone
  rw [List.append_nil] at hcomplete
  exact ⟨k, m, hplayed, hfresh, htold, hgone, hcomplete⟩

end Switch

end ScriptMachine
