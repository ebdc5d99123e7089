import ScriptMachine.Proofs.Beats.Turned

/-!
# What is told of an evaluation

The evaluation of a node is its frame, from the time that it is pushed until it leaves the stack. A
thread and the number of frames below it identify it. A story says what is told of each turn of the
thread and how far the frame is then. It is enough that it tells the truth about the steps of the frame
and about what the frame directly above hands over: nothing else does anything to the frame.
-/

namespace ScriptMachine

open Exec Machine Stack
open Tree (NodeKind)

/-! ## The frame in a place -/

/-- One frame follows another in its place, by a turn of its thread. -/
inductive Frame.Follows (natives : Natives) (thread : ThreadId) (m : Machine) (x : Frame) :
    Frame → Prop where
  | stays {y : Frame} (h : x.Stays y) : Follows natives thread m x y
  | handed {y : Frame} (v : Value) (h : x.Stays y) : Follows natives thread m x { y with value := v }
  | referred {y : Frame} (r : Reference) (h : x.Stays y) :
    Follows natives thread m x { y with reference := some r }
  | pushed {y child : Frame} {m₂ : Machine}
    (hrun : stepOf natives thread x m = .ok (.push y child) m₂) : Follows natives thread m x y
  | stayed {y : Frame} {step : Step} {m₂ : Machine}
    (hrun : stepOf natives thread x m = .ok step m₂) (hstep : step = .stay y ∨ step = .suspend y) :
    Follows natives thread m x y
  | caught {y z : Frame} {h : Heap} {c : Completion} (hz : Follows natives thread m x z)
    (hmeet : meet h z c = .ok (.catch y)) : Follows natives thread m x y

namespace Machine

variable {natives : Natives} {m : Machine} {thread : ThreadId} {f g x y : Frame}
  {above above' rest rest' frames : List Frame} {seen : Seen} {h : Heap} {c : Completion}

theorem Faces.follows (h : Faces natives thread m above f g c) : f.Follows natives thread m g := by
  rcases h with ⟨-, hstays⟩ | ⟨-, -, child, m₂, hrun⟩
  · exact .stays hstays
  · exact .pushed hrun

/-- The frame that is in the place of another after a turn follows it. -/
theorem Turned.follows (h : Turned natives thread m above x rest seen frames) (hcut : seen ≠ .cut)
    (hframes : frames = above' ++ y :: rest') (hlength : rest'.length = rest.length) :
    x.Follows natives thread m y := by
  have hplace (new : List Frame) {old : List Frame} {z : Frame}
      (hsame : new ++ z :: old = above' ++ y :: rest') (hold : old.length = rest.length) : z = y := by
    have hinj := List.append_inj_right' hsame (by simp [hold, hlength])
    exact (List.cons_eq_cons.1 hinj).1
  have hgone (hle : frames.length ≤ rest.length) : x.Follows natives thread m y := by
    rw [hframes, List.length_append, List.length_cons, hlength] at hle
    omega
  cases h with
  | cut => exact absurd rfl hcut
  | covered _ _ hf hstay =>
    obtain rfl := hplace _ hframes hstay.length_eq.symm
    exact .stays hf
  | @pushed g child _ _ _ hrun hstay =>
    obtain rfl := hplace [child] hframes hstay.length_eq.symm
    exact .pushed hrun
  | stayed _ hrun hstep hstay =>
    obtain rfl := hplace [] hframes hstay.length_eq.symm
    exact .stayed hrun hstep
  | done _ _ hle => exact hgone hle
  | gave _ _ hle => exact hgone hle
  | raised _ _ hle => exact hgone hle
  | handed _ _ hf hstay =>
    obtain rfl := hplace [] hframes hstay.length_eq.symm
    exact .handed _ hf
  | referred _ _ _ hf hstay =>
    obtain rfl := hplace [] hframes hstay.length_eq.symm
    exact .referred _ hf
  | freed _ _ hf hstay =>
    obtain rfl := hplace [] hframes hstay.length_eq.symm
    exact .stays hf
  | dropped _ _ hle => exact hgone hle
  | claimed _ _ hle => exact hgone hle
  | caught hfaces hmeet hstay =>
    obtain rfl := hplace [] hframes hstay.length_eq.symm
    exact .caught hfaces.follows hmeet

theorem meetPlain_catch (hmeet : meetPlain x c = .catch y) :
    y = { x with value := y.value, info := y.info } := by
  unfold meetPlain at hmeet
  repeat' split at hmeet
  all_goals cases hmeet <;> rfl

/-- A frame that a completion ends with and that stays evaluates the same for the same use. -/
theorem meet_catch (hmeet : meet h x c = .ok (.catch y)) :
    y = { x with step := y.step, value := y.value, info := y.info } := by
  unfold meet at hmeet
  split at hmeet
  · cases hclauses : tryClauses h x with
    | error failure =>
      rw [hclauses] at hmeet
      cases hmeet
    | ok clauses =>
      rw [hclauses] at hmeet
      dsimp only [bind, Except.bind] at hmeet
      repeat' split at hmeet
      all_goals cases hmeet <;> rfl
  · have hplain : meetPlain x c = .catch y := by injection hmeet
    rw [meetPlain_catch hplain]

end Machine

/-- What follows a frame evaluates the same for the same use. -/
theorem Frame.Follows.serves {natives : Natives} {m : Machine} {thread : ThreadId} {x y : Frame}
    (ht : m.heap.Tidy) (h : x.Follows natives thread m y) :
    y.node = x.node ∧ y.wantRef = x.wantRef := by
  have hgoes {made : ObjectId → Prop} {z : Frame} (hz : x.GoesOn made z) :
      z.node = x.node ∧ z.wantRef = x.wantRef := ⟨hz.node, hz.wantRef⟩
  induction h with
  | stays hz => exact ⟨hz.agrees.node, hz.agrees.wantRef⟩
  | handed v hz => exact ⟨hz.agrees.node, hz.agrees.wantRef⟩
  | referred r hz => exact ⟨hz.agrees.node, hz.agrees.wantRef⟩
  | pushed hrun =>
    obtain ⟨made, -, hleads⟩ :=
      leadsOn_of_dispatch (m := m.restacked thread (·.dropTop)) ht thread hrun
    exact hgoes hleads.1
  | stayed hrun hstep =>
    obtain ⟨made, -, hleads⟩ :=
      leadsOn_of_dispatch (m := m.restacked thread (·.dropTop)) ht thread hrun
    rcases hstep with rfl | rfl
    · exact hgoes hleads
    · exact hgoes hleads
  | caught _ hmeet ih =>
    rw [meet_catch hmeet]
    exact ih

/-! ## Evaluations -/

/-- The evaluation of a node. -/
structure Evaluation where
  thread : ThreadId
  /-- So many frames are below it. -/
  below : Nat
  node : NodeRef
  kind : Tree.NodeKind

namespace Evaluation

variable {natives : Natives} {origin m m' k : Machine} {a : Evaluation} {h h' : Heap}
  {f g x y child : Frame} {above up rest : List Frame} {c : Completion} {who : Option ThreadId}

/-- The program that the evaluation belongs to has the node. -/
def Known (a : Evaluation) (h : Heap) : Prop :=
  ∃ p, h.program? a.node.program = some p ∧ p.kind? a.node.node = some a.kind

/-- The step of the frame. -/
theorem Known.dispatch_run (hknown : a.Known m.heap) (hnode : f.node = some a.node) :
    ∃ p, m.heap.program? a.node.program = some p ∧
      dispatch natives a.thread f m = stepNode a.thread f a.node p a.kind m := by
  obtain ⟨p, hprogram, hkind⟩ := hknown
  exact ⟨p, hprogram, dispatch_run_of_node hnode hprogram hkind⟩

/-- The program stays what it was while the frame is on the stack. -/
theorem Known.spared (hknown : a.Known m.heap) (hm' : Beating origin m')
    (hspares : Spares who m m') (hframes : m'.frames a.thread = above ++ f :: rest)
    (hnode : f.node = some a.node) : a.Known m'.heap := by
  obtain ⟨p, hprogram, hkind⟩ := hknown
  exact ⟨p, hm'.program_of_node hspares hframes hnode hprogram, hkind⟩

/-- The evaluation goes on: its frame is on the stack, below others. -/
structure On (a : Evaluation) (origin m : Machine) (above : List Frame) (f : Frame)
    (rest : List Frame) : Prop where
  beating : Beating origin m
  known : a.Known m.heap
  frames : m.frames a.thread = above ++ f :: rest
  below : rest.length = a.below
  node : f.node = some a.node

/-- The step of the frame when it is on top. -/
theorem On.stepOf_run (natives : Natives) (h : a.On origin m above f rest) : ∃ p,
    m.heap.program? a.node.program = some p ∧ stepOf natives a.thread f m =
      stepNode a.thread f a.node p a.kind (m.restacked a.thread (·.dropTop)) :=
  Known.dispatch_run (m := m.restacked a.thread (·.dropTop)) h.known h.node

/-- No completion ends with a frame that evaluates an expression for the node. -/
theorem On.not_mayStop {n : Tree.NodeId} (hon : a.On origin m (up ++ [x]) f rest)
    (hlabeled : ∀ label body, a.kind ≠ .labeled label body)
    (hn : ∀ loop place parts, a.kind.parts? loop place = some parts → (.expression, n) ∈ parts)
    (hx : x.node = some { a.node with node := n }) : ¬ MayStop m.heap x := by
  obtain ⟨p, hprogram, hkind⟩ := hon.known
  have hframes : m.frames a.thread = up ++ x :: f :: rest := by
    rw [hon.frames]
    simp
  have hstacked := hon.beating.stacked hframes
  have hsits : Sits False m.heap rest f := hstacked.tail.sits
  -- The frame below evaluates the node, so the one above has no label and evaluates a part.
  have hlabels : x.labels = [] := by
    cases hstacked with
    | above _ hgone _ =>
      cases hgone with
      | child hnode hprogram' hkind' _ _ hlabels _ =>
        obtain rfl := Option.some.inj (hnode.symm.trans hon.node)
        obtain rfl := Option.some.inj (hprogram'.symm.trans hprogram)
        obtain rfl := Option.some.inj (hkind'.symm.trans hkind)
        rw [hlabels]
        unfold Stack.childLabels
        split
        · rename_i label body hlabel
          exact absurd hlabel (hlabeled label body)
        · rfl
      | call _ hnone _ => cases hx.symm.trans hnone
      | body hinfo => cases (hsits.node_eq_none hinfo).symm.trans hon.node
      | again hinfo => cases (hsits.node_eq_none hinfo).symm.trans hon.node
      | evaluated hinfo => cases (hsits.node_eq_none hinfo).symm.trans hon.node
  have hexpression : ∃ kind, p.kind? n = some kind ∧ kind.isExpression = true := by
    cases hsits with
    | node _ hnode hprogram' hkind' hformed =>
      obtain rfl := Option.some.inj (hnode.symm.trans hon.node)
      obtain rfl := Option.some.inj (hprogram'.symm.trans hprogram)
      cases hformed with
      | node hkind'' hloop hparts hparts' =>
        obtain rfl := Option.some.inj (hkind''.symm.trans hkind)
        cases hparts' _ (hn _ _ _ hparts) with
        | node hchild _ hchildren _ =>
          exact ⟨_, hchild, (Option.ite_none_right_eq_some.1 hchildren).1⟩
    | call _ hnone _ => cases hnone.symm.trans hon.node
  obtain ⟨kind, hchild, hexpression⟩ := hexpression
  rintro (hne | ⟨here, p', kind', hnode, hprogram', hkind', hstops⟩)
  · exact hne hlabels
  · obtain rfl := Option.some.inj (hnode.symm.trans hx)
    obtain rfl := Option.some.inj (hprogram'.symm.trans hprogram)
    obtain rfl := Option.some.inj (hkind'.symm.trans hchild)
    cases kind' <;> simp [NodeKind.isExpression, NodeKind.isLoop, NodeKind.isSwitch,
      NodeKind.isTry] at hexpression hstops

/-- What a turn does to the frame. -/
abbrev seen (a : Evaluation) (natives : Natives) (m : Machine) : Seen :=
  Machine.seen natives a.thread a.below m

end Evaluation

/-! ## Stories -/

/-- What is told of an evaluation, and how far its frame is then. -/
structure Story (α : Type) where
  /-- What is told of one turn. -/
  tell : Machine → Seen → List α
  /-- It is told that the thread is ended. -/
  cut : α → Prop
  /-- The frame is on top. -/
  top : List α → Frame → Prop
  /-- The frame is right below another. -/
  under : List α → Frame → Frame → Prop
  /-- The frame has left the stack. -/
  complete : List α → Prop

namespace Story

variable {α : Type} {σ : Story α} {natives : Natives} {origin m m' k : Machine} {a : Evaluation}
  {f g x y child : Frame} {above up rest frames : List Frame} {c : Completion} {log : List α}

/-- How it goes on after a step of the frame. Where there is no room for a child, a throw drops the
frame. -/
def Onward (σ : Story α) (log : List α) (m : Machine) : Step → Prop
  | .push g child => σ.under (log ++ σ.tell m (.pushed child)) g child ∧
    ∀ c : Completion, c.kind = .throw → σ.complete (log ++ σ.tell m (.dropped c))
  | .stay g => σ.top (log ++ σ.tell m .stayed) g
  | .suspend g => σ.top (log ++ σ.tell m .stayed) g
  | .done v => σ.complete (log ++ σ.tell m (.done v))
  | .ref r => σ.complete (log ++ σ.tell m (.gave r))
  | .unwind c => σ.complete (log ++ σ.tell m (.raised c))

/-- How it goes on after the frame meets a completion. -/
def Met (σ : Story α) (log : List α) (m : Machine) (c : Completion) : Meeting → Prop
  | .drop => σ.complete (log ++ σ.tell m (.dropped c))
  | .stop => σ.complete (log ++ σ.tell m (.claimed c))
  | .catch g => σ.top (log ++ σ.tell m (.caught c)) g

/-- A story tells the truth about an evaluation whose frame stays as it is while it is not stepped. -/
structure Truthful (natives : Natives) (a : Evaluation) (σ : Story α) : Prop where
  tell_cut : ∀ m, ∃ e ∈ σ.tell m .cut, σ.cut e
  tell_covered : ∀ m, σ.tell m .covered = []
  steady_top : ∀ {log f}, σ.top log f → f.info.isSteady = true
  steady_under : ∀ {log f x}, σ.under log f x → f.info.isSteady = true
  under_stays : ∀ {log f x y}, σ.under log f x → x.Stays y → σ.under log f y
  /-- What is right above is stepped, or something above that is. -/
  under_follows : ∀ {origin m up log f x y rest}, a.On origin m (up ++ [x]) f rest →
    σ.under log f x → x.Follows natives a.thread m y → σ.under log f y
  step : ∀ {origin m log f rest step m₂}, a.On origin m [] f rest → σ.top log f →
    stepOf natives a.thread f m = .ok step m₂ → σ.Onward log m step
  fail : ∀ {origin m log f rest}, a.On origin m [] f rest → σ.top log f →
    Throws natives a.thread m f → ∀ c : Completion, c.kind = .throw →
      σ.complete (log ++ σ.tell m (.raised c))
  handed : ∀ {origin m log f x rest v m₂}, a.On origin m [x] f rest → σ.under log f x →
    stepOf natives a.thread x m = .ok (.done v) m₂ →
      σ.top (log ++ σ.tell m (.handed v)) { f with value := v }
  referred : ∀ {origin m log f x rest r m₂}, a.On origin m [x] f rest → σ.under log f x →
    x.wantRef = true → stepOf natives a.thread x m = .ok (.ref r) m₂ →
      σ.top (log ++ σ.tell m (.referred r)) { f with reference := some r }
  freed : ∀ {origin m up log f x rest}, a.On origin m (up ++ [x]) f rest → σ.under log f x →
    MayStop m.heap x → σ.top (log ++ σ.tell m .freed) f
  meets : ∀ {log f x} (m : Machine) (c : Completion), σ.under log f x →
    σ.Met log m c (meetPlain f c)

/-- The frame is where the story has it. -/
inductive At (σ : Story α) (a : Evaluation) (log : List α) : List Frame → Prop where
  | top {f : Frame} {rest : List Frame} (hbelow : rest.length = a.below)
    (hnode : f.node = some a.node) (htop : σ.top log f) : At σ a log (f :: rest)
  | under {up : List Frame} {x f : Frame} {rest : List Frame} (hbelow : rest.length = a.below)
    (hnode : f.node = some a.node) (hunder : σ.under log f x) :
    At σ a log (up ++ x :: f :: rest)

/-- A child has been put on top of the frame. -/
theorem At.pushed (hbelow : rest.length = a.below) (hnode : f.node = some a.node)
    (hunder : σ.under log f child) : σ.At a log (child :: f :: rest) :=
  List.nil_append (child :: f :: rest) ▸ At.under hbelow hnode hunder

/-- How far the evaluation has come. -/
inductive Goes (σ : Story α) (a : Evaluation) (log : List α) (frames : List Frame) : Prop where
  | on (h : σ.At a log frames)
  | off (h : σ.complete log) (hgone : frames.length ≤ a.below)
  | cut (h : ∃ e ∈ log, σ.cut e)

section Turns

variable (hσ : σ.Truthful natives a)

include hσ

theorem goes_cut (log : List α) (frames : List Frame) : σ.Goes a (log ++ σ.tell m .cut) frames := by
  obtain ⟨e, he, hcut⟩ := hσ.tell_cut m
  exact .cut ⟨e, List.mem_append_right log he, hcut⟩

/-- A turn in which the frame is stepped. -/
theorem goes_top (hon : a.On origin m [] f rest) (htop : σ.top log f) {seen : Seen}
    (hturned : Turned natives a.thread m [] f rest seen frames) :
    σ.Goes a (log ++ σ.tell m seen) frames := by
  have ht : m.heap.Tidy := hon.beating.orderly.tidy
  have hnode {g : Frame} (hg : f.Follows natives a.thread m g) : g.node = some a.node :=
    (hg.serves ht).1.trans hon.node
  have hlength {rest' : List Frame} (hstay : Stay rest rest') : rest'.length = a.below :=
    hstay.length_eq.symm.trans hon.below
  -- A frame that was stepped meets a completion only where there is no room for its child.
  have hcrowded {g : Frame} {c : Completion} {h : Heap}
      (hfaces : Faces natives a.thread m [] f g c) :
      σ.complete (log ++ σ.tell m (.dropped c)) ∧ meet h g c = .ok .drop := by
    rcases hfaces with ⟨habove, -⟩ | ⟨-, hthrow, child, m₂, hrun⟩
    · exact absurd rfl habove
    obtain ⟨hunder, hdropped⟩ := hσ.step hon htop hrun
    refine ⟨hdropped c hthrow, ?_⟩
    rw [meet_of_not_trying (Frame.not_trying_of_steady (hσ.steady_under hunder)), meetPlain, hthrow]
  cases hturned with
  | cut => exact goes_cut hσ log frames
  | covered habove => exact absurd rfl habove
  | @pushed g child _ _ _ hrun hstay =>
    exact .on (.pushed (hlength hstay) (hnode (.pushed hrun)) (hσ.step hon htop hrun).1)
  | stayed _ hrun hstep hstay =>
    refine .on (.top (hlength hstay) (hnode (.stayed hrun hstep)) ?_)
    have honward := hσ.step hon htop hrun
    rcases hstep with rfl | rfl
    · exact honward
    · exact honward
  | done _ hrun hgone => exact .off (hσ.step hon htop hrun) (hon.below ▸ hgone)
  | gave _ hrun hgone => exact .off (hσ.step hon htop hrun) (hon.below ▸ hgone)
  | raised _ hrun hgone =>
    refine .off ?_ (hon.below ▸ hgone)
    rcases hrun with ⟨m₂, hrun⟩ | ⟨hthrow, hthrows⟩
    · exact hσ.step hon htop hrun
    · exact hσ.fail hon htop hthrows _ hthrow
  | handed habove => cases habove
  | referred habove => cases habove
  | freed habove => simp at habove
  | dropped hfaces _ hgone => exact .off (hcrowded (h := m.heap) hfaces).1 (hon.below ▸ hgone)
  | claimed hfaces hmeet hgone =>
    have hdrop := (hcrowded hfaces).2.symm.trans hmeet
    cases hdrop
  | caught hfaces hmeet _ =>
    have hdrop := (hcrowded hfaces).2.symm.trans hmeet
    cases hdrop

/-- A turn in which the frame has others above it. -/
theorem goes_under (hon : a.On origin m (up ++ [x]) f rest) (hunder : σ.under log f x) {seen : Seen}
    (hturned : Turned natives a.thread m (up ++ [x]) f rest seen frames)
    (hfollows : ∀ up' y f' rest', frames = up' ++ y :: f' :: rest' → rest'.length = rest.length →
      x.Follows natives a.thread m y) : σ.Goes a (log ++ σ.tell m seen) frames := by
  have hne : up ++ [x] ≠ [] := by simp
  have hlength {rest' : List Frame} (hstay : Stay rest rest') : rest'.length = a.below :=
    hstay.length_eq.symm.trans hon.below
  have hsame {g : Frame} (hg : f.Stays g) : g = f := hg.eq_of_steady (hσ.steady_under hunder)
  -- What a completion does to the frame that it meets.
  have hmeets {g : Frame} {c : Completion} {h : Heap}
      (hfaces : Faces natives a.thread m (up ++ [x]) f g c) :
      g = f ∧ f.isTrying = false ∧ meet h f c = .ok (meetPlain f c) := by
    have htrying := Frame.not_trying_of_steady (hσ.steady_under hunder)
    rcases hfaces with ⟨-, hg⟩ | ⟨habove, -⟩
    · exact ⟨hsame hg, htrying, meet_of_not_trying htrying⟩
    · exact absurd habove hne
  have hsingle {z : Frame} (h : up ++ [x] = [z]) : up = [] ∧ x = z := by
    cases up with
    | nil => exact ⟨rfl, List.head_eq_of_cons_eq h⟩
    | cons w up => simp at h
  cases hturned with
  | cut => exact goes_cut hσ log frames
  | @covered above' rest' f' _ hstill hf hstay =>
    obtain ⟨up', y, rfl⟩ := List.eq_nil_or_concat above' |>.resolve_left hstill
    obtain rfl := hsame hf
    have hframes : up'.concat y ++ f' :: rest' = up' ++ y :: f' :: rest' := by simp
    have hy := hfollows up' y f' rest' hframes hstay.length_eq.symm
    rw [hσ.tell_covered, List.append_nil, hframes]
    exact .on (.under (hlength hstay) hon.node (hσ.under_follows hon hunder hy))
  | pushed habove => exact absurd habove hne
  | stayed habove => exact absurd habove hne
  | done habove => exact absurd habove hne
  | gave habove => exact absurd habove hne
  | raised habove => exact absurd habove hne
  | handed habove hrun hf hstay =>
    obtain ⟨rfl, rfl⟩ := hsingle habove
    obtain rfl := hsame hf
    exact .on (.top (hlength hstay) hon.node (hσ.handed hon hunder hrun))
  | referred habove hrun hwant hf hstay =>
    obtain ⟨rfl, rfl⟩ := hsingle habove
    obtain rfl := hsame hf
    exact .on (.top (hlength hstay) hon.node (hσ.referred hon hunder hwant hrun))
  | freed habove hstops hf hstay =>
    obtain ⟨rfl, hx⟩ := List.append_inj' habove rfl
    obtain rfl := List.head_eq_of_cons_eq hx
    obtain rfl := hsame hf
    exact .on (.top (hlength hstay) hon.node (hσ.freed hon hunder hstops))
  | @dropped g h c _ hfaces hmeet hgone =>
    obtain ⟨rfl, htrying, hplain⟩ := hmeets (h := h) hfaces
    have hmet := hσ.meets m c hunder
    rcases hmeet with hdrop | htry
    · rw [hplain] at hdrop
      injection hdrop with hdrop
      rw [hdrop] at hmet
      exact .off hmet (hon.below ▸ hgone)
    · cases htrying.symm.trans htry
  | @claimed g h c _ hfaces hmeet hgone =>
    obtain ⟨rfl, -, hplain⟩ := hmeets (h := h) hfaces
    have hmet := hσ.meets m c hunder
    rw [hplain] at hmeet
    injection hmeet with hstop
    rw [hstop] at hmet
    exact .off hmet (hon.below ▸ hgone)
  | @caught g g' h c _ hfaces hmeet hstay =>
    obtain ⟨rfl, -, hplain⟩ := hmeets (h := h) hfaces
    have hmet := hσ.meets m c hunder
    rw [hplain] at hmeet
    injection hmeet with hcatch
    rw [hcatch] at hmet
    refine .on (.top (hlength hstay) ?_ hmet)
    rw [meetPlain_catch hcatch]
    exact hon.node

end Turns

/-! ## Whole evaluations -/

/-- The frame has just been put on the stack. -/
structure Fresh (σ : Story α) (a : Evaluation) (m : Machine) : Prop where
  known : a.Known m.heap
  pushed : ∃ f rest, m.frames a.thread = f :: rest ∧ rest.length = a.below ∧
    f.node = some a.node ∧ σ.top [] f

/-- What there is of an evaluation that is followed. -/
inductive Proceeds (σ : Story α) (a : Evaluation) (log : List α) (m : Machine) : Prop where
  | on (hat : σ.At a log (m.frames a.thread)) (hknown : a.Known m.heap)
  | off (h : σ.complete log) (hgone : (m.frames a.thread).length ≤ a.below)
  | cut (h : ∃ e ∈ log, σ.cut e)

theorem At.stay (hσ : σ.Truthful natives a) {frames' : List Frame} (hat : σ.At a log frames)
    (hstay : Stay frames frames') : σ.At a log frames' := by
  cases hat with
  | @top f rest hbelow hnode htop =>
    cases hstay with
    | cons hf hrest =>
      obtain rfl := hf.eq_of_steady (hσ.steady_top htop)
      exact .top (hrest.length_eq.symm.trans hbelow) hnode htop
  | @under up x f rest hbelow hnode hunder =>
    obtain ⟨up', y, below, rfl, hy, -, hbelow'⟩ := Stack.split hstay
    cases hbelow' with
    | cons hf hrest =>
      obtain rfl := hf.eq_of_steady (hσ.steady_under hunder)
      exact .under (hrest.length_eq.symm.trans hbelow) hnode (hσ.under_stays hunder hy)

/-- The frame is on the stack. -/
theorem At.exists_frame (hat : σ.At a log frames) : ∃ above f rest, frames = above ++ f :: rest ∧
    rest.length = a.below ∧ f.node = some a.node := by
  cases hat with
  | top hbelow hnode _ => exact ⟨[], _, _, rfl, hbelow, hnode⟩
  | @under up x f rest hbelow hnode _ => exact ⟨up ++ [x], f, rest, by simp, hbelow, hnode⟩

section Runs

variable (hcivil : natives.Each (Civil True)) (hmoderate : natives.Each Moderate)
  (hσ : σ.Truthful natives a)

include hcivil hmoderate hσ

/-- A turn in which the frame is on the stack. -/
theorem goes_turn (hm : Beating origin m) (hcurrent : m.currentThread = some a.thread)
    (hready : m.threadStatus a.thread = some .ready) (hknown : a.Known m.heap)
    (hat : σ.At a log (m.frames a.thread)) :
    σ.Goes a (log ++ σ.tell m (a.seen natives m))
      ((after (stepThread natives a.thread) m).frames a.thread) := by
  generalize hframes : m.frames a.thread = frames at hat
  cases hat with
  | @top f rest hbelow hnode htop =>
    have hframes' : m.frames a.thread = [] ++ f :: rest := hframes
    have hturned := turned hcivil hmoderate hm hcurrent hready hframes'
    rw [hbelow] at hturned
    exact goes_top hσ ⟨hm, hknown, hframes, hbelow, hnode⟩ htop hturned
  | @under up x f rest hbelow hnode hunder =>
    have hframes' : m.frames a.thread = (up ++ [x]) ++ f :: rest := by
      rw [hframes]
      simp
    have hturned := turned hcivil hmoderate hm hcurrent hready hframes'
    have hturned' := turned hcivil hmoderate hm hcurrent hready hframes
    rw [hbelow] at hturned
    by_cases hcut : Machine.seen natives a.thread (f :: rest).length m = .cut
    · have hseen : a.seen natives m = .cut := seen_of_cuts (cuts_of_seen hcut) a.below
      rw [hseen]
      exact goes_cut hσ log _
    · refine goes_under hσ ⟨hm, hknown, hframes', hbelow, hnode⟩ hunder hturned ?_
      intro up' y f' rest' hafter hlength
      exact hturned'.follows hcut hafter (by simp [hlength])

theorem Proceeds.turn (hproceeds : σ.Proceeds a log m) (hm : Beating origin m)
    (hthere : a.below < (m.frames a.thread).length) (hcurrent : m.currentThread = some a.thread)
    (hready : m.threadStatus a.thread = some .ready)
    (hcount : ∀ n, stepThread natives a.thread m ≠ .error .overflow n) :
    σ.Proceeds a (log ++ σ.tell m (a.seen natives m)) (after (stepThread natives a.thread) m) := by
  have hbeat : Beat natives m (some a.thread) (after (stepThread natives a.thread) m) :=
    .turn hcurrent hready hcount
  cases hproceeds with
  | on hat hknown =>
    cases goes_turn hcivil hmoderate hσ hm hcurrent hready hknown hat with
    | on hat' =>
      obtain ⟨above, f, rest, hframes, -, hnode⟩ := hat'.exists_frame
      exact .on hat' (hknown.spared (hm.beat hcivil hbeat) (hbeat.spares hcivil hmoderate hm)
        hframes hnode)
    | off hcomplete hgone => exact .off hcomplete hgone
    | cut h => exact .cut h
  | off _ hgone => exact absurd hthere (Nat.not_lt.2 hgone)
  | cut h =>
    obtain ⟨e, he, hcut⟩ := h
    exact .cut ⟨e, List.mem_append_left _ he, hcut⟩

theorem Proceeds.other {who : Option ThreadId} (hproceeds : σ.Proceeds a log m)
    (hm : Beating origin m) (hthere : a.below < (m.frames a.thread).length)
    (hbeat : Beat natives m who m')
    (hother : ¬ (m.currentThread = some a.thread ∧ who = some a.thread))
    (hstill : a.below < (m'.frames a.thread).length) : σ.Proceeds a log m' := by
  have hne : m'.frames a.thread ≠ [] := List.ne_nil_of_length_pos (Nat.zero_lt_of_lt hstill)
  cases hproceeds with
  | on hat hknown =>
    obtain ⟨above, f, rest, hframes, -, -⟩ := hat.exists_frame
    have hat' := hat.stay hσ (hbeat.stay hcivil hmoderate hm hother hframes hne)
    obtain ⟨above', f', rest', hframes', -, hnode'⟩ := hat'.exists_frame
    exact .on hat' (hknown.spared (hm.beat hcivil hbeat) (hbeat.spares hcivil hmoderate hm)
      hframes' hnode')
  | off _ hgone => exact absurd hthere (Nat.not_lt.2 hgone)
  | cut h => exact .cut h

/-- The story is true of the evaluation as long as it is followed. -/
theorem proceeds_of_told (hk : Played natives k) (hfresh : σ.Fresh a k)
    (hlog : Told natives a.thread a.below (fun m => σ.tell m (a.seen natives m)) k log m) :
    σ.Proceeds a log m := by
  obtain ⟨origin, hk⟩ := hk.beating hcivil
  induction hlog with
  | start =>
    obtain ⟨f, rest, hframes, hbelow, hnode, htop⟩ := hfresh.pushed
    exact .on (hframes ▸ .top hbelow hnode htop) hfresh.known
  | @turn log m m' hlog hthere hcurrent hbeat ih =>
    have hm := hk.beats hcivil hlog.beats
    cases hbeat with
    | pick _ hidle _ _ => cases hidle.symm.trans hcurrent
    | turn _ hready hcount => exact ih.turn hcivil hmoderate hσ hm hthere hcurrent hready hcount
  | @other log m m' who hlog hthere hbeat hother hstill ih =>
    have hm := hk.beats hcivil hlog.beats
    exact ih.other hcivil hmoderate hσ hm hthere hbeat hother hstill

end Runs

end Story

/-! ## Stages -/

/-- What is told of a turn, with the machine before it. -/
def Machine.Seen.toldAt (m : Machine) (seen : Seen) : List (Machine × Seen) :=
  seen.told.map fun e => (m, e)

/-- Turns that lead from one stage to another. -/
inductive Passes {S : Type} (turn : S → Machine → Seen → S → Prop) (start : S) :
    List (Machine × Seen) → S → Prop where
  | none : Passes turn start [] start
  | turn {log : List (Machine × Seen)} {s s' : S} {m : Machine} {seen : Seen}
    (h : Passes turn start log s) (hturn : turn s m seen s') :
    Passes turn start (log ++ [(m, seen)]) s'

/-- The stages of an evaluation and what leads from one to the next, with the form of the frame. -/
structure Course where
  Stage : Type
  start : Stage
  /-- The frame has left the stack. -/
  gone : Stage
  /-- What is seen in a turn of the machine leads from one stage to another. -/
  turn : Stage → Machine → Seen → Stage → Prop
  /-- The frame is on top. -/
  top : Stage → Frame → Prop
  /-- The frame is right below another. -/
  under : Stage → Frame → Frame → Prop

namespace Course

variable {τ : Course} {natives : Natives} {k m : Machine} {a : Evaluation}
  {log : List (Machine × Seen)}

/-- A step of the frame leads to the next stage. -/
def Onward (τ : Course) (s : τ.Stage) (m : Machine) : Step → Prop
  | .push g child => (∃ s', τ.turn s m (.pushed child) s' ∧ τ.under s' g child) ∧
    ∀ c : Completion, c.kind = .throw → τ.turn s m (.dropped c) τ.gone
  | .stay g => ∃ s', τ.turn s m .stayed s' ∧ τ.top s' g
  | .suspend g => ∃ s', τ.turn s m .stayed s' ∧ τ.top s' g
  | .done v => τ.turn s m (.done v) τ.gone
  | .ref r => τ.turn s m (.gave r) τ.gone
  | .unwind c => τ.turn s m (.raised c) τ.gone

/-- A completion that the frame meets leads to the next stage. -/
def Met (τ : Course) (s : τ.Stage) (m : Machine) (c : Completion) : Meeting → Prop
  | .drop => τ.turn s m (.dropped c) τ.gone
  | .stop => τ.turn s m (.claimed c) τ.gone
  | .catch g => ∃ s', τ.turn s m (.caught c) s' ∧ τ.top s' g

/-- Whatever happens to an evaluation leads from one stage to the next. -/
structure Truthful (natives : Natives) (a : Evaluation) (τ : Course) : Prop where
  gone_top : ∀ {f}, ¬ τ.top τ.gone f
  gone_under : ∀ {f x}, ¬ τ.under τ.gone f x
  steady_top : ∀ {s f}, τ.top s f → f.info.isSteady = true
  steady_under : ∀ {s f x}, τ.under s f x → f.info.isSteady = true
  under_stays : ∀ {s f x y}, τ.under s f x → x.Stays y → τ.under s f y
  under_follows : ∀ {origin m up s f x y rest}, a.On origin m (up ++ [x]) f rest →
    τ.under s f x → x.Follows natives a.thread m y → τ.under s f y
  step : ∀ {origin m s f rest step m₂}, a.On origin m [] f rest → τ.top s f →
    stepOf natives a.thread f m = .ok step m₂ → τ.Onward s m step
  fail : ∀ {origin m s f rest}, a.On origin m [] f rest → τ.top s f →
    Throws natives a.thread m f → ∀ c : Completion, c.kind = .throw →
      τ.turn s m (.raised c) τ.gone
  handed : ∀ {origin m s f x rest v m₂}, a.On origin m [x] f rest → τ.under s f x →
    stepOf natives a.thread x m = .ok (.done v) m₂ →
      ∃ s', τ.turn s m (.handed v) s' ∧ τ.top s' { f with value := v }
  referred : ∀ {origin m s f x rest r m₂}, a.On origin m [x] f rest → τ.under s f x →
    x.wantRef = true → stepOf natives a.thread x m = .ok (.ref r) m₂ →
      ∃ s', τ.turn s m (.referred r) s' ∧ τ.top s' { f with reference := some r }
  freed : ∀ {origin m up s f x rest}, a.On origin m (up ++ [x]) f rest → τ.under s f x →
    MayStop m.heap x → ∃ s', τ.turn s m .freed s' ∧ τ.top s' f
  meets : ∀ {s f x} (m : Machine) (c : Completion), τ.under s f x →
    τ.Met s m c (meetPlain f c)

/-- The turns that were seen are told as they led on. -/
def story (τ : Course) : Story (Machine × Seen) where
  tell := Seen.toldAt
  cut := fun e => e.2 = .cut
  top := fun log f => ∃ s, Passes τ.turn τ.start log s ∧ τ.top s f
  under := fun log f x => ∃ s, Passes τ.turn τ.start log s ∧ τ.under s f x
  complete := fun log => Passes τ.turn τ.start log τ.gone

theorem truthful_story (hτ : τ.Truthful natives a) : τ.story.Truthful natives a where
  tell_cut := fun m => ⟨(m, .cut), List.mem_cons_self, rfl⟩
  tell_covered := fun _ => rfl
  steady_top := fun ⟨_, _, htop⟩ => hτ.steady_top htop
  steady_under := fun ⟨_, _, hunder⟩ => hτ.steady_under hunder
  under_stays := fun ⟨s, hs, hunder⟩ hy => ⟨s, hs, hτ.under_stays hunder hy⟩
  under_follows := fun hon ⟨s, hs, hunder⟩ hy => ⟨s, hs, hτ.under_follows hon hunder hy⟩
  step := by
    rintro origin m log f rest step m₂ hon ⟨s, hs, htop⟩ hrun
    have honward := hτ.step hon htop hrun
    cases step with
    | push g child =>
      obtain ⟨⟨s', hturn, hunder⟩, hcrowded⟩ := honward
      exact ⟨⟨s', hs.turn hturn, hunder⟩, fun c hthrow => hs.turn (hcrowded c hthrow)⟩
    | stay g =>
      obtain ⟨s', hturn, htop'⟩ := honward
      exact ⟨s', hs.turn hturn, htop'⟩
    | suspend g =>
      obtain ⟨s', hturn, htop'⟩ := honward
      exact ⟨s', hs.turn hturn, htop'⟩
    | done v => exact hs.turn honward
    | ref r => exact hs.turn honward
    | unwind c => exact hs.turn honward
  fail := fun hon ⟨_, hs, htop⟩ hthrows c hthrow => hs.turn (hτ.fail hon htop hthrows c hthrow)
  handed := by
    rintro origin m log f x rest v m₂ hon ⟨s, hs, hunder⟩ hrun
    obtain ⟨s', hturn, htop⟩ := hτ.handed hon hunder hrun
    exact ⟨s', hs.turn hturn, htop⟩
  referred := by
    rintro origin m log f x rest r m₂ hon ⟨s, hs, hunder⟩ hwant hrun
    obtain ⟨s', hturn, htop⟩ := hτ.referred hon hunder hwant hrun
    exact ⟨s', hs.turn hturn, htop⟩
  freed := by
    rintro origin m up log f x rest hon ⟨s, hs, hunder⟩ hstops
    obtain ⟨s', hturn, htop⟩ := hτ.freed hon hunder hstops
    exact ⟨s', hs.turn hturn, htop⟩
  meets := by
    rintro log f x m c ⟨s, hs, hunder⟩
    have hmet := hτ.meets m c hunder
    cases hmeeting : meetPlain f c with
    | drop =>
      rw [hmeeting] at hmet
      exact hs.turn hmet
    | stop =>
      rw [hmeeting] at hmet
      exact hs.turn hmet
    | «catch» g =>
      rw [hmeeting] at hmet
      obtain ⟨s', hturn, htop⟩ := hmet
      exact ⟨s', hs.turn hturn, htop⟩

/-- A frame that is on the stack is in a stage that is not the last. -/
theorem exists_stage_of_at (hτ : τ.Truthful natives a) {frames : List Frame}
    (hat : τ.story.At a log frames) : ∃ s, Passes τ.turn τ.start log s ∧ s ≠ τ.gone := by
  cases hat with
  | top _ _ htop =>
    obtain ⟨s, hs, htop⟩ := htop
    refine ⟨s, hs, ?_⟩
    rintro rfl
    exact hτ.gone_top htop
  | under _ _ hunder =>
    obtain ⟨s, hs, hunder⟩ := hunder
    refine ⟨s, hs, ?_⟩
    rintro rfl
    exact hτ.gone_under hunder

/-- Unless the thread is ended, what is told of an evaluation leads to a stage of it, and to the last
one when its frame has left the stack. -/
theorem passes_of_told (hcivil : natives.Each (Civil True)) (hmoderate : natives.Each Moderate)
    (hτ : τ.Truthful natives a) (hk : Played natives k) (hknown : a.Known k.heap) {f : Frame}
    {rest : List Frame} (hframes : k.frames a.thread = f :: rest) (hbelow : rest.length = a.below)
    (hnode : f.node = some a.node) (htop : τ.top τ.start f)
    (hlog : Told natives a.thread a.below (fun m => (a.seen natives m).toldAt m) k log m)
    (hcut : ∀ e ∈ log, e.2 ≠ .cut) : ∃ s, Passes τ.turn τ.start log s ∧
      (s = τ.gone ↔ (m.frames a.thread).length ≤ a.below) := by
  have hfresh : τ.story.Fresh a k :=
    ⟨hknown, f, rest, hframes, hbelow, hnode, τ.start, .none, htop⟩
  cases Story.proceeds_of_told hcivil hmoderate (truthful_story hτ) hk hfresh hlog with
  | on hat _ =>
    have hthere : a.below < (m.frames a.thread).length := by
      obtain ⟨above, f, rest, hon, hlength, -⟩ := hat.exists_frame
      rw [hon, List.length_append, List.length_cons, hlength]
      omega
    obtain ⟨s, hs, hstage⟩ := exists_stage_of_at hτ hat
    exact ⟨s, hs, iff_of_false hstage (Nat.not_le.2 hthere)⟩
  | off hcomplete hgone => exact ⟨τ.gone, hcomplete, iff_of_true rfl hgone⟩
  | cut h =>
    obtain ⟨e, he, hcut'⟩ := h
    exact absurd hcut' (hcut e he)

end Course

end ScriptMachine
