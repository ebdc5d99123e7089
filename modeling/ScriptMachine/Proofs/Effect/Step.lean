import ScriptMachine.Proofs.Effect.Frame
import ScriptMachine.Proofs.Effect.Operation

/-!
# Effects of steps

A step of a node makes changes of the owner its scope acts as, and what it leaves on the stack runs
in that scope. Only a handler gets a scope of its own. The frame of a literal comes to hold an object
in the first step of the literal only, and that object is new.
-/

namespace ScriptMachine

/-- The object that a frame is building is none of the old ones. -/
def Frame.BuildsNew (f : Frame) (old : ObjectId → Prop) : Prop :=
  ∀ id, f.info = .object id → ¬ old id

/-- The frames that a step leaves on the stack run in scopes of a kind. -/
def Step.StaysIn (P : ScopeId → Prop) : Step → Prop
  | .push f child => P f.scope ∧ P child.scope
  | .stay f => P f.scope
  | .suspend f => P f.scope
  | .done _ => True
  | .ref _ => True
  | .unwind _ => True

theorem Step.StaysIn.mono {P Q : ScopeId → Prop} {step : Step} (h : step.StaysIn P)
    (hPQ : ∀ id, P id → Q id) : step.StaysIn Q := by
  cases step with
  | push f child => exact ⟨hPQ _ h.1, hPQ _ h.2⟩
  | stay f => exact hPQ _ h
  | suspend f => exact hPQ _ h
  | _ => trivial

theorem Step.Leads.staysIn {made : ObjectId → Prop} {P : ScopeId → Prop} {f : Frame} {step : Step}
    (h : step.Leads made (· = f.scope) f) (hP : P f.scope) : step.StaysIn P := by
  have hgoes {g : Frame} (hg : f.GoesOn made g) : P g.scope := hg.scope.symm ▸ hP
  cases step with
  | push g child => exact ⟨hgoes h.1, h.2.1.symm ▸ hP⟩
  | stay g => exact hgoes h
  | suspend g => exact hgoes h
  | _ => trivial

namespace Machine

open Exec
open ScriptMachine.Tree (NodeId NodeKind BinaryOp)

variable {old : ObjectId → Prop} {scope : ScopeId} {actor : Option Owner} {f : Frame}

/-- The step runs in the scope of its frame. -/
abbrev StaysAt (scope : ScopeId) (step : Step) : Prop := step.StaysIn (· = scope)

/-! ## Literals -/

/-- The object a literal is building is new, or was made when the literal was entered. -/
theorem doesAt_literalObject {m : Machine} (hh : m.heap.Holds old) (hnew : f.BuildsNew old)
    {create : Option Owner → Exec ObjectId}
    (hcreate : ∀ owner, DoesAt old actor m (fun id _ => ¬ old id) (create owner)) :
    DoesAt old actor m (fun id _ => ¬ old id) (literalObject f create) := by
  unfold literalObject
  split
  · rename_i id hinfo
    exact doesAt_pure (hnew id hinfo)
  · refine (doesAt_query _).bind fun owner m' _ hm' => ?_
    obtain ⟨rfl, -⟩ := hm'
    exact hcreate owner

theorem doesAt_stepArray {m : Machine} (hh : m.heap.Holds old) (hnew : f.BuildsNew old)
    (here : NodeRef) (elements : List (Option NodeId)) :
    DoesAt old actor m (fun _ _ => True) (stepArray f here elements) := by
  unfold stepArray
  refine (doesAt_literalObject hh hnew fun owner => ?_).bind fun id m' _ hid => ?_
  · refine (doesAt_query _).bind fun proto m' _ hm' => ?_
    obtain ⟨rfl, -⟩ := hm'
    exact doesAt_alloc hh _
  extract_lets stored cleared g next rest
  have hrest : ∀ u m, DoesAt old actor m (fun _ _ => True) (rest u) := by
    intro u m
    dsimp only [rest]
    split
    · exact doesAt_pure trivial
    · refine (doesAt_build hid fun o => sameShell_put o _ _).bind fun _ _ _ _ => ?_
      exact doesAt_pure trivial
  split
  · exact (doesAt_build hid fun o => sameShell_put o _ _).bind fun u m' _ _ => hrest u m'
  · exact hrest () m'

theorem doesAt_stepObject {m : Machine} (hh : m.heap.Holds old) (hnew : f.BuildsNew old)
    (here : NodeRef) (properties : List Tree.PropertyInit) :
    DoesAt old actor m (fun _ _ => True) (stepObject f here properties) := by
  unfold stepObject
  refine (doesAt_literalObject hh hnew fun owner => doesAt_createPlainObject hh owner).bind
    fun id m' _ hid => ?_
  extract_lets stored cleared g rest
  have hrest : ∀ u m, DoesAt old actor m (fun _ _ => True) (rest u) := by
    intro u m
    dsimp only [rest]
    split
    · exact doesAt_pure trivial
    · exact doesAt_pure trivial
  cases stored with
  | none => exact hrest () m'
  | some init =>
    exact (doesAt_build hid fun o => sameShell_put o _ _).bind fun u m' _ _ => hrest u m'

/-! ## Completions -/

theorem recordIn_scopes (v : Value) (frames : List Frame) :
    (Stack.recordIn v frames).map Frame.scope = frames.map Frame.scope := by
  fun_induction Stack.recordIn v frames with
  | case1 => rfl
  | case2 f rest _ _ => rfl
  | case3 f rest _ _ => rfl
  | case4 f rest _ _ ih => simp [ih]

theorem keepsScopes_recordCompletion (t : Thread) (v : Value) :
    t.KeepsScopes { t with stack := t.stack.recordCompletion v } := by
  refine ⟨rfl, fun f hf => ?_⟩
  have hscope : f.scope ∈ (Stack.recordIn v t.stack.frames).map Frame.scope :=
    List.mem_map_of_mem hf
  rw [recordIn_scopes, List.mem_map] at hscope
  obtain ⟨g, hg, hgf⟩ := hscope
  exact ⟨g, hg, hgf.symm⟩

/-! ## Steps of nodes -/

/-- A step of a frame makes changes of the owner its scope acts as, and all that it leaves on the
stack acts as that owner. -/
def Runs (f : Frame) (actor : Option Owner) (x : Exec Step) : Prop :=
  ∀ old m, m.heap.Holds old → f.BuildsNew old → m.ActsAs f.scope actor →
    DoesAt old actor m (fun step m' => step.StaysIn (m'.ActsAs · actor)) x

/-- A step that stays in the scope of its frame. -/
theorem runs_of_doesAt {x : Exec Step} (h : ∀ old m, m.heap.Holds old → f.BuildsNew old →
    m.ActsAs f.scope actor → DoesAt old actor m (fun step _ => StaysAt f.scope step) x) :
    Runs f actor x := by
  intro old m hh hnew hacts
  obtain ⟨hchanges, hstays⟩ := h old m hh hnew hacts
  refine ⟨hchanges, fun step m' hrun => ?_⟩
  rw [after_of_ok hrun] at hchanges
  refine (hstays step m' hrun).mono fun id hid => ?_
  exact hid ▸ hchanges.actsAs hh.toTidy hacts

theorem runs_of_does {x : Exec Step} (h : Does f.scope actor (StaysAt f.scope) x) :
    Runs f actor x :=
  runs_of_doesAt fun old m hh _ hacts => h old m hh hacts

theorem runs_of_effects {made : ObjectId → Prop} {x : Exec Step}
    (hleads : Provides (Step.Leads made (· = f.scope) f) x)
    (h : Effects f.scope actor x) : Runs f actor x :=
  runs_of_does fun old m hh hacts =>
    ⟨(h old m hh hacts).1, fun step m' hrun => (hleads m step m' hrun).staysIn rfl⟩

theorem runs_pure {step : Step} (h : StaysAt f.scope step) : Runs f actor (pure step) :=
  runs_of_does (does_pure h)

/-- The scope of a handler acts as the scope around it. -/
theorem runs_stepTry (here : NodeRef) (block : NodeId) (handler : Option Tree.CatchClause)
    (finalizer : Option NodeId) : Runs f actor (stepTry f here block handler finalizer) := by
  unfold stepTry
  split
  · exact runs_pure ⟨rfl, rfl⟩
  · split
    · exact runs_pure ⟨rfl, rfl⟩
    · exact runs_pure trivial
  · split
    · exact runs_of_does (does_throw _)
    · intro old m hh _ hacts
      refine DoesAt.bind (does_scopeOwner old m hh hacts) fun owner m₁ h₁ howner => ?_
      have hh₁ := h₁.holds hh
      refine DoesAt.bind (doesAt_newScope hh₁.toTidy _ _ owner _) fun id m₂ h₂ hid => ?_
      have hh₂ := h₂.holds hh₁
      have hacts₂ := h₂.actsAs hh₁.toTidy (h₁.actsAs hh.toTidy hacts)
      subst howner
      refine DoesAt.bind (effects.declare id _ _ _ old m₂ hh₂ hacts₂) fun _ m₃ h₃ _ => ?_
      exact doesAt_pure ⟨h₃.actsAs hh₂.toTidy hacts₂, h₃.actsAs hh₂.toTidy hid⟩
  · split
    · exact runs_pure trivial
    · exact runs_pure trivial
  · split
    · exact runs_of_does (does_throw _)
    · exact runs_pure ⟨rfl, rfl⟩

theorem runs_stepNode (thread : ThreadId) (here : NodeRef) (program : Tree.Program)
    (kind : NodeKind) : Runs f actor (stepNode thread f here program kind) := by
  have hsimple (hkind : Simple kind) : Runs f actor (stepNode thread f here program kind) := by
    have hadvances : Advancing (fun _ => False) kind here f (stepNode thread f here program kind) :=
      advancing_stepNode thread program hkind
    refine runs_of_effects (hadvances.mono fun _ h => h.leads) ?_
    refine plain_stepNode effects_acting f here (effects_checkTimeLimit thread) rfl program kind
      (fun _ _ _ v => effects_modifyThread thread fun t => keepsScopes_recordCompletion t v) ?_ ?_
    · rintro elements rfl
      exact hkind.elim
    · rintro properties rfl
      exact hkind.elim
  cases kind with
  | array elements =>
    refine runs_of_doesAt fun old m hh hnew _ =>
      ⟨(doesAt_stepArray hh hnew here elements).1, fun step m' hrun => ?_⟩
    obtain ⟨_, _, _, hadvances⟩ := advances_of_stepArray hrun
    exact hadvances.leads.staysIn rfl
  | object properties =>
    refine runs_of_doesAt fun old m hh hnew _ =>
      ⟨(doesAt_stepObject hh hnew here properties).1, fun step m' hrun => ?_⟩
    obtain ⟨_, _, _, hadvances⟩ := advances_of_stepObject hrun
    exact hadvances.leads.staysIn rfl
  | tryStatement block handler finalizer => exact runs_stepTry here block handler finalizer
  | _ => exact hsimple trivial

/-! ## What a step builds -/

variable {m m' : Machine} {id : ObjectId} {step : Step}

/-- The object is live, and the frame does not build it. -/
def Standing (m : Machine) (f : Frame) (id : ObjectId) : Prop :=
  (∃ o, m.heap.object? id = some o) ∧ ¬ f.Builds id

theorem holds_standing (ht : m.heap.Tidy) (f : Frame) : m.heap.Holds (m.Standing f) :=
  ⟨ht, fun _ hid => hid.1⟩

/-- What a literal builds is what it has been building, or it is new. -/
theorem not_standing_of_literalObject (ht : m.heap.Tidy) {create : Option Owner → Exec ObjectId}
    (hcreate : ∀ owner, DoesAt (m.Standing f) none m (fun id _ => ¬ m.Standing f id) (create owner))
    (hrun : literalObject f create m = .ok id m') : ¬ m.Standing f id := by
  have hnew : f.BuildsNew (m.Standing f) := fun _ hbuilds hstanding => hstanding.2 hbuilds
  exact (doesAt_literalObject (holds_standing ht f) hnew hcreate).2 id m' hrun

/-- A step makes no live object one that its frame builds. -/
def LeadsOn (m : Machine) (f : Frame) (step : Step) : Prop :=
  ∃ made, (∀ id, made id → ¬ m.Standing f id) ∧ step.Leads made (fun _ => True) f

theorem leadsOn_of_provides {x : Exec Step}
    (hx : ProvidesAway (fun _ => False) f x) (hrun : x m = .ok step m') : m.LeadsOn f step :=
  ⟨fun _ => False, fun _ h => h.elim, hx m step m' hrun⟩

theorem leadsOn_of_stepNode (ht : m.heap.Tidy) (thread : ThreadId) (here : NodeRef)
    (program : Tree.Program) (kind : NodeKind)
    (hrun : stepNode thread f here program kind m = .ok step m') : m.LeadsOn f step := by
  have hsimple (hkind : Simple kind) : m.LeadsOn f step :=
    leadsOn_of_provides ((advancing_stepNode thread program hkind).mono fun _ h => h.leads.away) hrun
  cases kind with
  | array elements =>
    obtain ⟨built, n, hbuilt, hadvances⟩ := advances_of_stepArray hrun
    refine ⟨(· = built), fun id hid => hid ▸ not_standing_of_literalObject ht (fun owner => ?_) hbuilt,
      hadvances.leads.away⟩
    refine (doesAt_query _).bind fun proto n _ hn => ?_
    obtain ⟨rfl, -⟩ := hn
    exact doesAt_alloc (holds_standing ht f) _
  | object properties =>
    obtain ⟨built, n, hbuilt, hadvances⟩ := advances_of_stepObject hrun
    exact ⟨(· = built), fun id hid => hid ▸ not_standing_of_literalObject ht
      (doesAt_createPlainObject (holds_standing ht f)) hbuilt, hadvances.leads.away⟩
  | tryStatement block handler finalizer =>
    exact leadsOn_of_provides (leads_stepTry here block handler finalizer) hrun
  | _ => exact hsimple trivial

/-- What a step of any frame leaves of it, whatever the host functions. -/
theorem leadsOn_of_dispatch {natives : Natives} (ht : m.heap.Tidy) (thread : ThreadId)
    (hrun : dispatch natives thread f m = .ok step m') : m.LeadsOn f step := by
  unfold dispatch at hrun
  cases hnode : f.node with
  | none =>
    rw [hnode] at hrun
    exact leadsOn_of_provides (leads_stepCall natives thread) hrun
  | some here =>
    rw [hnode] at hrun
    obtain ⟨program, n, hprogram, hrun⟩ := bind_eq_ok_iff.1 hrun
    obtain ⟨-, rfl⟩ := query_eq_ok_iff.1 hprogram
    obtain ⟨kind, n, hkind, hrun⟩ := bind_eq_ok_iff.1 hrun
    obtain ⟨-, rfl⟩ := query_eq_ok_iff.1 hkind
    exact leadsOn_of_stepNode ht thread here program kind hrun

/-- A frame that is stepped comes to build nothing that was live before. -/
theorem LeadsOn.not_builds (h : m.LeadsOn f step) (hid : m.Standing f id) :
    ∀ g ∈ step.frames, ¬ g.Builds id := by
  obtain ⟨made, hmade, hleads⟩ := h
  have hgoes {g : Frame} (hg : f.GoesOn made g) : ¬ g.Builds id := fun hbuilds =>
    (hg.builds id hbuilds).elim hid.2 fun h => hmade id h hid
  intro g hg
  cases step with
  | push e child =>
    rcases List.mem_cons.1 hg with rfl | hg
    · exact hleads.2.2 id
    · obtain rfl := List.mem_singleton.1 hg
      exact hgoes hleads.1
  | stay e =>
    obtain rfl := List.mem_singleton.1 hg
    exact hgoes hleads
  | suspend e =>
    obtain rfl := List.mem_singleton.1 hg
    exact hgoes hleads
  | done v => cases hg
  | ref r => cases hg
  | unwind c => cases hg

end Machine

end ScriptMachine
