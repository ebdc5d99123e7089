import ScriptMachine.Proofs.Beats.Log
import ScriptMachine.Proofs.Effect.Step

/-!
# What a turn does to one frame

The frame of a thread with some number of frames below it is either the one that is stepped, or it has
others above it. A turn tells apart what may come to it: it puts a child on top of itself, it is done,
what was on top hands it a value or a place, a jump ends right above it, or a completion meets it.
-/

namespace ScriptMachine

open Machine Exec Stack

namespace Machine

variable {natives : Natives} {origin m m₁ m₂ n : Machine} {thread : ThreadId}
  {e f g x child : Frame} {above rest frames : List Frame} {c : Completion} {h : Heap}

/-- The step of the top frame of a thread, which is taken off the stack first. -/
abbrev stepOf (natives : Natives) (thread : ThreadId) (f : Frame) (m : Machine) :
    EStateM.Result Failure Machine Step :=
  dispatch natives thread f (m.restacked thread (·.dropTop))

/-- What the step of the top frame of a thread asks for, if it does not fail. -/
def nextStep (natives : Natives) (thread : ThreadId) (m : Machine) : Option Step :=
  match m.frames thread with
  | [] => none
  | f :: _ =>
    match stepOf natives thread f m with
    | .ok step _ => some step
    | .error _ _ => none

/-- A completion may end with a frame: it is one of a loop, a switch or a try statement, or it has a
label. -/
def MayStop (h : Heap) (f : Frame) : Prop :=
  f.labels ≠ [] ∨ ∃ here p kind, f.node = some here ∧ h.program? here.program = some p ∧
    p.kind? here.node = some kind ∧
      (kind.isLoop = true ∨ kind.isSwitch = true ∨ kind.isTry = true)

/-! ## The whole stack -/

/-- The step of a frame fails with something that is thrown. -/
def Throws (natives : Natives) (thread : ThreadId) (m : Machine) (f : Frame) : Prop :=
  ∃ failure m₂, stepOf natives thread f m = .error failure m₂ ∧ failure.isFault = false

/-- What a turn in which a frame above others is stepped comes to. -/
inductive Comings (natives : Natives) (thread : ThreadId) (m : Machine) (e : Frame)
    (rest : List Frame) : EStateM.Result Failure Machine Progress → Prop where
  | cut {result : EStateM.Result Failure Machine Progress} (h : Cuts result) :
    Comings natives thread m e rest result
  | placed {g child : Frame} {m₂ n : Machine} {rest' : List Frame}
    (hrun : stepOf natives thread e m = .ok (.push g child) m₂) (hstay : Stay rest rest')
    (hframes : n.frames thread = child :: g :: rest') : Comings natives thread m e rest (.ok .quiet n)
  | crowded {g child : Frame} {v : Value} {m₂ n : Machine} {rest' : List Frame}
    (hrun : stepOf natives thread e m = .ok (.push g child) m₂) (hstay : Stay rest rest')
    (hholds : Holds thread (g :: rest') n) :
    Comings natives thread m e rest (.ok (.unwinding { kind := .throw, value := v }) n)
  | kept {g : Frame} {step : Step} {m₂ n : Machine} {rest' : List Frame}
    (hrun : stepOf natives thread e m = .ok step m₂) (hstep : step = .stay g ∨ step = .suspend g)
    (hstay : Stay rest rest') (hframes : n.frames thread = g :: rest') :
    Comings natives thread m e rest (.ok .quiet n)
  /-- The base of the stack is done. -/
  | finished {v : Value} {m₂ n : Machine} (hrun : stepOf natives thread e m = .ok (.done v) m₂)
    (hrest : rest = []) (hframes : n.frames thread = []) :
    Comings natives thread m e rest (.ok .quiet n)
  | handed {v : Value} {m₂ n : Machine} {rest' : List Frame}
    (hrun : stepOf natives thread e m = .ok (.done v) m₂) (hstay : Stay rest rest')
    (hframes : n.frames thread = rest'.modifyHead fun p => { p with value := v }) :
    Comings natives thread m e rest (.ok .quiet n)
  | referred {r : Reference} {m₂ n : Machine} {rest' : List Frame}
    (hrun : stepOf natives thread e m = .ok (.ref r) m₂) (hstay : Stay rest rest')
    (hframes : n.frames thread = rest'.modifyHead fun p => { p with reference := some r }) :
    Comings natives thread m e rest (.ok .quiet n)
  | raised {c : Completion} {n : Machine} {rest' : List Frame}
    (hrun : (∃ m₂, stepOf natives thread e m = .ok (.unwind c) m₂) ∨
      c.kind = .throw ∧ Throws natives thread m e)
    (hstay : Stay rest rest') (hholds : Holds thread rest' n) :
    Comings natives thread m e rest (.ok (.unwinding c) n)

theorem Popped.eq_restacked (hp : Popped origin thread e rest m m₁) :
    m₁ = m.restacked thread (·.dropTop) := by
  obtain ⟨t, ht, hframes⟩ := exists_of_frames hp.frames
  have hrun := popFrame_run ht
  have htop : t.stack.top? = some e := by
    unfold Stack.top?
    rw [hframes]
    rfl
  rw [htop, hp.run] at hrun
  injection hrun

section Turns

variable (hcivil : natives.Each (Civil True)) (hmoderate : natives.Each Moderate)

include hcivil hmoderate

/-- A place is handed to the frame below. -/
theorem Popped.cuts_or_refers (hp : Popped origin thread f rest m m₁) {r : Reference}
    (hrun : dispatch natives thread f m₁ = .ok (.ref r) m₂) :
    Cuts (advance natives thread m) ∨ ∃ n rest', advance natives thread m = .ok .quiet n ∧
      Stay rest rest' ∧
        n.frames thread = rest'.modifyHead fun p => { p with reference := some r } := by
  rcases hp.cuts_or_carries hcivil hmoderate hrun with hcuts | ⟨hcarry, -, rest', hholds, hstay⟩
  · exact .inl hcuts
  by_cases hempty : rest' = []
  · subst hempty
    obtain ⟨n, hrun', -⟩ := hholds.run_fault (α := Unit) (.fault .referenceAtBase)
    have happly : applyStep thread (.ref r) m₂ = .error (.fault .referenceAtBase) n :=
      (hholds.run_hand _ _).trans hrun'
    have hfails : advance natives thread m = .error (.fault .referenceAtBase) n := by
      rw [hcarry]
      exact (bind_run _ _ m₂).trans (by rw [happly])
    rw [hfails]
    exact .inl trivial
  · have happly : applyStep thread (.ref r) m₂ = .ok () _ := (hholds.run_hand _ _).trans
      ((if_neg hempty).trans
        (hholds.run_restack (·.modifyTop fun p => { p with reference := some r })))
    refine .inr ⟨_, rest', hcarry.trans (bind_run_of_ok happly), hstay, ?_⟩
    exact (hholds.restacked fun s hs => by rw [frames_modifyTop, hs] : Holds thread _ _).frames

/-- Every turn is one of these. -/
theorem Popped.comings (hp : Popped origin thread e rest m m₁) :
    Comings natives thread m e rest (advance natives thread m) := by
  obtain rfl := hp.eq_restacked
  cases hrun : stepOf natives thread e m with
  | error failure m₂ =>
    rcases hp.cuts_or_throws hcivil hmoderate hrun with
      hcuts | ⟨hfault, v, n, rest', hstay, hadvance, hholds⟩
    · exact .cut hcuts
    · rw [hadvance]
      exact .raised (.inr ⟨rfl, failure, m₂, hrun, hfault⟩) hstay hholds
  | ok step m₂ =>
    have hkeeps {g : Frame} (hstep : step = .stay g ∨ step = .suspend g) :
        Comings natives thread m e rest (advance natives thread m) := by
      rcases hp.cuts_or_carries hcivil hmoderate hrun with
        hcuts | ⟨hcarry, -, rest', hholds, hstay⟩
      · exact .cut hcuts
      · rw [hcarry, hholds.run_carry_push hstep]
        exact .kept hrun hstep hstay (hholds.pushed g).frames
    cases step with
    | push g child =>
      rcases hp.cuts_or_places hcivil hmoderate hrun with
        hcuts | ⟨rest', n, hstay, ⟨-, hadvance, hframes⟩ | ⟨-, v, hadvance, hholds⟩⟩
      · exact .cut hcuts
      · rw [hadvance]
        exact .placed hrun hstay hframes
      · rw [hadvance]
        exact .crowded hrun hstay hholds
    | stay g => exact hkeeps (.inl rfl)
    | suspend g => exact hkeeps (.inr rfl)
    | done v =>
      rcases hp.cuts_or_hands hcivil hmoderate hrun with
        hcuts | ⟨n, hadvance, ⟨hrest, hframes⟩ | ⟨rest', hstay, hframes⟩⟩
      · exact .cut hcuts
      · rw [hadvance]
        exact .finished hrun hrest hframes
      · rw [hadvance]
        exact .handed hrun hstay hframes
    | ref r =>
      rcases hp.cuts_or_refers hcivil hmoderate hrun with
        hcuts | ⟨n, rest', hadvance, hstay, hframes⟩
      · exact .cut hcuts
      · rw [hadvance]
        exact .referred hrun hstay hframes
    | unwind c =>
      rcases hp.cuts_or_unwinds hcivil hmoderate hrun with
        hcuts | ⟨n, rest', hstay, hadvance, hholds⟩
      · exact .cut hcuts
      · rw [hadvance]
        exact .raised (.inl ⟨m₂, hrun⟩) hstay hholds

end Turns

/-! ## One frame of the stack -/

/-- What a turn of its thread does to a frame. -/
inductive Seen where
  /-- The thread is ended without unwinding: it is killed, or there is a fault of the host. -/
  | cut
  /-- There were frames above, and there still are. -/
  | covered
  /-- The frame is stepped and puts a child on top of itself. -/
  | pushed (child : Frame)
  /-- The frame is stepped and stays on top. -/
  | stayed
  /-- The frame is stepped and leaves the stack with a value. -/
  | done (v : Value)
  /-- The frame is stepped and leaves the stack with a place. -/
  | gave (r : Reference)
  /-- The frame is stepped, and leaves the stack with a completion. -/
  | raised (c : Completion)
  /-- The only frame above leaves the stack with a value. -/
  | handed (v : Value)
  /-- The only frame above leaves the stack with a place. -/
  | referred (r : Reference)
  /-- A jump ends right above the frame. -/
  | freed
  /-- A completion meets the frame, which leaves the stack, and goes on. -/
  | dropped (c : Completion)
  /-- A jump ends with the frame, which leaves the stack. -/
  | claimed (c : Completion)
  /-- A completion ends with the frame, which stays. -/
  | caught (c : Completion)
  deriving DecidableEq, Repr

/-- A frame that has others above it all along is nothing to tell of. -/
def Seen.told : Seen → List Seen
  | .covered => []
  | seen => [seen]

/-- What is seen of the frame that is stepped. -/
def seenStepped : Option Step → Seen
  | some (.push _ child) => .pushed child
  | some (.done v) => .done v
  | some (.ref r) => .gave r
  | _ => .stayed

/-- What is seen of a frame when the last one above it is stepped and leaves the stack. -/
def seenGiven : Option Step → Seen
  | some (.done v) => .handed v
  | some (.ref r) => .referred r
  | _ => .covered

/-- What a turn that comes to no completion does to the frame with so many frames below it. -/
def seenQuietly (below : Nat) (step : Option Step) (before left : List Frame) : Seen :=
  if before.length = below + 1 then seenStepped step
  else if left.length = below + 1 then seenGiven step
  else .covered

/-- What becomes of a frame that a completion meets. -/
def seenMeeting (h : Heap) (c : Completion) (f : Frame) : Seen :=
  match meet h f c with
  | .ok .stop => .claimed c
  | .ok (.catch _) => .caught c
  | _ => .dropped c

/-- What a completion does to the frame with so many frames below it. -/
def seenUnwinding (below : Nat) (h : Heap) (c : Completion) : List Frame → Seen
  | [] => .raised c
  | f :: rest =>
    if rest.length < below then .raised c
    else if rest.length = below then seenMeeting h c f
    else
      match meet h f c with
      | .ok .drop => seenUnwinding below h c rest
      | .ok (.catch _) => .covered
      | _ => if rest.length = below + 1 then .freed else .covered

/-- What the next turn of a thread does to the frame with so many frames below it. -/
def seen (natives : Natives) (thread : ThreadId) (below : Nat) (m : Machine) : Seen :=
  match advance natives thread m with
  | .error _ _ => .cut
  | .ok .struck _ => .cut
  | .ok .quiet n =>
    seenQuietly below (nextStep natives thread m) (m.frames thread) (n.frames thread)
  | .ok (.unwinding c) n => seenUnwinding below n.heap c (n.frames thread)

/-- A frame meets a completion: frames above it do not stop it, or there is no room for a child of
the frame, which was stepped. -/
def Faces (natives : Natives) (thread : ThreadId) (m : Machine) (above : List Frame) (f g : Frame)
    (c : Completion) : Prop :=
  above ≠ [] ∧ f.Stays g ∨ above = [] ∧ c.kind = .throw ∧
    ∃ child m₂, stepOf natives thread f m = .ok (.push g child) m₂

/-- What a turn of its thread does to a frame, and the frames after the turn. -/
inductive Turned (natives : Natives) (thread : ThreadId) (m : Machine) (above : List Frame)
    (f : Frame) (rest : List Frame) : Seen → List Frame → Prop where
  | cut {frames : List Frame} : Turned natives thread m above f rest .cut frames
  | covered {above' rest' : List Frame} {f' : Frame} (habove : above ≠ []) (hstill : above' ≠ [])
    (hf : f.Stays f') (hstay : Stay rest rest') :
    Turned natives thread m above f rest .covered (above' ++ f' :: rest')
  | pushed {g child : Frame} {m₂ : Machine} {rest' : List Frame} (habove : above = [])
    (hrun : stepOf natives thread f m = .ok (.push g child) m₂) (hstay : Stay rest rest') :
    Turned natives thread m above f rest (.pushed child) (child :: g :: rest')
  | stayed {g : Frame} {step : Step} {m₂ : Machine} {rest' : List Frame} (habove : above = [])
    (hrun : stepOf natives thread f m = .ok step m₂) (hstep : step = .stay g ∨ step = .suspend g)
    (hstay : Stay rest rest') : Turned natives thread m above f rest .stayed (g :: rest')
  | done {v : Value} {m₂ : Machine} {frames : List Frame} (habove : above = [])
    (hrun : stepOf natives thread f m = .ok (.done v) m₂) (hgone : frames.length ≤ rest.length) :
    Turned natives thread m above f rest (.done v) frames
  | gave {r : Reference} {m₂ : Machine} {frames : List Frame} (habove : above = [])
    (hrun : stepOf natives thread f m = .ok (.ref r) m₂) (hgone : frames.length ≤ rest.length) :
    Turned natives thread m above f rest (.gave r) frames
  | raised {c : Completion} {frames : List Frame} (habove : above = [])
    (hrun : (∃ m₂, stepOf natives thread f m = .ok (.unwind c) m₂) ∨
      c.kind = .throw ∧ Throws natives thread m f)
    (hgone : frames.length ≤ rest.length) :
    Turned natives thread m above f rest (.raised c) frames
  | handed {x g : Frame} {v : Value} {m₂ : Machine} {rest' : List Frame} (habove : above = [x])
    (hrun : stepOf natives thread x m = .ok (.done v) m₂) (hf : f.Stays g)
    (hstay : Stay rest rest') :
    Turned natives thread m above f rest (.handed v) ({ g with value := v } :: rest')
  | referred {x g : Frame} {r : Reference} {m₂ : Machine} {rest' : List Frame} (habove : above = [x])
    (hrun : stepOf natives thread x m = .ok (.ref r) m₂) (hwant : x.wantRef = true)
    (hf : f.Stays g) (hstay : Stay rest rest') :
    Turned natives thread m above f rest (.referred r) ({ g with reference := some r } :: rest')
  | freed {up rest' : List Frame} {x f' : Frame} (habove : above = up ++ [x])
    (hhalts : MayStop m.heap x) (hf : f.Stays f') (hstay : Stay rest rest') :
    Turned natives thread m above f rest .freed (f' :: rest')
  | dropped {g : Frame} {h : Heap} {c : Completion} {frames : List Frame}
    (hfaces : Faces natives thread m above f g c)
    (hmeet : meet h g c = .ok .drop ∨ g.isTrying = true) (hgone : frames.length ≤ rest.length) :
    Turned natives thread m above f rest (.dropped c) frames
  | claimed {g : Frame} {h : Heap} {c : Completion} {frames : List Frame}
    (hfaces : Faces natives thread m above f g c) (hmeet : meet h g c = .ok .stop)
    (hgone : frames.length ≤ rest.length) : Turned natives thread m above f rest (.claimed c) frames
  | caught {g g' : Frame} {h : Heap} {c : Completion} {rest' : List Frame}
    (hfaces : Faces natives thread m above f g c) (hmeet : meet h g c = .ok (.catch g'))
    (hstay : Stay rest rest') : Turned natives thread m above f rest (.caught c) (g' :: rest')

/-! ### Completions -/

/-- The frame is one that a completion ends with, or there is no telling what becomes of it. -/
abbrev Halts (c : Completion) (f : Frame) : Prop :=
  isJumpTarget f c.kind c.label = true ∨ f.isTrying = true

/-- A frame whose meeting with a completion cannot be judged is one of a running try statement. -/
theorem isTrying_of_error {failure : Failure} (hmeet : meet h f c = .error failure) :
    f.isTrying = true := by
  cases htrying : f.isTrying with
  | true => rfl
  | false =>
    rw [meet_of_not_trying htrying] at hmeet
    cases hmeet

theorem halts_of_stop (hmeet : meet h f c = .ok .stop) : Halts c f := by
  cases htrying : f.isTrying with
  | true => exact .inr htrying
  | false =>
    rw [meet_of_not_trying htrying] at hmeet
    left
    unfold meetPlain at hmeet
    cases hkind : c.kind <;> rw [hkind] at hmeet <;> dsimp only at hmeet
    case «break» =>
      by_cases htarget : isJumpTarget f .break c.label = true
      · exact htarget
      · rw [if_neg htarget] at hmeet
        cases hmeet
    all_goals
      repeat' split at hmeet
      all_goals cases hmeet

theorem Halts.of_agrees (hf : f.Agrees g) (hhalts : Halts c g) : Halts c f := by
  refine hhalts.imp (fun htarget => ?_) fun htrying => ?_
  · rw [hf.rest] at htarget
    exact htarget
  · rwa [hf.isTrying] at htrying

/-- A frame that is trying is one of a try statement. -/
theorem exists_isTry {strict : Prop} (htrying : f.isTrying = true) (hs : Sits strict h rest f) :
    ∃ here p kind, f.node = some here ∧ h.program? here.program = some p ∧
      p.kind? here.node = some kind ∧ kind.isTry = true := by
  cases hs with
  | @node here p kind place _ hnode hprogram hkind _ hsuits _ _ =>
    rcases hsuits.info with hplain | hsaved
    · unfold Frame.isTrying at htrying
      split at htrying
      · rename_i hinfo
        rw [hinfo] at hplain
        cases hplain
      · cases htrying
    · exact ⟨here, p, kind, hnode, hprogram, hkind, hsaved.2⟩
  | call _ _ hcalls =>
    unfold Frame.isTrying at htrying
    rw [hcalls.info] at htrying
    cases htrying

/-- A frame on the stack that a completion ends with. -/
theorem Halts.mayStop {strict : Prop} (hhalts : Halts c f) (hs : Sits strict h rest f) :
    MayStop h f := by
  rcases hhalts with htarget | htrying
  · by_cases hlabels : f.labels = []
    · unfold isJumpTarget at htarget
      rw [hlabels] at htarget
      cases hs with
      | @node here p kind place _ hnode hprogram hkind _ hsuits _ _ =>
        refine .inr ⟨here, p, kind, hnode, hprogram, hkind, ?_⟩
        split at htarget
        · rcases Bool.or_eq_true_iff.1 htarget with hloop | hswitch
          · exact .inl (hsuits.isLoop hloop)
          · exact .inr (.inl (hsuits.isSwitch hswitch))
        · exact .inl (hsuits.isLoop htarget)
        all_goals simp at htarget
      | call _ _ hcalls =>
        rw [hcalls.isLoop, hcalls.isSwitch] at htarget
        split at htarget <;> simp at htarget
    · exact .inl hlabels
  · obtain ⟨here, p, kind, hnode, hprogram, hkind, htry⟩ := exists_isTry htrying hs
    exact .inr ⟨here, p, kind, hnode, hprogram, hkind, .inr (.inr htry)⟩

/-- Where a completion ends that starts above a frame. -/
inductive Lands (h : Heap) (c : Completion) (above : List Frame) (g : Frame) (rest : List Frame) :
    Seen → List Frame → Prop where
  | above {left : List Frame} (hleft : left ≠ []) (habove : above ≠ []) :
    Lands h c above g rest .covered (left ++ g :: rest)
  | right {up : List Frame} {x : Frame} (habove : above = up ++ [x]) (hhalts : Halts c x) :
    Lands h c above g rest .freed (g :: rest)
  | meets : Lands h c above g rest (seenMeeting h c g) (leftBy h c (g :: rest))

theorem Lands.cons {h : Heap} {seen : Seen} (y : Frame)
    (hlands : Lands h c above g rest seen frames) : Lands h c (y :: above) g rest seen frames := by
  cases hlands with
  | above hleft _ => exact .above hleft (List.cons_ne_nil _ _)
  | @right up x habove hhalts =>
    have hcons : y :: above = (y :: up) ++ [x] := congrArg (y :: ·) habove
    exact .right hcons hhalts
  | meets => exact .meets

theorem lands_of_halts (h : Heap) {y : Frame} (above : List Frame) (g : Frame) (rest : List Frame)
    (hhalts : Halts c y) : Lands h c (y :: above) g rest
      (if (above ++ g :: rest).length = rest.length + 1 then .freed else .covered)
      (above ++ g :: rest) := by
  cases above with
  | nil =>
    have hlength : ([] ++ g :: rest : List Frame).length = rest.length + 1 := rfl
    rw [if_pos hlength]
    exact .right (List.nil_append [y]).symm hhalts
  | cons z above =>
    rw [if_neg]
    · exact .above (List.cons_ne_nil z above) (List.cons_ne_nil _ _)
    · rw [List.length_append, List.length_cons, List.length_cons]
      omega

/-- A completion ends above a frame, or it meets the frame. -/
theorem lands_leftBy (h : Heap) (c : Completion) (above : List Frame) (g : Frame)
    (rest : List Frame) :
    Lands h c above g rest (seenUnwinding rest.length h c (above ++ g :: rest))
      (leftBy h c (above ++ g :: rest)) := by
  induction above with
  | nil =>
    rw [List.nil_append, seenUnwinding, if_neg (Nat.lt_irrefl _), if_pos rfl]
    exact .meets
  | cons y above ih =>
    have hlength : (above ++ g :: rest).length = above.length + (rest.length + 1) :=
      List.length_append
    rw [List.cons_append, seenUnwinding, if_neg (by omega), if_neg (by omega), leftBy]
    cases hmeet : meet h y c with
    | error failure => exact lands_of_halts h above g rest (.inr (isTrying_of_error hmeet))
    | ok meeting =>
      cases meeting with
      | drop => exact ih.cons y
      | stop => exact lands_of_halts h above g rest (halts_of_stop hmeet)
      | «catch» y' => exact .above (List.cons_ne_nil y' above) (List.cons_ne_nil y above)

/-- What becomes of a frame that faces a completion. -/
theorem turned_meeting {rest' : List Frame} (h : Heap)
    (hfaces : Faces natives thread m above f g c) (hstay : Stay rest rest') :
    Turned natives thread m above f rest (seenMeeting h c g) (leftBy h c (g :: rest')) := by
  have hlength : rest'.length ≤ rest.length := Nat.le_of_eq hstay.length_eq.symm
  have hleft : (leftBy h c rest').length ≤ rest.length :=
    Nat.le_trans (length_leftBy_le h c rest') hlength
  unfold seenMeeting
  cases hmeet : meet h g c with
  | error failure =>
    rw [leftBy, hmeet]
    exact .dropped (h := h) hfaces (.inr (isTrying_of_error hmeet)) hlength
  | ok meeting =>
    cases meeting with
    | drop =>
      rw [leftBy_of_drop hmeet]
      exact .dropped hfaces (.inl hmeet) hleft
    | stop =>
      rw [leftBy, hmeet]
      exact .claimed hfaces hmeet hlength
    | «catch» g' =>
      rw [leftBy_of_catch hmeet]
      exact .caught hfaces hmeet hstay

/-- The frames above may change in the turn, but the last of them is one that the completion may end
with only if it was before. -/
theorem turned_unwinding {above' rest' : List Frame} (h : Heap)
    (hfaces : Faces natives thread m above f g c) (hstay : Stay rest rest')
    (hcovers : above' ≠ [] → above ≠ [] ∧ f.Stays g)
    (hhalts : ∀ up x, above' = up ++ [x] → Halts c x →
      ∃ up y, above = up ++ [y] ∧ MayStop m.heap y) :
    Turned natives thread m above f rest (seenUnwinding rest.length h c (above' ++ g :: rest'))
      (leftBy h c (above' ++ g :: rest')) := by
  have hlands := lands_leftBy h c above' g rest'
  rw [← hstay.length_eq] at hlands
  generalize seenUnwinding rest.length h c (above' ++ g :: rest') = seen at hlands ⊢
  generalize leftBy h c (above' ++ g :: rest') = frames at hlands ⊢
  cases hlands with
  | above hleft habove' =>
    obtain ⟨habove, hf⟩ := hcovers habove'
    exact .covered habove hleft hf hstay
  | right habove' hx =>
    obtain ⟨-, hf⟩ := hcovers (by simp [habove'])
    obtain ⟨up, y, habove, hy⟩ := hhalts _ _ habove' hx
    exact .freed habove hy hf hstay
  | meets => exact turned_meeting h hfaces hstay

/-! ### Turns -/

theorem seen_of_cuts (hcuts : Cuts (advance natives thread m)) (below : Nat) :
    seen natives thread below m = .cut := by
  unfold seen
  cases hrun : advance natives thread m with
  | error failure n => rfl
  | ok progress n =>
    rw [hrun] at hcuts
    cases progress with
    | struck => rfl
    | quiet => cases hcuts
    | unwinding c => cases hcuts

theorem seenUnwinding_ne_cut (below : Nat) (h : Heap) (c : Completion) (frames : List Frame) :
    seenUnwinding below h c frames ≠ .cut := by
  induction frames with
  | nil => simp [seenUnwinding]
  | cons f rest ih =>
    unfold seenUnwinding seenMeeting
    repeat' split
    all_goals first | exact ih | simp

/-- Only a turn that ends the thread is seen to do so. -/
theorem cuts_of_seen {below : Nat} (hseen : seen natives thread below m = .cut) :
    Cuts (advance natives thread m) := by
  unfold seen at hseen
  cases hrun : advance natives thread m with
  | error failure n => trivial
  | ok progress n =>
    rw [hrun] at hseen
    cases progress with
    | struck => trivial
    | quiet =>
      dsimp only at hseen
      unfold seenQuietly seenStepped seenGiven at hseen
      repeat' split at hseen
      all_goals cases hseen
    | unwinding c => exact absurd hseen (seenUnwinding_ne_cut below n.heap c _)

theorem nextStep_of_run {step : Step} (hframes : m.frames thread = e :: rest)
    (hrun : stepOf natives thread e m = .ok step m₂) : nextStep natives thread m = some step := by
  unfold nextStep
  rw [hframes]
  dsimp only
  rw [hrun]

/-- What is seen of a frame that is stepped. -/
theorem seen_of_stepped {step : Step} (hframes : m.frames thread = f :: rest)
    (hrun : stepOf natives thread f m = .ok step m₂)
    (hadvance : advance natives thread m = .ok .quiet n) :
    seen natives thread rest.length m = seenStepped (some step) := by
  unfold seen
  rw [hadvance]
  dsimp only
  rw [nextStep_of_run hframes hrun, seenQuietly, hframes, if_pos List.length_cons]

/-- What is seen of a frame when one above it is stepped. -/
theorem seen_of_covered {step : Step} (hframes : m.frames thread = e :: (above ++ f :: rest))
    (hrun : stepOf natives thread e m = .ok step m₂)
    (hadvance : advance natives thread m = .ok .quiet n) :
    seen natives thread rest.length m =
      if (n.frames thread).length = rest.length + 1 then seenGiven (some step) else .covered := by
  unfold seen
  rw [hadvance]
  dsimp only
  rw [nextStep_of_run hframes hrun, seenQuietly, hframes, if_neg]
  rw [List.length_cons, List.length_append, List.length_cons]
  omega

theorem seen_of_unwinding {F : List Frame} (hF : Holds thread F n)
    (hadvance : advance natives thread m = .ok (.unwinding c) n) (below : Nat) :
    seen natives thread below m = seenUnwinding below n.heap c F := by
  unfold seen
  rw [hadvance]
  dsimp only
  rw [hF.frames]

/-- A frame without the room for a child is trying only if it is one of a try statement. -/
theorem Popped.mayStop (hcivil : natives.Each (Civil True)) (hp : Popped origin thread e rest m m₁)
    (hrun : stepOf natives thread e m = .ok (.push g child) m₂) (htrying : g.isTrying = true) :
    MayStop m.heap e := by
  obtain rfl := hp.eq_restacked
  have hpolite : natives.Each (Polite True False) := hcivil.mono fun _ h => ⟨h, False.elim⟩
  have ht := hp.settled.orderly.tidy
  have hdispatches := dispatches_dispatch hpolite ht hp.settled.orderly.grammatical hp.stacked
    hp.holds.alive fun h => h.elim
  have hdispatched : dispatch natives thread e (m.restacked thread (·.dropTop)) =
      .ok (.push g child) m₂ := hrun
  unfold Dispatches at hdispatches
  rw [hdispatched] at hdispatches
  obtain ⟨mid, hworked, -, hcarries⟩ := hdispatches
  obtain ⟨made, -, hleads⟩ := leadsOn_of_dispatch ht thread hrun
  have hgoes : e.GoesOn made g := hleads.1
  obtain ⟨here, p, kind, hnode, hprogram, hkind, htry⟩ :=
    exists_isTry htrying (Stacked.tail hcarries).sits
  have hhere : e.node = some here := hgoes.node.symm.trans hnode
  refine .inr ⟨here, p, kind, hhere, ?_, hkind, .inr (.inr htry)⟩
  cases hp.stacked.sits with
  | node _ hnode' hprogram' =>
    obtain rfl := Option.some.inj (hnode'.symm.trans hhere)
    obtain rfl := Option.some.inj (((hworked.retains ht).program hprogram').symm.trans hprogram)
    exact hprogram'
  | call _ hnone _ => cases hnone.symm.trans hhere

section Runs

variable (hcivil : natives.Each (Civil True)) (hmoderate : natives.Each Moderate)

include hcivil hmoderate

/-- What a turn does to the frame that is stepped. -/
theorem Popped.turned_top (hp : Popped origin thread f rest m m₁) :
    Turned natives thread m [] f rest (seen natives thread rest.length m)
      ((after (stepThread natives thread) m).frames thread) := by
  have hcomings := hp.comings hcivil hmoderate
  generalize hadvance : advance natives thread m = result at hcomings
  cases hcomings with
  | cut hcuts =>
    rw [seen_of_cuts (hadvance ▸ hcuts)]
    exact .cut
  | placed hrun hstay hframes =>
    rw [seen_of_stepped hp.frames hrun hadvance, after_stepThread_of_quiet hadvance, hframes]
    exact .pushed rfl hrun hstay
  | @crowded _ _ _ _ n rest' hrun hstay hholds =>
    rw [seen_of_unwinding hholds hadvance, frames_of_unwinding hholds hadvance, hstay.length_eq,
      seenUnwinding, if_neg (Nat.lt_irrefl _), if_pos rfl]
    exact turned_meeting n.heap (.inr ⟨rfl, rfl, _, _, hrun⟩) hstay
  | kept hrun hstep hstay hframes =>
    rw [seen_of_stepped hp.frames hrun hadvance, after_stepThread_of_quiet hadvance, hframes]
    rcases hstep with rfl | rfl
    · exact .stayed rfl hrun (.inl rfl) hstay
    · exact .stayed rfl hrun (.inr rfl) hstay
  | finished hrun hrest hframes =>
    rw [seen_of_stepped hp.frames hrun hadvance, after_stepThread_of_quiet hadvance, hframes]
    exact .done rfl hrun (Nat.zero_le _)
  | handed hrun hstay hframes =>
    rw [seen_of_stepped hp.frames hrun hadvance, after_stepThread_of_quiet hadvance, hframes]
    apply Turned.done rfl hrun
    rw [List.length_modifyHead]
    exact Nat.le_of_eq hstay.length_eq.symm
  | referred hrun hstay hframes =>
    rw [seen_of_stepped hp.frames hrun hadvance, after_stepThread_of_quiet hadvance, hframes]
    apply Turned.gave rfl hrun
    rw [List.length_modifyHead]
    exact Nat.le_of_eq hstay.length_eq.symm
  | @raised c n rest' hrun hstay hholds =>
    have hseen : seenUnwinding rest.length n.heap c rest' = .raised c := by
      rw [hstay.length_eq]
      cases rest' with
      | nil => rfl
      | cons y rest' => exact if_pos (Nat.lt_succ_self _)
    rw [seen_of_unwinding hholds hadvance, frames_of_unwinding hholds hadvance, hseen]
    apply Turned.raised rfl hrun
    exact Nat.le_trans (length_leftBy_le n.heap c rest') (Nat.le_of_eq hstay.length_eq.symm)

/-- What a turn does to a frame that has others above it. -/
theorem Popped.turned_under (hm : Beating origin m)
    (hp : Popped origin thread e (above ++ f :: rest) m m₁) :
    Turned natives thread m (e :: above) f rest (seen natives thread rest.length m)
      ((after (stepThread natives thread) m).frames thread) := by
  have hcomings := hp.comings hcivil hmoderate
  generalize hadvance : advance natives thread m = result at hcomings
  have hne : e :: above ≠ [] := List.cons_ne_nil _ _
  -- The last of the frames above is what it was.
  have hlast {above' up : List Frame} {x : Frame} {c : Completion} (habove : Stay above above')
      (habove' : above' = up ++ [x]) (hhalts : Halts c x) :
      ∃ up y, e :: above = up ++ [y] ∧ MayStop m.heap y := by
    subst habove'
    obtain ⟨up, y, below, rfl, hy, -, hbelow⟩ := Stack.split habove.flip
    obtain rfl := List.forall₂_nil_left_iff.1 hbelow
    refine ⟨e :: up, y, rfl, ?_⟩
    have hframes : m.frames thread = (e :: up) ++ y :: (f :: rest) := by
      rw [hp.frames]
      simp
    exact (hhalts.of_agrees (Frame.Stays.agrees hy)).mayStop (hm.stacked hframes).sits
  cases hcomings with
  | cut hcuts =>
    rw [seen_of_cuts (hadvance ▸ hcuts)]
    exact .cut
  | @placed g child _ _ _ hrun hstay hframes =>
    obtain ⟨above', f', rest', rfl, hf, habove, hrest⟩ := Stack.split hstay
    have hgiven : seenGiven (some (.push g child)) = .covered := rfl
    rw [seen_of_covered hp.frames hrun hadvance, after_stepThread_of_quiet hadvance, hframes,
      hgiven, ite_self]
    exact .covered hne (List.cons_ne_nil child (g :: above')) hf hrest
  | @crowded g child v _ n _ hrun hstay hholds =>
    obtain ⟨above', f', rest', rfl, hf, habove, hrest⟩ := Stack.split hstay
    rw [seen_of_unwinding hholds hadvance, frames_of_unwinding hholds hadvance]
    rw [← List.cons_append]
    refine turned_unwinding n.heap (.inl ⟨hne, hf⟩) hrest (fun _ => ⟨hne, hf⟩) ?_
    intro up x hcons hhalts
    cases up with
    | nil =>
      -- The frame that is stepped is right above, and a throw is no jump.
      obtain ⟨rfl, rfl⟩ := List.cons_eq_cons.1 hcons
      obtain rfl := List.forall₂_nil_right_iff.1 habove
      have htrying : g.isTrying = true := by
        refine hhalts.resolve_left fun htarget => ?_
        unfold isJumpTarget at htarget
        cases htarget
      exact ⟨[], e, rfl, hp.mayStop hcivil hrun htrying⟩
    | cons y up =>
      obtain ⟨-, habove'⟩ := List.cons_eq_cons.1 hcons
      exact hlast habove habove' hhalts
  | @kept g step _ _ _ hrun hstep hstay hframes =>
    obtain ⟨above', f', rest', rfl, hf, habove, hrest⟩ := Stack.split hstay
    have hgiven : seenGiven (some step) = .covered := by rcases hstep with rfl | rfl <;> rfl
    rw [seen_of_covered hp.frames hrun hadvance, after_stepThread_of_quiet hadvance, hframes,
      hgiven, ite_self]
    exact .covered hne (List.cons_ne_nil g above') hf hrest
  | finished hrun hrest hframes => exact absurd hrest (by simp)
  | handed hrun hstay hframes =>
    obtain ⟨above', f', rest', rfl, hf, habove, hrest⟩ := Stack.split hstay
    rw [seen_of_covered hp.frames hrun hadvance, after_stepThread_of_quiet hadvance, hframes]
    cases habove with
    | nil =>
      rw [if_pos (by simp [hrest.length_eq])]
      exact .handed rfl hrun hf hrest
    | @cons y y' above above' hy habove =>
      rw [if_neg (by simp [hrest.length_eq]; omega)]
      exact .covered hne (List.cons_ne_nil _ above') hf hrest
  | referred hrun hstay hframes =>
    obtain ⟨above', f', rest', rfl, hf, habove, hrest⟩ := Stack.split hstay
    rw [seen_of_covered hp.frames hrun hadvance, after_stepThread_of_quiet hadvance, hframes]
    cases habove with
    | nil =>
      obtain rfl := hp.eq_restacked
      obtain ⟨made, -, hwant⟩ := leadsOn_of_dispatch hp.settled.orderly.tidy thread hrun
      rw [if_pos (by simp [hrest.length_eq])]
      exact .referred rfl hrun hwant hf hrest
    | @cons y y' above above' hy habove =>
      rw [if_neg (by simp [hrest.length_eq]; omega)]
      exact .covered hne (List.cons_ne_nil _ above') hf hrest
  | @raised c n rest' hrun hstay hholds =>
    obtain ⟨above', f', rest', rfl, hf, habove, hrest⟩ := Stack.split hstay
    rw [seen_of_unwinding hholds hadvance, frames_of_unwinding hholds hadvance]
    exact turned_unwinding n.heap (.inl ⟨hne, hf⟩) hrest (fun _ => ⟨hne, hf⟩)
      fun up x habove' hhalts => hlast habove habove' hhalts

/-- What a turn does to a frame. -/
theorem turned (hm : Beating origin m) (hcurrent : m.currentThread = some thread)
    (hready : m.threadStatus thread = some .ready)
    (hframes : m.frames thread = above ++ f :: rest) :
    Turned natives thread m above f rest (seen natives thread rest.length m)
      ((after (stepThread natives thread) m).frames thread) := by
  have hbeating := hm
  rw [Beating, hcurrent] at hm
  obtain ⟨e, tail, m₁, hp⟩ := exists_popped hm hready
  have hcons := hp.frames.symm.trans hframes
  cases above with
  | nil =>
    cases hcons
    exact hp.turned_top hcivil hmoderate
  | cons x above =>
    cases hcons
    exact hp.turned_under hcivil hmoderate hbeating

end Runs

end Machine

end ScriptMachine
