import ScriptMachine.Machine.Statement
import ScriptMachine.Proofs.Pairing.Call

/-!
# Paired steps of statements

A frame advances alike on paired machines, whatever node it evaluates.
-/

namespace ScriptMachine

namespace Pairing

open Machine Exec
open ScriptMachine.Tree (NodeId NodeKind)

variable {p q : Pairing} {f f' : Frame} {here here' : NodeRef} {thread : ThreadId}

/-! ## What frames record -/

theorem pairs_programInfo {v v' : Value} (hv : p.Pairs v v') :
    p.Pairs (FrameInfo.program v) (.program v') :=
  ⟨hv.within, congrArg FrameInfo.program hv.eq⟩

theorem pairs_forInInfo (keys : List String) (index : Nat) {v v' : Value} (hv : p.Pairs v v') :
    p.Pairs (FrameInfo.forIn keys index v) (.forIn keys index v') :=
  ⟨hv.within, congrArg (FrameInfo.forIn keys index) hv.eq⟩

theorem pairs_switchInfo {v v' : Value} (hv : p.Pairs v v') (clause statement : Nat)
    (isMatched : Bool) : p.Pairs (FrameInfo.switch v clause statement isMatched)
      (.switch v' clause statement isMatched) :=
  ⟨hv.within, congrArg (FrameInfo.switch · clause statement isMatched) hv.eq⟩

theorem pairs_tryInfo (phase : TryPhase) {c c' : Option Completion} (hc : p.Pairs c c') :
    p.Pairs (FrameInfo.try phase c) (.try phase c') :=
  ⟨hc.within, congrArg (FrameInfo.try phase) hc.eq⟩

section Statements

variable (hf : p.Pairs f f') (hh : p.Pairs here here')

include hf hh

theorem pairs_stepList (list : List NodeId) :
    p.Pairs (stepList f here list) (stepList f' here' list) := by
  unfold stepList
  rw [hf.step_eq]
  split
  · exact pairs_enter (hf.withStep _) hh _
  · exact pairs_done pairs_undefined

theorem follows_stepProgram (body : List NodeId) (hoisted : Tree.Hoisted) :
    p.Follows (stepProgram f here body hoisted) (stepProgram f' here' body hoisted) := by
  have hprogram : p.Pairs here.program here'.program := ⟨hh.within, by rw [hh.eq]; rfl⟩
  obtain ⟨hw, rfl⟩ := hf
  have hf := pairs_image hw
  have hw := hw.info
  unfold stepProgram
  rw [hf.step_eq, image_info]
  split
  · refine (follows_hoist hoisted hprogram hf.scope).bind fun q hle _ _ _ => ?_
    exact follows_pure (pairs_stay (((hf.mono hle).withInfo
      (pairs_programInfo pairs_undefined)).withStep 1))
  · split
    · exact follows_pure (pairs_enter (hf.withStep _) hh _)
    · cases hinfo : f.info with
      | program completion =>
        rw [hinfo] at hw
        exact follows_pure (pairs_done (pairs_image (x := completion) hw))
      | _ => exact follows_pure (pairs_done pairs_undefined)

theorem mirrors_stepExpressionStatement (hactor : p.actor = some thread) (expression : NodeId) :
    p.Mirrors (stepExpressionStatement thread f here expression)
      (stepExpressionStatement thread f' here' expression) := by
  unfold stepExpressionStatement
  rw [hf.step_eq]
  split
  · exact mirrors_pure (pairs_enter (hf.withStep 1) hh expression)
  · refine Mirrors.bind (mirrors_setStack hactor (·.recordCompletion f.value)
      (·.recordCompletion f'.value) (fun s hs => ?_) fun s => ?_) fun _ _ =>
        mirrors_pure (pairs_done hf.value)
    · exact within_recordIn hf.value.within hs
    · rw [hf.value.eq, recordCompletion_image]

theorem mirrors_stepDeclarator (name : String) (init : Option NodeId) :
    p.Mirrors (stepDeclarator f here name init) (stepDeclarator f' here' name init) := by
  unfold stepDeclarator
  rw [hf.step_eq]
  split
  · exact mirrors_pure (pairs_enter (hf.withStep 1) hh _)
  · exact mirrors_pure (pairs_done pairs_undefined)
  · exact (mirrors_setBinding hf.scope name hf.value).bind fun _ _ =>
      mirrors_pure (pairs_done pairs_undefined)

theorem pairs_stepIf (test consequent : NodeId) (alternate : Option NodeId) :
    p.Pairs (stepIf f here test consequent alternate)
      (stepIf f' here' test consequent alternate) := by
  have hbody := pairs_enter (hf.clearValue.withStep 2) hh
  unfold stepIf
  rw [hf.step_eq, hf.value.truthy_eq]
  split
  · exact pairs_enter (hf.withStep 1) hh test
  · dsimp only
    split
    · exact hbody consequent
    · split
      · exact hbody _
      · exact pairs_done pairs_undefined
  · exact pairs_done pairs_undefined

theorem pairs_stepLabeled (label : String) (body : NodeId) :
    p.Pairs (stepLabeled f here label body) (stepLabeled f' here' label body) := by
  have hchild := pairs_ofNode (hh.withNode body) hf.scope
  unfold stepLabeled
  rw [hf.step_eq]
  split
  · refine pairs_push (hf.withStep 1) ⟨{ hchild.within with }, ?_⟩
    rw [hchild.eq, hf.labels_eq]
    rfl
  · exact pairs_done pairs_undefined

theorem pairs_stepReturn (argument : Option NodeId) :
    p.Pairs (stepReturn f here argument) (stepReturn f' here' argument) := by
  unfold stepReturn
  rw [hf.step_eq]
  split
  · exact pairs_enter (hf.withStep 1) hh _
  · exact pairs_unwind ⟨hf.value.within, by rw [hf.value.eq]; rfl⟩

theorem pairs_stepThrow (argument : NodeId) :
    p.Pairs (stepThrow f here argument) (stepThrow f' here' argument) := by
  unfold stepThrow
  rw [hf.step_eq]
  split
  · exact pairs_enter (hf.withStep 1) hh argument
  · exact pairs_throwing hf.value

/-! ## Loops -/

theorem mirrors_stepWhile (hactor : p.actor = some thread) (test body : NodeId) :
    p.Mirrors (stepWhile thread f here test body) (stepWhile thread f' here' test body) := by
  unfold stepWhile
  rw [hf.step_eq, hf.value.truthy_eq]
  split
  · exact (mirrors_checkTimeLimit hactor).bind fun _ _ =>
      mirrors_pure (pairs_enter (hf.asLoop 1) hh test)
  · split
    · exact mirrors_pure (pairs_enter (hf.clearValue.withStep 0) hh body)
    · exact mirrors_pure (pairs_done pairs_undefined)

theorem mirrors_stepDoWhile (hactor : p.actor = some thread) (body test : NodeId) :
    p.Mirrors (stepDoWhile thread f here body test) (stepDoWhile thread f' here' body test) := by
  unfold stepDoWhile
  rw [hf.step_eq, hf.value.truthy_eq]
  split
  · exact mirrors_pure (pairs_enter (hf.asLoop 1) hh body)
  · exact (mirrors_checkTimeLimit hactor).bind fun _ _ =>
      mirrors_pure (pairs_enter (hf.withStep 2) hh test)
  · split
    · exact mirrors_pure (pairs_enter (hf.clearValue.withStep 1) hh body)
    · exact mirrors_pure (pairs_done pairs_undefined)

theorem mirrors_stepFor (hactor : p.actor = some thread) (init test update : Option NodeId)
    (body : NodeId) :
    p.Mirrors (stepFor thread f here init test update body)
      (stepFor thread f' here' init test update body) := by
  unfold stepFor
  rw [hf.step_eq, hf.value.truthy_eq]
  split
  · split
    · exact mirrors_pure (pairs_enter (hf.asLoop 1) hh _)
    · exact mirrors_pure (pairs_stay (hf.asLoop 1))
  · refine (mirrors_checkTimeLimit hactor).bind fun _ _ => ?_
    split
    · exact mirrors_pure (pairs_enter (hf.withStep 2) hh _)
    · exact mirrors_pure (pairs_stay ((hf.withStep 2).withValue (pairs_ofBool true)))
  · split
    · exact mirrors_pure (pairs_enter (hf.clearValue.withStep 3) hh body)
    · exact mirrors_pure (pairs_done pairs_undefined)
  · split
    · exact mirrors_pure (pairs_enter (hf.withStep 1) hh _)
    · exact mirrors_pure (pairs_stay (hf.withStep 1))

omit hf hh in
theorem Machines.pairs_nextKey {m m' : Machine} (hm : p.Machines m m') {subject subject' : Value}
    (hsubject : p.Pairs subject subject') {actor actor' : Option Owner}
    (hactor : p.Pairs actor actor') (keys : List String) :
    p.Pairs (nextKey m subject actor keys) (nextKey m' subject' actor' keys) := by
  obtain ⟨hw, rfl⟩ := hsubject
  induction keys with
  | nil => exact pairs_ok pairs_none
  | cons key rest ih =>
    have hnext : ∀ present : Bool, p.Pairs
        (if present then return some (key, 1)
          else return (← nextKey m subject actor rest).map fun (key, n) => (key, n + 1))
        (if present then return some (key, 1)
          else return (← nextKey m' (image p subject) actor' rest).map fun (key, n) =>
            (key, n + 1)) := by
      intro present
      split
      · exact pairs_ok ⟨(within_some p _).2 ⟨trivial, trivial⟩, rfl⟩
      · refine pairs_bind ih fun found _ => pairs_ok ⟨fun _ _ => ⟨trivial, trivial⟩, ?_⟩
        cases found <;> rfl
    unfold nextKey
    cases subject with
    | object id =>
      exact pairs_bind (hm.pairs_hasProperty (pairs_image (hw id rfl)) key hactor)
        fun present _ => hnext present
    | _ => exact hnext true

omit hf hh in
theorem pairs_loopVariable (program : Tree.Program) (left : NodeId) :
    p.Pairs (loopVariable program left) (loopVariable program left) := by
  unfold loopVariable
  refine pairs_bind (pairs_nodeKind program left) fun kind _ => ?_
  have hsome : ∀ name : String, p.Pairs (pure (some name) : Except Failure (Option String))
      (pure (some name)) := fun name => pairs_ok ⟨within_text? p _, (image_text? p _).symm⟩
  rw [image_nodeKind]
  split
  · exact pairs_error ⟨trivial, rfl⟩
  · refine pairs_bind (pairs_nodeKind program _) fun kind _ => ?_
    rw [image_nodeKind]
    split
    · exact hsome _
    · exact pairs_ok pairs_none
  · exact hsome _
  · exact pairs_ok pairs_none

theorem mirrors_stepForInKey (program : Tree.Program) (left body : NodeId) :
    p.Mirrors (stepForInKey f here program left body)
      (stepForInKey f' here' program left body) := by
  obtain ⟨hw, rfl⟩ := hf
  have hf := pairs_image hw
  have hw := hw.info
  refine (mirrors_scopeOwner hf.scope).bind fun actor hactor => ?_
  rw [image_info]
  cases hinfo : f.info with
  | forIn keys index subject =>
    rw [hinfo] at hw
    have hsubject := pairs_image (p := p) (x := subject) hw
    refine (mirrors_query fun _ _ hm => hm.pairs_nextKey hsubject (pairs_image hactor)
      (keys.drop index)).bind fun found _ => ?_
    cases found with
    | none => exact mirrors_pure (pairs_done pairs_undefined)
    | some found =>
      obtain ⟨key, passed⟩ := found
      refine (mirrors_query fun _ _ _ => pairs_loopVariable program left).bind fun name _ => ?_
      have hg := hf.withInfo (pairs_forInInfo keys (index + passed) hsubject)
      rw [image_text?]
      cases name with
      | some name =>
        exact (mirrors_setBinding hf.scope name (pairs_string key)).bind fun _ _ =>
          mirrors_pure (pairs_enter hg hh body)
      | none =>
        exact mirrors_pure (pairs_enterRef ((hg.withValue (pairs_string key)).withStep 3) hh
          left)
  | _ => exact mirrors_throw ⟨trivial, rfl⟩

theorem mirrors_stepForIn (hactor : p.actor = some thread) (program : Tree.Program)
    (left right body : NodeId) :
    p.Mirrors (stepForIn thread f here program left right body)
      (stepForIn thread f' here' program left right body) := by
  unfold stepForIn
  rw [hf.step_eq, hf.value.isNullish_eq]
  split
  · exact mirrors_pure (pairs_enter (hf.asLoop 1) hh right)
  · refine (mirrors_scopeOwner hf.scope).bind fun actor hactor => ?_
    have hstay : ∀ keys : List String, p.Mirrors
        (pure (Step.stay { f.clearValue with info := .forIn keys 0 f.value, step := 2 }))
        (pure (Step.stay { f'.clearValue with info := .forIn keys 0 f'.value, step := 2 })) :=
      fun keys => mirrors_pure (pairs_stay ((hf.clearValue.withInfo
        (pairs_forInInfo keys 0 hf.value)).withStep 2))
    split
    · exact hstay []
    · refine (mirrors_query fun _ _ hm => hm.pairs_forInKeys hf.value
        (pairs_image hactor)).bind fun keys _ => ?_
      rw [image_texts]
      exact hstay keys
  · exact (mirrors_checkTimeLimit hactor).bind fun _ _ =>
      mirrors_stepForInKey hf hh program left body
  · refine (mirrors_takeReference hf "for-in").bind fun r hr => ?_
    refine (mirrors_writeReference (pairs_image hr) hf.scope hf.value).bind fun _ _ => ?_
    exact mirrors_pure (pairs_enter ((hf.clearValue.withReference pairs_none).withStep 2) hh body)

/-! ## Switches -/

theorem pairs_switchFrom {v v' : Value} (hv : p.Pairs v v') (isMatched : Bool)
    (clause statement : Nat) (cases : List Tree.SwitchCase) :
    p.Pairs (switchFrom f here v isMatched clause statement cases)
      (switchFrom f' here' v' isMatched clause statement cases) := by
  induction cases generalizing clause statement with
  | nil => exact pairs_done pairs_undefined
  | cons c rest ih =>
    rw [switchFrom, switchFrom]
    split
    · exact pairs_enter (hf.withInfo (pairs_switchInfo hv _ _ _)) hh _
    · exact ih _ _

theorem pairs_switchTest (cases : List Tree.SwitchCase) {v v' : Value} (hv : p.Pairs v v')
    (clause statement : Nat) (isMatched : Bool) :
    p.Pairs (switchTest f here cases v clause statement isMatched)
      (switchTest f' here' cases v' clause statement isMatched) := by
  unfold switchTest
  split
  · exact pairs_enter ((hf.withInfo (pairs_switchInfo hv _ _ _)).withStep 3) hh _
  · split
    · exact pairs_switchFrom (hf.withStep 4) hh hv true _ _ _
    · exact pairs_done pairs_undefined

theorem mirrors_stepSwitch (discriminant : NodeId) (cases : List Tree.SwitchCase) :
    p.Mirrors (stepSwitch f here discriminant cases) (stepSwitch f' here' discriminant cases) := by
  obtain ⟨hw, rfl⟩ := hf
  have hf := pairs_image hw
  have hw := hw.info
  unfold stepSwitch
  rw [hf.step_eq, image_info]
  split
  · exact mirrors_pure (pairs_enter (hf.asSwitch 1) hh discriminant)
  · exact mirrors_pure (pairs_switchTest (hf.clearValue.withStep 2) hh cases hf.value _ _ _)
  · cases hinfo : f.info with
    | switch v clause statement isMatched =>
      rw [hinfo] at hw
      have hv := pairs_image (p := p) (x := v) hw
      dsimp only [image_switch]
      rw [hf.value.strictEquals_eq hv]
      split
      · exact mirrors_pure (pairs_switchTest hf hh cases hv _ _ _)
      · split
        · exact mirrors_pure (pairs_switchFrom (hf.clearValue.withStep 4) hh hv _ _ _ _)
        · exact (mirrors_query fun _ _ _ => pairs_nextCount clause).bind fun next _ =>
            mirrors_pure (pairs_switchTest (hf.clearValue.withStep 2) hh cases hv next _ _)
      · exact mirrors_pure (pairs_switchFrom hf hh hv _ _ _ _)
    | _ => exact mirrors_pure (pairs_done pairs_undefined)

/-! ## Handlers -/

omit hh in
/-- What a try statement was about to resume. -/
theorem pairs_pending : p.Pairs
    (match f.info with
      | .try _ completion => completion
      | _ => none)
    (match f'.info with
      | .try _ completion => completion
      | _ => none) := by
  obtain ⟨hw, heq⟩ := hf.info
  rw [heq]
  cases hinfo : f.info with
  | «try» phase completion =>
    rw [hinfo] at hw
    exact ⟨hw, rfl⟩
  | _ => exact pairs_none

theorem follows_stepTry (block : NodeId) (handler : Option Tree.CatchClause)
    (finalizer : Option NodeId) :
    p.Follows (stepTry f here block handler finalizer)
      (stepTry f' here' block handler finalizer) := by
  unfold stepTry
  rw [hf.step_eq]
  split
  · exact follows_pure (pairs_enter ((hf.withInfo (pairs_tryInfo .block pairs_none)).withStep 1) hh
      block)
  · split
    · exact follows_pure (pairs_enter
        ((hf.withInfo (pairs_tryInfo .finalizer pairs_none)).withStep 3) hh _)
    · exact follows_pure (pairs_done pairs_undefined)
  · split
    · exact follows_throw ⟨trivial, rfl⟩
    · refine (mirrors_scopeOwner hf.scope).bind_follows fun owner howner => ?_
      refine (follows_newScope .catch (pairs_some hf.scope) (pairs_image howner)
        pairs_none).bind fun q hle scope scope' hscope => ?_
      have hf := hf.mono hle
      refine (mirrors_declare hscope _ hf.value true).bind_follows fun _ _ => ?_
      exact follows_pure (pairs_push ((hf.clearValue.withInfo
        (pairs_tryInfo .handler (pairs_pending hf))).withStep 1)
          (pairs_ofNode ((hh.mono hle).withNode _) hscope))
  · obtain ⟨hw, heq⟩ := hf.info
    rw [heq]
    cases hinfo : f.info with
    | «try» phase completion =>
      rw [hinfo] at hw
      have hcompletion : Within p completion := hw
      cases completion with
      | none => exact follows_pure (pairs_done pairs_undefined)
      | some completion =>
        exact follows_pure (pairs_unwind ⟨hcompletion completion rfl, rfl⟩)
    | _ => exact follows_pure (pairs_done pairs_undefined)
  · split
    · exact follows_throw ⟨trivial, rfl⟩
    · have hinfo : p.Pairs
          (match f.info with
            | .try _ completion => FrameInfo.try .finalizer completion
            | info => info)
          (match f'.info with
            | .try _ completion => FrameInfo.try .finalizer completion
            | info => info) := by
        obtain ⟨hw, heq⟩ := hf.info
        rw [heq]
        cases hget : f.info with
        | «try» phase completion =>
          rw [hget] at hw
          exact pairs_tryInfo .finalizer ⟨hw, rfl⟩
        | _ =>
          rw [hget] at hw
          exact ⟨hw, rfl⟩
      exact follows_pure (pairs_enter ((hf.withInfo hinfo).withStep 3) hh _)

/-! ## All nodes -/

theorem follows_stepNode (hactor : p.actor = some thread) (program : Tree.Program)
    (kind : NodeKind) :
    p.Follows (stepNode thread f here program kind) (stepNode thread f' here' program kind) := by
  cases kind with
  | program body hoisted => exact follows_stepProgram hf hh body hoisted
  | expressionStatement expression =>
    exact (mirrors_stepExpressionStatement hf hh hactor expression).follows
  | block body => exact follows_pure (pairs_stepList hf hh body)
  | varDeclaration declarations => exact follows_pure (pairs_stepList hf hh declarations)
  | varDeclarator name init => exact (mirrors_stepDeclarator hf hh name init).follows
  | empty => exact follows_pure (pairs_done pairs_undefined)
  | debugger => exact follows_pure (pairs_done pairs_undefined)
  | functionDeclaration function => exact follows_pure (pairs_done pairs_undefined)
  | ifStatement test consequent alternate =>
    exact follows_pure (pairs_stepIf hf hh test consequent alternate)
  | labeled label body => exact follows_pure (pairs_stepLabeled hf hh label body)
  | breakStatement label => exact follows_pure (pairs_unwind ⟨within_undefined p, rfl⟩)
  | continueStatement label => exact follows_pure (pairs_unwind ⟨within_undefined p, rfl⟩)
  | returnStatement argument => exact follows_pure (pairs_stepReturn hf hh argument)
  | throwStatement argument => exact follows_pure (pairs_stepThrow hf hh argument)
  | tryStatement block handler finalizer => exact follows_stepTry hf hh block handler finalizer
  | switchStatement discriminant cases =>
    exact (mirrors_stepSwitch hf hh discriminant cases).follows
  | whileStatement test body => exact (mirrors_stepWhile hf hh hactor test body).follows
  | doWhileStatement body test => exact (mirrors_stepDoWhile hf hh hactor body test).follows
  | forStatement init test update body =>
    exact (mirrors_stepFor hf hh hactor init test update body).follows
  | forInStatement left right body =>
    exact (mirrors_stepForIn hf hh hactor program left right body).follows
  | identifier name => exact (mirrors_stepIdentifier hf name).follows
  | literal value => exact follows_pure (pairs_done (pairs_literalValue value))
  | this =>
    exact (mirrors_scopeReceiver hf.scope).bind_follows fun _ hv =>
      follows_pure (pairs_done (pairs_image hv))
  | array elements => exact follows_stepArray hf hh elements
  | object properties => exact follows_stepObject hf hh properties
  | functionExpression function => exact follows_stepFunction hf hh function
  | unary op argument => exact (mirrors_stepUnary hf hh program op argument).follows
  | update op before argument => exact (mirrors_stepUpdate hf hh op before argument).follows
  | binary op left right => exact (mirrors_stepBinary hf hh op left right).follows
  | logical op left right => exact follows_pure (pairs_stepLogical hf hh op left right)
  | assignment op target value => exact (mirrors_stepAssignment hf hh op target value).follows
  | conditional test consequent alternate =>
    exact follows_pure (pairs_stepConditional hf hh test consequent alternate)
  | call callee arguments =>
    exact (mirrors_stepCallExpression hf hh program callee arguments false).follows
  | new callee arguments =>
    exact (mirrors_stepCallExpression hf hh program callee arguments true).follows
  | member object property => exact (mirrors_stepMember hf hh object property).follows
  | sequence expressions => exact follows_pure (pairs_stepSequence hf hh expressions)

omit hh in
theorem follows_dispatch {natives : Natives} (hnatives : p.Answers natives)
    (hactor : p.actor = some thread) :
    p.Follows (dispatch natives thread f) (dispatch natives thread f') := by
  obtain ⟨hw, heq⟩ := hf.node
  unfold dispatch
  rw [heq]
  cases hnode : f.node with
  | none => exact follows_stepCall hf hnatives hactor
  | some here =>
    have hh := pairs_image (hw here hnode)
    have hprogram : p.Pairs here.program (image p here).program := pairs_image hh.within
    refine (mirrors_heapQuery fun _ _ hk => hk.pairs_program hprogram).bind_follows
      fun program _ => ?_
    refine (mirrors_query fun _ _ _ => pairs_nodeKind program here.node).bind_follows
      fun kind _ => ?_
    exact follows_stepNode hf hh hactor program kind

end Statements

end Pairing

end ScriptMachine
