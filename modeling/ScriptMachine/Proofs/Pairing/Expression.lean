import ScriptMachine.Machine.Expression
import ScriptMachine.Proofs.Pairing.Thread

/-!
# Paired steps of expressions

What a step of an expression asks for on one machine is what it asks for on the other, up to
handles.
-/

namespace ScriptMachine

namespace Pairing

open Machine Exec
open ScriptMachine.Tree (NodeId NodeKind BinaryOp)

variable {p q : Pairing}

/-! ## Frames -/

namespace Pairs

section Frames

variable {f f' : Frame} (hf : p.Pairs f f')

include hf

theorem step_eq : f'.step = f.step := by rw [hf.eq]; rfl
theorem wantRef_eq : f'.wantRef = f.wantRef := by rw [hf.eq]; rfl
theorem labels_eq : f'.labels = f.labels := by rw [hf.eq]; rfl
theorem isLoop_eq : f'.isLoop = f.isLoop := by rw [hf.eq]; rfl
theorem isSwitch_eq : f'.isSwitch = f.isSwitch := by rw [hf.eq]; rfl

theorem node : p.Pairs f.node f'.node := ⟨hf.within.node, congrArg Frame.node hf.eq⟩
theorem scope : p.Pairs f.scope f'.scope := ⟨hf.within.scope, congrArg Frame.scope hf.eq⟩
theorem value : p.Pairs f.value f'.value := ⟨hf.within.value, congrArg Frame.value hf.eq⟩
theorem reference : p.Pairs f.reference f'.reference :=
  ⟨hf.within.reference, congrArg Frame.reference hf.eq⟩
theorem info : p.Pairs f.info f'.info := ⟨hf.within.info, congrArg Frame.info hf.eq⟩

theorem operands : p.Pairs f.operands f'.operands :=
  ⟨Frame.within_operands hf.within, by rw [hf.eq, Frame.operands_image]⟩

theorem operand (i : Nat) : p.Pairs (f.operand i) (f'.operand i) :=
  ⟨Frame.within_operand hf.within i, by rw [hf.eq, Frame.operand_image]⟩

theorem withStep (n : Nat) : p.Pairs ({ f with step := n } : Frame) { f' with step := n } :=
  ⟨{ hf.within with }, by rw [hf.eq]; rfl⟩

theorem withValue {v v' : Value} (hv : p.Pairs v v') :
    p.Pairs ({ f with value := v } : Frame) { f' with value := v' } :=
  ⟨{ hf.within with value := hv.within }, by rw [hf.eq, hv.eq]; rfl⟩

theorem withInfo {info info' : FrameInfo} (hinfo : p.Pairs info info') :
    p.Pairs ({ f with info } : Frame) { f' with info := info' } :=
  ⟨{ hf.within with info := hinfo.within }, by rw [hf.eq, hinfo.eq]; rfl⟩

theorem withReference {r r' : Option Reference} (hr : p.Pairs r r') :
    p.Pairs ({ f with reference := r } : Frame) { f' with reference := r' } :=
  ⟨{ hf.within with reference := hr.within }, by rw [hf.eq, hr.eq]; rfl⟩

theorem asLoop (n : Nat) : p.Pairs ({ f with isLoop := true, step := n } : Frame)
    { f' with isLoop := true, step := n } :=
  ⟨{ hf.within with }, by rw [hf.eq]; rfl⟩

theorem asSwitch (n : Nat) : p.Pairs ({ f with isSwitch := true, step := n } : Frame)
    { f' with isSwitch := true, step := n } :=
  ⟨{ hf.within with }, by rw [hf.eq]; rfl⟩

theorem clearValue : p.Pairs f.clearValue f'.clearValue := hf.withValue pairs_undefined

theorem pushOperand {v v' : Value} (hv : p.Pairs v v') :
    p.Pairs (f.pushOperand v) (f'.pushOperand v') :=
  ⟨Frame.within_pushOperand hf.within hv.within, by rw [hf.eq, hv.eq, Frame.pushOperand_image]⟩

theorem setOperand (i : Nat) {v v' : Value} (hv : p.Pairs v v') :
    p.Pairs (f.setOperand i v) (f'.setOperand i v') :=
  ⟨Frame.within_setOperand hf.within hv.within i, by rw [hf.eq, hv.eq, Frame.setOperand_image]⟩

theorem dropOperands : p.Pairs f.dropOperands f'.dropOperands :=
  ⟨Frame.within_dropOperands hf.within, by rw [hf.eq, Frame.dropOperands_image]⟩

end Frames

section Values

variable {v v' w w' : Value} (hv : p.Pairs v v')

include hv

theorem isObject_eq : v'.isObject = v.isObject := by rw [hv.eq, isObject_image]
theorem isNullish_eq : v'.isNullish = v.isNullish := by rw [hv.eq, isNullish_image]
theorem truthy_eq : v'.truthy = v.truthy := by rw [hv.eq, truthy_image]
theorem toText_eq : v'.toText = v.toText := by rw [hv.eq, toText_image]
theorem toNumber_eq : v'.toNumber = v.toNumber := by rw [hv.eq, toNumber_image]

theorem object? : p.Pairs v.object? v'.object? :=
  ⟨within_object? p hv.within, by rw [hv.eq, object?_image]⟩

theorem strictEquals_eq (hw : p.Pairs w w') : v'.strictEquals w' = v.strictEquals w := by
  rw [hv.eq, hw.eq, strictEquals_image]

theorem conversionHint_eq (hw : p.Pairs w w') (op : BinaryOp) (isLeft : Bool) :
    conversionHint op v' w' isLeft = conversionHint op v w isLeft := by
  rw [hv.eq, hw.eq, conversionHint_image]

end Values

end Pairs

/-! ## Steps -/

section Steps

variable {f f' child child' : Frame} {here here' : NodeRef}

theorem pairs_done {v v' : Value} (hv : p.Pairs v v') : p.Pairs (Step.done v) (.done v') :=
  ⟨hv.within, congrArg Step.done hv.eq⟩

theorem pairs_ref {r r' : Reference} (hr : p.Pairs r r') : p.Pairs (Step.ref r) (.ref r') :=
  ⟨hr.within, congrArg Step.ref hr.eq⟩

theorem pairs_stay (hf : p.Pairs f f') : p.Pairs (Step.stay f) (.stay f') :=
  ⟨hf.within, congrArg Step.stay hf.eq⟩

theorem pairs_suspend (hf : p.Pairs f f') : p.Pairs (Step.suspend f) (.suspend f') :=
  ⟨hf.within, congrArg Step.suspend hf.eq⟩

theorem pairs_unwind {c c' : Completion} (hc : p.Pairs c c') :
    p.Pairs (Step.unwind c) (.unwind c') :=
  ⟨hc.within, congrArg Step.unwind hc.eq⟩

theorem pairs_throwing {v v' : Value} (hv : p.Pairs v v') :
    p.Pairs (Step.throwing v) (Step.throwing v') :=
  ⟨hv.within, by rw [hv.eq]; rfl⟩

theorem pairs_push (hf : p.Pairs f f') (hchild : p.Pairs child child') :
    p.Pairs (Step.push f child) (.push f' child') :=
  ⟨⟨hf.within, hchild.within⟩, congrArg₂ Step.push hf.eq hchild.eq⟩

theorem pairs_enter (hf : p.Pairs f f') (hh : p.Pairs here here') (node : NodeId) :
    p.Pairs (Step.enter f here node) (Step.enter f' here' node) :=
  ⟨within_enter hf.within hh.within node, by rw [hf.eq, hh.eq, image_enter]⟩

theorem pairs_enterRef (hf : p.Pairs f f') (hh : p.Pairs here here') (node : NodeId) :
    p.Pairs (Step.enterRef f here node) (Step.enterRef f' here' node) :=
  ⟨within_enterRef hf.within hh.within node, by rw [hf.eq, hh.eq, image_enterRef]⟩

end Steps

/-! ## References -/

section References

variable {r r' : Reference} (hr : p.Pairs r r') {scope scope' : ScopeId}
  (hscope : p.Pairs scope scope')

include hr hscope

theorem mirrors_readReference : p.Mirrors (readReference r scope) (readReference r' scope') := by
  obtain ⟨hr, rfl⟩ := hr
  cases r with
  | binding found name =>
    have hfound : Within p found := hr
    cases found with
    | none => exact mirrors_throw (pairs_raised _ _)
    | some id => exact mirrors_readBinding (pairs_image (hfound id rfl)) name
  | property base key =>
    exact (mirrors_scopeOwner hscope).bind fun actor hactor =>
      mirrors_getProperty (pairs_image (x := base) hr) key (pairs_image hactor)

theorem mirrors_writeReference {v v' : Value} (hv : p.Pairs v v') :
    p.Mirrors (writeReference r v scope) (writeReference r' v' scope') := by
  obtain ⟨hr, rfl⟩ := hr
  cases r with
  | binding found name =>
    have hfound : Within p found := hr
    cases found with
    | none => exact mirrors_throw (pairs_raised _ _)
    | some id => exact mirrors_writeBinding (pairs_image (hfound id rfl)) name hv
  | property base key =>
    exact (mirrors_scopeOwner hscope).bind fun actor hactor =>
      mirrors_setProperty (pairs_image (x := base) hr) key hv (pairs_image hactor)

end References

variable {f f' : Frame} {here here' : NodeRef} (hf : p.Pairs f f') (hh : p.Pairs here here')

include hf in
theorem mirrors_takeReference (construct : String) :
    p.Mirrors (takeReference f construct) (takeReference f' construct) := by
  obtain ⟨hw, heq⟩ := hf.reference
  unfold takeReference
  rw [heq]
  cases hr : f.reference with
  | none => exact mirrors_throw ⟨trivial, rfl⟩
  | some r => exact mirrors_pure ⟨hw r hr, rfl⟩

/-! ## Operators -/

instance : Carried Combined where
  image p
    | .value v => .value (image p v)
    | .convert f child => .convert (image p f) (image p child)
  Within p
    | .value v => Within p v
    | .convert f child => Within p f ∧ Within p child
  image_of_extends {p q c} h hc := by
    cases c with
    | value v => exact congrArg Combined.value (Carried.image_of_extends h hc)
    | convert f child =>
      exact congrArg₂ Combined.convert (Carried.image_of_extends h hc.1) (Carried.image_of_extends h hc.2)
  within_mono {p q c} h hc := by
    cases c with
    | value v => exact Carried.within_mono (α := Value) h hc
    | convert f child => exact ⟨Carried.within_mono h hc.1, Carried.within_mono h hc.2⟩
  image_of_fixes {p c} h := by
    cases c with
    | value v => exact congrArg Combined.value (Carried.image_of_fixes h)
    | convert f child =>
      exact congrArg₂ Combined.convert (Carried.image_of_fixes h) (Carried.image_of_fixes h)

theorem pairs_combined {v v' : Value} (hv : p.Pairs v v') :
    p.Pairs (Combined.value v) (.value v') :=
  ⟨hv.within, congrArg Combined.value hv.eq⟩

theorem pairs_convert {child child' : Frame} (hf : p.Pairs f f') (hchild : p.Pairs child child') :
    p.Pairs (Combined.convert f child) (.convert f' child') :=
  ⟨⟨hf.within, hchild.within⟩, congrArg₂ Combined.convert hf.eq hchild.eq⟩

/-- An operator on values that are not objects. -/
theorem mirrors_applyPlain (op : BinaryOp) {left left' right right' : Value}
    (hleft : p.Pairs left left') (hright : p.Pairs right right') :
    p.Mirrors
      (match Value.applyBinary? op left right with
        | some v => pure v
        | none => throw (.fault (.heapOperator (Tree.nameOf BinaryOp.table op))))
      (match Value.applyBinary? op left' right' with
        | some v => pure v
        | none => throw (.fault (.heapOperator (Tree.nameOf BinaryOp.table op)))) := by
  rw [hleft.eq, hright.eq, applyBinary?_image]
  cases happly : Value.applyBinary? op left right with
  | none => exact mirrors_throw ⟨trivial, rfl⟩
  | some v =>
    obtain ⟨hw, heq⟩ := image_applyBinary? p op left right happly
    exact mirrors_pure ⟨hw, heq.symm⟩

theorem mirrors_applyOperator (op : BinaryOp) {left left' right right' : Value}
    (hleft : p.Pairs left left') (hright : p.Pairs right right') {scope scope' : ScopeId}
    (hscope : p.Pairs scope scope') :
    p.Mirrors (applyOperator op left right scope) (applyOperator op left' right' scope') := by
  unfold applyOperator
  split
  · dsimp only
    obtain ⟨hw, heq⟩ := hright.object?
    rw [heq, hleft.toText_eq]
    cases hid : right.object? with
    | none =>
      refine mirrors_get_bind fun m m' hm => ?_
      rw [hm.describe hright]
      exact mirrors_throw (pairs_raised _ _)
    | some id =>
      refine (mirrors_scopeOwner hscope).bind fun actor hactor => ?_
      refine (mirrors_query fun _ _ hm => hm.pairs_hasProperty
        ⟨hw id hid, rfl⟩ left.toText (pairs_image hactor)).bind fun found _ => ?_
      exact mirrors_pure (pairs_ofBool found)
  · refine (mirrors_scopeOwner hscope).bind fun actor hactor => ?_
    refine (mirrors_query fun _ _ hm => hm.pairs_instanceOf hleft hright
      (pairs_image hactor)).bind fun found _ => ?_
    exact mirrors_pure (pairs_ofBool found)
  · exact mirrors_applyPlain op hleft hright

theorem Machines.pairs_toPrimitiveFunction {m m' : Machine} (hm : p.Machines m m') :
    p.Pairs m.toPrimitiveFunction m'.toPrimitiveFunction := by
  obtain ⟨hw, heq⟩ := hm.pairs_builtin "ToPrimitive"
  unfold toPrimitiveFunction builtin?
  rw [heq]
  cases hget : m.builtins.get? "ToPrimitive" with
  | none => exact pairs_error ⟨trivial, rfl⟩
  | some func => exact pairs_ok ⟨hw func hget, rfl⟩

theorem pairs_two {v v' w w' : Value} (hv : p.Pairs v v') (hw : p.Pairs w w') :
    p.Pairs [v, w] [v', w'] :=
  ⟨by simp [hv.within, hw.within], by rw [hv.eq, hw.eq]; rfl⟩

theorem mirrors_toPrimitiveFrame {v v' : Value} (hv : p.Pairs v v') (hint : Hint)
    {scope scope' : ScopeId} (hscope : p.Pairs scope scope') :
    p.Mirrors (query fun m => m.toPrimitiveFrame v hint scope)
      (query fun m => m.toPrimitiveFrame v' hint scope') :=
  mirrors_query fun _ _ hm => pairs_bind hm.pairs_toPrimitiveFunction fun _ hfunc =>
    pairs_ok (pairs_ofCall hscope (pairs_callInfo (pairs_image hfunc) pairs_undefined
      (pairs_two hv (pairs_string _)) false))

include hf

theorem mirrors_combineRight (op : BinaryOp) :
    p.Mirrors (combineRight op f) (combineRight op f') := by
  unfold combineRight
  dsimp only
  rw [(hf.operand 1).conversionHint_eq (hf.operand 0)]
  split
  · exact (mirrors_toPrimitiveFrame (hf.operand 1) _ hf.scope).bind fun _ hchild =>
      mirrors_pure (pairs_convert (hf.withStep 5) (pairs_image hchild))
  · exact (mirrors_applyOperator op (hf.operand 0) (hf.operand 1) hf.scope).bind fun _ hv =>
      mirrors_pure (pairs_combined (pairs_image hv))

theorem mirrors_combine (op : BinaryOp) : p.Mirrors (combine op f) (combine op f') := by
  unfold combine
  rw [hf.step_eq, (hf.operand 0).conversionHint_eq (hf.operand 1)]
  split
  · split
    · exact (mirrors_toPrimitiveFrame (hf.operand 0) _ hf.scope).bind fun _ hchild =>
        mirrors_pure (pairs_convert (hf.withStep 4) (pairs_image hchild))
    · exact mirrors_combineRight hf op
  · exact mirrors_combineRight (hf.setOperand 0 hf.value).clearValue op
  · have hset := hf.setOperand 1 hf.value
    exact (mirrors_applyOperator op (hset.operand 0) (hset.operand 1) hset.scope).bind fun _ hv =>
      mirrors_pure (pairs_combined (pairs_image hv))

theorem mirrors_collectRight (op : BinaryOp) :
    p.Mirrors (collectRight op f) (collectRight op f') := by
  unfold collectRight
  rw [hf.step_eq]
  split
  · exact mirrors_combine ((hf.pushOperand hf.value).clearValue.withStep 3) op
  · exact mirrors_combine hf op

include hh

theorem mirrors_stepBinary (op : BinaryOp) (left right : NodeId) :
    p.Mirrors (stepBinary f here op left right) (stepBinary f' here' op left right) := by
  unfold stepBinary
  rw [hf.step_eq]
  split
  · exact mirrors_pure (pairs_enter (hf.withStep 1) hh left)
  · exact mirrors_pure (pairs_enter ((hf.pushOperand hf.value).clearValue.withStep 2) hh right)
  · refine (mirrors_collectRight hf op).bind fun combined hcombined => ?_
    cases combined with
    | value v => exact mirrors_pure (pairs_done ⟨hcombined, rfl⟩)
    | convert f child =>
      exact mirrors_pure (pairs_push ⟨hcombined.1, rfl⟩ ⟨hcombined.2, rfl⟩)

theorem pairs_stepLogical (op : Tree.LogicalOp) (left right : NodeId) :
    p.Pairs (stepLogical f here op left right) (stepLogical f' here' op left right) := by
  have hdecided : ∀ decided : Bool, p.Pairs
      (if decided then Step.done f.value else .enter { f.clearValue with step := 2 } here right)
      (if decided then Step.done f'.value
        else .enter { f'.clearValue with step := 2 } here' right) := by
    intro decided
    split
    · exact pairs_done hf.value
    · exact pairs_enter (hf.clearValue.withStep 2) hh right
  unfold stepLogical
  rw [hf.step_eq, hf.value.truthy_eq]
  split
  · exact pairs_enter (hf.withStep 1) hh left
  · cases op <;> exact hdecided _
  · exact pairs_done hf.value

theorem mirrors_stepAssignment (op : Tree.AssignmentOp) (target value : NodeId) :
    p.Mirrors (stepAssignment f here op target value) (stepAssignment f' here' op target value) := by
  have hstore : ∀ v v', p.Pairs v v' → p.Mirrors
      (do writeReference (← takeReference f "assignment") v f.scope
          return Step.done v)
      (do writeReference (← takeReference f' "assignment") v' f'.scope
          return Step.done v') := fun v v' hv =>
    (mirrors_takeReference hf "assignment").bind fun _ hr =>
      (mirrors_writeReference (pairs_image hr) hf.scope hv).bind fun _ _ =>
        mirrors_pure (pairs_done hv)
  unfold stepAssignment
  rw [hf.step_eq]
  split
  · exact mirrors_pure (pairs_enterRef (hf.withStep 1) hh target)
  · split
    · refine (mirrors_takeReference hf "assignment").bind fun _ hr =>
        (mirrors_readReference (pairs_image hr) hf.scope).bind fun old hold => ?_
      exact mirrors_pure (pairs_enter ((hf.pushOperand (pairs_image hold)).withStep 2) hh value)
    · exact mirrors_pure (pairs_enter (hf.withStep 2) hh value)
  · dsimp only
    split
    · exact hstore _ _ hf.value
    · refine (mirrors_collectRight hf _).bind fun combined hcombined => ?_
      cases combined with
      | value v => exact hstore _ _ ⟨hcombined, rfl⟩
      | convert f child =>
        exact mirrors_pure (pairs_push ⟨hcombined.1, rfl⟩ ⟨hcombined.2, rfl⟩)

theorem mirrors_stepUpdate (op : Tree.UpdateOp) (before : Bool) (argument : NodeId) :
    p.Mirrors (stepUpdate f here op before argument) (stepUpdate f' here' op before argument) := by
  unfold stepUpdate
  rw [hf.step_eq, hf.value.toNumber_eq]
  split
  · exact mirrors_pure (pairs_enterRef (hf.withStep 1) hh argument)
  · refine (mirrors_takeReference hf "update").bind fun _ hr =>
      (mirrors_readReference (pairs_image hr) hf.scope).bind fun old hold => ?_
    rw [isObject_image]
    split
    · exact (mirrors_toPrimitiveFrame (pairs_image hold) .number hf.scope).bind fun _ hchild =>
        mirrors_pure (pairs_push (hf.withStep 2) (pairs_image hchild))
    · exact mirrors_pure (pairs_stay ((hf.withStep 2).withValue (pairs_image hold)))
  · dsimp only
    exact (mirrors_takeReference hf "update").bind fun _ hr =>
      (mirrors_writeReference (pairs_image hr) hf.scope (pairs_number _)).bind fun _ _ =>
        mirrors_pure (pairs_done (pairs_number _))

theorem pairs_startUnary (kind : NodeKind) (op : Tree.UnaryOp) (argument : NodeId) :
    p.Pairs (startUnary f here kind op argument) (startUnary f' here' kind op argument) := by
  have hplace := pairs_enterRef (hf.withStep 1) hh argument
  have hvalue := pairs_enter (hf.withStep 1) hh argument
  unfold startUnary
  dsimp only
  split
  · exact hplace
  · exact pairs_done (pairs_ofBool false)
  · split
    · exact hplace
    · exact hvalue
  · exact hvalue

omit hh

theorem mirrors_finishTypeof : p.Mirrors (finishTypeof f) (finishTypeof f') := by
  obtain ⟨hw, heq⟩ := hf.reference
  unfold finishTypeof
  rw [heq]
  cases hr : f.reference with
  | none =>
    refine mirrors_get_bind fun m m' hm => ?_
    rw [hm.typeOf hf.value]
    exact mirrors_pure (pairs_done (pairs_string _))
  | some r =>
    have hread : p.Mirrors
        (do
          let v ← readReference r f.scope
          return Step.done (.string ((← get).typeOf v)))
        (do
          let v ← readReference (image p r) f'.scope
          return Step.done (.string ((← get).typeOf v))) := by
      refine (mirrors_readReference (pairs_image (hw r hr)) hf.scope).bind fun v hv => ?_
      refine mirrors_get_bind fun m m' hm => ?_
      rw [hm.typeOf (pairs_image hv)]
      exact mirrors_pure (pairs_done (pairs_string _))
    cases r with
    | property base key => exact hread
    | binding found name =>
      cases found with
      | none => exact mirrors_pure (pairs_done (pairs_string _))
      | some id => exact hread

theorem mirrors_finishDelete : p.Mirrors (finishDelete f) (finishDelete f') := by
  obtain ⟨hw, heq⟩ := hf.reference
  have htrue := mirrors_pure (pairs_done (pairs_ofBool (p := p) true))
  unfold finishDelete
  rw [heq]
  cases hr : f.reference with
  | none => exact htrue
  | some r =>
    have hbase := hw r hr
    cases r with
    | binding found name => exact htrue
    | property base key =>
      cases base with
      | object id =>
        refine (mirrors_scopeOwner hf.scope).bind fun actor hactor => ?_
        refine (mirrors_deleteProperty
          (pairs_image ((within_ofObject p id).1 hbase)) key (pairs_image hactor)).bind
          fun deleted _ => ?_
        exact mirrors_pure (pairs_done (pairs_ofBool deleted))
      | undefined => exact mirrors_throw (pairs_raised _ _)
      | null => exact mirrors_throw (pairs_raised _ _)
      | bool b => exact htrue
      | number n => exact htrue
      | string s => exact htrue

theorem mirrors_finishNumeric {apply : Float → Value} (happly : ∀ n, (apply n).isObject = false) :
    p.Mirrors (finishNumeric f apply) (finishNumeric f' apply) := by
  unfold finishNumeric
  rw [hf.step_eq, hf.value.isObject_eq, hf.value.toNumber_eq]
  split
  · exact (mirrors_toPrimitiveFrame hf.value .number hf.scope).bind fun _ hchild =>
      mirrors_pure (pairs_push (hf.clearValue.withStep 2) (pairs_image hchild))
  · have hprimitive := happly f.value.toNumber
    refine mirrors_pure (pairs_done ?_)
    revert hprimitive
    cases apply f.value.toNumber with
    | object id => exact fun h => by cases h
    | _ => exact fun _ => ⟨fun _ h => (by cases h), rfl⟩

include hh

theorem mirrors_stepUnary (program : Tree.Program) (op : Tree.UnaryOp) (argument : NodeId) :
    p.Mirrors (stepUnary f here program op argument) (stepUnary f' here' program op argument) := by
  unfold stepUnary
  rw [hf.step_eq, hf.value.truthy_eq]
  split
  · exact (mirrors_query fun _ _ _ => pairs_nodeKind program argument).bind fun kind _ =>
      mirrors_pure (pairs_startUnary hf hh kind op argument)
  · split
    · exact mirrors_finishTypeof hf
    · exact mirrors_finishDelete hf
    · exact mirrors_pure (pairs_done pairs_undefined)
    · exact mirrors_pure (pairs_done (pairs_ofBool _))
    · exact mirrors_finishNumeric hf fun _ => rfl
    · exact mirrors_finishNumeric hf fun _ => rfl
    · exact mirrors_finishNumeric hf fun _ => rfl

/-! ## Literals -/

omit hh

theorem follows_literalObject {create create' : Option Owner → Exec ObjectId}
    (hcreate : ∀ owner, Within p owner → p.Follows (create owner) (create' (image p owner))) :
    p.Follows (literalObject f create) (literalObject f' create') := by
  obtain ⟨hw, heq⟩ := hf.info
  unfold literalObject
  rw [heq]
  cases hinfo : f.info with
  | object id =>
    rw [hinfo] at hw
    exact follows_pure (pairs_image (x := id) hw)
  | _ => exact (mirrors_scopeOwner hf.scope).bind_follows hcreate

omit hf in
theorem pairs_objectInfo {id id' : ObjectId} (h : p.Pairs id id') :
    p.Pairs (FrameInfo.object id) (.object id') :=
  ⟨h.within, congrArg FrameInfo.object h.eq⟩

/-- The frame of a literal once the value of an element has been taken. -/
theorem pairs_building (stored : Bool) {id id' : ObjectId} (hid : p.Pairs id id') :
    p.Pairs ({ (if stored then f.clearValue else f) with info := .object id } : Frame)
      { (if stored then f'.clearValue else f') with info := .object id' } := by
  cases stored with
  | true => exact hf.clearValue.withInfo (pairs_objectInfo hid)
  | false => exact hf.withInfo (pairs_objectInfo hid)

include hh

theorem follows_stepArray (elements : List (Option NodeId)) :
    p.Follows (stepArray f here elements) (stepArray f' here' elements) := by
  refine (follows_literalObject hf fun owner howner =>
    follows_createArray ⟨within_nil p, rfl⟩ (pairs_image howner)).bind fun q hle id id' hid => ?_
  have hf := hf.mono hle
  have hh := hh.mono hle
  rw [hf.step_eq]
  extract_lets stored kept g next rest kept' g' next' rest'
  have hg : q.Pairs g g' := pairs_building hf stored hid
  have hnext : next' = next := by
    dsimp only [next, next']
    rw [hg.step_eq]
  have hrest : q.Follows (rest ()) (rest' ()) := by
    dsimp only [rest, rest']
    rw [hnext]
    split
    · exact follows_pure (pairs_enter (hg.withStep _) hh _)
    · exact (mirrors_putProperty hid "length" (pairs_length (pairs_ofNat _))).bind_follows
        fun _ _ => follows_pure (pairs_done (pairs_ofObject hid))
  split
  · exact (mirrors_putProperty hid _ (pairs_data hf.value)).bind_follows fun _ _ => hrest
  · exact hrest

theorem follows_stepObject (properties : List Tree.PropertyInit) :
    p.Follows (stepObject f here properties) (stepObject f' here' properties) := by
  refine (follows_literalObject hf fun owner howner =>
    follows_createPlainObject (pairs_image howner)).bind fun q hle id id' hid => ?_
  have hf := hf.mono hle
  have hh := hh.mono hle
  rw [hf.step_eq]
  extract_lets stored kept g rest kept' g' rest'
  have hg : q.Pairs g g' := pairs_building hf stored.isSome hid
  have hrest : q.Follows (rest ()) (rest' ()) := by
    dsimp only [rest, rest']
    rw [hg.step_eq]
    split
    · exact follows_pure (pairs_enter (hg.withStep _) hh _)
    · exact follows_pure (pairs_done (pairs_ofObject hid))
  clear_value stored
  cases stored with
  | none => exact hrest
  | some init =>
    exact (mirrors_putProperty hid init.key (pairs_data hf.value)).bind_follows fun _ _ => hrest

theorem follows_stepFunction (function : Tree.FunctionNode) :
    p.Follows (stepFunction f here function) (stepFunction f' here' function) := by
  refine (mirrors_scopeOwner hf.scope).bind_follows fun owner howner => ?_
  have howner := pairs_image howner
  cases function.name with
  | none =>
    exact (follows_createClosure hh hf.scope howner).bind fun q _ func func' hfunc =>
      follows_pure (pairs_done (pairs_ofObject hfunc))
  | some name =>
    refine (follows_newScope .functionName (pairs_some hf.scope) howner pairs_none).bind
      fun q hle scope scope' hscope => ?_
    refine (follows_createClosure (hh.mono hle) hscope (howner.mono hle)).bind
      fun r hle func func' hfunc => ?_
    have hfunc := pairs_ofObject hfunc
    exact (mirrors_declare (hscope.mono hle) name hfunc false).bind_follows fun _ _ =>
      follows_pure (pairs_done hfunc)

omit hf hh in
theorem pairs_literalValue (l : Tree.Literal) : p.Pairs (literalValue l) (literalValue l) := by
  cases l with
  | null => exact ⟨within_null p, rfl⟩
  | bool b => exact pairs_ofBool b
  | number n => exact pairs_number n
  | string s => exact pairs_string s

/-! ## Names, members and calls -/

omit hh

theorem mirrors_stepIdentifier (name : String) :
    p.Mirrors (stepIdentifier f name) (stepIdentifier f' name) := by
  unfold stepIdentifier
  rw [hf.wantRef_eq]
  split
  · exact (mirrors_resolveBinding hf.scope name).bind fun found hfound =>
      mirrors_pure (pairs_ref ⟨hfound, rfl⟩)
  · exact (mirrors_getBinding hf.scope name).bind fun _ hv =>
      mirrors_pure (pairs_done (pairs_image hv))

theorem mirrors_finishMember {base base' : Value} (hbase : p.Pairs base base') (key : String) :
    p.Mirrors (finishMember f base key) (finishMember f' base' key) := by
  unfold finishMember
  rw [hf.wantRef_eq]
  split
  · exact mirrors_pure (pairs_ref ⟨hbase.within, by rw [hbase.eq]; rfl⟩)
  · exact (mirrors_scopeOwner hf.scope).bind fun actor hactor =>
      (mirrors_getProperty hbase key (pairs_image hactor)).bind fun _ hv =>
        mirrors_pure (pairs_done (pairs_image hv))

include hh

theorem mirrors_stepMember (object : NodeId) (property : Tree.MemberProperty) :
    p.Mirrors (stepMember f here object property) (stepMember f' here' object property) := by
  unfold stepMember
  rw [hf.step_eq, hf.value.isObject_eq, hf.value.toText_eq]
  split
  · exact mirrors_pure (pairs_enter (hf.withStep 1) hh object)
  · split
    · exact mirrors_finishMember hf hf.value _
    · exact mirrors_pure
        (pairs_enter ((hf.pushOperand hf.value).clearValue.withStep 2) hh _)
  · split
    · exact (mirrors_toPrimitiveFrame hf.value .string hf.scope).bind fun _ hchild =>
        mirrors_pure (pairs_push (hf.clearValue.withStep 3) (pairs_image hchild))
    · exact mirrors_finishMember hf (hf.operand 0) _
  · exact mirrors_finishMember hf (hf.operand 0) _

omit hh in
theorem mirrors_calleeOf : p.Mirrors (calleeOf f) (calleeOf f') := by
  obtain ⟨hw, heq⟩ := hf.reference
  unfold calleeOf
  rw [heq]
  cases hr : f.reference with
  | none =>
    exact mirrors_pure ⟨⟨hf.value.within, within_undefined p⟩,
      by rw [hf.value.eq]; rfl⟩
  | some r =>
    refine (mirrors_readReference (pairs_image (hw r hr)) hf.scope).bind fun func hfunc => ?_
    have hbase := hw r hr
    cases r with
    | binding found name => exact mirrors_pure ⟨⟨hfunc, within_undefined p⟩, rfl⟩
    | property base key => exact mirrors_pure ⟨⟨hfunc, hbase⟩, rfl⟩

theorem mirrors_stepArguments (program : Tree.Program) (callee : NodeId)
    (arguments : List NodeId) (construct : Bool) :
    p.Mirrors (stepArguments f here program callee arguments construct)
      (stepArguments f' here' program callee arguments construct) := by
  unfold stepArguments
  rw [hf.step_eq]
  extract_lets index g func dropped what g' func' dropped'
  have hg : p.Pairs g g' := by
    dsimp only [g, g']
    split
    · exact (hf.pushOperand hf.value).clearValue
    · exact hf
  have hfunc : p.Pairs func func' := hg.operand 0
  rw [hg.step_eq]
  split
  · exact mirrors_pure (pairs_enter (hg.withStep _) hh _)
  · refine mirrors_get_bind fun m m' hm => ?_
    rw [hm.isCallable hfunc]
    split
    · have hargs : p.Pairs (g.operands.drop 2) (g'.operands.drop 2) :=
        ⟨within_drop p hg.operands.within 2, by rw [hg.operands.eq, drop_image]⟩
      exact mirrors_pure (pairs_push (hg.dropOperands.withStep calledStep)
        (pairs_ofCall hg.scope (pairs_callInfo hfunc (hg.operand 1) hargs construct)))
    · exact mirrors_throw (pairs_raised _ _)

theorem mirrors_stepCallExpression (program : Tree.Program) (callee : NodeId)
    (arguments : List NodeId) (construct : Bool) :
    p.Mirrors (stepCallExpression f here program callee arguments construct)
      (stepCallExpression f' here' program callee arguments construct) := by
  unfold stepCallExpression
  rw [hf.step_eq]
  split
  · exact mirrors_pure (pairs_done hf.value)
  · split
    · refine (mirrors_query fun _ _ _ => pairs_nodeKind program callee).bind fun kind _ => ?_
      have hplace := mirrors_pure (pairs_enterRef (hf.withStep 1) hh callee)
      have hvalue := mirrors_pure (pairs_enter (hf.withStep 1) hh callee)
      rw [image_nodeKind]
      dsimp only
      split
      · exact hplace
      · exact hvalue
    · refine (mirrors_calleeOf hf).bind fun found hfound => ?_
      obtain ⟨func, receiver⟩ := found
      have hsome : f'.reference.isSome = f.reference.isSome := by
        rw [hf.reference.eq, isSome_image]
      have hleft : p.Pairs (if f.reference.isSome then { f with reference := none } else f.clearValue)
          (if f'.reference.isSome then { f' with reference := none, step := f.step }
            else f'.clearValue) := by
        rw [hsome]
        split
        · exact (hf.withReference pairs_none).withStep f.step
        · exact hf.clearValue
      have hcallee := (hleft.pushOperand (pairs_image hfound.1)).pushOperand
        (pairs_image hfound.2)
      rw [image_pair]
      dsimp only
      exact mirrors_stepArguments (hcallee.withStep 2) hh program callee arguments construct
    · exact mirrors_stepArguments hf hh program callee arguments construct

theorem pairs_stepConditional (test consequent alternate : NodeId) :
    p.Pairs (stepConditional f here test consequent alternate)
      (stepConditional f' here' test consequent alternate) := by
  unfold stepConditional
  rw [hf.step_eq, hf.value.truthy_eq]
  split
  · exact pairs_enter (hf.withStep 1) hh test
  · exact pairs_enter (hf.clearValue.withStep 2) hh _
  · exact pairs_done hf.value

theorem pairs_stepSequence (expressions : List NodeId) :
    p.Pairs (stepSequence f here expressions) (stepSequence f' here' expressions) := by
  unfold stepSequence
  rw [hf.step_eq]
  split
  · exact pairs_enter (hf.withStep _) hh _
  · exact pairs_done hf.value

end Pairing

end ScriptMachine
