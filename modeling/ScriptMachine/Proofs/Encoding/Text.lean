import ScriptMachine.Proofs.Beginning
import ScriptMachine.Proofs.Execution
import ScriptMachine.Proofs.JsonRoundTrip
import ScriptMachine.Snapshot.Decode
import ScriptMachine.Snapshot.Encode

/-!
# The text form of a snapshot

Snapshots are records of a fixed shape, so their text can always be taken apart again. Restoring
from the text is restoring from the records in which each number was replaced by what its own text
reads back as. When a thread started its run is in no record.
-/

namespace ScriptMachine

namespace Json

/-- The keys of each object differ, and the value is nested at most so deeply. -/
def WellShaped (n : Nat) (j : Json) : Prop :=
  j.KeysDiffer ∧ j.depth ≤ n

theorem WellShaped.mono {n k : Nat} {j : Json} (h : j.WellShaped n) (hnk : n ≤ k) :
    j.WellShaped k :=
  ⟨h.1, Nat.le_trans h.2 hnk⟩

@[simp] theorem wellShaped_null (n : Nat) : WellShaped n .null := ⟨trivial, Nat.zero_le n⟩

@[simp] theorem wellShaped_bool (n : Nat) (b : Bool) : WellShaped n (.bool b) :=
  ⟨trivial, Nat.zero_le n⟩

@[simp] theorem wellShaped_nat (n k : Nat) : WellShaped n (.nat k) := ⟨trivial, Nat.zero_le n⟩

@[simp] theorem wellShaped_float (n : Nat) (f : Float) : WellShaped n (.float f) :=
  ⟨trivial, Nat.zero_le n⟩

@[simp] theorem wellShaped_str (n : Nat) (s : String) : WellShaped n (.str s) :=
  ⟨trivial, Nat.zero_le n⟩

theorem wellShaped_arr {n : Nat} {js : List Json} (h : ∀ j ∈ js, j.WellShaped n) :
    WellShaped (n + 1) (.arr js) := by
  have hitems : ItemsDiffer js ∧ itemsDepth js ≤ n := by
    induction js with
    | nil => exact ⟨trivial, Nat.zero_le n⟩
    | cons j js ih =>
      obtain ⟨hkeys, hdepth⟩ := h j (by simp)
      obtain ⟨ihkeys, ihdepth⟩ := ih fun k hk => h k (by simp [hk])
      exact ⟨⟨hkeys, ihkeys⟩, Nat.max_le.2 ⟨hdepth, ihdepth⟩⟩
  exact ⟨hitems.1, Nat.succ_le_succ hitems.2⟩

theorem wellShaped_obj {n : Nat} {fs : List (String × Json)} (hkeys : (fs.map Prod.fst).Nodup)
    (h : ∀ f ∈ fs, f.2.WellShaped n) : WellShaped (n + 1) (.obj fs) := by
  have hfields : FieldsDiffer fs ∧ fieldsDepth fs ≤ n := by
    clear hkeys
    induction fs with
    | nil => exact ⟨trivial, Nat.zero_le n⟩
    | cons f fs ih =>
      obtain ⟨key, j⟩ := f
      obtain ⟨hj, hdepth⟩ := h (key, j) (by simp)
      obtain ⟨ihfields, ihdepth⟩ := ih fun k hk => h k (by simp [hk])
      exact ⟨⟨hj, ihfields⟩, Nat.max_le.2 ⟨hdepth, ihdepth⟩⟩
  exact ⟨⟨hkeys, hfields.1⟩, Nat.succ_le_succ hfields.2⟩

theorem wellShaped_ofList {α : Type} {n : Nat} {write : α → Json}
    (h : ∀ a, (write a).WellShaped n) (as : List α) : WellShaped (n + 1) (ofList write as) := by
  apply wellShaped_arr
  intro j hj
  obtain ⟨a, -, rfl⟩ := List.mem_map.1 hj
  exact h a

theorem wellShaped_ofOption {α : Type} {n : Nat} {write : α → Json}
    (h : ∀ a, (write a).WellShaped n) (a : Option α) : WellShaped n (ofOption write a) := by
  cases a with
  | none => exact wellShaped_null n
  | some a => exact h a

end Json

/-! ## Stored programs -/

namespace Tree

open Json

theorem wellShaped_hoisted (h : Hoisted) : WellShaped 2 h.toJson := by
  refine wellShaped_obj (by simp) ?_
  simp [wellShaped_ofList]

theorem wellShaped_functionNode_fields (f : FunctionNode) :
    (f.fields.map Prod.fst).Nodup ∧ ∀ x ∈ f.fields, x.2.WellShaped 3 := by
  refine ⟨by simp [FunctionNode.fields], ?_⟩
  have hoisted := (wellShaped_hoisted f.hoisted).mono (show 2 ≤ 3 by decide)
  simp [FunctionNode.fields, wellShaped_ofOption, wellShaped_ofList, hoisted]

theorem wellShaped_switchCase (c : SwitchCase) : WellShaped 2 c.toJson := by
  refine wellShaped_obj (by simp) ?_
  simp [wellShaped_ofOption, wellShaped_ofList]

theorem wellShaped_catchClause (c : CatchClause) : WellShaped 3 c.toJson :=
  wellShaped_obj (by simp) (by simp)

theorem wellShaped_propertyInit (p : PropertyInit) : WellShaped 2 p.toJson :=
  wellShaped_obj (by simp) (by simp)

theorem wellShaped_memberProperty (p : MemberProperty) : WellShaped 3 p.toJson := by
  cases p <;> exact wellShaped_obj (by simp) (by simp)

theorem wellShaped_literal (l : Literal) : WellShaped 3 l.toJson := by
  cases l with
  | null => exact wellShaped_str 3 _
  | bool b => exact wellShaped_obj (by simp) (by simp)
  | number n =>
    refine wellShaped_obj (by simp) ?_
    simp only [List.mem_singleton, forall_eq]
    split <;> simp
  | string s => exact wellShaped_obj (by simp) (by simp)

theorem nodup_nodeKind_fields (k : NodeKind) : ("type" :: k.fields.map Prod.fst).Nodup := by
  cases k <;> simp [NodeKind.fields, FunctionNode.fields]

theorem wellShaped_nodeKind_fields (k : NodeKind) : ∀ x ∈ k.fields, x.2.WellShaped 3 := by
  have nodes : ∀ ids : List NodeId, WellShaped 3 (ofList Json.nat ids) :=
    fun ids => wellShaped_ofList (n := 2) (by simp) ids
  have node : ∀ id : Option NodeId, WellShaped 3 (ofOption Json.nat id) :=
    wellShaped_ofOption (by simp)
  have label : ∀ l : Option String, WellShaped 3 (ofOption Json.str l) :=
    wellShaped_ofOption (by simp)
  cases k with
  | program body hoisted =>
    simpa [NodeKind.fields, nodes] using (wellShaped_hoisted hoisted).mono (by decide)
  | functionDeclaration f => exact (wellShaped_functionNode_fields f).2
  | functionExpression f => exact (wellShaped_functionNode_fields f).2
  | tryStatement body handler finalizer =>
    simp [NodeKind.fields, node, wellShaped_ofOption wellShaped_catchClause handler]
  | switchStatement discriminant cases =>
    simp [NodeKind.fields, wellShaped_ofList wellShaped_switchCase cases]
  | array elements =>
    have element : ∀ id : Option NodeId, WellShaped 2 (ofOption Json.nat id) :=
      wellShaped_ofOption (by simp)
    simp [NodeKind.fields, wellShaped_ofList element elements]
  | object properties =>
    simp [NodeKind.fields, wellShaped_ofList wellShaped_propertyInit properties]
  | literal value => simp [NodeKind.fields, wellShaped_literal value]
  | member base property => simp [NodeKind.fields, wellShaped_memberProperty property]
  | _ => simp [NodeKind.fields, nodes, node, label]

theorem wellShaped_node (n : Node) : WellShaped 5 n.toJson := by
  have kind : WellShaped 4 n.kind.toJson := by
    refine wellShaped_obj (nodup_nodeKind_fields n.kind) ?_
    rw [List.forall_mem_cons]
    exact ⟨wellShaped_str 3 _, wellShaped_nodeKind_fields n.kind⟩
  have span : WellShaped 4 (spanToJson n.span) :=
    wellShaped_obj (n := 3) (by simp) (by simp)
  exact wellShaped_obj (by simp) (by simp [kind, span])

theorem wellShaped_program (p : Program) : WellShaped 7 p.toJson :=
  wellShaped_obj (by simp) (by simp [wellShaped_ofList wellShaped_node])

end Tree

/-! ## Records -/

namespace Snapshot

open Json

variable {α β : Type}

/-- Whatever was referred to before, the writing gives a result of a kind. -/
def Writes (P : α → Prop) (w : Writing α) : Prop :=
  ∀ n, P (w.run n).1

theorem writes_pure {P : α → Prop} {a : α} (h : P a) : Writes P (pure a) :=
  fun _ => h

theorem Writes.bind {P : α → Prop} {Q : β → Prop} {w : Writing α} {f : α → Writing β}
    (hw : Writes P w) (hf : ∀ a, P a → Writes Q (f a)) : Writes Q (w >>= f) :=
  fun n => hf _ (hw n) _

theorem wellShaped_reference (place : Nat) : WellShaped 1 (reference place) :=
  wellShaped_obj (by simp) (by simp)

theorem writes_refer (item : Item) : Writes (WellShaped 1) (refer item) := by
  intro n
  have hrun : ∀ f : Numbering → Json × Numbering, (modifyGet f : Writing Json).run n = f n :=
    fun f => rfl
  rw [refer, hrun]
  split <;> exact wellShaped_reference _

theorem wellShaped_number (n : Float) : WellShaped 1 (number n) := by
  unfold number
  split
  · exact wellShaped_obj (by simp) (by simp)
  · exact wellShaped_float 1 _

theorem writes_value (v : Value) : Writes (WellShaped 1) (value v) := by
  cases v with
  | undefined => exact writes_pure (wellShaped_obj (by simp) (by simp))
  | null => exact writes_pure (wellShaped_null 1)
  | bool b => exact writes_pure (wellShaped_bool 1 b)
  | number n => exact writes_pure (wellShaped_number n)
  | string s => exact writes_pure (wellShaped_str 1 s)
  | object id => exact writes_refer (.object id)

theorem writes_values (vs : List Value) :
    Writes (fun js => ∀ j ∈ js, WellShaped 1 j) (values vs) := by
  induction vs with
  | nil => exact writes_pure (by simp)
  | cons v vs ih =>
    refine (writes_value v).bind fun j hj => ih.bind fun js hjs => writes_pure ?_
    exact List.forall_mem_cons.2 ⟨hj, hjs⟩

/-- Named values keep their names. -/
theorem writes_fields (vs : List (String × Value)) :
    Writes (fun fs => fs.map Prod.fst = vs.map Prod.fst ∧ ∀ f ∈ fs, WellShaped 1 f.2)
      (fields vs) := by
  induction vs with
  | nil => exact writes_pure (by simp)
  | cons v vs ih =>
    obtain ⟨name, v⟩ := v
    refine (writes_value v).bind fun j hj => ih.bind fun fs hfs => writes_pure ?_
    exact ⟨by simp [hfs.1], List.forall_mem_cons.2 ⟨hj, hfs.2⟩⟩

theorem writes_optionalObject (id : Option ObjectId) :
    Writes (WellShaped 1) (optionalObject id) := by
  cases id with
  | none => exact writes_pure (wellShaped_null 1)
  | some id => exact writes_refer (.object id)

theorem writes_optionalScope (id : Option ScopeId) :
    Writes (WellShaped 1) (optionalScope id) := by
  cases id with
  | none => exact writes_pure (wellShaped_null 1)
  | some id => exact writes_refer (.scope id)

theorem wellShaped_names (keys : List String) : WellShaped 1 (names keys) :=
  wellShaped_ofList (by simp) keys

theorem writes_function (f : Callable) : Writes (WellShaped 3) (function f) := by
  cases f with
  | closure node scope =>
    refine (writes_refer _).bind fun program hprogram => ?_
    refine (writes_refer _).bind fun scope hscope => writes_pure ?_
    refine wellShaped_obj (by simp) ?_
    simp [hprogram.mono (show 1 ≤ 2 by decide), hscope.mono (show 1 ≤ 2 by decide)]
  | bound target receiver args =>
    refine (writes_refer _).bind fun target htarget => ?_
    refine (writes_value receiver).bind fun receiver hreceiver => ?_
    refine (writes_values args).bind fun args hargs => writes_pure ?_
    refine wellShaped_obj (by simp) ?_
    simp [htarget.mono (show 1 ≤ 2 by decide), hreceiver.mono (show 1 ≤ 2 by decide),
      wellShaped_arr hargs]
  | native id => exact writes_pure (wellShaped_obj (by simp) (by simp))

/-- A field that may be left out. -/
def MayHold (name : String) (n : Nat) (fs : List (String × Json)) : Prop :=
  fs = [] ∨ ∃ j, fs = [(name, j)] ∧ WellShaped n j

theorem MayHold.sublist {name : String} {n : Nat} {fs : List (String × Json)}
    (h : MayHold name n fs) : (fs.map Prod.fst).Sublist [name] := by
  rcases h with rfl | ⟨j, rfl, -⟩
  · exact List.nil_sublist _
  · exact List.Sublist.refl _

theorem MayHold.wellShaped {name : String} {n : Nat} {fs : List (String × Json)}
    (h : MayHold name n fs) : ∀ f ∈ fs, WellShaped n f.2 := by
  rcases h with rfl | ⟨j, rfl, hj⟩
  · simp
  · simpa using hj

theorem mayHold_lacking (o : Object) (name : String) (has : Property → Bool) :
    MayHold name 3 (lacking o name has) := by
  unfold lacking
  split
  · exact .inl rfl
  · exact .inr ⟨_, rfl, (wellShaped_names _).mono (by decide)⟩

theorem mayHold_ite (b : Bool) (name : String) {j : Json} (hj : WellShaped 3 j) :
    MayHold name 3 (if b then [] else [(name, j)]) := by
  split
  · exact .inl rfl
  · exact .inr ⟨j, rfl, hj⟩

theorem nodup_properties (o : Object) :
    ((o.properties.entries.toList.map fun e => (e.1, e.2.value)).map Prod.fst).Nodup := by
  rw [List.map_map]
  exact o.properties.nodup_keys

theorem writes_objectRecord (o : Object) : Writes (WellShaped 4) (objectRecord o) := by
  refine (writes_optionalObject o.owner).bind fun owner howner => ?_
  refine (writes_optionalObject o.proto).bind fun proto hproto => ?_
  refine (writes_fields _).bind fun props hprops => ?_
  -- The fields in front of the function, which is written last.
  have hrecord : ∀ function, MayHold "function" 3 function → WellShaped 4 (.obj <|
      [("type", .str "Object"), ("class", .str o.cls.name), ("owner", owner), ("proto", proto)] ++
        (if props.isEmpty then [] else [("props", .obj props)]) ++
        lacking o "nonWritable" (·.writable) ++ lacking o "nonEnumerable" (·.enumerable) ++
        lacking o "nonConfigurable" (·.configurable) ++
        (if o.extensible then [] else [("isExtensible", .bool false)]) ++ function) := by
    intro function hfunction
    have hprops' : WellShaped 3 (.obj props) := by
      refine (wellShaped_obj ?_ hprops.2).mono (show 2 ≤ 3 by decide)
      rw [hprops.1]
      exact nodup_properties o
    have h₁ := mayHold_ite props.isEmpty "props" hprops'
    have h₂ := mayHold_lacking o "nonWritable" (·.writable)
    have h₃ := mayHold_lacking o "nonEnumerable" (·.enumerable)
    have h₄ := mayHold_lacking o "nonConfigurable" (·.configurable)
    have h₅ := mayHold_ite o.extensible "isExtensible" (wellShaped_bool 3 false)
    refine wellShaped_obj ?_ ?_
    · have hkeys : ["type", "class", "owner", "proto", "props", "nonWritable", "nonEnumerable",
          "nonConfigurable", "isExtensible", "function"].Nodup := by decide
      refine hkeys.sublist ?_
      simp only [List.map_append]
      exact ((((((List.Sublist.refl _).append h₁.sublist).append h₂.sublist).append
        h₃.sublist).append h₄.sublist).append h₅.sublist).append hfunction.sublist
    · have hbase : ∀ f ∈ [("type", Json.str "Object"), ("class", .str o.cls.name),
          ("owner", owner), ("proto", proto)], WellShaped 3 f.2 := by
        simp [howner.mono (show 1 ≤ 3 by decide), hproto.mono (show 1 ≤ 3 by decide)]
      simp only [List.forall_mem_append]
      exact ⟨⟨⟨⟨⟨⟨hbase, h₁.wellShaped⟩, h₂.wellShaped⟩, h₃.wellShaped⟩, h₄.wellShaped⟩,
        h₅.wellShaped⟩, hfunction.wellShaped⟩
  cases o.function with
  | none => exact writes_pure (hrecord [] (.inl rfl))
  | some f =>
    refine (writes_function f).bind fun j hj => writes_pure ?_
    exact hrecord [("function", j)] (.inr ⟨j, rfl, hj⟩)

theorem writes_scopeRecord (s : Scope) : Writes (WellShaped 4) (scopeRecord s) := by
  refine (writes_fields _).bind fun bindings hbindings => ?_
  refine (writes_optionalObject s.owner).bind fun owner howner => ?_
  refine (writes_optionalScope s.outer).bind fun outer houter => ?_
  refine (writes_value s.receiver).bind fun receiver hreceiver => writes_pure ?_
  have hbindings' : WellShaped 2 (.obj bindings) := by
    refine wellShaped_obj ?_ hbindings.2
    rw [hbindings.1, List.map_map]
    exact s.bindings.nodup_keys
  refine wellShaped_obj (by simp) ?_
  simp [howner.mono (show 1 ≤ 3 by decide), houter.mono (show 1 ≤ 3 by decide),
    hreceiver.mono (show 1 ≤ 3 by decide), hbindings'.mono (show 2 ≤ 3 by decide),
    (wellShaped_names _).mono (show 1 ≤ 3 by decide)]

/-! ## Threads -/

theorem writes_placeReference (r : Reference) : Writes (WellShaped 2) (placeReference r) := by
  cases r with
  | binding scope name =>
    refine (writes_optionalScope scope).bind fun scope hscope => writes_pure ?_
    exact wellShaped_obj (by simp) (by simp [hscope])
  | property base key =>
    refine (writes_value base).bind fun base hbase => writes_pure ?_
    exact wellShaped_obj (by simp) (by simp [hbase])

theorem writes_completion (c : Completion) : Writes (WellShaped 2) (completion c) := by
  refine (writes_value c.value).bind fun v hv => writes_pure ?_
  exact wellShaped_obj (by simp) (by simp [hv, wellShaped_ofOption])

theorem writes_callInfo (c : CallInfo) : Writes (WellShaped 3) (callInfo c) := by
  refine (writes_value c.func).bind fun func hfunc => ?_
  refine (writes_value c.receiver).bind fun receiver hreceiver => ?_
  refine (writes_values c.args).bind fun args hargs => ?_
  refine (writes_values c.scratch).bind fun scratch hscratch => ?_
  refine (writes_optionalObject c.newObject).bind fun newObject hnew => writes_pure ?_
  refine wellShaped_obj (by simp) ?_
  simp [hfunc.mono (show 1 ≤ 2 by decide), hreceiver.mono (show 1 ≤ 2 by decide),
    wellShaped_arr hargs, wellShaped_arr hscratch, hnew.mono (show 1 ≤ 2 by decide)]

theorem writes_info (i : FrameInfo) : Writes (WellShaped 3) (info i) := by
  cases i with
  | none => exact writes_pure (wellShaped_obj (by simp) (by simp))
  | operands vs =>
    refine (writes_values vs).bind fun js hjs => writes_pure ?_
    exact wellShaped_obj (by simp) (by simp [wellShaped_arr hjs])
  | call c => exact writes_callInfo c
  | «try» phase c =>
    have hrecord : ∀ j, WellShaped 2 j → WellShaped 3
        (.obj [("kind", .str "try"), ("phase", .str phase.name), ("completion", j)]) :=
      fun j hj => wellShaped_obj (by simp) (by simp [hj])
    cases c with
    | none => exact writes_pure (hrecord .null (wellShaped_null 2))
    | some c => exact (writes_completion c).bind fun j hj => writes_pure (hrecord j hj)
  | switch discriminant clause statement matched =>
    refine (writes_value discriminant).bind fun j hj => writes_pure ?_
    exact wellShaped_obj (by simp) (by simp [hj.mono (show 1 ≤ 2 by decide)])
  | forIn keys index subject =>
    refine (writes_value subject).bind fun j hj => writes_pure ?_
    refine wellShaped_obj (by simp) ?_
    simp [hj.mono (show 1 ≤ 2 by decide), (wellShaped_names keys).mono (show 1 ≤ 2 by decide)]
  | object id =>
    refine (writes_refer _).bind fun j hj => writes_pure ?_
    exact wellShaped_obj (by simp) (by simp [hj.mono (show 1 ≤ 2 by decide)])
  | program c =>
    refine (writes_value c).bind fun j hj => writes_pure ?_
    exact wellShaped_obj (by simp) (by simp [hj.mono (show 1 ≤ 2 by decide)])

theorem writes_nodeReference (node : Option NodeRef) :
    Writes (WellShaped 3) (nodeReference node) := by
  cases node with
  | none => exact writes_pure (wellShaped_null 3)
  | some node =>
    refine (writes_refer _).bind fun program hprogram => writes_pure ?_
    refine wellShaped_obj (n := 2) (by simp) ?_
    simp [hprogram.mono (show 1 ≤ 2 by decide)]

theorem writes_frameReference (r : Option Reference) :
    Writes (WellShaped 3) (frameReference r) := by
  cases r with
  | none => exact writes_pure (wellShaped_null 3)
  | some r => exact fun n => (writes_placeReference r n).mono (by decide)

theorem writes_frame (f : Frame) : Writes (WellShaped 4) (frame f) := by
  refine (writes_nodeReference f.node).bind fun node hnode => ?_
  refine (writes_frameReference f.reference).bind fun ref href => ?_
  refine (writes_refer _).bind fun scope hscope => ?_
  refine (writes_value f.value).bind fun v hv => ?_
  refine (writes_info f.info).bind fun info hinfo => writes_pure ?_
  refine wellShaped_obj (by simp) ?_
  simp [hnode, href, hscope.mono (show 1 ≤ 3 by decide), hv.mono (show 1 ≤ 3 by decide), hinfo,
    (wellShaped_names _).mono (show 1 ≤ 3 by decide)]

theorem writes_frames (fs : List Frame) :
    Writes (fun js => ∀ j ∈ js, WellShaped 4 j) (frames fs) := by
  induction fs with
  | nil => exact writes_pure (by simp)
  | cons f fs ih =>
    refine (writes_frame f).bind fun j hj => ih.bind fun js hjs => writes_pure ?_
    exact List.forall_mem_cons.2 ⟨hj, hjs⟩

theorem writes_outcome (o : Option Outcome) : Writes (WellShaped 2) (outcome o) := by
  rcases o with _ | (v | v | _)
  · exact writes_pure (wellShaped_null 2)
  · refine (writes_value v).bind fun j hj => writes_pure ?_
    exact wellShaped_obj (by simp) (by simp [hj])
  · refine (writes_value v).bind fun j hj => writes_pure ?_
    exact wellShaped_obj (by simp) (by simp [hj])
  · exact writes_pure (wellShaped_obj (by simp) (by simp))

theorem writes_threadRecord (t : Thread) : Writes (WellShaped 8) (threadRecord t) := by
  refine (writes_frames _).bind fun stack hstack => ?_
  refine (writes_outcome t.outcome).bind fun outcome houtcome => writes_pure ?_
  have hlimit := wellShaped_ofOption wellShaped_number t.timeLimit
  refine wellShaped_obj (by simp) ?_
  simp [houtcome.mono (show 2 ≤ 7 by decide), (wellShaped_number t.runAt).mono (show 1 ≤ 7 by decide),
    hlimit.mono (show 1 ≤ 7 by decide), (wellShaped_arr hstack).mono (show 5 ≤ 7 by decide)]

/-! ## The whole snapshot -/

theorem writes_threadReferences (ts : List Thread) :
    Writes (fun js => ∀ j ∈ js, WellShaped 1 j) (threadReferences ts) := by
  induction ts with
  | nil => exact writes_pure (by simp)
  | cons t ts ih =>
    refine (writes_refer _).bind fun j hj => ih.bind fun js hjs => writes_pure ?_
    exact List.forall_mem_cons.2 ⟨hj, hjs⟩

theorem writes_machineRecord (m : Machine) (time : Float) :
    Writes (WellShaped 8) (machineRecord m time) := by
  refine (writes_refer _).bind fun globalScope hscope => ?_
  refine (writes_refer _).bind fun rootOwner howner => ?_
  refine (writes_fields _).bind fun builtins hbuiltins => ?_
  refine (writes_threadReferences m.threads).bind fun threads hthreads => writes_pure ?_
  have hbuiltins' : WellShaped 2 (.obj builtins) := by
    refine wellShaped_obj ?_ hbuiltins.2
    rw [hbuiltins.1]
    exact m.builtins.nodup_keys
  have hclock : WellShaped 7 (if time.isFinite then Json.float time else .null) := by
    split <;> simp
  have hresolvers : WellShaped 2 (.arr (m.pendingResolvers.map fun r =>
      .arr [.nat r.1, .nat r.2.index])) := by
    apply wellShaped_arr
    intro j hj
    obtain ⟨r, -, rfl⟩ := List.mem_map.1 hj
    exact wellShaped_arr (by simp)
  refine wellShaped_obj (by simp) ?_
  simp [hclock, hscope.mono (show 1 ≤ 7 by decide), howner.mono (show 1 ≤ 7 by decide),
    hbuiltins'.mono (show 2 ≤ 7 by decide), hresolvers.mono (show 2 ≤ 7 by decide),
    (wellShaped_arr hthreads).mono (show 2 ≤ 7 by decide)]

theorem writes_itemRecord {m : Machine} {item : Item} {w : Writing Json}
    (h : itemRecord m item = .ok w) : Writes (WellShaped 8) w := by
  cases item with
  | object id =>
    cases ho : m.heap.object id with
    | error e =>
      rw [itemRecord, ho] at h
      cases h
    | ok o =>
      rw [itemRecord, ho] at h
      cases h
      exact fun n => (writes_objectRecord o n).mono (by decide)
  | scope id =>
    cases hs : m.heap.scope id with
    | error e =>
      rw [itemRecord, hs] at h
      cases h
    | ok s =>
      rw [itemRecord, hs] at h
      cases h
      exact fun n => (writes_scopeRecord s n).mono (by decide)
  | program id =>
    cases hp : m.heap.program id with
    | error e =>
      rw [itemRecord, hp] at h
      cases h
    | ok p =>
      rw [itemRecord, hp] at h
      cases h
      exact writes_pure (wellShaped_obj (by simp) (by simp [Tree.wellShaped_program p]))
  | thread id =>
    simp only [itemRecord] at h
    split at h
    · cases h
      exact writes_threadRecord _
    · cases h

theorem wellShaped_walk {m : Machine} {fuel next : Nat} {numbering : Numbering}
    {records result : Array Json} (h : walk m fuel next numbering records = .ok result)
    (hrecords : ∀ j ∈ records, WellShaped 8 j) : ∀ j ∈ result, WellShaped 8 j := by
  induction fuel generalizing next numbering records with
  | zero =>
    cases h
    exact hrecords
  | succ fuel ih =>
    rw [walk] at h
    split at h
    · cases h
      exact hrecords
    · rename_i item hitem
      cases hw : itemRecord m item with
      | error e =>
        rw [hw] at h
        cases h
      | ok w =>
        rw [hw] at h
        refine ih h ?_
        intro j hj
        rcases Array.mem_push.1 hj with hj | rfl
        · exact hrecords j hj
        · exact writes_itemRecord hw numbering

/-- A snapshot is an array of records whose text can be taken apart. -/
theorem wellShaped_encode {m : Machine} {time : Float} {records : List Json}
    (h : encode m time = .ok records) : WellShaped 9 (.arr records) := by
  apply wellShaped_arr
  rcases hroot : (machineRecord m time).run {} with ⟨root, numbering⟩
  have hshape : WellShaped 8 root := by
    have := writes_machineRecord m time {}
    rwa [hroot] at this
  simp only [encode, hroot] at h
  cases hwalk : walk m (m.heap.objects.size + m.heap.scopes.size + m.heap.programs.size +
      m.threads.length + 1) 0 numbering #[root] with
  | error e =>
    rw [hwalk] at h
    cases h
  | ok result =>
    rw [hwalk] at h
    cases h
    intro j hj
    refine wellShaped_walk hwalk ?_ j (by simpa using hj)
    intro j hj
    rwa [Array.mem_singleton.1 hj]

end Snapshot

namespace Machine

open Exec Json

/-- A snapshot holds the records of the machine behind one reading of the clock. -/
theorem exists_encode_of_snapshot {m m' : Machine} {j : Json} (h : snapshot m = .ok j m') :
    ∃ time records, Snapshot.encode m' time = .ok records ∧ j = .arr records := by
  obtain ⟨time, mid, -, h⟩ := bind_eq_ok_iff.1 h
  obtain ⟨records, mid', hquery, h⟩ := bind_eq_ok_iff.1 h
  obtain ⟨hencode, hmid⟩ := query_eq_ok_iff.1 hquery
  subst hmid
  obtain ⟨rfl, rfl⟩ := pure_eq_ok_iff.1 h
  exact ⟨time, records, hencode, rfl⟩

/-- Restoring from a text is restoring from what it reads as. -/
theorem restoreText_eq (natives : Natives) (text : String) (target : Machine) :
    restoreText natives text target = (match (Json.read text).toOption with
      | some j => restore natives j target
      | none => .error .json target) := by
  unfold restoreText
  cases Json.read text <;> rfl

/-- Restores a snapshot whose numbers are first read back from their own texts. -/
def restoreReread (natives : Natives) (j : Json) : Exec Unit :=
  match j.reread? with
  | some k => restore natives k
  | none => throw .json

theorem toOption_read_snapshot {m m' : Machine} {j : Json} (h : snapshot m = .ok j m') :
    (Json.read j.compact).toOption = j.reread? ∧
      (j.Survives ↔ ∀ x ∈ j.numbers, x.Survives) := by
  obtain ⟨time, records, hencode, rfl⟩ := exists_encode_of_snapshot h
  obtain ⟨hkeys, hdepth⟩ := Snapshot.wellShaped_encode hencode
  have hshallow : (Json.arr records).depth < 128 := Nat.lt_of_le_of_lt hdepth (by decide)
  exact ⟨toOption_read_compact _ hkeys hshallow, survives_iff _ hkeys hshallow⟩

theorem restoreText_eq_restoreReread (natives : Natives) {m m' : Machine} {j : Json}
    (h : snapshot m = .ok j m') (target : Machine) :
    restoreText natives j.compact target = restoreReread natives j target := by
  rw [restoreText_eq, (toOption_read_snapshot h).1, restoreReread]
  cases j.reread? <;> rfl

/-- The text of a snapshot restores what the snapshot restores once each of its numbers was read
back from its own text. The records come through, and with them the machine, exactly when each of
their numbers reads back as itself; whole numbers of 64 bits always do. -/
theorem restoreText_snapshot (natives : Natives) {m m' : Machine} {j : Json}
    (h : snapshot m = .ok j m') :
    snapshotText m = .ok j.compact m' ∧
    (∀ target, restoreText natives j.compact target = restoreReread natives j target) ∧
    (Json.read j.compact = .ok j ↔ ∀ x ∈ j.numbers, x.Survives) ∧
    ((∀ x ∈ j.numbers, x.Survives) →
      ∀ target, restoreText natives j.compact target = restore natives j target) ∧
    ∀ n < 2 ^ 64, Survives (.nat n) := by
  have hsurvives := (toOption_read_snapshot h).2
  refine ⟨?_, restoreText_eq_restoreReread natives h, hsurvives, ?_, fun n hn => survives_nat hn⟩
  · exact bind_eq_ok_iff.2 ⟨_, m', h, rfl⟩
  · intro hnumbers target
    have hread : Json.read j.compact = .ok j := hsurvives.2 hnumbers
    rw [restoreText_eq, hread]
    rfl

/-- A machine with nothing but a root owner and a global scope that holds a number. -/
def holding (n : Float) : Machine :=
  let root : Object := { owner := some ⟨0⟩, proto := none, cls := .object }
  let scope : Scope :=
    { kind := .global, owner := some ⟨0⟩, outer := none, receiver := .undefined }
  { heap := { objects := #[some root], scopes := #[some (scope.bind "x" (.number n) true)] } }

theorem restoreText_snapshot_holding : ∃ j m', snapshot (holding 0.5) = .ok j m' ∧
    ∀ target, restoreText [] j.compact target = restoreReread [] j target := by
  have hok : (match snapshot (holding 0.5) with
      | .ok _ _ => true
      | .error _ _ => false) = true := by decide +kernel
  cases h : snapshot (holding 0.5) with
  | error e m' => simp [h] at hok
  | ok j m' => exact ⟨j, m', rfl, (restoreText_snapshot [] h).2.1⟩

/-- The global `x` after a number was put there and the machine was saved and restored by some
means. -/
def reopened (reopen : Json → Exec Unit) (n : Float) (m : Machine) : Option Value :=
  match (do setGlobal "x" (.number n); snapshot : Exec Json) m with
  | .error _ _ => none
  | .ok j m =>
    match reopen j m with
    | .error _ _ => none
    | .ok _ m => m.global? "x"

theorem reopened_restoreText (natives : Natives) (n : Float) (m : Machine) :
    reopened (fun j => restoreText natives j.compact) n m =
      reopened (restoreReread natives) n m := by
  unfold reopened
  cases h : (do setGlobal "x" (.number n); snapshot : Exec Json) m with
  | error e m' => rfl
  | ok j m' =>
    obtain ⟨_, mid, -, hsnapshot⟩ := bind_eq_ok_iff.1 h
    simp only [restoreText_eq_restoreReread natives hsnapshot]

set_option maxRecDepth 100000 in
/-- On a new machine, a whole number below `2 ^ 53` that comes back from the records and not from
their text. -/
theorem reopened_restoreText_ne_reopened_restore :
    (create {} {}).toOption.bind (reopened (restore Builtin.natives) 9007199254740991) =
        some (.number 9007199254740991) ∧
      (create {} {}).toOption.bind
          (reopened (fun j => restoreText Builtin.natives j.compact) 9007199254740991) =
        some (.number 9007199254740990) := by
  simp only [funext (reopened_restoreText Builtin.natives 9007199254740991)]
  rw [toOption_create]
  decide +kernel

/-- What the first thread has come to. -/
def firstOutcome (m : Machine) : Option Outcome := (m.thread? ⟨1⟩).bind (·.outcome)

/-- What the first thread of a new machine comes to when the machine serves some requests, is saved
and restored by some means, and serves more requests. -/
def outcomeAcross (reopen : Json → Exec Unit) (first second : List Request) : Option Outcome := do
  let m ← hosted Builtin.natives {} first
  let m ← ran? (snapshot >>= reopen) m
  (← m.serve Builtin.natives second).firstOutcome

/-- A machine whose threads started their runs at other times, and where another thread was stepped
last. -/
def restarted (start : Thread → Float) (last : Option ThreadId) (m : Machine) : Machine :=
  { m with
    threads := m.threads.map fun t => { t with runStarted := start t }, lastStepped := last }

section Restarted

variable {start : Thread → Float} {last : Option ThreadId} {m : Machine}

theorem thread?_restarted (id : ThreadId) : (m.restarted start last).thread? id =
    (m.thread? id).map fun t => { t with runStarted := start t } :=
  List.find?_map

theorem threadReferences_restarted (ts : List Thread) :
    Snapshot.threadReferences (ts.map fun t => { t with runStarted := start t }) =
      Snapshot.threadReferences ts := by
  induction ts with
  | nil => rfl
  | cons t ts ih => simp only [List.map_cons, Snapshot.threadReferences, ih]

theorem itemRecord_restarted (item : Snapshot.Item) :
    Snapshot.itemRecord (m.restarted start last) item = Snapshot.itemRecord m item := by
  cases item with
  | thread id =>
    rw [Snapshot.itemRecord, Snapshot.itemRecord, thread?_restarted]
    cases m.thread? id <;> rfl
  | _ => rfl

theorem walk_restarted (fuel next : Nat) (numbering : Snapshot.Numbering) (records : Array Json) :
    Snapshot.walk (m.restarted start last) fuel next numbering records =
      Snapshot.walk m fuel next numbering records := by
  induction fuel generalizing next numbering records with
  | zero => rfl
  | succ fuel ih => simp only [Snapshot.walk, itemRecord_restarted, ih]

/-- The records of a machine do not depend on when its threads started their runs. -/
theorem encode_restarted (time : Float) :
    Snapshot.encode (m.restarted start last) time = Snapshot.encode m time := by
  have hroot : Snapshot.machineRecord (m.restarted start last) time =
      Snapshot.machineRecord m time := by
    simp only [Snapshot.machineRecord, restarted, threadReferences_restarted]
  have hlength : (m.restarted start last).threads.length = m.threads.length := List.length_map _
  rw [Snapshot.encode, Snapshot.encode, hroot, hlength]
  simp only [walk_restarted]
  rfl

/-- When the runs of the threads started is not saved: machines that differ in that alone have the
same snapshot, and no restore tells them apart. -/
theorem snapshot_restarted {m' : Machine} {j : Json} (h : snapshot m = .ok j m') :
    snapshot (m.restarted start last) = .ok j (m'.restarted start last) := by
  obtain ⟨time, mid, hnow, h⟩ := bind_eq_ok_iff.1 h
  obtain ⟨records, mid', hquery, h⟩ := bind_eq_ok_iff.1 h
  obtain ⟨hencode, rfl⟩ := query_eq_ok_iff.1 hquery
  obtain ⟨rfl, rfl⟩ := pure_eq_ok_iff.1 h
  have hnow' : now (m.restarted start last) = .ok time (mid.restarted start last) := by
    cases hnow
    rfl
  have hquery' : query (Snapshot.encode · time) (mid.restarted start last) =
      .ok records (mid.restarted start last) :=
    query_eq_ok_iff.2 ⟨(encode_restarted time).trans hencode, rfl⟩
  exact bind_eq_ok_iff.2 ⟨time, _, hnow', bind_eq_ok_iff.2 ⟨records, _, hquery', rfl⟩⟩

end Restarted

/-- A thread that gives itself a time limit was picked five seconds ago. -/
def limited : List Request :=
  [.spawn "Thread.setTimeLimit(1000); while (false) {}", .step, .advance 5000]

set_option maxRecDepth 100000 in
/-- A thread without a time limit would run too long, and does not when it is saved and restored. -/
theorem start_of_run_lost_by_restore :
    (hosted Builtin.natives {} limited).any (·.threads.all (·.timeLimit.isNone)) = true ∧
      (hosted Builtin.natives {} (limited ++ List.replicate 20 .step)).map (·.console.messages) =
        some ["Uncaught RangeError: Thread ran too long"] ∧
      outcomeAcross (restore Builtin.natives) limited (List.replicate 20 .step) =
        some (.completed .undefined) := by
  rw [outcomeAcross, hosted_eq, hosted_eq]
  decide +kernel

end Machine

end ScriptMachine
