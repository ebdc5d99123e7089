import ScriptMachine.Builtin.All
import ScriptMachine.Proofs.Pairing.Thread

/-!
# Builtins made alike

The objects and bindings of the builtins are made alike on paired machines.
-/

namespace ScriptMachine

open Machine Exec

namespace Pairing

variable {p : Pairing}

theorem mirrors_setBuiltin (name : String) {v v' : Value} (hv : p.Pairs v v') :
    p.Mirrors (setBuiltin name v) (setBuiltin name v') := by
  refine mirrors_modify fun m m' hm => ?_
  have hbuiltins : p.Pairs (m.builtins.insert name v) (m'.builtins.insert name v') :=
    ⟨within_insert hm.builtins.within hv.within name, by
      rw [hm.builtins.eq, hv.eq, insert_image]⟩
  exact { hm with
    same := fun hwhole => by
      rw [hm.same hwhole, hv.eq, Carried.image_of_fixes (hm.heap.same hwhole).1]
    builtins := hbuiltins
    rest := congrArg (fun n : Machine => { n with builtins := m'.builtins.insert name v' })
      hm.rest }

theorem follows_createNativeFunction (natives : Natives) (id name : String) :
    p.Follows (createNativeFunction natives id name) (createNativeFunction natives id name) := by
  unfold createNativeFunction
  split
  · exact follows_throw ⟨trivial, rfl⟩
  · refine (mirrors_builtinObject _).bind_follows fun proto hproto => ?_
    refine follows_get_bind fun m m' hm => follows_alloc ?_
    exact ((pairs_newObject (pairs_some hm.rootOwner) (pairs_some (pairs_image hproto)) .function
      (pairs_some (show p.Pairs (Callable.native id) (.native id) from ⟨trivial, rfl⟩))).put
        (pairs_frozen (pairs_ofNat _)) "length").put (pairs_frozen (pairs_string name)) "name"

theorem follows_defineGlobalNative (natives : Natives) (name : String) :
    p.Follows (defineGlobalNative natives name) (defineGlobalNative natives name) :=
  (follows_createNativeFunction _ _ _).bind fun _ _ _ _ hfunc =>
    (mirrors_setGlobal name (pairs_ofObject hfunc)).follows

instance : Carried (ForInStep Unit) := .plain

theorem follows_forIn {γ : Type} {f f' : γ → Unit → Exec (ForInStep Unit)} (xs : List γ)
    (h : ∀ q, p ≤ q → ∀ a, q.Follows (f a ()) (f' a ())) :
    p.Follows (forIn xs () f) (forIn xs () f') := by
  induction xs generalizing p with
  | nil => exact follows_pure pairs_unit
  | cons a rest ih =>
    rw [List.forIn_cons, List.forIn_cons]
    refine (h p (le_refl p) a).bind fun q hle next next' hnext => ?_
    obtain rfl : next' = next := hnext.eq
    cases next' with
    | done u => exact follows_pure pairs_unit
    | yield u => exact ih fun r hr => h r (le_trans hle hr)

end Pairing

namespace Builtin

open Pairing

variable {p : Pairing}

theorem follows_attach {target target' : ObjectId} (htarget : p.Pairs target target')
    (holder : String) (methods : List Method) :
    p.Follows (attach target holder methods) (attach target' holder methods) := by
  induction methods generalizing p with
  | nil => exact follows_pure pairs_unit
  | cons m rest ih =>
    refine (follows_createNativeFunction _ _ _).bind fun q hle func func' hfunc => ?_
    refine Mirrors.bind_follows (mirrors_modifyObject (htarget.mono hle)
      (fun o ho => (pairs_image ho).put (pairs_hidden (pairs_ofObject hfunc)) m.name)
      (fun _ => rfl) fun _ => rfl) fun _ _ => ?_
    exact ih (htarget.mono hle)

theorem mirrors_attachConstants {target target' : ObjectId} (htarget : p.Pairs target target')
    (constants : List (String × Float)) :
    p.Mirrors (attachConstants target constants) (attachConstants target' constants) := by
  refine mirrors_modifyObject htarget (fun o ho => ?_) (fun o => ?_) fun o => ?_
  · have hput {o o' : Object} (ho : p.Pairs o o') :
        p.Pairs (constants.foldl (fun (o : Object) c => o.put c.1 (.frozen (.number c.2))) o)
          (constants.foldl (fun (o : Object) c => o.put c.1 (.frozen (.number c.2))) o') := by
      induction constants generalizing o o' with
      | nil => exact ho
      | cons c rest ih => exact ih (ho.put (pairs_frozen (pairs_number c.2)) c.1)
    exact hput (pairs_image ho)
  · induction constants generalizing o with
    | nil => rfl
    | cons c rest ih => exact ih (o.put c.1 (.frozen (.number c.2)))
  · induction constants generalizing o with
    | nil => rfl
    | cons c rest ih => exact ih (o.put c.1 (.frozen (.number c.2)))

theorem follows_installConstructor (name : String) (native : Native) :
    p.Follows (installConstructor name native) (installConstructor name native) := by
  refine (follows_createNativeFunction _ _ _).bind fun q _ func func' hfunc => ?_
  refine (mirrors_builtinObject _).bind_follows fun proto hproto => ?_
  have hproto := pairs_image hproto
  refine Mirrors.bind_follows (mirrors_modifyObject hfunc
    (fun o ho => (pairs_image ho).put (pairs_frozen (pairs_ofObject hproto)) "prototype")
    (fun _ => rfl) fun _ => rfl) fun _ _ => ?_
  refine Mirrors.bind_follows (mirrors_modifyObject hproto
    (fun o ho => (pairs_image ho).put (pairs_hidden (pairs_ofObject hfunc)) "constructor")
    (fun _ => rfl) fun _ => rfl) fun _ _ => ?_
  refine (mirrors_setBuiltin name (pairs_ofObject hfunc)).bind_follows fun _ _ => ?_
  refine (mirrors_setGlobal name (pairs_ofObject hfunc)).bind_follows fun _ _ => ?_
  exact follows_pure hfunc

theorem follows_createNamespace (name : String) :
    p.Follows (createNamespace name) (createNamespace name) := by
  refine follows_get_bind fun m m' hm => ?_
  refine (follows_createPlainObject (pairs_some hm.rootOwner)).bind fun q _ id id' hid => ?_
  refine (mirrors_setBuiltin name (pairs_ofObject hid)).bind_follows fun _ _ => ?_
  refine (mirrors_setGlobal name (pairs_ofObject hid)).bind_follows fun _ _ => ?_
  exact follows_pure hid

theorem follows_installAll (methods : List Method) :
    p.Follows (Globals.installAll methods) (Globals.installAll methods) := by
  induction methods generalizing p with
  | nil => exact follows_pure pairs_unit
  | cons m rest ih => exact (follows_defineGlobalNative _ _).bind fun _ _ _ _ _ => ih

theorem follows_installKinds {base base' : ObjectId} (hbase : p.Pairs base base')
    (kinds : List ErrorKind) :
    p.Follows (Errors.installKinds base kinds) (Errors.installKinds base' kinds) := by
  induction kinds generalizing p with
  | nil => exact follows_pure pairs_unit
  | cons kind rest ih =>
    have hrest {q : Pairing} {proto proto' : ObjectId} (hbase : q.Pairs base base')
        (hproto : q.Pairs proto proto') : q.Follows (do
          modifyObject proto fun o =>
            (o.put "name" (.hidden (.string kind.name))).put "message" (.hidden (.string ""))
          let _ ← installConstructor kind.name (Errors.native kind)
          Errors.installKinds base rest) (do
          modifyObject proto' fun o =>
            (o.put "name" (.hidden (.string kind.name))).put "message" (.hidden (.string ""))
          let _ ← installConstructor kind.name (Errors.native kind)
          Errors.installKinds base' rest) := by
      refine Mirrors.bind_follows (mirrors_modifyObject hproto (fun o ho =>
        ((pairs_image ho).put (pairs_hidden (pairs_string _)) "name").put
          (pairs_hidden (pairs_string _)) "message") (fun _ => rfl) fun _ => rfl) fun _ _ => ?_
      exact (follows_installConstructor _ _).bind fun r hle _ _ _ => ih (hbase.mono hle)
    unfold Errors.installKinds
    dsimp only
    split
    · exact hrest hbase hbase
    · refine follows_get_bind fun m m' hm => ?_
      refine (follows_createObject (pairs_some hbase) (pairs_some hm.rootOwner)).bind
        fun q hle proto proto' hproto => ?_
      exact (mirrors_setBuiltin _ (pairs_ofObject hproto)).bind_follows fun _ _ =>
        hrest (hbase.mono hle) hproto

/-! ## Each group of builtins -/

theorem follows_installPrototypes : p.Follows installPrototypes installPrototypes := by
  unfold installPrototypes
  refine follows_get_bind fun m m' hm => ?_
  have hroot := pairs_some hm.rootOwner
  refine (follows_createObject pairs_none hroot).bind fun q hle base base' hbase => ?_
  have hroot := hroot.mono hle
  refine (mirrors_setBuiltin _ (pairs_ofObject hbase)).bind_follows fun _ _ => ?_
  have hfunction : q.Pairs (some (Callable.native "Function.prototype"))
      (some (.native "Function.prototype")) := pairs_some ⟨trivial, rfl⟩
  refine (follows_alloc (((pairs_newObject hroot (pairs_some hbase) .function hfunction).put
    (pairs_frozen (pairs_ofNat _)) "length").put (pairs_frozen (pairs_string _)) "name")).bind
      fun q hle func func' hfunc => ?_
  have hroot := hroot.mono hle
  have hbase := hbase.mono hle
  refine (mirrors_setBuiltin _ (pairs_ofObject hfunc)).bind_follows fun _ _ => ?_
  refine (follows_alloc ((pairs_newObject hroot (pairs_some hbase) .array pairs_none).put
    (pairs_length (pairs_ofNat _)) "length")).bind fun q hle array array' harray => ?_
  have hroot := hroot.mono hle
  have hbase := hbase.mono hle
  refine (mirrors_setBuiltin _ (pairs_ofObject harray)).bind_follows fun _ _ => ?_
  refine (follows_forIn _ fun r hr name => ?_).bind fun _ _ _ _ _ => follows_pure pairs_unit
  refine (follows_createObject (pairs_some (hbase.mono hr)) (hroot.mono hr)).bind
    fun q _ proto proto' hproto => ?_
  exact (mirrors_setBuiltin name (pairs_ofObject hproto)).bind_follows fun _ _ =>
    follows_pure ⟨trivial, rfl⟩

/-- A prototype gets its methods. -/
theorem follows_attachTo (name holder : String) (methods : List Method) :
    p.Follows (builtinObject name >>= fun proto => attach proto holder methods)
      (builtinObject name >>= fun proto => attach proto holder methods) :=
  (mirrors_builtinObject name).bind_follows fun _ hproto =>
    follows_attach (pairs_image hproto) holder methods

/-- A namespace gets its functions. -/
theorem follows_attachNamespace (name : String) (methods : List Method) :
    p.Follows (createNamespace name >>= fun id => attach id name methods)
      (createNamespace name >>= fun id => attach id name methods) :=
  (follows_createNamespace name).bind fun _ _ _ _ hid => follows_attach hid name methods

theorem follows_installErrors : p.Follows Errors.install Errors.install := by
  refine (mirrors_builtinObject _).bind_follows fun proto hproto => ?_
  refine follows_get_bind fun m m' hm => ?_
  refine (follows_createObject (pairs_some (pairs_image hproto)) (pairs_some hm.rootOwner)).bind
    fun q _ base base' hbase => ?_
  refine (mirrors_setBuiltin _ (pairs_ofObject hbase)).bind_follows fun _ _ => ?_
  exact (follows_attach hbase _ _).bind fun r hle _ _ _ =>
    follows_installKinds (hbase.mono hle) _

theorem follows_installNumbers : p.Follows Numbers.install Numbers.install := by
  refine (mirrors_builtinObject _).bind_follows fun proto hproto => ?_
  refine (follows_attach (pairs_image hproto) _ _).bind fun q _ _ _ _ => ?_
  refine (follows_installConstructor _ _).bind fun q _ func func' hfunc => ?_
  refine (mirrors_attachConstants hfunc _).bind_follows fun _ _ => ?_
  refine (mirrors_builtinObject _).bind_follows fun proto hproto => ?_
  refine (follows_attach (pairs_image hproto) _ _).bind fun q _ _ _ _ => ?_
  exact (follows_installConstructor _ _).bind fun _ _ _ _ _ => follows_pure pairs_unit

theorem follows_installGlobals : p.Follows Globals.install Globals.install := by
  refine follows_get_bind fun m m' hm => ?_
  have hscope := hm.globalScope
  refine (mirrors_declare hscope _ pairs_undefined false).bind_follows fun _ _ => ?_
  refine (mirrors_declare hscope _ (pairs_number _) false).bind_follows fun _ _ => ?_
  refine (mirrors_declare hscope _ (pairs_number _) false).bind_follows fun _ _ => ?_
  exact follows_installAll _

/-- All builtins are made alike. -/
theorem follows_install : p.Follows install install := by
  refine follows_installPrototypes.bind fun _ _ _ _ _ => ?_
  refine Follows.bind ((follows_createNativeFunction _ _ _).bind fun q _ func func' hfunc =>
    (mirrors_setBuiltin _ (pairs_ofObject hfunc)).follows) fun _ _ _ _ _ => ?_
  have hattach {q : Pairing} (name : String) (native : Native) (methods : List Method) :
      q.Follows (installConstructor name native >>= fun func => attach func name methods)
        (installConstructor name native >>= fun func => attach func name methods) :=
    (follows_installConstructor name native).bind fun _ _ _ _ hfunc =>
      follows_attach hfunc name methods
  have hconstruct {q : Pairing} (name : String) (native : Native) :
      q.Follows (installConstructor name native >>= fun _ => pure ())
        (installConstructor name native >>= fun _ => pure ()) :=
    (follows_installConstructor name native).bind fun _ _ _ _ _ => follows_pure pairs_unit
  refine Follows.bind ?_ fun _ _ _ _ _ => ?_
  · exact (mirrors_builtinObject _).bind_follows fun proto hproto =>
      (follows_attach (pairs_image hproto) _ _).bind fun _ _ _ _ _ => hattach _ _ _
  refine (follows_attachTo _ _ _).bind fun _ _ _ _ _ => ?_
  refine Follows.bind ?_ fun _ _ _ _ _ => ?_
  · exact (mirrors_builtinObject _).bind_follows fun proto hproto =>
      (follows_attach (pairs_image hproto) _ _).bind fun _ _ _ _ _ => hattach _ _ _
  refine follows_installErrors.bind fun _ _ _ _ _ => ?_
  refine Follows.bind ?_ fun _ _ _ _ _ => ?_
  · exact (mirrors_builtinObject _).bind_follows fun proto hproto =>
      (follows_attach (pairs_image hproto) _ _).bind fun _ _ _ _ _ => hconstruct _ _
  refine follows_installNumbers.bind fun _ _ _ _ _ => ?_
  refine Follows.bind ?_ fun _ _ _ _ _ => ?_
  · exact (follows_createNamespace _).bind fun _ _ _ _ hid =>
      (mirrors_attachConstants hid _).bind_follows fun _ _ => follows_attach hid _ _
  refine (follows_attachNamespace _ _).bind fun _ _ _ _ _ => ?_
  refine (follows_attachNamespace _ _).bind fun _ _ _ _ _ => ?_
  refine follows_installGlobals.bind fun _ _ _ _ _ => ?_
  exact (follows_installAll _).bind fun _ _ _ _ _ => follows_attachNamespace _ _

end Builtin

end ScriptMachine
