import ScriptMachine.Proofs.Reach
import ScriptMachine.Proofs.Start

/-!
# What a new machine holds

The objects of a new machine, in the order in which they are made: the root owner, the prototypes,
and each group of builtins with its methods. The global scope and the table of builtins name them
by their places. Main statement: `toOption_create`, the machine of the standard configuration written
out, so that a run of a fixed program is evaluated from there and not from the making of every
builtin.
-/

namespace ScriptMachine

namespace Table

variable {α : Type}

theorem places_foldl_eq_some_iff (es : List (String × α)) (hnodup : (es.map Prod.fst).Nodup)
    (n : Nat) (p : Std.ExtTreeMap String Nat) (key : String) (i : Nat) :
    ((es.zipIdx n).foldl (fun p e => p.insert e.1.1 e.2) p)[key]? = some i ↔
      (p[key]? = some i ∧ key ∉ es.map Prod.fst) ∨
        ∃ j, es[j]?.map Prod.fst = some key ∧ i = n + j := by
  induction es generalizing n p with
  | nil => simp
  | cons e rest ih =>
    obtain ⟨hfresh, hrest⟩ := List.nodup_cons.1 hnodup
    rw [List.zipIdx_cons, List.foldl_cons, ih hrest, Std.ExtTreeMap.getElem?_insert]
    have hsplit : (∃ j, (e :: rest)[j]?.map Prod.fst = some key ∧ i = n + j) ↔
        (e.1 = key ∧ i = n) ∨ ∃ j, rest[j]?.map Prod.fst = some key ∧ i = n + 1 + j := by
      constructor
      · rintro ⟨j, hj, rfl⟩
        cases j with
        | zero => exact .inl ⟨by simpa using hj, rfl⟩
        | succ j => exact .inr ⟨j, by simpa using hj, by omega⟩
      · rintro (⟨hkey, rfl⟩ | ⟨j, hj, rfl⟩)
        · exact ⟨0, by simp [hkey], rfl⟩
        · exact ⟨j + 1, by simpa using hj, by omega⟩
    rw [hsplit]
    by_cases hkey : e.1 = key
    · subst hkey
      simp [hfresh, eq_comm]
    · simp [hkey, Ne.symm hkey]

/-- The table of entries whose names differ. -/
def ofList (es : List (String × α)) (h : (es.map Prod.fst).Nodup) : Table α where
  entries := es.toArray
  places := es.zipIdx.foldl (fun p e => p.insert e.1.1 e.2) {}
  places_eq_some_iff := fun key i => by
    rw [places_foldl_eq_some_iff es h]
    simp

instance [DecidableEq α] : DecidableEq (Table α) := fun t u =>
  decidable_of_iff (t.entries = u.entries) ⟨Table.ext, fun h => h ▸ rfl⟩

end Table

deriving instance DecidableEq for Object, Scope, Tree.Program, Heap, Guard, Host.Clock,
  Host.Random, Host.Console, Stack, Thread

namespace Machine

open Builtin Property

/-- A plain object of the root owner. -/
def plainObject (properties : List (String × Property)) (proto : Nat := 1)
    (h : (properties.map Prod.fst).Nodup := by decide +kernel) : Object where
  owner := some ⟨0⟩
  proto := some ⟨proto⟩
  cls := .object
  properties := .ofList properties h

/-- The function object of the builtin under a path. -/
def functionObject (name : String) (arity : Nat) (path : String)
    (more : List (String × Property) := [])
    (h : ("length" :: "name" :: more.map Prod.fst).Nodup := by decide +kernel) : Object where
  owner := some ⟨0⟩
  proto := some ⟨2⟩
  cls := .function
  properties := .ofList (("length", frozen (.nat arity)) :: ("name", frozen (.string name)) :: more)
    (by simpa using h)
  function := some (.native path)

/-- The function objects of the methods of a holder. -/
def methodObjects (holder : String) (methods : List Method) : List Object :=
  methods.map fun m => functionObject m.name m.arity (m.path holder)

/-- The properties that hold methods whose function objects stand from a place on. -/
def methodProperties (place : Nat) (methods : List Method) : List (String × Property) :=
  (methods.zipIdx place).map fun m => (m.1.name, hidden (.object ⟨m.2⟩))

def constantProperties (constants : List (String × Float)) : List (String × Property) :=
  constants.map fun c => (c.1, frozen (.number c.2))

/-- The property of a prototype that leads to its constructor. -/
def constructorProperty (place : Nat) : String × Property :=
  ("constructor", hidden (.object ⟨place⟩))

/-- The constructor of a name, with its prototype and further properties. -/
def constructorObject (name : String) (proto : Nat) (more : List (String × Property) := [])
    (h : ("length" :: "name" :: "prototype" :: more.map Prod.fst).Nodup := by decide +kernel) :
    Object :=
  functionObject name 1 name (("prototype", frozen (.object ⟨proto⟩)) :: more) h

/-- The prototype and the constructor of every kind of error, from a place on. -/
def errorObjects (place : Nat) (kinds : List ErrorKind) : List Object :=
  (kinds.zipIdx).flatMap fun k =>
    [plainObject [("name", hidden (.string k.1.name)), ("message", hidden (.string "")),
        constructorProperty (place + 2 * k.2 + 1)] 35
        (show ["name", "message", "constructor"].Nodup by decide),
      constructorObject k.1.name (place + 2 * k.2)]

/-- The objects of a new machine. -/
def startObjects : List Object :=
  [plainObject [],
    { plainObject (methodProperties 8 Objects.protoMethods ++ [constructorProperty 11]) with
      proto := none },
    { functionObject "" 0 "Function.prototype" (methodProperties 23 Functions.protoMethods) with
      proto := some ⟨1⟩ },
    { plainObject (("length", .length (.nat 0)) ::
        methodProperties 27 Arrays.protoMethods ++ [constructorProperty 33]) with cls := .array },
    plainObject (methodProperties 52 Strings.protoMethods ++ [constructorProperty 61]),
    plainObject (methodProperties 62 Numbers.protoMethods ++ [constructorProperty 65]),
    plainObject (methodProperties 66 Numbers.boolMethods ++ [constructorProperty 68]),
    functionObject "ToPrimitive" 2 "ToPrimitive"] ++
  methodObjects "Object.prototype" Objects.protoMethods ++
  constructorObject "Object" 1 (methodProperties 12 Objects.methods) ::
  methodObjects "Object" Objects.methods ++
  methodObjects "Function.prototype" Functions.protoMethods ++
  methodObjects "Array.prototype" Arrays.protoMethods ++
  constructorObject "Array" 3 (methodProperties 34 Arrays.methods) ::
  methodObjects "Array" Arrays.methods ++
  plainObject (methodProperties 36 Errors.protoMethods ++ [("name", hidden (.string "Error")),
    ("message", hidden (.string "")), constructorProperty 37]) ::
  methodObjects "Error.prototype" Errors.protoMethods ++
  constructorObject "Error" 35 ::
  errorObjects 38 ErrorKind.all.tail ++
  methodObjects "String.prototype" Strings.protoMethods ++
  constructorObject "String" 4 ::
  methodObjects "Number.prototype" Numbers.protoMethods ++
  constructorObject "Number" 5 (constantProperties Numbers.constants) ::
  methodObjects "Boolean.prototype" Numbers.boolMethods ++
  constructorObject "Boolean" 6 ::
  plainObject (constantProperties Mathematics.constants ++
    methodProperties 70 Mathematics.methods) ::
  methodObjects "Math" Mathematics.methods ++
  plainObject (methodProperties 80 JsonText.methods) ::
  methodObjects "JSON" JsonText.methods ++
  plainObject (methodProperties 83 Consoles.methods) ::
  methodObjects "console" Consoles.methods ++
  (Globals.methods ++ Threads.globals).map (fun m => functionObject m.name m.arity m.name) ++
  plainObject (methodProperties 99 Threads.methods) ::
  methodObjects "Thread" Threads.methods

/-- The table of builtins of a new machine, with the places of the objects. -/
def startBuiltins : List (String × Nat) :=
  [("Object.prototype", 1), ("Function.prototype", 2), ("Array.prototype", 3),
    ("String.prototype", 4), ("Number.prototype", 5), ("Boolean.prototype", 6), ("ToPrimitive", 7),
    ("Object", 11), ("Array", 33), ("Error.prototype", 35), ("Error", 37),
    ("TypeError.prototype", 38), ("TypeError", 39), ("RangeError.prototype", 40),
    ("RangeError", 41), ("ReferenceError.prototype", 42), ("ReferenceError", 43),
    ("SyntaxError.prototype", 44), ("SyntaxError", 45), ("URIError.prototype", 46),
    ("URIError", 47), ("EvalError.prototype", 48), ("EvalError", 49),
    ("PermissionError.prototype", 50), ("PermissionError", 51), ("String", 61), ("Number", 65),
    ("Boolean", 68), ("Math", 69), ("JSON", 79), ("console", 82), ("Thread", 98)]

/-- The global names of the builtins that are in the table, and the places of the objects. -/
def startNames : List (String × Nat) :=
  [("Object", 11), ("Array", 33), ("Error", 37), ("TypeError", 39), ("RangeError", 41),
    ("ReferenceError", 43), ("SyntaxError", 45), ("URIError", 47), ("EvalError", 49),
    ("PermissionError", 51), ("String", 61), ("Number", 65), ("Boolean", 68), ("Math", 69),
    ("JSON", 79), ("console", 82)]

/-- What the global names of a new machine are bound to. -/
def startBindings : List (String × Binding) :=
  startNames.map (fun g => (g.1, ⟨.object ⟨g.2⟩, true⟩)) ++
  [("undefined", ⟨.undefined, false⟩), ("NaN", ⟨.number Number.nan, false⟩),
    ("Infinity", ⟨.number Number.infinity, false⟩)] ++
  ((Globals.methods ++ Threads.globals).zipIdx 88).map
    (fun m => (m.1.name, ⟨.object ⟨m.2⟩, true⟩)) ++
  [("Thread", ⟨.object ⟨98⟩, true⟩)]

/-- The global scope of a new machine. -/
def startScope : Scope where
  kind := .global
  owner := some ⟨0⟩
  outer := none
  receiver := .undefined
  bindings := .ofList startBindings (by decide +kernel)

/-- The machine that a host starts with. -/
def start : Machine where
  heap :=
    { objects := (startObjects.map some).toArray
      scopes := #[some startScope]
      allocsSinceGc := 104
      gcThreshold := 10000 }
  builtins := .ofList (startBuiltins.map fun b => (b.1, .object ⟨b.2⟩)) (by decide +kernel)
  previousElapsed := -(0 : Float)

/-- Two machines differ in nothing but their policies, which are functions. -/
abbrev SameParts (m n : Machine) : Prop :=
  m.heap = n.heap ∧ m.globalScope = n.globalScope ∧ m.rootOwner = n.rootOwner ∧ m.builtins =
  n.builtins ∧ m.hostValues = n.hostValues ∧ m.threads = n.threads ∧ m.nextThreadId =
  n.nextThreadId ∧ m.nextQueued = n.nextQueued ∧ m.currentThread = n.currentThread ∧
  m.lastStepped = n.lastStepped ∧ m.status = n.status ∧ m.pendingResolvers = n.pendingResolvers
  ∧ m.nextResolverId = n.nextResolverId ∧ m.earlySettlements = n.earlySettlements ∧
  m.previousElapsed = n.previousElapsed ∧ m.clockStarted = n.clockStarted ∧ m.config = n.config
  ∧ m.clock = n.clock ∧ m.random = n.random ∧ m.console = n.console

theorem SameParts.eq {m n : Machine} (h : m.SameParts n) (hpolicy : m.policy = n.policy) : m = n := by
  cases m
  cases n
  simp only [SameParts] at h hpolicy
  simp only [h, hpolicy]

theorem sameParts_create : (create {} {}).toOption.any (fun m => decide (m.SameParts start)) = true := by
  decide +kernel

theorem toOption_create : (create {} {}).toOption = some start := by
  obtain ⟨m, hm, hparts⟩ := (Option.any_eq_true _ _).1 sameParts_create
  rw [hm, (of_decide_eq_true hparts).eq (unstarted_of_create (create_of_toOption hm)).1]

/-- A run that a host begins is a run of the written machine. -/
theorem hosted_eq (natives : Natives) (requests : List Request) :
    hosted natives {} requests = serve natives start requests := by
  rw [hosted, toOption_create]
  rfl

end Machine

end ScriptMachine
