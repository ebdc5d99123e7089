import ScriptMachine.Builtin.All
import ScriptMachine.Proofs.Execution

/-!
# What a host can do with a machine

Between two steps the host loads programs, starts and ends threads, settles resolvers, works on
objects and bindings, collects garbage and runs threads. A machine is reachable when it comes from a
new one by such requests, with any host functions.
-/

namespace ScriptMachine

open Machine Exec

/-- What the host asks of a machine between two steps. A host that asks for a place to write an object
itself, past every check, is not among them, nor is one that waits on behalf of a thread. -/
inductive Request where
  | load (source : String)
  | spawnProgram (program : ProgramId)
  | spawn (source : String)
  | call (func receiver : Value) (args : List Value) (delay : Float)
  | settle (resolver : Nat) (thread : ThreadId) (s : Settlement)
  | kill (thread : ThreadId)
  | take (thread : ThreadId)
  | release
  | pin (v : Value)
  | limit (thread : ThreadId) (most : Option Float)
  | threshold (count : Nat)
  | policy (policy : Policy)
  | pause
  | resume
  | stop
  | setGlobal (name : String) (v : Value)
  | declare (name : String) (v : Value) (mutable : Bool)
  | define (name : String)
  | newScope (kind : ScopeKind) (outer : Option ScopeId) (owner : Option Owner)
    (receiver : Option Value)
  | declareIn (scope : ScopeId) (name : String) (v : Value) (mutable : Bool)
  | setBinding (scope : ScopeId) (name : String) (v : Value)
  | writeBinding (scope : ScopeId) (name : String) (v : Value)
  | setScopeOwner (scope : ScopeId) (owner : Owner)
  | alloc (o : Object)
  | createObject (proto : Option ObjectId) (owner : Option Owner)
  | createPlainObject (owner : Option Owner)
  | createArray (values : List Value) (owner : Option Owner)
  | createFunction (id name : String)
  | createClosure (node : NodeRef) (scope : ScopeId) (owner : Option Owner)
  | createError (kind : ErrorKind) (message : String) (owner : Option Owner)
    (thread : Option ThreadId)
  | setProperty (base : Value) (key : String) (v : Value) (actor : Option Owner)
  | defineProperty (id : ObjectId) (key : String) (d : Descriptor) (actor : Option Owner)
  | defineHidden (id : ObjectId) (key : String) (v : Value) (actor : Option Owner)
  | deleteProperty (id : ObjectId) (key : String) (actor : Option Owner)
  | setPrototype (id : ObjectId) (proto : Option ObjectId) (actor : Option Owner)
  | preventExtensions (id : ObjectId) (actor : Option Owner)
  | setOwnerOf (id : ObjectId) (owner : Owner) (actor : Option Owner)
  | advance (millis : Float)
  | wait (time : Float)
  | setClock (time : Float)
  | replaceClock (clock : Host.Clock)
  | collect
  /-- The next runnable thread takes one step. -/
  | step
  /-- Threads run until none is runnable, in at most so many steps. -/
  | run (fuel : Nat)

namespace Request

/-- The operation that a request stands for; what it gives goes to the host. -/
def perform (natives : Natives) : Request → Exec Unit
  | load source => do let _ ← Machine.load source
  | spawnProgram program => do let _ ← Machine.spawnProgram program
  | spawn source => do let _ ← Machine.spawn source
  | call func receiver args delay => do let _ ← spawnCall func receiver args delay
  | settle resolver thread s => Machine.settle resolver thread s
  | kill thread => do let _ ← killThread thread
  | take thread => do let _ ← takeResult thread
  | release => releaseHostValues
  | pin v => pinHostValue v
  | limit thread most => setTimeLimit thread most
  | threshold count => setGcThreshold count
  | policy p => modify fun m => { m with policy := p }
  | pause => Machine.pause
  | resume => Machine.resume
  | stop => Machine.stop
  | setGlobal name v => Machine.setGlobal name v
  | declare name v mutable => do Machine.declare (← get).globalScope name v mutable
  | define name => defineGlobalNative natives name
  | newScope kind outer owner receiver => do
    let _ ← Machine.newScope kind outer owner receiver
  | declareIn scope name v mutable => Machine.declare scope name v mutable
  | setBinding scope name v => Machine.setBinding scope name v
  | writeBinding scope name v => Machine.writeBinding scope name v
  | setScopeOwner scope owner => Machine.setScopeOwner scope owner
  | alloc o => do let _ ← Machine.alloc o
  | createObject proto owner => do let _ ← Machine.createObject proto owner
  | createPlainObject owner => do let _ ← Machine.createPlainObject owner
  | createArray values owner => do let _ ← Machine.createArray values owner
  | createFunction id name => do let _ ← createNativeFunction natives id name
  | createClosure node scope owner => do let _ ← Machine.createClosure node scope owner
  | createError kind message owner thread => do
    let _ ← Machine.createError kind message owner thread
  | setProperty base key v actor => Machine.setProperty base key v actor
  | defineProperty id key d actor => Machine.defineProperty id key d actor
  | defineHidden id key v actor => Machine.defineHidden id key v actor
  | deleteProperty id key actor => do let _ ← Machine.deleteProperty id key actor
  | setPrototype id proto actor => Machine.setPrototype id proto actor
  | preventExtensions id actor => Machine.preventExtensions id actor
  | setOwnerOf id owner actor => Machine.setOwnerOf id owner actor
  | advance millis => modify fun m => { m with clock := m.clock.advance millis }
  | wait time => waitUntil time
  | setClock time => Machine.setClock time
  | replaceClock clock => Machine.replaceClock clock
  | collect => do let _ ← collectGarbage
  | step => do let _ ← stepOnce natives
  | run fuel => do let _ ← runToQuiescence natives fuel

end Request

namespace Machine

/-- A machine that comes from a new one by requests of the host, with any host functions. A request
may fail, but a machine whose counters ran out is gone. -/
inductive Reachable (natives : Natives) : Machine → Prop where
  | create {config : Config} {clock : Host.Clock} {m : Machine} (h : create config clock = .ok m) :
    Reachable natives m
  | request {m : Machine} (h : Reachable natives m) (r : Request)
    (hcount : ∀ m', r.perform natives m ≠ .error .overflow m') :
    Reachable natives (after (r.perform natives) m)

/-- The machine after some requests, if no counter ran out. -/
def serve (natives : Natives) (m : Machine) : List Request → Option Machine
  | [] => some m
  | r :: rest =>
    match r.perform natives m with
    | .ok _ m' => serve natives m' rest
    | .error .overflow _ => none
    | .error _ m' => serve natives m' rest

/-- A new machine after some requests. -/
def hosted (natives : Natives) (config : Config) (requests : List Request) : Option Machine :=
  (create config {}).toOption.bind (serve natives · requests)

theorem create_of_toOption {config : Config} {clock : Host.Clock} {m : Machine}
    (h : (create config clock).toOption = some m) : create config clock = .ok m := by
  cases hcreate : create config clock with
  | error e =>
    rw [hcreate] at h
    cases h
  | ok found =>
    rw [hcreate] at h
    exact congrArg _ (Option.some.inj h)

/-- The machine that an operation leaves, if it succeeds. -/
def ran? (x : Exec Unit) (m : Machine) : Option Machine := (do x; get : Exec Machine).run' m

theorem ok_of_ran? {x : Exec Unit} {m m' : Machine} (h : ran? x m = some m') :
    x m = .ok () m' := by
  unfold ran? EStateM.run' EStateM.run at h
  rw [bind_run] at h
  cases hrun : x m with
  | ok _ n =>
    rw [hrun] at h
    cases h
    rfl
  | error e n =>
    rw [hrun] at h
    cases h

/-- What an operation gives and the machine that it leaves, if it succeeds. -/
def answer? {α : Type} (x : Exec α) (m : Machine) : Option (α × Machine) :=
  match x m with
  | .ok a n => some (a, n)
  | .error _ _ => none

/-- How an operation fails and the machine that it leaves, if it fails. -/
def failure? {α : Type} (x : Exec α) (m : Machine) : Option (Failure × Machine) :=
  match x m with
  | .ok _ _ => none
  | .error e n => some (e, n)

theorem ok_of_answer? {α : Type} {x : Exec α} {m : Machine} {r : α × Machine}
    (h : answer? x m = some r) : x m = .ok r.1 r.2 := by
  unfold answer? at h
  split at h
  · cases h
    assumption
  · cases h

theorem error_of_failure? {α : Type} {x : Exec α} {m : Machine} {r : Failure × Machine}
    (h : failure? x m = some r) : x m = .error r.1 r.2 := by
  unfold failure? at h
  split at h
  · cases h
  · cases h
    assumption

/-- Requests are served one after the other, as long as no counter runs out. -/
theorem serve_cons {natives : Natives} {m n : Machine} {r : Request} {rest : List Request} :
    m.serve natives (r :: rest) = some n ↔ (∀ k, r.perform natives m ≠ .error .overflow k) ∧
      (after (r.perform natives) m).serve natives rest = some n := by
  unfold after
  rw [serve]
  cases hrun : r.perform natives m with
  | ok a k => simp
  | error e k => cases e <;> simp

theorem Reachable.serve {natives : Natives} {m m' : Machine} {requests : List Request}
    (h : Reachable natives m) (hserve : m.serve natives requests = some m') :
    Reachable natives m' := by
  induction requests generalizing m with
  | nil =>
    cases hserve
    exact h
  | cons r rest ih =>
    obtain ⟨hcount, hserve⟩ := serve_cons.1 hserve
    exact ih (h.request r hcount) hserve

theorem reachable_of_hosted {natives : Natives} {config : Config} {requests : List Request}
    {m : Machine} (h : hosted natives config requests = some m) : Reachable natives m := by
  unfold hosted at h
  cases hcreate : create config {} with
  | error e =>
    rw [hcreate] at h
    cases h
  | ok m₀ =>
    rw [hcreate] at h
    exact (Reachable.create hcreate).serve h

end Machine

end ScriptMachine
