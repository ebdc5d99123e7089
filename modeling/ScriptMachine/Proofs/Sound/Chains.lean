import ScriptMachine.Proofs.Restore.Chains
import ScriptMachine.Proofs.Sound.Host

/-!
# Chains of curated machines

In a sound machine every chain of prototypes, of bound functions and of scopes ends, so no walk
along one stops for want of steps, and none that starts from a handle in use meets a free slot. A
host that names a slot that was freed can break a chain.
-/

namespace ScriptMachine

/-- A handle was met whose slot is free. -/
def Failure.Dangling : Failure → Prop
  | .fault (.danglingObject _) => True
  | .fault (.danglingScope _) => True
  | .fault (.danglingProgram _) => True
  | _ => False

theorem Failure.not_dangling_of_within {p : Pairing} {e : Failure} (he : Carried.Within p e) :
    ¬ e.Dangling := by
  cases e with
  | fault cause => cases cause <;> first | exact he.elim | exact id
  | _ => exact id

/-! ## Walks with more to do -/

namespace Heap

variable (h : Heap)

end Heap

namespace Machine

open Exec

/-- A reading meets no free slot. -/
def Firm {α : Type} (r : Except Failure α) : Prop := ∀ e, r = .error e → ¬ e.Dangling

variable {natives : Natives} {m : Machine}

/-- The host makes two objects, lets go of them, and makes an object that inherits from the first one
after a collection. -/
def staleRequests : List Request :=
  [.createObject none (some ⟨0⟩), .createObject none (some ⟨0⟩), .release, .collect,
    .createObject (some ⟨103⟩) (some ⟨0⟩)]

end Machine

end ScriptMachine
