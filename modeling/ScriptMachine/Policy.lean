import ScriptMachine.Value.Basic

/-!
# Who may do what to an object

Every operation on an object names the owner that acts. A policy answers one request at a time
from the owners in question and the kind of access alone.
-/

namespace ScriptMachine

inductive Access where
  | read | write | define | delete | enumerate | setPrototype | preventExtensions | setOwner
  /-- Act as another owner. -/
  | become
  deriving DecidableEq, Repr

namespace Access

/-- Whether an access changes the object. -/
def isMutation : Access → Bool
  | .read => false
  | .enumerate => false
  | _ => true

/-- The verb of an access in messages. -/
def verb : Access → String
  | .read => "read"
  | .write => "write"
  | .define => "define property on"
  | .delete => "delete property of"
  | .enumerate => "enumerate"
  | .setPrototype => "set prototype of"
  | .preventExtensions => "prevent extensions of"
  | .setOwner => "change owner of"
  | .become => "become"

end Access

/-- One question to a policy. For `become`, `owner` is the owner asked for. -/
structure AccessRequest where
  actor : Owner
  owner : Option Owner
  access : Access
  root : Owner

/-- Who may do what: a name, and an answer to every question. A host may bring its own. -/
structure Policy where
  name : String
  allows : AccessRequest → Bool

namespace Policy

/-- Everyone may do everything. -/
def everyone : Policy where
  name := "open"
  allows _ := true

/-- Everyone may read, and only the root owner and the owner of an object may change it. -/
def ownerOnly : Policy where
  name := "owner"
  allows r := r.actor == r.root || !r.access.isMutation || r.owner == some r.actor

/-- One kind of access is denied to everyone. -/
def allBut (denied : Access) : Policy where
  name := "deny"
  allows r := r.access != denied

theorem allows_ownerOnly_iff (r : AccessRequest) (h : r.access.isMutation = true) :
    ownerOnly.allows r = true ↔ r.actor = r.root ∨ r.owner = some r.actor := by
  simp [ownerOnly, h]

/-- An answer depends on the kind of access and on which of the owners are the same, not on which
handles they are. -/
def ComparesOwners (policy : Policy) : Prop :=
  ∀ r r' : AccessRequest, r'.access = r.access → (r'.actor = r'.root ↔ r.actor = r.root) →
    (r'.owner = none ↔ r.owner = none) → (r'.owner = some r'.actor ↔ r.owner = some r.actor) →
    (r'.owner = some r'.root ↔ r.owner = some r.root) → policy.allows r' = policy.allows r

theorem comparesOwners_everyone : everyone.ComparesOwners := fun _ _ _ _ _ _ _ => rfl

theorem comparesOwners_ownerOnly : ownerOnly.ComparesOwners := by
  intro r r' haccess hroot _ hown _
  have hroot : (r'.actor == r'.root) = (r.actor == r.root) :=
    Bool.eq_iff_iff.2 (by simpa using hroot)
  have hown : (r'.owner == some r'.actor) = (r.owner == some r.actor) :=
    Bool.eq_iff_iff.2 (by simpa using hown)
  simp only [ownerOnly, haccess, hroot, hown]

theorem comparesOwners_allBut (denied : Access) : (allBut denied).ComparesOwners := by
  intro r r' haccess _ _ _ _
  simp only [allBut, haccess]

end Policy

end ScriptMachine
