import Std.Data.ExtTreeSet
import FeeDistribution.Account.Basic

/-!
# Delegation

An owner may approve delegates, who can then claim on the owner's behalf; the proceeds go to the
owner.  An owner without delegates has no entry once the last delegate was removed.
-/

namespace FeeDistribution

/-- The delegates that each owner has approved. -/
structure Delegation where
  /-- The approved delegates, by owner. -/
  approvals : Std.ExtTreeMap Account (Std.ExtTreeSet Account) := ∅
deriving DecidableEq

namespace Delegation

instance : Inhabited Delegation := ⟨{}⟩

/-- The delegates of an owner. -/
def delegates (delegation : Delegation) (owner : Account) : Std.ExtTreeSet Account :=
  delegation.approvals[owner]?.getD ∅

/-- The delegates of an owner in bytewise order. -/
def delegatesOf (delegation : Delegation) (owner : Account) : List Account :=
  (delegation.delegates owner).toList

/-- Whether a delegate may claim for an owner. -/
def allows (delegation : Delegation) (owner delegate : Account) : Bool :=
  (delegation.delegates owner).contains delegate

/-- Approves a delegate.  The answer says whether the approval is new. -/
def approve (delegation : Delegation) (owner delegate : Account) : Bool × Delegation :=
  (!delegation.allows owner delegate,
    { approvals :=
        delegation.approvals.insert owner ((delegation.delegates owner).insert delegate) })

/-- Removes a delegate.  The answer says whether there was an approval to remove. -/
def remove (delegation : Delegation) (owner delegate : Account) : Bool × Delegation :=
  let remaining := (delegation.delegates owner).erase delegate
  (delegation.allows owner delegate,
    { approvals :=
        if remaining.isEmpty then delegation.approvals.erase owner
        else delegation.approvals.insert owner remaining })

end Delegation

end FeeDistribution
