import FeeDistribution.Account.Hex
import FeeDistribution.Delegation.Basic
import FeeDistribution.Json.Record

/-!
# Approvals in JSON

The approvals are an object with the owners as names and lists of delegates as values, both in
bytewise order.  Reading takes any order; of repeated owners the last one counts, and an owner may
stand there without a delegate.
-/

namespace FeeDistribution.Delegation

/-- The tree of the approvals. -/
def toJson (delegation : Delegation) : Json :=
  Json.record
    [("approvals",
      Json.record
        (delegation.approvals.toList.map fun (owner, delegates) =>
          (owner.hex, Json.ofList Account.toJson delegates.toList)))]

/-- The delegates by owner in a tree. -/
def approvalsOfJson? : Json → Option (Std.ExtTreeMap Account (Std.ExtTreeSet Account))
  | .obj members =>
    members.foldlM
      (fun approvals (name, value) => do
        let owner ← name.bind Account.ofHex?
        let delegates ← Json.list? Account.ofJson? value
        pure (approvals.insert owner (Std.ExtTreeSet.ofList delegates)))
      ∅
  | _ => none

/-- The approvals in a tree. -/
def ofJson? (json : Json) : Option Delegation := do
  match ← json.fields? ["approvals"] with
  | [approvals] =>
    let approvals ← Json.required approvalsOfJson? approvals
    pure { approvals }
  | _ => none

end FeeDistribution.Delegation
