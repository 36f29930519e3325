import FeeDistribution.Account.Hex
import FeeDistribution.Json.Record
import FeeDistribution.Rewards.Basic
import FeeDistribution.Text.Hex

/-!
# The reward stream in JSON

Ratios do not fit the numbers of other readers and stand as hexadecimal texts.  The checkpoints are
an object with the accounts as names; of repeated accounts the last one counts.
-/

namespace FeeDistribution

namespace Json

/-- The tree of a ratio. -/
def ofRatio (ratio : Nat) : Json :=
  ofText (String.ofList (Text.HexNumber.render ratio))

/-- The ratio in a tree. -/
def ratio? (json : Json) : Option Nat := do
  let text ← json.text?
  Text.HexNumber.read? text.toList

end Json

namespace Checkpoint

/-- The tree of a checkpoint. -/
def toJson (checkpoint : Checkpoint) : Json :=
  Json.record
    [("entry_accumulated_rewards", Json.ofRatio checkpoint.ratio),
      ("claimable", Json.ofNat checkpoint.claimable)]

/-- The checkpoint in a tree. -/
def ofJson? (json : Json) : Option Checkpoint := do
  match ← json.fields? ["entry_accumulated_rewards", "claimable"] with
  | [ratio, claimable] =>
    let ratio ← Json.required Json.ratio? ratio
    let claimable ← Json.required Json.amount? claimable
    pure { ratio, claimable }
  | _ => none

end Checkpoint

namespace Rewards

/-- The tree of the checkpoints, in the order of the accounts. -/
def checkpointsToJson (checkpoints : Std.ExtTreeMap Account Checkpoint) : Json :=
  Json.record (checkpoints.toList.map fun (account, entry) => (account.hex, entry.toJson))

/-- The checkpoints in a tree. -/
def checkpointsOfJson? : Json → Option (Std.ExtTreeMap Account Checkpoint)
  | .obj members =>
    members.foldlM
      (fun checkpoints (name, value) => do
        let account ← name.bind Account.ofHex?
        let entry ← Checkpoint.ofJson? value
        pure (checkpoints.insert account entry))
      ∅
  | _ => none

/-- The tree of the reward stream. -/
def toJson (rewards : Rewards) : Json :=
  Json.record
    [("accumulated_rewards_per_share", Json.ofRatio rewards.ratio),
      ("dust", Json.ofNat rewards.dust),
      ("pending", Json.ofNat rewards.pending),
      ("entries", checkpointsToJson rewards.checkpoints),
      ("total_notified", Json.ofNat rewards.notified),
      ("total_paid", Json.ofNat rewards.paid)]

/-- The names of the members, in order. -/
def memberNames : List String :=
  ["accumulated_rewards_per_share", "dust", "pending", "entries", "total_notified", "total_paid"]

/-- The reward stream in a tree.  A missing remainder is zero. -/
def ofJson? (json : Json) : Option Rewards := do
  match ← json.fields? memberNames with
  | [ratio, dust, pending, checkpoints, notified, paid] =>
    let ratio ← Json.required Json.ratio? ratio
    let dust ← Json.optional Json.amount? 0 dust
    let pending ← Json.required Json.amount? pending
    let checkpoints ← Json.required checkpointsOfJson? checkpoints
    let notified ← Json.required Json.amount? notified
    let paid ← Json.required Json.amount? paid
    pure { ratio, dust, pending, checkpoints, notified, paid }
  | _ => none

end Rewards

end FeeDistribution
