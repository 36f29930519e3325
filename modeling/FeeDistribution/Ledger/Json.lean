import FeeDistribution.Json.Record
import FeeDistribution.Json.Scalar
import FeeDistribution.Ledger.Claim

/-!
# Periods, windows and entitlements in JSON

A window is kept as its ring: the slots in storage order, and the head.
-/

namespace FeeDistribution

namespace PeriodStatus

/-- The status of a name. -/
def ofName? : String → Option PeriodStatus
  | "Open" => some opened
  | "Closed" => some closed
  | "PartiallyClaimed" => some partiallyClaimed
  | "Evicted" => some evicted
  | _ => none

/-- The tree of a status. -/
def toJson (status : PeriodStatus) : Json :=
  Json.ofText status.name

/-- The status in a tree. -/
def ofJson? (json : Json) : Option PeriodStatus := do
  let name ← json.choice?
  ofName? name

end PeriodStatus

namespace Period

/-- The tree of a period. -/
def toJson (period : Period) : Json :=
  Json.record
    [("fee_period_id", Json.ofNat period.id),
      ("start_time", Json.ofInt period.start),
      ("fees_to_distribute", Json.ofNat period.fees.total),
      ("fees_claimed", Json.ofNat period.fees.claimed),
      ("rewards_to_distribute", Json.ofNat period.rewards.total),
      ("rewards_claimed", Json.ofNat period.rewards.claimed)]

/-- The names of the members, in order. -/
def memberNames : List String :=
  ["fee_period_id", "start_time", "fees_to_distribute", "fees_claimed", "rewards_to_distribute",
    "rewards_claimed"]

/-- The period in a tree. -/
def ofJson? (json : Json) : Option Period := do
  match ← json.fields? memberNames with
  | [id, start, fees, feesClaimed, rewards, rewardsClaimed] =>
    let id ← Json.required Json.word? id
    let start ← Json.required Json.timestamp? start
    let fees ← Json.required Json.amount? fees
    let feesClaimed ← Json.required Json.amount? feesClaimed
    let rewards ← Json.required Json.amount? rewards
    let rewardsClaimed ← Json.required Json.amount? rewardsClaimed
    pure
      { id
        start
        fees := { total := fees, claimed := feesClaimed }
        rewards := { total := rewards, claimed := rewardsClaimed } }
  | _ => none

end Period

namespace Window

/-- The tree of a window. -/
def toJson (window : Window) : Json :=
  Json.record
    [("slots", Json.ofList Period.toJson window.slots.toList), ("head", Json.ofNat window.head)]

/-- The window in a tree.  Any slots and any head are accepted. -/
def ofJson? (json : Json) : Option Window := do
  match ← json.fields? ["slots", "head"] with
  | [slots, head] =>
    let slots ← Json.required (Json.list? Period.ofJson?) slots
    let head ← Json.required Json.word? head
    pure { slots := slots.toArray, head }
  | _ => none

end Window

namespace Entitlement

/-- The tree of an entitlement. -/
def toJson (owed : Entitlement) : Json :=
  Json.record
    [("slot", Json.ofNat owed.slot),
      ("fee_period_id", Json.ofNat owed.id),
      ("fees", Json.ofNat owed.fees),
      ("rewards", Json.ofNat owed.rewards)]

/-- The entitlement in a tree. -/
def ofJson? (json : Json) : Option Entitlement := do
  match ← json.fields? ["slot", "fee_period_id", "fees", "rewards"] with
  | [slot, id, fees, rewards] =>
    let slot ← Json.required Json.word? slot
    let id ← Json.required Json.word? id
    let fees ← Json.required Json.amount? fees
    let rewards ← Json.required Json.amount? rewards
    pure { slot, id, fees, rewards }
  | _ => none

end Entitlement

end FeeDistribution
