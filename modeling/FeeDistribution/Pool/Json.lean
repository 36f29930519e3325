import FeeDistribution.Account.Hex
import FeeDistribution.Ledger.Json
import FeeDistribution.Pool.Basic

/-!
# Answers of a pool in JSON

A close answers what it did, with the slot that left the window, and a claim answers a receipt.
-/

namespace FeeDistribution

namespace CloseOutcome

/-- The tree of what a close did. -/
def toJson (outcome : CloseOutcome) : Json :=
  Json.record
    [("closed_period_id", Json.ofNat outcome.closed),
      ("new_period_id", Json.ofNat outcome.opened),
      ("fees_burned", Json.ofNat outcome.burned),
      ("rolled_over_fees", Json.ofNat outcome.rolledFees),
      ("rolled_over_rewards", Json.ofNat outcome.rolledRewards),
      ("evicted", outcome.evicted.toJson)]

/-- The names of the members, in order. -/
def memberNames : List String :=
  ["closed_period_id", "new_period_id", "fees_burned", "rolled_over_fees", "rolled_over_rewards",
    "evicted"]

/-- What a close did, from a tree. -/
def ofJson? (json : Json) : Option CloseOutcome := do
  match ← json.fields? memberNames with
  | [closed, opened, burned, rolledFees, rolledRewards, evicted] =>
    let closed ← Json.required Json.word? closed
    let opened ← Json.required Json.word? opened
    let burned ← Json.required Json.amount? burned
    let rolledFees ← Json.required Json.amount? rolledFees
    let rolledRewards ← Json.required Json.amount? rolledRewards
    let evicted ← Json.required Period.ofJson? evicted
    pure { closed, opened, burned, rolledFees, rolledRewards, evicted }
  | _ => none

end CloseOutcome

namespace Receipt

/-- The tree of a receipt. -/
def toJson (receipt : Receipt) : Json :=
  Json.record
    [("account", receipt.account.toJson),
      ("fees_paid", Json.ofNat receipt.fees),
      ("rewards_paid", Json.ofNat receipt.rewards),
      ("claimed_through", Json.ofNat receipt.through),
      ("periods", Json.ofList Json.ofNat receipt.periods)]

/-- The receipt in a tree. -/
def ofJson? (json : Json) : Option Receipt := do
  match ← json.fields? ["account", "fees_paid", "rewards_paid", "claimed_through", "periods"] with
  | [account, fees, rewards, through, periods] =>
    let account ← Json.required Account.ofJson? account
    let fees ← Json.required Json.amount? fees
    let rewards ← Json.required Json.amount? rewards
    let through ← Json.required Json.word? through
    let periods ← Json.required (Json.list? Json.word?) periods
    pure { account, fees, rewards, through, periods }
  | _ => none

end Receipt

end FeeDistribution
