import FeeDistribution.Account.Hex
import FeeDistribution.Event.Basic
import FeeDistribution.Json.Record

/-!
# Events in JSON

An event is written as an object whose first member names its kind.  When it is read the kind may
stand anywhere, so the tree is taken in as a whole first: every part of it, also what is not needed,
must be a text or number that can be held, and it must not be nested too deeply.  Amounts are wider
than the numbers that can be held in this way, so an event that carries an amount is written but
never read back.
-/

namespace FeeDistribution.Event

/-- The kind of an event, as it is written. -/
def kind : Event → String
  | periodClosed _ => "fee_period_closed"
  | feesClaimed _ _ _ => "fees_claimed"
  | rewardPaid _ _ => "reward_paid"
  | rewardsNotified _ _ => "rewards_notified"
  | periodImported _ _ => "fee_period_imported"
  | delegateApproved _ _ => "claim_delegate_approved"
  | delegateRemoved _ _ => "claim_delegate_removed"

/-- The members of an event after its kind. -/
def members : Event → List (String × Json)
  | periodClosed id => [("fee_period_id", Json.ofNat id)]
  | feesClaimed account fees rewards =>
    [("account", account.toJson), ("fees_paid", Json.ofNat fees),
      ("rewards_paid", Json.ofNat rewards)]
  | rewardPaid account amount => [("account", account.toJson), ("amount", Json.ofNat amount)]
  | rewardsNotified amount distributed =>
    [("amount", Json.ofNat amount), ("distributed", .bool distributed)]
  | periodImported slot id => [("slot", Json.ofNat slot), ("fee_period_id", Json.ofNat id)]
  | delegateApproved owner delegate => [("owner", owner.toJson), ("delegate", delegate.toJson)]
  | delegateRemoved owner delegate => [("owner", owner.toJson), ("delegate", delegate.toJson)]

/-- The tree of an event. -/
def toJson (event : Event) : Json :=
  Json.record (("type", Json.ofText event.kind) :: event.members)

/-- The most arrays and objects that may be nested in each other where an event is read. -/
def maxDepth : Nat := 127

/-- The name of the kind of an event and the tree of the remaining members.  In an array the name
stands first. -/
def untagged? : Json → Option (String × Json)
  | .obj members => do
    match Json.valuesOf members "type" with
    | [name] =>
      let name ← name.text?
      pure (name, .obj (members.filter fun (other, _) => other != some "type"))
    | _ => none
  | .arr (name :: items) => do
    let name ← name.text?
    pure (name, .arr items)
  | _ => none

/-- Reads an event that carries a pair of accounts. -/
def ofPair? (make : Account → Account → Event) (json : Json) : Option Event := do
  match ← json.fields? ["owner", "delegate"] with
  | [owner, delegate] =>
    let owner ← Json.required Account.ofJson? owner
    let delegate ← Json.required Account.ofJson? delegate
    pure (make owner delegate)
  | _ => none

/-- The event of a kind with these members. -/
def ofMembers? (kind : String) (json : Json) : Option Event :=
  match kind with
  | "fee_period_closed" => do
    match ← json.fields? ["fee_period_id"] with
    | [id] =>
      let id ← Json.required Json.word? id
      pure (periodClosed id)
    | _ => none
  | "fee_period_imported" => do
    match ← json.fields? ["slot", "fee_period_id"] with
    | [slot, id] =>
      let slot ← Json.required Json.word? slot
      let id ← Json.required Json.word? id
      pure (periodImported slot id)
    | _ => none
  | "claim_delegate_approved" => ofPair? delegateApproved json
  | "claim_delegate_removed" => ofPair? delegateRemoved json
  | _ => none

/-- The event in a tree. -/
def ofJson? (json : Json) : Option Event := do
  if json.isSound ∧ json.depth ≤ maxDepth then
    let (kind, rest) ← untagged? json
    ofMembers? kind rest
  else none

end FeeDistribution.Event
