import FeeDistribution.Account.Basic
import FeeDistribution.Quantity

/-!
# Events and their journal

Every successful change that others may want to know of is recorded as an event.  The journal holds
the events until they are drained; if it has a limit and is full, the oldest event makes room and
the loss is counted.
-/

namespace FeeDistribution

/-- Something that happened to a pool. -/
inductive Event where
  /-- A period was closed. -/
  | periodClosed (id : PeriodId)
  /-- An account was paid its claim. -/
  | feesClaimed (account : Account) (fees rewards : Amount)
  /-- An account was paid from the reward stream. -/
  | rewardPaid (account : Account) (amount : Amount)
  /-- The reward stream took an inflow in; `distributed` is false if it is held back. -/
  | rewardsNotified (amount : Amount) (distributed : Bool)
  /-- A period of the past was imported. -/
  | periodImported (slot : Nat) (id : PeriodId)
  /-- An owner approved a delegate. -/
  | delegateApproved (owner delegate : Account)
  /-- An owner removed a delegate. -/
  | delegateRemoved (owner delegate : Account)
deriving DecidableEq

/-- The name of an event. -/
def Event.name : Event → String
  | periodClosed _ => "FeePeriodClosed"
  | feesClaimed _ _ _ => "FeesClaimed"
  | rewardPaid _ _ => "RewardPaid"
  | rewardsNotified _ _ => "RewardsNotified"
  | periodImported _ _ => "FeePeriodImported"
  | delegateApproved _ _ => "ClaimDelegateApproved"
  | delegateRemoved _ _ => "ClaimDelegateRemoved"

/-- The events not yet drained. -/
structure Journal where
  /-- The events held, oldest first. -/
  events : List Event := []
  /-- How many events may be held, if there is a limit. -/
  limit : Option Nat := none
  /-- How many events were lost to the limit. -/
  dropped : Nat := 0
deriving DecidableEq

namespace Journal

instance : Inhabited Journal := ⟨{}⟩

/-- An empty journal that holds at most `limit` events, and at least one. -/
def withLimit (limit : Nat) : Journal :=
  { limit := some (max limit 1) }

/-- Whether another event would exceed the limit. -/
def Full (journal : Journal) : Prop :=
  ∃ limit ∈ journal.limit, limit ≤ journal.events.length

instance (journal : Journal) : Decidable journal.Full :=
  match h : journal.limit with
  | none => .isFalse (by simp [Full, h])
  | some limit => decidable_of_iff (limit ≤ journal.events.length) (by simp [Full, h])

/-- Records an event.  If the journal is full, the oldest event makes room. -/
def emit (journal : Journal) (event : Event) : Journal :=
  if journal.Full then
    { journal with events := journal.events.tail ++ [event], dropped := journal.dropped + 1 }
  else { journal with events := journal.events ++ [event] }

/-- Takes all events out. -/
def drain (journal : Journal) : List Event × Journal :=
  (journal.events, { journal with events := [] })

end Journal

end FeeDistribution
