import FeeDistribution.Decimal

/-!
# Fee periods

While a period is open it collects fees and rewards; once it is closed they are claimed from it.
Both are kept in the same way, as a pot of which a part has been claimed.
-/

namespace FeeDistribution

/-- An amount to be distributed, and how much of it has been claimed. -/
structure Pot where
  /-- All that was put in. -/
  total : Amount := 0
  /-- All that was taken out. -/
  claimed : Amount := 0
deriving DecidableEq

namespace Pot

instance : Inhabited Pot := ⟨{}⟩

/-- What is left.  A pot from which too much was claimed has nothing left. -/
def unclaimed (pot : Pot) : Amount :=
  pot.total - pot.claimed

/-- Whether no more was claimed than was put in. -/
def Covered (pot : Pot) : Prop :=
  pot.claimed ≤ pot.total

instance (pot : Pot) : Decidable pot.Covered :=
  inferInstanceAs (Decidable (pot.claimed ≤ pot.total))

/-- Puts an amount in, if the total still fits. -/
def deposit (pot : Pot) (amount : Amount) : Except Fault Pot := do
  let total ← Decimal.add pot.total amount
  pure { pot with total }

/-- Takes an amount out. -/
def claim (pot : Pot) (amount : Amount) : Pot :=
  { pot with claimed := pot.claimed + amount }

/-- Puts a claimed amount back, down to nothing claimed. -/
def unclaim (pot : Pot) (amount : Amount) : Pot :=
  { pot with claimed := pot.claimed - amount }

/-- The part of a pot that a share entitles to: the share of the total, as far as it is left. -/
def part (pot : Pot) (share : Amount) : Except Fault Amount := do
  let due ← Decimal.multiply share pot.total
  pure (min due pot.unclaimed)

end Pot

/-- One slot of the window: a period, or the empty period with id zero. -/
structure Period where
  /-- The number of the period; zero in a slot that was never filled. -/
  id : PeriodId := 0
  /-- When the period opened. -/
  start : Timestamp := 0
  /-- The fees it collected. -/
  fees : Pot := {}
  /-- The rewards it collected. -/
  rewards : Pot := {}
deriving DecidableEq

namespace Period

/-- The empty period, which stands in slots that were never filled. -/
def empty : Period := {}

instance : Inhabited Period := ⟨empty⟩

/-- A fresh period with nothing collected. -/
def opened (id : PeriodId) (start : Timestamp) : Period :=
  { id, start }

/-- Whether the slot holds a period at all. -/
def Filled (period : Period) : Prop :=
  period.id ≠ 0

instance (period : Period) : Decidable period.Filled :=
  inferInstanceAs (Decidable (period.id ≠ 0))

/-- Checks that no more was claimed than was collected, fees before rewards. -/
def validate (period : Period) : Except Fault Unit :=
  if ¬ period.fees.Covered then .error (.invalid (.feesOverclaimed period.id))
  else if ¬ period.rewards.Covered then .error (.invalid (.rewardsOverclaimed period.id))
  else .ok ()

/-- Whether anything was claimed. -/
def Touched (period : Period) : Prop :=
  0 < period.fees.claimed ∨ 0 < period.rewards.claimed

instance (period : Period) : Decidable period.Touched :=
  inferInstanceAs (Decidable (0 < period.fees.claimed ∨ 0 < period.rewards.claimed))

/-- Takes fees and rewards out. -/
def claim (period : Period) (fees rewards : Amount) : Period :=
  { period with fees := period.fees.claim fees, rewards := period.rewards.claim rewards }

/-- Puts claimed fees and rewards back. -/
def unclaim (period : Period) (fees rewards : Amount) : Period :=
  { period with fees := period.fees.unclaim fees, rewards := period.rewards.unclaim rewards }

/-- Puts fees and rewards in, if both totals still fit. -/
def deposit (period : Period) (fees rewards : Amount) : Except Fault Period := do
  let fees ← period.fees.deposit fees
  let rewards ← period.rewards.deposit rewards
  pure { period with fees, rewards }

end Period

/-- Where a period stands in its life. -/
inductive PeriodStatus where
  /-- It collects. -/
  | opened
  /-- It is closed and nothing was claimed. -/
  | closed
  /-- It is closed and something was claimed. -/
  | partiallyClaimed
  /-- It has left the window. -/
  | evicted
deriving DecidableEq

/-- The name of a status. -/
def PeriodStatus.name : PeriodStatus → String
  | opened => "Open"
  | closed => "Closed"
  | partiallyClaimed => "PartiallyClaimed"
  | evicted => "Evicted"

end FeeDistribution
