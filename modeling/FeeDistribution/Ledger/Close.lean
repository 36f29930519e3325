import FeeDistribution.Ledger.Basic

/-!
# Closing a period

Closing evicts the oldest slot.  What was left in it is added to the totals of the next-oldest
period and to no other, and the fees that the closed period collected are to be burned.  A close is
first planned, which changes nothing, and then committed; a plan that no longer fits the ledger is
refused.
-/

namespace FeeDistribution

/-- A close, computed before anything changes. -/
structure ClosePlan where
  /-- The period to be closed. -/
  closed : PeriodId
  /-- The period to be opened. -/
  opened : PeriodId
  /-- The fees of the closed period, to be burned. -/
  burned : Amount
  /-- The fees that roll over from the evicted period. -/
  rolledFees : Amount
  /-- The rewards that roll over from the evicted period. -/
  rolledRewards : Amount
deriving DecidableEq

/-- What a close did: the plan it carried out, and the slot that left the window. -/
structure CloseOutcome extends ClosePlan where
  /-- The slot that left the window, as it was. -/
  evicted : Period
deriving DecidableEq

namespace Ledger

/-- The period that receives the remainder of the evicted one. -/
def receiving (ledger : Ledger) : Period :=
  ledger.window.recent (ledger.window.length - 2)

/-- The period that leaves the window at the next close. -/
def oldest (ledger : Ledger) : Period :=
  ledger.window.recent (ledger.window.length - 1)

/-- Plans the close of the open period in favour of period `new`.  The sums of the rollover are
checked here, before anything is burned. -/
def planClose (ledger : Ledger) (new : PeriodId) : Except Fault ClosePlan := do
  let current := ledger.window.current
  if new ≤ current.id then throw (.invalid (.notAfter new current.id))
  let rolledFees := ledger.oldest.fees.unclaimed
  let rolledRewards := ledger.oldest.rewards.unclaimed
  let _ ← ledger.receiving.deposit rolledFees rolledRewards
  pure
    { closed := current.id
      opened := new
      burned := current.fees.total
      rolledFees
      rolledRewards }

/-- Carries out a planned close: the remainder rolls over, the oldest slot leaves, the new period
opens.  The plan must be the one the ledger would make now. -/
def commitClose (ledger : Ledger) (plan : ClosePlan) (start : Timestamp) :
    Except Fault (CloseOutcome × Ledger) := do
  let fresh ← ledger.planClose plan.opened
  if fresh ≠ plan then throw (.invalid .staleClosePlan)
  let receiving ← ledger.receiving.deposit plan.rolledFees plan.rolledRewards
  let raised := ledger.window.set (ledger.window.length - 2) receiving
  let (evicted, window) := raised.push (.opened plan.opened start)
  pure ({ plan with evicted }, { ledger with window, importOpen := false })

/-- Plans a close and carries it out. -/
def close (ledger : Ledger) (new : PeriodId) (start : Timestamp) :
    Except Fault (CloseOutcome × Ledger) := do
  let plan ← ledger.planClose new
  ledger.commitClose plan start

end Ledger

end FeeDistribution
