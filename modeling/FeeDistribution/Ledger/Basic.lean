import FeeDistribution.Period.Window
import FeeDistribution.Tally

/-!
# The ledger

The ledger is the window together with a watermark for every account: the newest period from which
the account has claimed.  A claim always takes all closed periods above the watermark, so the
watermark is all there is to remember.  Until the first deposit, close or claim, history can be
imported.
-/

namespace FeeDistribution

/-- The window of periods, the watermarks, and whether history may still be imported. -/
structure Ledger where
  /-- The periods. -/
  window : Window
  /-- The newest period each account has claimed; zero if it never claimed. -/
  watermarks : Tally := ∅
  /-- Whether history may still be imported. -/
  importOpen : Bool := true
deriving DecidableEq

namespace Ledger

/-- A ledger of `length` slots with period one open. -/
def create (length : Nat) (start : Timestamp) : Except Fault Ledger := do
  let window ← Window.create length 1 start
  pure { window }

/-! ## Deposits -/

/-- The ledger with a changed open period; this ends the import of history. -/
def setCurrent (ledger : Ledger) (period : Period) : Ledger :=
  { ledger with window := ledger.window.set 0 period, importOpen := false }

/-- Adds fees to the open period.  Nothing is recorded for an amount of zero. -/
def recordFee (ledger : Ledger) (amount : Amount) : Except Fault Ledger :=
  if amount = 0 then .ok ledger
  else do
    let fees ← ledger.window.current.fees.deposit amount
    pure (ledger.setCurrent { ledger.window.current with fees })

/-- Adds rewards to the open period.  Nothing is recorded for an amount of zero. -/
def recordReward (ledger : Ledger) (amount : Amount) : Except Fault Ledger :=
  if amount = 0 then .ok ledger
  else do
    let rewards ← ledger.window.current.rewards.deposit amount
    pure (ledger.setCurrent { ledger.window.current with rewards })

/-! ## Queries -/

/-- The newest period an account has claimed, zero if none. -/
def watermark (ledger : Ledger) (account : Account) : PeriodId :=
  ledger.watermarks.get account

/-- Whether an account has claimed a period. -/
def hasClaimed (ledger : Ledger) (account : Account) (id : PeriodId) : Bool :=
  decide (id ≤ ledger.watermark account)

/-- The unclaimed fees of all closed periods. -/
def totalFees (ledger : Ledger) : Except Fault Amount :=
  Decimal.sum (ledger.window.closed.map fun (_, period) => period.fees.unclaimed)

/-- The unclaimed rewards of all closed periods. -/
def totalRewards (ledger : Ledger) : Except Fault Amount :=
  Decimal.sum (ledger.window.closed.map fun (_, period) => period.rewards.unclaimed)

/-- Checks that from no period more was claimed than it collected. -/
def checkCovered (ledger : Ledger) : Except Fault Unit :=
  if ∀ period ∈ ledger.window.toList, period.fees.Covered ∧ period.rewards.Covered then .ok ()
  else .error .overflow

end Ledger

end FeeDistribution
