import FeeDistribution.Decimal
import FeeDistribution.Tally

/-!
# Debt shares

Every account holds a balance of debt shares.  Its share of a period is its part of all balances as
they were when the period was closed.  A snapshot belongs to the period that was open when it was
taken; a period without one is judged by the live balances, and a share that was pinned to an
account and a period comes before both.  All balances together, the live ones as well as those of a
snapshot, are taken to be an amount (`Tally.total`).
-/

namespace FeeDistribution

/-- The balances, their snapshots, pinned shares and ratios of debt to collateral. -/
structure Stakes where
  /-- The live balances. -/
  balances : Tally := ∅
  /-- The balances at the close of each period. -/
  snapshots : Std.ExtTreeMap PeriodId Tally := ∅
  /-- Shares set by hand, by period and account. -/
  pinned : Std.ExtTreeMap PeriodId (Std.ExtTreeMap Account Amount) := ∅
  /-- The ratio of debt to collateral of each account. -/
  ratios : Tally := ∅
  /-- Whether the rates behind the ratios are declared invalid. -/
  ratesInvalid : Bool := false
  /-- The period to which the next snapshot will belong. -/
  period : PeriodId := 1
deriving DecidableEq

namespace Stakes

instance : Inhabited Stakes := ⟨{}⟩

/-- The part of all balances that an account holds, rounded down; zero if there are none. -/
def partOf (balances : Tally) (account : Account) : Amount :=
  if balances.total = 0 then 0
  else (Decimal.divide (balances.get account) balances.total).toOption.getD 0

/-- The live balance of an account. -/
def balance (stakes : Stakes) (account : Account) : Amount :=
  stakes.balances.get account

/-- The sum of all live balances, taken to be an amount. -/
def supply (stakes : Stakes) : Amount :=
  stakes.balances.total

/-- The live share of an account. -/
def share (stakes : Stakes) (account : Account) : Amount :=
  partOf stakes.balances account

/-- The share pinned to an account and a period, if any. -/
def pinnedShare? (stakes : Stakes) (account : Account) (id : PeriodId) : Option Amount :=
  stakes.pinned[id]?.bind fun shares => shares[account]?

/-- The share of an account on a period. -/
def shareOn (stakes : Stakes) (account : Account) (id : PeriodId) : Amount :=
  match stakes.pinnedShare? account id with
  | some share => share
  | none => partOf (stakes.snapshots[id]?.getD stakes.balances) account

/-- The ratio of debt to collateral of an account. -/
def ratio (stakes : Stakes) (account : Account) : Amount :=
  stakes.ratios.get account

/-- Sets a balance. -/
def setBalance (stakes : Stakes) (account : Account) (amount : Amount) : Stakes :=
  { stakes with balances := stakes.balances.set account amount }

/-- Pins the share of an account on a period. -/
def pin (stakes : Stakes) (account : Account) (id : PeriodId) (share : Amount) : Stakes :=
  let shares := stakes.pinned[id]?.getD ∅
  { stakes with pinned := stakes.pinned.insert id (shares.insert account share) }

/-- Sets the ratio of debt to collateral of an account. -/
def setRatio (stakes : Stakes) (account : Account) (ratio : Amount) : Stakes :=
  { stakes with ratios := stakes.ratios.set account ratio }

/-- Freezes the live balances for the period that is closing; `id` opens. -/
def takeSnapshot (stakes : Stakes) (id : PeriodId) : Stakes :=
  { stakes with
    snapshots := stakes.snapshots.insert stakes.period stakes.balances
    period := id }

end Stakes

end FeeDistribution
