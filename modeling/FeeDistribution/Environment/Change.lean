import FeeDistribution.Environment.Basic

/-!
# Changes of the environment

Everything that can happen around a pool without the pool's doing, as data.
-/

namespace FeeDistribution

/-- One change of the environment. -/
inductive Change where
  /-- A balance is set, without regard to the reward stream. -/
  | balance (account : Account) (amount : Amount)
  /-- A share is pinned to an account and a period. -/
  | share (account : Account) (id : PeriodId) (share : Amount)
  /-- A ratio of debt to collateral is set. -/
  | ratio (account : Account) (ratio : Amount)
  /-- The rates behind the ratios are declared invalid, or valid again. -/
  | ratesInvalid (invalid : Bool)
  /-- A subsystem is suspended or resumed. -/
  | suspension (part : Subsystem) (suspended : Bool)
  /-- A rate is updated. -/
  | rate (key : String) (time : Timestamp)
  /-- The rate of the collateral currency is updated. -/
  | refresh (time : Timestamp)
  /-- The debt shares are frozen for the closing period; another opens. -/
  | snapshot (id : PeriodId)
  /-- The next payment or burn is made to fail. -/
  | refuseNext
  /-- A payment not made by the pool. -/
  | pay (account : Account) (legs : List Payout)
  /-- A burn not made by the pool. -/
  | burn (amount : Amount)
deriving DecidableEq

namespace Environment

/-- The environment with changed debt shares. -/
def withStakes (env : Environment) (stakes : Stakes) : Except Fault Unit × Environment :=
  (.ok (), { env with stakes })

/-- Carries out a change. -/
def apply (env : Environment) : Change → Except Fault Unit × Environment
  | .balance account amount => env.withStakes (env.stakes.setBalance account amount)
  | .share account id share => env.withStakes (env.stakes.pin account id share)
  | .ratio account ratio => env.withStakes (env.stakes.setRatio account ratio)
  | .ratesInvalid invalid => env.withStakes { env.stakes with ratesInvalid := invalid }
  | .suspension part suspended =>
    (.ok (), { env with suspensions := env.suspensions.set part suspended })
  | .rate key time => (.ok (), env.setRate key time)
  | .refresh time => (.ok (), env.refreshRates time)
  | .snapshot id => env.withStakes (env.stakes.takeSnapshot id)
  | .refuseNext => (.ok (), { env with treasury := env.treasury.refuseNext })
  | .pay account legs => env.pay account legs
  | .burn amount => env.burn amount

end Environment

end FeeDistribution
