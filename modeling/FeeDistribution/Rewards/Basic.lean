import FeeDistribution.Environment.Treasury
import FeeDistribution.Tally

/-!
# The reward stream

Rewards flow in at any time and belong to the holders of stake in proportion to their balances at
that moment.  The stream keeps one ratio, the rewards accrued so far by one unit of stake, scaled by
`rewardPrecision`; the remainder of each division is carried into the next.  An account is brought
up to date by a checkpoint: what its balance accrued since the last one is added to its claimable
amount, rounded up by less than one unit, and the ratio is noted.

The functions take the balance or supply of the moment as an argument.  A checkpoint must come
before any change of the balance, so that the old balance prices all that accrued up to then.
-/

namespace FeeDistribution

/-- What the stream remembers of an account. -/
structure Checkpoint where
  /-- The ratio at the last checkpoint. -/
  ratio : Nat := 0
  /-- What had accrued by then and was not paid. -/
  claimable : Amount := 0
deriving DecidableEq

/-- What became of an inflow. -/
inductive Inflow where
  /-- It was distributed, together with what was held back before. -/
  | distributed (amount : Amount)
  /-- It is held back, since nobody holds stake; `amount` is all that is held back now. -/
  | pending (amount : Amount)
deriving DecidableEq

/-- The state of the reward stream. -/
structure Rewards where
  /-- The rewards accrued by one unit of stake since the beginning, scaled. -/
  ratio : Nat := 0
  /-- The remainder of the last division. -/
  dust : Amount := 0
  /-- Inflow held back until somebody holds stake. -/
  pending : Amount := 0
  /-- The checkpoints of the accounts. -/
  checkpoints : Std.ExtTreeMap Account Checkpoint := ∅
  /-- All inflow. -/
  notified : Amount := 0
  /-- All payouts. -/
  paid : Amount := 0
deriving DecidableEq

namespace Rewards

instance : Inhabited Rewards := ⟨{}⟩

/-- The checkpoint of an account; one that never had any starts from nothing. -/
def checkpoint (rewards : Rewards) (account : Account) : Checkpoint :=
  rewards.checkpoints[account]?.getD {}

/-- Distributed inflow that was not yet paid out. -/
def unpaid (rewards : Rewards) : Amount :=
  rewards.notified - rewards.pending - rewards.paid

/-- Distributes an amount over the supply of stake, or holds it back if there is none. -/
def distribute (rewards : Rewards) (supply amount : Amount) : Except Fault (Inflow × Rewards) :=
  if supply = 0 then .ok (.pending amount, { rewards with pending := amount })
  else
    let scaled := amount * rewardPrecision + rewards.dust
    let ratio := rewards.ratio + scaled / supply
    if Quantity.maxRatio < ratio then .error .overflow
    else
      .ok (.distributed amount, { rewards with ratio, dust := scaled % supply, pending := 0 })

/-- Takes an inflow in and distributes it together with what was held back. -/
def notify (rewards : Rewards) (supply amount : Amount) : Except Fault (Inflow × Rewards) := do
  if amount = 0 then throw (.invalid .zeroReward)
  let total ← Decimal.add rewards.pending amount
  let notified ← Decimal.add rewards.notified amount
  let (inflow, rewards) ← rewards.distribute supply total
  pure (inflow, { rewards with notified })

/-- Distributes what was held back. -/
def distributePending (rewards : Rewards) (supply : Amount) : Except Fault (Inflow × Rewards) :=
  if rewards.pending = 0 then .ok (.distributed 0, rewards)
  else rewards.distribute supply rewards.pending

/-- What a balance accrues while the ratio grows by `growth`, rounded up by less than one unit. -/
def accrued (balance : Amount) (growth : Nat) : Except Fault Amount :=
  let scaled := balance * growth + (balance - 1)
  if Quantity.maxRatio < scaled then .error .overflow else Decimal.narrow (scaled / rewardPrecision)

/-- What an account could claim if it were brought up to date at this balance. -/
def earned (rewards : Rewards) (account : Account) (balance : Amount) : Except Fault Amount :=
  let last := rewards.checkpoint account
  if rewards.ratio < last.ratio then .error .overflow
  else if balance = 0 ∨ rewards.ratio = last.ratio then .ok last.claimable
  else do
    let gain ← accrued balance (rewards.ratio - last.ratio)
    Decimal.add last.claimable gain

/-- Notes a claimable amount at the present ratio. -/
def record (rewards : Rewards) (account : Account) (claimable : Amount) : Rewards :=
  { rewards with
    checkpoints := rewards.checkpoints.insert account { ratio := rewards.ratio, claimable } }

/-- Brings an account up to date at this balance and returns what it can claim. -/
def update (rewards : Rewards) (account : Account) (balance : Amount) :
    Except Fault (Amount × Rewards) := do
  let claimable ← rewards.earned account balance
  pure (claimable, rewards.record account claimable)

/-- Brings an account up to date and pays what it can claim, up to what was distributed and not yet
paid.  If the payment fails, the account stays up to date and keeps its claim. -/
def settle (rewards : Rewards) (treasury : Treasury) (account : Account) (balance : Amount) :
    Except Fault Amount × Rewards × Treasury :=
  match rewards.update account balance with
  | .error fault => (.error fault, rewards, treasury)
  | .ok (claimable, updated) =>
    let payout := min claimable updated.unpaid
    if payout = 0 then (.ok 0, updated, treasury)
    else
      match Decimal.add updated.paid payout with
      | .error fault => (.error fault, updated, treasury)
      | .ok paid =>
        match treasury.pay account [{ asset := .liquidationRewards, amount := payout }] with
        | (.error fault, treasury) => (.error fault, updated, treasury)
        | (.ok (), treasury) =>
          (.ok payout, { updated.record account (claimable - payout) with paid }, treasury)

end Rewards

end FeeDistribution
