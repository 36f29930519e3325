import FeeDistribution.Environment.Stakes
import FeeDistribution.Rewards.Basic

/-!
# Changing a stake

Debt shares are issued and burned through the reward stream, which brings the account up to date
before its balance changes.  An account may be brought up to date although the change itself then
fails.
-/

namespace FeeDistribution.Rewards

/-- Brings an account up to date at its live balance. -/
def beforeChange (rewards : Rewards) (stakes : Stakes) (account : Account) :
    Except Fault Rewards := do
  let (_, rewards) ← rewards.update account (stakes.balance account)
  pure rewards

/-- Issues debt shares to an account. -/
def mint (rewards : Rewards) (stakes : Stakes) (account : Account) (amount : Amount) :
    Except Fault Unit × Rewards × Stakes :=
  match rewards.beforeChange stakes account with
  | .error fault => (.error fault, rewards, stakes)
  | .ok rewards =>
    match Decimal.add (stakes.balance account) amount with
    | .error fault => (.error fault, rewards, stakes)
    | .ok balance => (.ok (), rewards, stakes.setBalance account balance)

/-- Burns debt shares of an account. -/
def burn (rewards : Rewards) (stakes : Stakes) (account : Account) (amount : Amount) :
    Except Fault Unit × Rewards × Stakes :=
  if stakes.balance account < amount then
    (.error (.invalid .burnExceedsBalance), rewards, stakes)
  else
    match rewards.beforeChange stakes account with
    | .error fault => (.error fault, rewards, stakes)
    | .ok rewards =>
      (.ok (), rewards, stakes.setBalance account (stakes.balance account - amount))

end FeeDistribution.Rewards
