import FeeDistribution.Decimal

/-!
# The treasury

Payments and burns leave the program here, and a record of them stays.  A batch of payments goes
through as a whole or not at all.
-/

namespace FeeDistribution

/-- What a payment consists of. -/
inductive Asset where
  /-- Fee revenue. -/
  | fees
  /-- Emission rewards. -/
  | rewards
  /-- Rewards of the liquidation stream. -/
  | liquidationRewards
deriving DecidableEq

/-- The name of an asset. -/
def Asset.name : Asset → String
  | fees => "fees"
  | rewards => "rewards"
  | liquidationRewards => "liquidationrewards"

/-- One leg of a payment. -/
structure Payout where
  /-- What is paid. -/
  asset : Asset
  /-- How much of it. -/
  amount : Amount
deriving DecidableEq

/-- The record of payments and burns. -/
structure Treasury where
  /-- Every payout and its receiver, oldest first. -/
  payments : List (Account × Payout) := []
  /-- All fees burned. -/
  burned : Amount := 0
  /-- Whether the next payment or burn will be refused, once. -/
  refusing : Bool := false
deriving DecidableEq

namespace Treasury

instance : Inhabited Treasury := ⟨{}⟩

/-- The fault of a payment or burn that was made to fail. -/
def refusal : Fault :=
  .transferFailed "injected failure"

/-- Makes the next payment or burn fail. -/
def refuseNext (treasury : Treasury) : Treasury :=
  { treasury with refusing := true }

/-- Pays an account every leg of a batch. -/
def pay (treasury : Treasury) (account : Account) (legs : List Payout) :
    Except Fault Unit × Treasury :=
  if treasury.refusing then (.error refusal, { treasury with refusing := false })
  else
    (.ok (),
      { treasury with payments := treasury.payments ++ legs.map fun leg => (account, leg) })

/-- Burns fees. -/
def burn (treasury : Treasury) (amount : Amount) : Except Fault Unit × Treasury :=
  if treasury.refusing then (.error refusal, { treasury with refusing := false })
  else
    match Decimal.add treasury.burned amount with
    | .ok burned => (.ok (), { treasury with burned })
    | .error fault => (.error fault, treasury)

/-- All that an account was paid of an asset.  The sum is exact and taken to be an amount. -/
def paidTo (treasury : Treasury) (account : Account) (asset : Asset) : Amount :=
  let received := treasury.payments.filter fun (receiver, leg) =>
    decide (receiver = account ∧ leg.asset = asset)
  received.foldr (fun (_, leg) total => leg.amount + total) 0

end Treasury

end FeeDistribution
