import FeeDistribution.Ledger.Basic

/-!
# Claims

An account is owed, from every closed period above its watermark, its debt share of what the period
collected, as far as it is left.  The shares come from outside: `shareOn id` is the share of the
account in question on period `id`.  A claim is planned, which changes nothing, then committed, and
can be reverted if it could not be paid.
-/

namespace FeeDistribution

/-- What an account is owed from one period. -/
structure Entitlement where
  /-- The index of the period in the window. -/
  slot : Nat := 0
  /-- The period. -/
  id : PeriodId := 0
  /-- The fees owed. -/
  fees : Amount := 0
  /-- The rewards owed. -/
  rewards : Amount := 0
deriving DecidableEq

/-- A claim, computed before anything changes. -/
structure ClaimPlan where
  /-- The claimant. -/
  account : Account
  /-- What is owed from each period, newest first. -/
  entitlements : List Entitlement
  /-- The fees owed in all. -/
  fees : Amount
  /-- The rewards owed in all. -/
  rewards : Amount
  /-- The newest closed period, which becomes the watermark of the claimant. -/
  through : PeriodId
deriving DecidableEq

namespace Ledger

/-- What a share of a period entitles to.  A share above one counts as one. -/
def entitlement (slot : Nat) (period : Period) (share : Amount) : Except Fault Entitlement := do
  let fees ← period.fees.part (min share unit)
  let rewards ← period.rewards.part (min share unit)
  pure { slot, id := period.id, fees, rewards }

/-- The closed periods above the watermark of an account, newest first. -/
def claimable (ledger : Ledger) (account : Account) : List (Nat × Period) :=
  ledger.window.closed.filter fun (_, period) => decide (ledger.watermark account < period.id)

/-- What an account is owed from each closed period above its watermark, newest first. -/
def entitlements (ledger : Ledger) (account : Account) (shareOn : PeriodId → Amount) :
    Except Fault (List Entitlement) :=
  (ledger.claimable account).mapM fun (slot, period) => entitlement slot period (shareOn period.id)

/-- The fees and rewards of a list of entitlements, added one by one. -/
def sumEntitlements (entitlements : List Entitlement) : Except Fault (Amount × Amount) :=
  entitlements.foldlM
    (fun (fees, rewards) entitlement => do
      let fees ← Decimal.add fees entitlement.fees
      let rewards ← Decimal.add rewards entitlement.rewards
      pure (fees, rewards))
    (0, 0)

/-- The fees and rewards an account is owed in all. -/
def available (ledger : Ledger) (account : Account) (shareOn : PeriodId → Amount) :
    Except Fault (Amount × Amount) := do
  let owed ← ledger.entitlements account shareOn
  sumEntitlements owed

/-- What an account is owed, slot by slot.  Slot zero previews the open period at the live share
and can not be claimed; slots that are not claimable show zeros. -/
def breakdown (ledger : Ledger) (account : Account) (shareOn : PeriodId → Amount)
    (liveShare : Amount) : Except Fault (List Entitlement) := do
  let preview ← entitlement 0 ledger.window.current liveShare
  let owed ← ledger.entitlements account shareOn
  let blank := ledger.window.toList.zipIdx.map fun (period, slot) =>
    { slot, id := period.id : Entitlement }
  pure ((preview :: owed).foldl (fun rows row => rows.set row.slot row) blank)

/-- The share of an account on the period in a slot; zero for the open period and for slots that
hold no period. -/
def debtRatio (ledger : Ledger) (slot : Nat) (shareOn : PeriodId → Amount) : Amount :=
  if slot ≠ 0 ∧ (ledger.window.recent slot).Filled then shareOn (ledger.window.recent slot).id
  else 0

/-! ## Planning, committing, reverting -/

/-- Plans the claim of an account. -/
def planClaim (ledger : Ledger) (account : Account) (shareOn : PeriodId → Amount) :
    Except Fault ClaimPlan := do
  let newest := ledger.window.recent 1
  if ¬ newest.Filled then throw .nothingToClaim
  let entitlements ← ledger.entitlements account shareOn
  let (fees, rewards) ← sumEntitlements entitlements
  if fees = 0 ∧ rewards = 0 then throw .nothingToClaim
  pure { account, entitlements, fees, rewards, through := newest.id }

/-- Checks that the period of an entitlement still stands in its slot and has enough left. -/
def checkEntitlement (ledger : Ledger) (owed : Entitlement) : Except Fault Unit :=
  match ledger.window.recent? owed.slot with
  | none => .error (.outsideWindow owed.id)
  | some period =>
    if period.id ≠ owed.id ∨ period.fees.unclaimed < owed.fees ∨
        period.rewards.unclaimed < owed.rewards then
      .error (.invalid .staleClaimPlan)
    else .ok ()

/-- Takes an entitlement out of the period in its slot. -/
def takeOut (window : Window) (owed : Entitlement) : Window :=
  window.modify owed.slot fun period => period.claim owed.fees owed.rewards

/-- Puts an entitlement back into the period in its slot, if it is still the same period. -/
def putBack (window : Window) (owed : Entitlement) : Window :=
  window.modify owed.slot fun period =>
    if period.id = owed.id then period.unclaim owed.fees owed.rewards else period

/-- Carries out a planned claim and returns the watermark as it was.  The watermark never goes
down. -/
def commitClaim (ledger : Ledger) (plan : ClaimPlan) : Except Fault (PeriodId × Ledger) := do
  plan.entitlements.forM ledger.checkEntitlement
  let previous := ledger.watermark plan.account
  pure
    (previous,
      { window := plan.entitlements.foldl takeOut ledger.window
        watermarks := ledger.watermarks.set plan.account (max previous plan.through)
        importOpen := false })

/-- Undoes a claim that could not be paid, given the watermark as it was. -/
def revertClaim (ledger : Ledger) (plan : ClaimPlan) (previous : PeriodId) : Ledger :=
  { ledger with
    window := plan.entitlements.foldl putBack ledger.window
    watermarks := ledger.watermarks.set plan.account previous }

end Ledger

end FeeDistribution
