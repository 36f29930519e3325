import FeeDistribution.Ledger.Claim
import FeeDistribution.Environment.Treasury
import FeeDistribution.Proofs.Fallible
import Mathlib.Tactic.Ring

/-!
# The two kinds of revenue

A period keeps fees and rewards in two pots that are treated alike.  What holds of the one holds of
the other, so it is stated once, for a `Revenue`.

What is left in a pot is counted as an integer here: `Pot.left` goes below zero where
`Pot.unclaimed` stops.  The two agree on a pot from which no more was claimed than was put in.
-/

namespace FeeDistribution

/-- What a period collects. -/
inductive Revenue where
  /-- Fees. -/
  | fees
  /-- Emission rewards. -/
  | rewards
deriving DecidableEq

namespace Revenue

/-- The asset in which a revenue is paid out. -/
def asset : Revenue → Asset
  | fees => .fees
  | rewards => .rewards

/-- Of an amount of fees and an amount of rewards, the one that concerns a revenue. -/
def select (revenue : Revenue) (fees rewards : Amount) : Amount :=
  match revenue with
  | .fees => fees
  | .rewards => rewards

end Revenue

namespace Pot

variable {pot : Pot} {amount : Amount}

/-- What was put in less what was claimed. -/
def left (pot : Pot) : Int :=
  pot.total - pot.claimed

/-- A pot into which an amount was put. -/
def raise (pot : Pot) (amount : Amount) : Pot :=
  { pot with total := pot.total + amount }

theorem left_raise : (pot.raise amount).left = pot.left + amount := by
  simp only [left, raise]
  push_cast
  ring

theorem left_claim : (pot.claim amount).left = pot.left - amount := by
  simp only [left, claim]
  push_cast
  ring

/-- From a covered pot nothing is cut off when what is left is computed. -/
theorem unclaimed_eq_left (hcovered : pot.Covered) : (pot.unclaimed : Int) = pot.left :=
  Int.ofNat_sub hcovered

theorem unclaim_claim : (pot.claim amount).unclaim amount = pot := by
  simp [claim, unclaim]

theorem Covered.raise (hcovered : pot.Covered) : (pot.raise amount).Covered :=
  Nat.le_add_right_of_le hcovered

theorem Covered.claim (hcovered : pot.Covered) (hamount : amount ≤ pot.unclaimed) :
    (pot.claim amount).Covered :=
  Nat.add_le_of_le_sub' hcovered hamount

/-- A deposit raises the total, and fails only if the new one does not fit. -/
theorem deposit_eq (pot : Pot) (amount : Amount) :
    pot.deposit amount =
      if pot.total + amount ≤ Quantity.maxAmount then .ok (pot.raise amount)
      else .error .overflow := by
  unfold deposit Decimal.add Decimal.narrow
  split <;> rfl

theorem deposit_eq_ok {raised : Pot} :
    pot.deposit amount = .ok raised ↔
      pot.total + amount ≤ Quantity.maxAmount ∧ raised = pot.raise amount := by
  rw [deposit_eq]
  split <;> simp [*, eq_comm]

end Pot

namespace Period

variable {period : Period} {revenue : Revenue} {fees rewards : Amount}

/-- The pot of a revenue. -/
def pot (period : Period) : Revenue → Pot
  | .fees => period.fees
  | .rewards => period.rewards

/-- A period into which fees and rewards were put. -/
def raise (period : Period) (fees rewards : Amount) : Period :=
  { period with fees := period.fees.raise fees, rewards := period.rewards.raise rewards }

/-- From neither pot more was claimed than was put in. -/
def Covered (period : Period) : Prop :=
  ∀ revenue, (period.pot revenue).Covered

theorem covered_iff : period.Covered ↔ period.fees.Covered ∧ period.rewards.Covered :=
  ⟨fun hcovered => ⟨hcovered .fees, hcovered .rewards⟩,
    fun ⟨hfees, hrewards⟩ revenue => by cases revenue <;> assumption⟩

@[simp] theorem id_claim : (period.claim fees rewards).id = period.id :=
  rfl

theorem pot_raise :
    (period.raise fees rewards).pot revenue =
      (period.pot revenue).raise (revenue.select fees rewards) := by
  cases revenue <;> rfl

theorem pot_claim :
    (period.claim fees rewards).pot revenue =
      (period.pot revenue).claim (revenue.select fees rewards) := by
  cases revenue <;> rfl

theorem claim_zero : period.claim 0 0 = period :=
  rfl

theorem unclaim_claim : (period.claim fees rewards).unclaim fees rewards = period := by
  simp [claim, unclaim, Pot.unclaim_claim]

theorem Covered.raise (hcovered : period.Covered) : (period.raise fees rewards).Covered := by
  intro revenue
  rw [pot_raise]
  exact (hcovered revenue).raise

theorem Covered.claim (hcovered : period.Covered) (hfees : fees ≤ period.fees.unclaimed)
    (hrewards : rewards ≤ period.rewards.unclaimed) : (period.claim fees rewards).Covered := by
  intro revenue
  rw [pot_claim]
  cases revenue
  · exact (hcovered .fees).claim hfees
  · exact (hcovered .rewards).claim hrewards

theorem pot_opened {id : PeriodId} {start : Timestamp} : (opened id start).pot revenue = {} := by
  cases revenue <;> rfl

theorem covered_opened {id : PeriodId} {start : Timestamp} : (opened id start).Covered := by
  intro revenue
  cases revenue <;> exact Nat.le_refl 0

/-- A deposit raises both totals, and fails only if one of the new ones does not fit. -/
theorem deposit_eq (period : Period) (fees rewards : Amount) :
    period.deposit fees rewards =
      if period.fees.total + fees ≤ Quantity.maxAmount ∧
          period.rewards.total + rewards ≤ Quantity.maxAmount then
        .ok (period.raise fees rewards)
      else .error .overflow := by
  rw [deposit, Pot.deposit_eq, Pot.deposit_eq, ite_and]
  split
  · split <;> rfl
  · rfl

/-- A period passes its own check if it is covered. -/
theorem validate_eq_ok : period.validate = .ok () ↔ period.Covered := by
  rw [covered_iff, validate]
  by_cases hfees : period.fees.Covered
  · by_cases hrewards : period.rewards.Covered <;> simp [hfees, hrewards]
  · simp [hfees]

end Period

/-- What is owed of a revenue from one period. -/
def Entitlement.of (owed : Entitlement) (revenue : Revenue) : Amount :=
  revenue.select owed.fees owed.rewards

/-- What is owed of a revenue in all. -/
def ClaimPlan.of (plan : ClaimPlan) (revenue : Revenue) : Amount :=
  revenue.select plan.fees plan.rewards

end FeeDistribution
