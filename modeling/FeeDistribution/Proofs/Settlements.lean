import FeeDistribution.Proofs.FailedClaims
import FeeDistribution.Proofs.RewardStream

/-!
# Settling again

A settlement brings the account up to date before it pays, and it may pay less than is claimed, or
nothing if the payment is refused.  In each case it can be asked for again.  After one that
succeeded the next finds nothing to pay, although a claim may be left that was not covered; and a
payment that was refused leaves the account up to date, of which the next settlement does not take
notice.

## Strategy

`settle_eq` says how a settlement ends, given what the account has earned.  A checkpoint at the
balance of the moment changes what no account has earned (`earned_record`), so a settlement right
after it is the same as without it (`settle_record`).
-/

namespace FeeDistribution.Rewards

open Quantity

variable {rewards : Rewards} {treasury : Treasury} {account : Account} {balance claimable : Amount}

/-! ## What a checkpoint leaves -/

/-- A checkpoint at the balance of the moment changes what no account has earned. -/
theorem earned_record {balanceOf : Account → Amount}
    (hearned : rewards.earned account (balanceOf account) = .ok claimable) (other : Account) :
    (rewards.record account claimable).earned other (balanceOf other) =
      rewards.earned other (balanceOf other) := by
  by_cases hother : account = other
  · subst hother
    rw [earned_record_self, hearned]
  · have hratio : (rewards.record account claimable).ratio = rewards.ratio := rfl
    unfold earned
    rw [checkpoint_record, if_neg hother, hratio]

/-- No fault of a checkpoint is that of a refused payment. -/
theorem earned_ne_refusal : rewards.earned account balance ≠ .error Treasury.refusal := by
  unfold earned accrued
  dsimp only
  split
  · nofun
  · split
    · nofun
    · refine Fallible.bind_ne_error ?_ fun _ => Decimal.narrow_ne_error nofun
      split
      · nofun
      · exact Decimal.narrow_ne_error nofun

/-! ## How a settlement ends -/

/-- A settlement right after a checkpoint at the same balance is the same as without it. -/
theorem settle_record (hearned : rewards.earned account balance = .ok claimable)
    (later : Treasury) :
    (rewards.record account claimable).settle later account balance =
      rewards.settle later account balance := by
  rw [settle, settle, update_eq_ok.mpr ⟨earned_record_self, rfl⟩,
    update_eq_ok.mpr ⟨hearned, rfl⟩, record_record]

/-- After a payout nothing more is paid, whatever is left of the claim. -/
theorem settle_payOut (rewards : Rewards) (account : Account) (balance claimable : Amount)
    (later : Treasury) :
    (rewards.payOut account claimable (min claimable rewards.unpaid)).settle later account balance =
      (.ok 0, rewards.payOut account claimable (min claimable rewards.unpaid), later) := by
  have hunpaid : ∀ payout, (rewards.payOut account claimable payout).unpaid =
      rewards.unpaid - payout := fun payout => (Nat.sub_sub _ _ _).symm
  have hearned : ∀ payout, (rewards.payOut account claimable payout).earned account balance =
      .ok (claimable - payout) := fun payout =>
    (earned_record_self : (rewards.record account (claimable - payout)).earned account balance = _)
  -- the payout exhausted the claim or what was unpaid
  have hnothing : min (claimable - min claimable rewards.unpaid)
      (rewards.unpaid - min claimable rewards.unpaid) = 0 := by
    rcases Nat.le_total claimable rewards.unpaid with hcovered | hshort
    · rw [Nat.min_eq_left hcovered, Nat.sub_self, Nat.zero_min]
    · rw [Nat.min_eq_right hshort, Nat.sub_self, Nat.min_zero]
  have hsame : ∀ payout, (rewards.payOut account claimable payout).record account
      (claimable - payout) = rewards.payOut account claimable payout := by
    intro payout
    show { (rewards.record account (claimable - payout)).record account (claimable - payout) with
      paid := rewards.paid + payout } = _
    rw [record_record]
    rfl
  rw [settle_eq later (hearned _), hunpaid, if_pos hnothing, hsame]

/-- A settlement can be refused by the treasury only after a checkpoint. -/
theorem settle_refused
    (hrefused : (rewards.settle treasury account balance).1 = .error Treasury.refusal) :
    ∃ claimable, rewards.earned account balance = .ok claimable ∧
      0 < min claimable rewards.unpaid ∧
      rewards.paid + min claimable rewards.unpaid ≤ maxAmount ∧
      rewards.settle treasury account balance =
        (.error Treasury.refusal, rewards.record account claimable,
          { treasury with refusing := false }) := by
  cases hearned : rewards.earned account balance with
  | error fault =>
      rw [settle_of_earned_error hearned] at hrefused
      exact absurd (hearned.trans hrefused) earned_ne_refusal
  | ok claimable =>
      refine ⟨claimable, rfl, ?_⟩
      rw [settle_eq treasury hearned] at hrefused ⊢
      by_cases hnothing : min claimable rewards.unpaid = 0
      · rw [if_pos hnothing] at hrefused
        cases hrefused
      · by_cases hoverflow : maxAmount < rewards.paid + min claimable rewards.unpaid
        · rw [if_neg hnothing, if_pos hoverflow] at hrefused
          cases hrefused
        · rw [if_neg hnothing, if_neg hoverflow] at hrefused ⊢
          cases hrefusing : treasury.refusing with
          | true => exact ⟨Nat.pos_of_ne_zero hnothing, Nat.le_of_not_lt hoverflow, rfl⟩
          | false =>
              rw [hrefusing] at hrefused
              cases hrefused

/-- A payment that was refused is made by the next settlement that is not. -/
theorem settle_of_not_refusing {later : Treasury}
    (hearned : rewards.earned account balance = .ok claimable)
    (hpositive : 0 < min claimable rewards.unpaid)
    (hfits : rewards.paid + min claimable rewards.unpaid ≤ maxAmount)
    (hlater : later.refusing = false) :
    rewards.settle later account balance =
      (.ok (min claimable rewards.unpaid),
        rewards.payOut account claimable (min claimable rewards.unpaid),
        { later with
          payments := later.payments ++ [(account,
            { asset := .liquidationRewards, amount := min claimable rewards.unpaid })] }) := by
  rw [settle_eq later hearned, if_neg hpositive.ne', if_neg (Nat.not_lt.mpr hfits), hlater]
  rfl

/-- A settlement can be repeated.  After one that succeeded, the next pays nothing and changes
nothing.  After one whose payment was refused, everything but the checkpoints is as before, no
account has earned more or less, and the next settlement whose payment is accepted does the same as
if none had been refused: it pays what the account had earned, as far as that was unpaid. -/
theorem settle_repeatable (rewards : Rewards) (treasury : Treasury) (stakes : Stakes)
    (account : Account) :
    let settled := rewards.settle treasury account (stakes.balance account)
    (∀ payout, settled.1 = .ok payout →
      ∀ later, settled.2.1.settle later account (stakes.balance account) =
        (.ok 0, settled.2.1, later)) ∧
      (settled.1 = .error Treasury.refusal →
        settled.2.1 = { rewards with checkpoints := settled.2.1.checkpoints } ∧
        settled.2.2 = { treasury with refusing := false } ∧
        (∀ other, settled.2.1.earned other (stakes.balance other) =
          rewards.earned other (stakes.balance other)) ∧
        ∃ claimable, rewards.earned account (stakes.balance account) = .ok claimable ∧
          ∀ later, later.refusing = false →
            settled.2.1.settle later account (stakes.balance account) =
                rewards.settle later account (stakes.balance account) ∧
              (rewards.settle later account (stakes.balance account)).1 =
                .ok (min claimable rewards.unpaid) ∧
              (rewards.settle later account (stakes.balance account)).2.2.payments =
                later.payments ++ [(account,
                  { asset := .liquidationRewards, amount := min claimable rewards.unpaid })]) := by
  dsimp only
  constructor
  · intro payout hpaid later
    obtain ⟨claimable, hearned, rfl, hnext⟩ := settle_ok (Prod.ext hpaid rfl :
      rewards.settle treasury account (stakes.balance account) = (.ok payout, _, _))
    rw [hnext]
    exact settle_payOut rewards account _ claimable later
  · intro hrefused
    obtain ⟨claimable, hearned, hpositive, hfits, hsettle⟩ := settle_refused hrefused
    rw [hsettle]
    refine ⟨rfl, rfl, earned_record hearned, claimable, hearned, fun later hlater => ?_⟩
    rw [settle_record hearned, settle_of_not_refusing hearned hpositive hfits hlater]
    exact ⟨rfl, rfl, rfl⟩

/-- Two accounts hold one and a half units of stake each. -/
def halvedStakes : Stakes :=
  (Stakes.setBalance {} .zero (3 * rewardPrecision / 2)).setBalance System.other
    (3 * rewardPrecision / 2)

/-- Of three rewards one account was paid two, and the next payment will be refused. -/
def halvedBooks : Books :=
  Books.run {} [.notify halvedStakes.supply 3,
    .settle System.other (halvedStakes.balance System.other), .refuseNext]

/-- The other account has earned two as well, of which one is left.  That one is paid once the
payment is accepted, and not again although the claim to the other stays. -/
theorem settle_repeatable_halved :
    let refused :=
      halvedBooks.rewards.settle halvedBooks.treasury .zero (halvedStakes.balance .zero)
    let paid := refused.2.1.settle refused.2.2 .zero (halvedStakes.balance .zero)
    halvedBooks.rewards.earned .zero (halvedStakes.balance .zero) = .ok 2 ∧
      refused.1 = .error Treasury.refusal ∧ paid.1 = .ok 1 ∧
      paid.2.1.settle paid.2.2 .zero (halvedStakes.balance .zero) = (.ok 0, paid.2.1, paid.2.2) ∧
      paid.2.1.earned .zero (halvedStakes.balance .zero) = .ok 1 := by
  have hearned : halvedBooks.rewards.earned .zero (halvedStakes.balance .zero) = .ok 2 := by decide
  have hrefused : (halvedBooks.rewards.settle halvedBooks.treasury .zero
      (halvedStakes.balance .zero)).1 = .error Treasury.refusal := by
    decide
  have hunpaid : halvedBooks.rewards.unpaid = 1 := by decide
  obtain ⟨_, htreasury, _, claimable, hclaim, hretry⟩ :=
    (settle_repeatable halvedBooks.rewards halvedBooks.treasury halvedStakes .zero).2 hrefused
  obtain rfl : claimable = 2 := Except.ok.inj (hclaim.symm.trans hearned)
  obtain ⟨hsame, hpayout, _⟩ := hretry _ (congrArg Treasury.refusing htreasury)
  rw [← hsame, hunpaid] at hpayout
  exact ⟨hearned, hrefused, hpayout,
    (settle_repeatable _ _ halvedStakes .zero).1 1 hpayout _, by decide⟩

end FeeDistribution.Rewards
