import FeeDistribution.Proofs.Fallible
import FeeDistribution.Rewards.Basic
import Mathlib.Tactic.Ring
import Mathlib.Algebra.Order.Group.Unbundled.Int
import Mathlib.Algebra.Order.Ring.Int

/-!
# What the operations of the reward stream do

For each operation of the reward stream, what it found and what it left if it succeeded.  Later
files use these statements and do not look into the operations again.

An inflow is held back or spread over the supply, together with all that was held back before
(`TakesIn`).  A checkpoint adds to the claim of an account what its balance accrued, rounded so that
it errs by less than one unit in either direction (`abs_gain_sub_lt`).  A settlement is a checkpoint
and, at times, a payment of a part of the claim.
-/

namespace FeeDistribution.Rewards

variable {rewards next : Rewards} {treasury : Treasury} {account other : Account}
  {supply amount balance claimable : Amount} {inflow : Inflow}

/-! ## Inflow -/

/-- One distribution: over which supply, by how much the ratio grows, and what remains. -/
structure Distribution where
  /-- The supply of stake. -/
  supply : Amount
  /-- What is added to the ratio. -/
  growth : Nat
  /-- The remainder of the division. -/
  dust : Amount

/-- The distribution of an amount over a supply, together with the last remainder. -/
def division (rewards : Rewards) (supply amount : Amount) : Distribution where
  supply := supply
  growth := (amount * rewardPrecision + rewards.dust) / supply
  dust := (amount * rewardPrecision + rewards.dust) % supply

/-- A division loses nothing. -/
theorem division_exact :
    supply * (rewards.division supply amount).growth + (rewards.division supply amount).dust =
      amount * rewardPrecision + rewards.dust :=
  Nat.div_add_mod _ _

theorem dust_division_lt (hsupply : 0 < supply) :
    (rewards.division supply amount).dust < supply :=
  Nat.mod_lt _ hsupply

/-- The stream after a distribution. -/
def spread (rewards : Rewards) (distribution : Distribution) : Rewards :=
  { rewards with
    ratio := rewards.ratio + distribution.growth
    dust := distribution.dust
    pending := 0 }

@[simp] theorem ratio_spread {distribution : Distribution} :
    (rewards.spread distribution).ratio = rewards.ratio + distribution.growth :=
  rfl

@[simp] theorem pending_spread {distribution : Distribution} :
    (rewards.spread distribution).pending = 0 :=
  rfl

@[simp] theorem paid_spread {distribution : Distribution} :
    (rewards.spread distribution).paid = rewards.paid :=
  rfl

@[simp] theorem checkpoints_spread {distribution : Distribution} :
    (rewards.spread distribution).checkpoints = rewards.checkpoints :=
  rfl

theorem spread_notified {distribution : Distribution} :
    { rewards.spread distribution with notified := rewards.notified } =
      rewards.spread distribution :=
  rfl

/-- What becomes of the stream when all that waits to be distributed comes to `total`: it is held
back while the supply is zero, and spread over it otherwise.  It exceeds what was held back before
by what has come in. -/
inductive TakesIn (rewards : Rewards) (supply total : Amount) : Inflow → Rewards → Prop
  | withheld {notified : Amount} (hsupply : supply = 0)
      (hinflow : total + rewards.notified = rewards.pending + notified) :
      TakesIn rewards supply total (.pending total) { rewards with pending := total, notified }
  | distributed {notified : Amount} (hsupply : 0 < supply)
      (hinflow : total + rewards.notified = rewards.pending + notified) :
      TakesIn rewards supply total (.distributed total)
        { rewards.spread (rewards.division supply total) with notified }

theorem TakesIn.notified_eq {total : Amount} (htakes : rewards.TakesIn supply total inflow next) :
    total + rewards.notified = rewards.pending + next.notified := by
  cases htakes <;> assumption

/-- All inflow ever rises by what has come in. -/
theorem TakesIn.notified_eq_add
    (htakes : rewards.TakesIn supply (rewards.pending + amount) inflow next) :
    next.notified = rewards.notified + amount := by
  have hinflow := htakes.notified_eq
  rw [Nat.add_assoc, Nat.add_comm amount] at hinflow
  exact (Nat.add_left_cancel hinflow).symm

theorem distribute_ok (hdistribute : rewards.distribute supply amount = .ok (inflow, next)) :
    supply = 0 ∧ inflow = .pending amount ∧ next = { rewards with pending := amount } ∨
      0 < supply ∧ inflow = .distributed amount ∧
        next = rewards.spread (rewards.division supply amount) := by
  unfold distribute at hdistribute
  split at hdistribute
  · cases hdistribute
    exact .inl ⟨‹_›, rfl, rfl⟩
  · dsimp only at hdistribute
    split at hdistribute
    · cases hdistribute
    · cases hdistribute
      exact .inr ⟨Nat.pos_of_ne_zero ‹_›, rfl, rfl⟩

theorem notify_ok (hnotify : rewards.notify supply amount = .ok (inflow, next)) :
    0 < amount ∧ rewards.TakesIn supply (rewards.pending + amount) inflow next := by
  simp only [notify, Fallible.guard_eq_ok, Fallible.bind_eq_ok, Fallible.pure_eq_ok] at hnotify
  obtain ⟨hamount, total, htotal, notified, hnotified, ⟨_, _⟩, hdistribute, hnext⟩ := hnotify
  obtain ⟨rfl, _⟩ := Fallible.eq_of_add_eq_ok htotal
  obtain ⟨rfl, _⟩ := Fallible.eq_of_add_eq_ok hnotified
  have hinflow : rewards.pending + amount + rewards.notified =
      rewards.pending + (rewards.notified + amount) := by ring
  cases hnext
  refine ⟨Nat.pos_of_ne_zero hamount, ?_⟩
  rcases distribute_ok hdistribute with ⟨hsupply, rfl, rfl⟩ | ⟨hsupply, rfl, rfl⟩
  · exact .withheld hsupply hinflow
  · exact .distributed hsupply hinflow

theorem distributePending_ok (hpending : rewards.distributePending supply = .ok (inflow, next)) :
    rewards.pending = 0 ∧ inflow = .distributed 0 ∧ next = rewards ∨
      0 < rewards.pending ∧ rewards.TakesIn supply rewards.pending inflow next := by
  unfold distributePending at hpending
  split at hpending
  · cases hpending
    exact .inl ⟨‹_›, rfl, rfl⟩
  · refine .inr ⟨Nat.pos_of_ne_zero ‹_›, ?_⟩
    rcases distribute_ok hpending with ⟨hsupply, rfl, rfl⟩ | ⟨hsupply, rfl, rfl⟩
    · exact .withheld hsupply rfl
    · rw [← spread_notified]
      exact .distributed hsupply rfl

/-- A distribution fails only if the ratio does not fit. -/
theorem exists_distribute_iff :
    (∃ answer, rewards.distribute supply amount = .ok answer) ↔
      (0 < supply →
        rewards.ratio + (rewards.division supply amount).growth ≤ Quantity.maxRatio) := by
  unfold distribute
  split
  · rename_i hzero
    exact iff_of_true ⟨_, rfl⟩ fun hsupply => absurd hzero hsupply.ne'
  · rename_i hsupply
    dsimp only
    split
    · rename_i hratio
      refine iff_of_false (by rintro ⟨_, hfault⟩; cases hfault) fun hfits => ?_
      exact hratio.not_ge (hfits (Nat.pos_of_ne_zero hsupply))
    · rename_i hratio
      exact iff_of_true ⟨_, rfl⟩ fun _ => Nat.le_of_not_lt hratio

theorem exists_notify_iff :
    (∃ answer, rewards.notify supply amount = .ok answer) ↔
      0 < amount ∧ rewards.pending + amount ≤ Quantity.maxAmount ∧
        rewards.notified + amount ≤ Quantity.maxAmount ∧
        ∃ answer, rewards.distribute supply (rewards.pending + amount) = .ok answer := by
  simp only [notify, Fallible.guard_eq_ok, Fallible.bind_eq_ok, Fallible.pure_eq_ok]
  constructor
  · rintro ⟨_, hamount, _, htotal, _, hnotified, answer, hdistribute, _⟩
    obtain ⟨rfl, hpendingFits⟩ := Fallible.eq_of_add_eq_ok htotal
    obtain ⟨_, hnotifiedFits⟩ := Fallible.eq_of_add_eq_ok hnotified
    exact ⟨Nat.pos_of_ne_zero hamount, hpendingFits, hnotifiedFits, answer, hdistribute⟩
  · rintro ⟨hamount, hpending, hnotified, answer, hdistribute⟩
    exact ⟨_, hamount.ne', _, Fallible.add_eq_ok hpending, _, Fallible.add_eq_ok hnotified, answer,
      hdistribute, rfl⟩

/-! ## Checkpoints -/

/-- What a balance gains while the ratio grows: nothing if one of them is zero, and otherwise the
exact gain rounded up by less than one unit of stake, and then down. -/
def gain (balance : Amount) (growth : Nat) : Amount :=
  if balance = 0 ∨ growth = 0 then 0 else (balance * growth + (balance - 1)) / rewardPrecision

theorem gain_zero {growth : Nat} : gain 0 growth = 0 :=
  if_pos (.inl rfl)

/-- The gain of a balance up to the precision of the ratio errs by less than one unit. -/
theorem abs_gain_sub_lt {balance growth : Nat} (hbalance : balance ≤ rewardPrecision) :
    |(rewardPrecision * gain balance growth : Int) - balance * growth| < rewardPrecision := by
  have hprecision : 0 < rewardPrecision := by decide
  unfold gain
  split
  · rename_i hzero
    rcases hzero with rfl | rfl <;> simpa using hprecision
  · rename_i hnonzero
    push Not at hnonzero
    have hdivision := Nat.div_add_mod (balance * growth + (balance - 1)) rewardPrecision
    have hremainder := Nat.mod_lt (balance * growth + (balance - 1)) hprecision
    generalize (balance * growth + (balance - 1)) / rewardPrecision = quotient at hdivision ⊢
    -- the remainder of the division and the bias are both below the precision
    rw [abs_lt]
    constructor <;> omega

/-- The gain falls short of the growth by so little that one unit more makes up for it, and for one
more step of the ratio as well. -/
theorem mul_succ_le_gain {balance growth : Nat} (hbalance : balance ≤ rewardPrecision) :
    balance * (growth + 1) ≤ rewardPrecision * (gain balance growth + 1) := by
  rw [Nat.mul_succ, Nat.mul_succ]
  unfold gain
  split
  · rename_i hzero
    have hproduct : balance * growth = 0 := Nat.mul_eq_zero.mpr hzero
    rw [hproduct, Nat.zero_add, Nat.mul_zero, Nat.zero_add]
    exact hbalance
  · rename_i hnonzero
    have hprecision : 0 < rewardPrecision := by decide
    have hpositive : 0 < balance := Nat.pos_of_ne_zero (not_or.mp hnonzero).1
    have hquotient := Nat.lt_mul_div_succ (balance * growth + (balance - 1)) hprecision
    rw [Nat.mul_succ] at hquotient
    generalize rewardPrecision * ((balance * growth + (balance - 1)) / rewardPrecision) = whole
      at hquotient ⊢
    omega

theorem earned_ok (hearned : rewards.earned account balance = .ok claimable) :
    (rewards.checkpoint account).ratio ≤ rewards.ratio ∧
      claimable = (rewards.checkpoint account).claimable +
        gain balance (rewards.ratio - (rewards.checkpoint account).ratio) := by
  unfold earned at hearned
  dsimp only at hearned
  split at hearned
  · cases hearned
  · refine ⟨by omega, ?_⟩
    unfold gain
    split at hearned
    · rename_i hnothing
      cases hearned
      rw [if_pos (hnothing.imp_right fun hratio => Nat.sub_eq_zero_of_le hratio.le)]
      rfl
    · rename_i hratio hsomething
      have hgrowth : rewards.ratio - (rewards.checkpoint account).ratio = 0 →
          rewards.ratio = (rewards.checkpoint account).ratio := by omega
      rw [if_neg fun hnothing => hsomething (hnothing.imp_right hgrowth)]
      simp only [Fallible.bind_eq_ok] at hearned
      obtain ⟨gain, hgain, hclaimable⟩ := hearned
      unfold accrued at hgain
      dsimp only at hgain
      split at hgain
      · cases hgain
      · rw [(Fallible.eq_of_add_eq_ok hclaimable).1, Fallible.eq_of_narrow_eq_ok hgain]

theorem update_eq_ok {updated : Rewards} :
    rewards.update account balance = .ok (claimable, updated) ↔
      rewards.earned account balance = .ok claimable ∧
        updated = rewards.record account claimable := by
  simp only [update, Fallible.bind_eq_ok, Fallible.pure_eq_ok, Prod.mk.injEq]
  constructor
  · rintro ⟨_, hearned, rfl, rfl⟩
    exact ⟨hearned, rfl⟩
  · rintro ⟨hearned, rfl⟩
    exact ⟨_, hearned, rfl, rfl⟩

theorem checkpoint_record (rewards : Rewards) (account other : Account) (claimable : Amount) :
    (rewards.record account claimable).checkpoint other =
      if account = other then { ratio := rewards.ratio, claimable }
      else rewards.checkpoint other := by
  simp only [record, checkpoint, Std.ExtTreeMap.getElem?_insert, Std.LawfulEqOrd.compare_eq_iff_eq]
  split <;> rfl

/-- Of two records of an account the later one stays. -/
theorem record_record {first second : Amount} :
    (rewards.record account first).record account second = rewards.record account second := by
  unfold record
  congr 1
  apply Std.ExtTreeMap.ext_getElem?
  intro other
  simp only [Std.ExtTreeMap.getElem?_insert]
  split <;> rfl

theorem earned_record_self :
    (rewards.record account claimable).earned account balance = .ok claimable := by
  have hratio : (rewards.record account claimable).ratio = rewards.ratio := rfl
  unfold earned
  rw [checkpoint_record, if_pos rfl, hratio]
  simp

/-! ## Settlements -/

/-- An account that can not be brought up to date is not paid. -/
theorem settle_of_earned_error {fault : Fault}
    (hearned : rewards.earned account balance = .error fault) :
    rewards.settle treasury account balance = (.error fault, rewards, treasury) := by
  have hupdate : rewards.update account balance = .error fault := by
    rw [update, hearned]
    rfl
  rw [settle, hupdate]

/-- The stream after an account was paid a part of its claim. -/
def payOut (rewards : Rewards) (account : Account) (claimable payout : Amount) : Rewards :=
  { rewards.record account (claimable - payout) with paid := rewards.paid + payout }

/-- How a settlement ends if the account can be brought up to date.  The claim is paid as far as it
is covered, unless that is nothing, or the sum of all payments does not fit, or it is refused. -/
theorem settle_eq (treasury : Treasury)
    (hearned : rewards.earned account balance = .ok claimable) :
    rewards.settle treasury account balance =
      if min claimable rewards.unpaid = 0 then (.ok 0, rewards.record account claimable, treasury)
      else if Quantity.maxAmount < rewards.paid + min claimable rewards.unpaid then
        (.error .overflow, rewards.record account claimable, treasury)
      else if treasury.refusing then
        (.error Treasury.refusal, rewards.record account claimable,
          { treasury with refusing := false })
      else
        (.ok (min claimable rewards.unpaid),
          rewards.payOut account claimable (min claimable rewards.unpaid),
          { treasury with
            payments := treasury.payments ++ [(account,
              { asset := .liquidationRewards, amount := min claimable rewards.unpaid })] }) := by
  have hunpaid : (rewards.record account claimable).unpaid = rewards.unpaid := rfl
  have hpaid : (rewards.record account claimable).paid = rewards.paid := rfl
  rw [settle, update_eq_ok.mpr ⟨hearned, rfl⟩]
  dsimp only
  rw [hunpaid, hpaid]
  generalize min claimable rewards.unpaid = payout
  by_cases hnothing : payout = 0
  · rw [if_pos hnothing, if_pos hnothing]
  · rw [if_neg hnothing, if_neg hnothing]
    by_cases hfits : rewards.paid + payout ≤ Quantity.maxAmount
    · rw [Fallible.add_eq_ok hfits, if_neg (Nat.not_lt.mpr hfits)]
      unfold Treasury.pay
      cases treasury.refusing with
      | true => rfl
      | false =>
          simp only [Bool.false_eq_true, if_false, record_record]
          rfl
    · rw [Decimal.add, Decimal.narrow, if_neg hfits, if_pos (Nat.lt_of_not_le hfits)]

/-- An account that was brought up to date is paid a part of its claim, no more than was distributed
and not yet paid; or it is paid nothing and keeps its claim. -/
theorem settle_of_earned_ok (treasury : Treasury)
    (hearned : rewards.earned account balance = .ok claimable) :
    (rewards.settle treasury account balance).2.1 = rewards.record account claimable ∧
        (rewards.settle treasury account balance).2.2.payments = treasury.payments ∨
      ∃ payout, payout ≤ claimable ∧ payout ≤ rewards.unpaid ∧
        (rewards.settle treasury account balance).2.1 =
          { rewards.record account (claimable - payout) with paid := rewards.paid + payout } ∧
        (rewards.settle treasury account balance).2.2.payments =
          treasury.payments ++ [(account, { asset := .liquidationRewards, amount := payout })] := by
  rw [settle_eq treasury hearned]
  split
  · exact .inl ⟨rfl, rfl⟩
  · split
    · exact .inl ⟨rfl, rfl⟩
    · split
      · exact .inl ⟨rfl, rfl⟩
      · exact .inr ⟨_, Nat.min_le_left _ _, Nat.min_le_right _ _, rfl, rfl⟩

/-- A settlement that succeeds pays the claim as far as it is covered, and leaves the rest of it. -/
theorem settle_ok {payout : Amount} {nextTreasury : Treasury}
    (hsettle : rewards.settle treasury account balance = (.ok payout, next, nextTreasury)) :
    ∃ claimable, rewards.earned account balance = .ok claimable ∧
      payout = min claimable rewards.unpaid ∧
      next = { rewards.record account (claimable - payout) with paid := rewards.paid + payout } := by
  cases hearned : rewards.earned account balance with
  | error fault =>
      rw [settle_of_earned_error hearned] at hsettle
      cases hsettle
  | ok claimable =>
      refine ⟨claimable, rfl, ?_⟩
      rw [settle_eq treasury hearned] at hsettle
      generalize min claimable rewards.unpaid = covered at hsettle ⊢
      split at hsettle
      · rename_i hnothing
        cases hsettle
        exact ⟨hnothing.symm, rfl⟩
      · split at hsettle
        · cases hsettle
        · split at hsettle <;> cases hsettle
          exact ⟨rfl, rfl⟩

end FeeDistribution.Rewards
