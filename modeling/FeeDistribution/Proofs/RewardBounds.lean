import FeeDistribution.Proofs.ProRata
import FeeDistribution.Proofs.RewardFairness

/-!
# Bounds of the reward stream

The gain of an account is a product of its balance and the growth of the ratio since its last
checkpoint.  A ratio that grew over a tiny supply is huge, and a huge balance may follow, so that
the product of the two need not fit any number the program keeps.  It fits because a balance changes
only after a checkpoint: the balance was held during all the growth it is multiplied with, and was a
part of each supply over which an inflow was spread meanwhile.

`stream_never_overflows` concludes from this that no operation of the stream overflows, as long as
all inflow ever offered and one unit for each checkpoint fit an amount together, and no balance
exceeds the precision of the ratio.

## Strategy

The standing of an account without its payments, what it could claim and what its balance accrued
since its last checkpoint, grows by the balance times the growth of the ratio, and by a rounding
error at a checkpoint (`Movement.standing_le`).  The former is no more than the part of the inflow
that the distribution accounts for (`spreadOver`).  So what was notified, and one unit for each
checkpoint, bounds the standing of each account and the ratio itself (`System.Backed`).
-/

namespace FeeDistribution

namespace Rewards

variable {rewards next : Rewards} {payments nextPayments : Payments} {request : Request}
  {distribution? : Option Distribution} {updated? : Option Account} {treasury : Treasury}
  {account : Account} {supply amount total balance claimable limit : Amount} {inflow : Inflow}

/-! ## What a movement adds to a standing -/

theorem standing_eq_add (rewards : Rewards) (received : Amount) :
    rewards.standing received account balance =
      rewardPrecision * received + rewards.standing 0 account balance := by
  unfold standing
  push_cast
  ring

theorem Movement.received_le (account : Account)
    (hmovement : Movement rewards payments request distribution? updated? next nextPayments) :
    payments.received account .liquidationRewards ≤
      nextPayments.received account .liquidationRewards := by
  cases hmovement with
  | paid =>
      rw [received_paid]
      exact Nat.le_add_right _ _
  | _ => exact le_rfl

/-- What an account could claim and has accrued grows by what its balance accrues, and by a rounding
error if the account is brought up to date. -/
theorem Movement.standing_le
    (hmovement : Movement rewards payments request distribution? updated? next nextPayments)
    (hstake : ∀ stake, request.stake? = some (account, stake) → stake = balance)
    (hbalance : balance ≤ rewardPrecision) :
    next.standing 0 account balance ≤
      rewards.standing 0 account balance +
        (balance * distribution?.elim 0 Distribution.growth +
          rewardPrecision * (if updated?.isSome then 1 else 0) : Nat) := by
  have hbound := (abs_le.mp (hmovement.abs_standing_sub_le hstake hbalance)).2
  have hreceived : (rewardPrecision * payments.received account .liquidationRewards : Int) ≤
      rewardPrecision * nextPayments.received account .liquidationRewards := by
    exact_mod_cast Nat.mul_le_mul_left rewardPrecision (hmovement.received_le account)
  have hrounding : (if updated? = some account ∧ balance ≠ 0 then (rewardPrecision : Int) else 0) ≤
      rewardPrecision * (if updated?.isSome then 1 else 0 : Nat) := by
    cases updated? with
    | none => simp
    | some other =>
        simp only [Option.isSome_some, if_true, Nat.cast_one, mul_one]
        split
        · exact le_rfl
        · exact Int.natCast_nonneg _
  rw [next.standing_eq_add, rewards.standing_eq_add] at hbound
  push_cast at hbound hrounding ⊢
  linarith

/-! ## What a request adds to the inflow -/

/-- The amount that a request offers to the stream. -/
def Request.offer : Request → Amount
  | notify _ amount => amount
  | _ => 0

/-- A request that names a stake offers nothing. -/
theorem Request.offer_of_stake {stake : Account × Amount} (hstake : request.stake? = some stake) :
    request.offer = 0 := by
  cases request with
  | notify | distributePending | refuseNext => cases hstake
  | update | settle => rfl

namespace Books

variable {α : Type} {books : Books}

theorem notified_keep_le {outcome : Except Fault (α × Rewards)}
    (houtcome : ∀ answer next, outcome = .ok (answer, next) →
      next.notified ≤ books.rewards.notified + amount) :
    (books.keep outcome).rewards.notified ≤ books.rewards.notified + amount := by
  cases outcome with
  | error fault => exact Nat.le_add_right _ _
  | ok answer => exact houtcome answer.1 answer.2 rfl

/-- A request takes in no more than it offers. -/
theorem notified_step_le (request : Request) :
    (books.step request).rewards.notified ≤ books.rewards.notified + request.offer := by
  cases request with
  | notify supply amount =>
      refine notified_keep_le fun inflow next hnotify => ?_
      exact (notify_ok hnotify).2.notified_eq_add.le
  | distributePending supply =>
      refine notified_keep_le fun inflow next hpending => ?_
      rcases distributePending_ok hpending with ⟨_, _, rfl⟩ | ⟨_, htakes⟩
      · exact le_rfl
      · exact (Nat.add_left_cancel htakes.notified_eq).ge
  | update account balance =>
      refine notified_keep_le fun claimable next hupdate => ?_
      obtain ⟨_, rfl⟩ := update_eq_ok.mp hupdate
      exact le_rfl
  | settle account balance =>
      show (books.rewards.settle books.treasury account balance).2.1.notified ≤ _
      cases hearned : books.rewards.earned account balance with
      | error fault =>
          rw [settle_of_earned_error hearned]
          exact le_rfl
      | ok claimable =>
          rcases settle_of_earned_ok books.treasury hearned with
            ⟨hrewards, _⟩ | ⟨payout, _, _, hrewards, _⟩ <;>
            rw [hrewards] <;> exact le_rfl
  | refuseNext => exact le_rfl

end Books

/-! ## Operations that fit -/

theorem accrued_eq_ok {growth : Nat}
    (hfits : balance * growth + (balance - 1) < rewardPrecision * (limit + 1))
    (hlimit : limit ≤ Quantity.maxAmount) :
    accrued balance growth = .ok ((balance * growth + (balance - 1)) / rewardPrecision) := by
  have hproduct : balance * growth + (balance - 1) ≤ Quantity.maxRatio :=
    calc balance * growth + (balance - 1)
        ≤ rewardPrecision * (limit + 1) := hfits.le
      _ ≤ rewardPrecision * (Quantity.maxAmount + 1) :=
          Nat.mul_le_mul_left _ (Nat.succ_le_succ hlimit)
      _ ≤ Quantity.maxRatio := by decide
  have hquotient : (balance * growth + (balance - 1)) / rewardPrecision ≤ limit :=
    Nat.le_of_lt_succ (Nat.div_lt_of_lt_mul hfits)
  unfold accrued
  dsimp only
  rw [if_neg hproduct.not_gt, Fallible.narrow_eq_ok (hquotient.trans hlimit)]

/-- An account can be brought up to date if its standing fits an amount. -/
theorem exists_earned (hbehind : (rewards.checkpoint account).ratio ≤ rewards.ratio)
    (hbalance : balance ≤ rewardPrecision)
    (hstanding : rewards.standing 0 account balance ≤ rewardPrecision * limit)
    (hlimit : limit ≤ Quantity.maxAmount) :
    ∃ claimable, rewards.earned account balance = .ok claimable := by
  have hprecision : 0 < rewardPrecision := by decide
  have hscaled : rewardPrecision * (rewards.checkpoint account).claimable +
      balance * (rewards.ratio - (rewards.checkpoint account).ratio) ≤ rewardPrecision * limit := by
    zify [hbehind]
    simpa [standing] using hstanding
  unfold earned
  dsimp only
  rw [if_neg hbehind.not_gt]
  split
  · exact ⟨_, rfl⟩
  · rename_i hnonzero
    have hbias : balance - 1 < rewardPrecision :=
      Nat.sub_one_lt_of_le (Nat.pos_of_ne_zero (not_or.mp hnonzero).1) hbalance
    generalize rewards.ratio - (rewards.checkpoint account).ratio = growth at hscaled ⊢
    generalize (rewards.checkpoint account).claimable = claimed at hscaled ⊢
    -- the bias of the rounding is below one unit, which `limit + 1` allows for
    have htogether : rewardPrecision * claimed + (balance * growth + (balance - 1)) <
        rewardPrecision * (limit + 1) := by
      rw [← Nat.add_assoc, Nat.mul_add, Nat.mul_one]
      exact Nat.add_lt_add_of_le_of_lt hscaled hbias
    have hsum : claimed + (balance * growth + (balance - 1)) / rewardPrecision ≤ limit := by
      rw [← Nat.mul_add_div hprecision]
      exact Nat.le_of_lt_succ (Nat.div_lt_of_lt_mul htogether)
    rw [accrued_eq_ok ((Nat.le_add_left _ _).trans_lt htogether) hlimit]
    exact ⟨_, Fallible.add_eq_ok (hsum.trans hlimit)⟩

theorem exists_distribute
    (hfits : rewards.ratio + (amount * rewardPrecision + rewards.dust) ≤
      Quantity.maxAmount * rewardPrecision) :
    ∃ answer, rewards.distribute supply amount = .ok answer := by
  refine exists_distribute_iff.mpr fun _ => ?_
  calc rewards.ratio + (amount * rewardPrecision + rewards.dust) / supply
      ≤ rewards.ratio + (amount * rewardPrecision + rewards.dust) :=
        Nat.add_le_add_left (Nat.div_le_self _ _) _
    _ ≤ Quantity.maxAmount * rewardPrecision := hfits
    _ ≤ Quantity.maxRatio := by decide

theorem exists_distributePending
    (hfits : rewards.ratio + (rewards.pending * rewardPrecision + rewards.dust) ≤
      Quantity.maxAmount * rewardPrecision) :
    ∃ answer, rewards.distributePending supply = .ok answer := by
  unfold distributePending
  split
  · exact ⟨_, rfl⟩
  · exact exists_distribute hfits

theorem exists_notify (hamount : 0 < amount)
    (hpending : rewards.pending + amount ≤ Quantity.maxAmount)
    (hnotified : rewards.notified + amount ≤ Quantity.maxAmount)
    (hfits : rewards.ratio + ((rewards.pending + amount) * rewardPrecision + rewards.dust) ≤
      Quantity.maxAmount * rewardPrecision) :
    ∃ answer, rewards.notify supply amount = .ok answer :=
  exists_notify_iff.mpr ⟨hamount, hpending, hnotified, exists_distribute hfits⟩

/-- A settlement of an account that can be brought up to date fails only if the payment is refused.
-/
theorem settle_cases_of_covered (treasury : Treasury)
    (hearned : rewards.earned account balance = .ok claimable)
    (hcovered : rewards.paid + rewards.pending ≤ rewards.notified)
    (hnotified : rewards.notified ≤ Quantity.maxAmount) :
    (rewards.settle treasury account balance).1 = .ok (min claimable rewards.unpaid) ∨
      treasury.refusing = true ∧
        (rewards.settle treasury account balance).1 = .error Treasury.refusal := by
  have hpaid : rewards.paid + min claimable rewards.unpaid ≤ Quantity.maxAmount :=
    calc rewards.paid + min claimable rewards.unpaid
        ≤ rewards.paid + rewards.unpaid := Nat.add_le_add_left (Nat.min_le_right _ _) _
      _ = rewards.notified - rewards.pending := Nat.add_sub_of_le (Nat.le_sub_of_add_le hcovered)
      _ ≤ rewards.notified := Nat.sub_le _ _
      _ ≤ Quantity.maxAmount := hnotified
  rw [settle_eq treasury hearned]
  split
  · rename_i hnothing
    rw [hnothing]
    exact .inl rfl
  · rw [if_neg (Nat.not_lt.mpr hpaid)]
    split
    · exact .inr ⟨‹_›, rfl⟩
    · exact .inl rfl

theorem beforeChange_of_earned {stakes : Stakes}
    (hearned : rewards.earned account (stakes.balance account) = .ok claimable) :
    rewards.beforeChange stakes account = .ok (rewards.record account claimable) := by
  rw [beforeChange_eq, update_eq_ok.mpr ⟨hearned, rfl⟩]
  rfl

/-- Issuing debt shares fails only if the new balance does not fit. -/
theorem mint_of_earned {stakes : Stakes}
    (hearned : rewards.earned account (stakes.balance account) = .ok claimable) :
    (rewards.mint stakes account amount).1 =
      (Decimal.add (stakes.balance account) amount).map fun _ => () := by
  rw [mint, beforeChange_of_earned hearned]
  cases Decimal.add (stakes.balance account) amount <;> rfl

/-- Burning debt shares fails only if there are not as many. -/
theorem burn_of_earned {stakes : Stakes}
    (hearned : rewards.earned account (stakes.balance account) = .ok claimable) :
    (rewards.burn stakes account amount).1 =
      if stakes.balance account < amount then .error (.invalid .burnExceedsBalance)
      else .ok () := by
  rw [burn, beforeChange_of_earned hearned]
  split <;> rfl

end Rewards

/-! ## Runs -/

namespace Call

/-- The amount that a call offers to the reward stream. -/
def offer : Call → Amount
  | notify amount => amount
  | _ => 0

end Call

namespace System

variable {system : System} {call : Call} {request : Rewards.Request} {account : Account}
  {past : List Rewards.Distribution} {offered updates : Nat}

theorem offer_le_offer (hrequest : system.request? call = some request) :
    request.offer ≤ call.offer := by
  rcases request_cases hrequest with ⟨amount, rfl, rfl⟩ | ⟨rfl, rfl⟩ | ⟨account, hstake⟩
  · exact le_rfl
  · exact le_rfl
  · rw [Rewards.Request.offer_of_stake hstake]
    exact Nat.zero_le _

/-- A call distributes over the supply of the moment. -/
theorem supply_of_distribution {distribution : Rewards.Distribution}
    (hdistribution : system.distribution? call = some distribution) :
    distribution.supply = system.env.stakes.supply := by
  obtain ⟨request, hrequest, hbooks⟩ := Option.bind_eq_some_iff.mp hdistribution
  exact Rewards.Books.supply_of_distribution (madeAt_of_request hrequest) hbooks

/-- How often a list of calls brings an account up to date, whichever it is. -/
def checkpoints (system : System) : List Call → Nat
  | [] => 0
  | call :: calls =>
    (if (system.updated? call).isSome then 1 else 0) + (system.step call).2.checkpoints calls

/-- The stream owes no account more than it distributed, but for the rounding of the checkpoints,
and it took in no more than it was offered. -/
structure Backed (system : System) (past : List Rewards.Distribution) (offered updates : Nat) :
    Prop where
  covered : system.pool.rewards.paid + system.pool.rewards.pending ≤ system.pool.rewards.notified
  behind : ∀ account, (system.pool.rewards.checkpoint account).ratio ≤ system.pool.rewards.ratio
  divided : system.pool.rewards.Exact past
  standing_le : ∀ account,
    system.pool.rewards.standing 0 account (system.env.stakes.balance account) ≤
      (Rewards.spreadOver past + rewardPrecision * updates : Nat)
  notified_le : system.pool.rewards.notified ≤ offered

namespace Backed

theorem of_fresh (hfresh : system.pool.rewards = {}) : system.Backed [] 0 0 := by
  constructor <;> rw [hfresh]
  · exact le_rfl
  · exact fun account => le_rfl
  · exact Rewards.exact_empty
  · intro account
    rw [Rewards.standing_of_ratio_eq rfl]
    exact le_rfl

/-- The part of a distribution that an account accrues is no more than the distribution accounts
for, since its balance is a part of the supply. -/
theorem accrual_le (system : System) (account : Account) (call : Call) :
    system.accrual account call ≤ Rewards.spreadOver (system.distribution? call).toList := by
  unfold accrual
  cases hdistribution : system.distribution? call with
  | none => exact le_rfl
  | some distribution =>
      have hbalance : system.env.stakes.balance account ≤ distribution.supply := by
        rw [supply_of_distribution hdistribution]
        exact system.env.stakes.balance_le_supply account
      simpa [Rewards.spreadOver] using Nat.mul_le_mul_right distribution.growth hbalance

theorem step (hbacked : system.Backed past offered updates) (hcall : call.Hooked)
    (hbalance : ∀ account, system.env.stakes.balance account ≤ rewardPrecision) :
    (system.step call).2.Backed (past ++ (system.distribution? call).toList)
      (offered + call.offer) (updates + if (system.updated? call).isSome then 1 else 0) := by
  have hbalances := system.balance_step hcall
  cases hrequest : system.request? call with
  | none =>
      have hupdated := updated?_of_none hrequest
      rw [hupdated] at hbalances ⊢
      rw [distribution?_of_none hrequest, Option.toList_none, List.append_nil]
      have hrewards := step_rewards_of_none hrequest
      constructor <;> rw [hrewards]
      · exact hbacked.covered
      · exact hbacked.behind
      · exact hbacked.divided
      · intro account
        rw [(hbalances account).resolve_right (Option.some_ne_none account).symm]
        exact hbacked.standing_le account
      · exact hbacked.notified_le.trans (Nat.le_add_right _ _)
  | some request =>
      have hmovement := step_movement hrequest
      refine ⟨hmovement.covered hbacked.covered, hmovement.behind hbacked.behind,
        hmovement.exact hbacked.divided, ?_, ?_⟩
      · intro account
        have hstep := hmovement.standing_le (stake_of_request hrequest account) (hbalance account)
        have haccrual := accrual_le system account call
        have hbefore := hbacked.standing_le account
        have hbound : (system.step call).2.pool.rewards.standing 0 account
              (system.env.stakes.balance account) ≤
            (Rewards.spreadOver (past ++ (system.distribution? call).toList) +
              rewardPrecision * (updates + if (system.updated? call).isSome then 1 else 0) :
                Nat) := by
          rw [Rewards.spreadOver_append, Nat.mul_add]
          unfold accrual at haccrual
          omega
        rcases hbalances account with hsame | hnow
        · rwa [hsame]
        · -- the balance may have changed, but nothing has accrued since the checkpoint
          rw [hnow] at hmovement
          rwa [Rewards.standing_of_ratio_eq hmovement.ratio_eq] at hbound ⊢
      · rw [(step_rewards hrequest).1]
        exact (Rewards.Books.notified_step_le request).trans
          (Nat.add_le_add hbacked.notified_le (offer_le_offer hrequest))

theorem run (hbacked : system.Backed past offered updates) {calls : List Call}
    (hcalls : ∀ call ∈ calls, call.Hooked)
    (hbalance : ∀ before, before <+: calls → ∀ account,
      (system.run before).2.env.stakes.balance account ≤ rewardPrecision) :
    ∃ last, (system.run calls).2.Backed last (offered + (calls.map Call.offer).sum)
      (updates + system.checkpoints calls) := by
  induction calls generalizing system past offered updates with
  | nil => exact ⟨past, hbacked⟩
  | cons call calls ih =>
      obtain ⟨hcall, hcalls⟩ := List.forall_mem_cons.mp hcalls
      have hstep := hbacked.step hcall (hbalance [] List.nil_prefix)
      have hrest := ih hstep hcalls fun before hbefore =>
        hbalance (call :: before) (List.cons_prefix_cons.mpr ⟨rfl, hbefore⟩)
      rwa [Nat.add_assoc, Nat.add_assoc] at hrest

/-- All that the ratio and what waits to be distributed come to was notified. -/
theorem ratio_le (hbacked : system.Backed past offered updates) :
    system.pool.rewards.ratio +
        (system.pool.rewards.pending * rewardPrecision + system.pool.rewards.dust) ≤
      system.pool.rewards.notified * rewardPrecision := by
  have htotal := hbacked.divided.total
  have hratio := hbacked.divided.ratio_le
  omega

theorem pending_le (hbacked : system.Backed past offered updates) :
    system.pool.rewards.pending ≤ offered :=
  (le_of_add_le_right hbacked.covered).trans hbacked.notified_le

theorem exists_earned (hbacked : system.Backed past offered updates)
    (hfits : offered + updates ≤ Quantity.maxAmount)
    (hbalance : system.env.stakes.balance account ≤ rewardPrecision) :
    ∃ claimable, system.earned account = .ok claimable := by
  refine Rewards.exists_earned (hbacked.behind account) hbalance ?_ hfits
  have hspread : Rewards.spreadOver past ≤ rewardPrecision * offered := by
    have htotal := hbacked.divided.total
    have hnotified := Nat.mul_le_mul_right rewardPrecision hbacked.notified_le
    rw [Nat.mul_comm rewardPrecision]
    omega
  calc system.pool.rewards.standing 0 account (system.env.stakes.balance account)
      ≤ (Rewards.spreadOver past + rewardPrecision * updates : Nat) := hbacked.standing_le account
    _ ≤ (rewardPrecision * (offered + updates) : Nat) := by
        rw [Nat.mul_add]
        exact Int.ofNat_le.mpr (Nat.add_le_add_right hspread _)
    _ = rewardPrecision * (offered + updates : Nat) := Nat.cast_mul _ _

theorem exists_distributePending (hbacked : system.Backed past offered updates)
    (hoffered : offered ≤ Quantity.maxAmount) :
    ∃ answer, system.pool.rewards.distributePending system.env.stakes.supply = .ok answer := by
  have hnotified := Nat.mul_le_mul_right rewardPrecision (hbacked.notified_le.trans hoffered)
  exact Rewards.exists_distributePending (hbacked.ratio_le.trans hnotified)

theorem exists_notify (hbacked : system.Backed past offered updates) {amount : Amount}
    (hamount : 0 < amount) (hoffered : offered + amount ≤ Quantity.maxAmount) :
    ∃ answer, system.pool.rewards.notify system.env.stakes.supply amount = .ok answer := by
  have hnotified : system.pool.rewards.notified + amount ≤ Quantity.maxAmount :=
    (Nat.add_le_add_right hbacked.notified_le amount).trans hoffered
  refine Rewards.exists_notify hamount
    ((Nat.add_le_add_right hbacked.pending_le amount).trans hoffered) hnotified ?_
  have hratio := hbacked.ratio_le
  have hscaled := Nat.mul_le_mul_right rewardPrecision hnotified
  rw [Nat.add_mul] at hscaled ⊢
  omega

theorem settle_result (hbacked : system.Backed past offered updates)
    (hfits : offered + updates ≤ Quantity.maxAmount)
    (hbalance : system.env.stakes.balance account ≤ rewardPrecision) :
    (∃ paid, (system.step (.settle account)).1 = .ok (.paid paid)) ∨
      system.env.treasury.refusing = true ∧
        (system.step (.settle account)).1 = .error Treasury.refusal := by
  obtain ⟨claimable, hearned⟩ := hbacked.exists_earned hfits hbalance
  have hnotified := hbacked.notified_le.trans ((Nat.le_add_right _ _).trans hfits)
  have hresult : (system.step (.settle account)).1 =
      (system.pool.rewards.settle system.env.treasury account
        (system.env.stakes.balance account)).1.map Reply.paid := rfl
  rcases Rewards.settle_cases_of_covered system.env.treasury hearned hbacked.covered hnotified with
    hpaid | ⟨hrefusing, hfault⟩
  · left
    rw [hresult, hpaid]
    exact ⟨_, rfl⟩
  · right
    rw [hresult, hfault]
    exact ⟨hrefusing, rfl⟩

end Backed

/-- No operation of the reward stream overflows: every account can be brought up to date and
settled, unless the payment is refused, and so no change of stake fails but for the balance itself;
what is held back can be distributed, and any inflow is taken in that still fits an amount together
with all that was offered before. -/
structure Flowing (system : System) (offered : Nat) : Prop where
  earned : ∀ account, ∃ claimable, system.earned account = .ok claimable
  update : ∀ account, ∃ answer,
    system.pool.rewards.update account (system.env.stakes.balance account) = .ok answer
  checkpoint : ∀ account, (system.step (.checkpoint account)).1 = .ok .done
  settle : ∀ account, (∃ paid, (system.step (.settle account)).1 = .ok (.paid paid)) ∨
    system.env.treasury.refusing = true ∧
      (system.step (.settle account)).1 = .error Treasury.refusal
  mint : ∀ account amount, (system.step (.mint account amount)).1 =
    (Decimal.add (system.env.stakes.balance account) amount).map fun _ => .done
  burn : ∀ account amount, (system.step (.burn account amount)).1 =
    if system.env.stakes.balance account < amount then .error (.invalid .burnExceedsBalance)
    else .ok .done
  distributePending : ∃ inflow, (system.step .distributePending).1 = .ok (.inflow inflow)
  notify : ∀ amount, offered + amount ≤ Quantity.maxAmount →
    amount = 0 ∧ (system.step (.notify amount)).1 = .error (.invalid .zeroReward) ∨
      ∃ inflow, (system.step (.notify amount)).1 = .ok (.inflow inflow)

theorem Backed.flowing (hbacked : system.Backed past offered updates)
    (hfits : offered + updates ≤ Quantity.maxAmount)
    (hbalance : ∀ account, system.env.stakes.balance account ≤ rewardPrecision) :
    system.Flowing offered where
  earned account := hbacked.exists_earned hfits (hbalance account)
  update account := by
    obtain ⟨claimable, hearned⟩ := hbacked.exists_earned hfits (hbalance account)
    exact ⟨_, Rewards.update_eq_ok.mpr ⟨hearned, rfl⟩⟩
  checkpoint account := by
    obtain ⟨claimable, hearned⟩ := hbacked.exists_earned hfits (hbalance account)
    have hchange := Rewards.beforeChange_of_earned hearned
    simp only [System.step, reply, System.checkpoint, onPool, hchange]
    rfl
  settle account := hbacked.settle_result hfits (hbalance account)
  mint account amount := by
    obtain ⟨claimable, hearned⟩ := hbacked.exists_earned hfits (hbalance account)
    have hmint : (system.step (.mint account amount)).1 =
      (system.pool.rewards.mint system.env.stakes account amount).1.map Reply.ofUnit := rfl
    rw [hmint, Rewards.mint_of_earned hearned]
    cases Decimal.add (system.env.stakes.balance account) amount <;> rfl
  burn account amount := by
    obtain ⟨claimable, hearned⟩ := hbacked.exists_earned hfits (hbalance account)
    have hburn : (system.step (.burn account amount)).1 =
      (system.pool.rewards.burn system.env.stakes account amount).1.map Reply.ofUnit := rfl
    rw [hburn, Rewards.burn_of_earned hearned]
    split <;> rfl
  distributePending := by
    have hoffered := (Nat.le_add_right _ _).trans hfits
    obtain ⟨answer, hpending⟩ := hbacked.exists_distributePending hoffered
    simp only [System.step, reply, System.distributePending, onPool, hpending]
    exact ⟨answer.1, rfl⟩
  notify amount hoffered := by
    rcases Nat.eq_zero_or_pos amount with rfl | hamount
    · exact .inl ⟨rfl, rfl⟩
    · obtain ⟨answer, hnotify⟩ := hbacked.exists_notify hamount hoffered
      right
      simp only [System.step, reply, System.notify, onPool, hnotify]
      exact ⟨answer.1, rfl⟩

/-- The reward stream never overflows.  In a run from an empty stream, let balances change through
the stream only and never exceed the precision of the ratio, and let all inflow that was offered,
whether it was taken in or not, and one unit for each checkpoint of any account fit an amount
together.  Then the call that comes next does not overflow in the stream, whichever it is, and so
none of the run did.  Of the supply of stake nothing is used but that it is the exact sum of the
balances. -/
theorem stream_never_overflows {calls : List Call} (hfresh : system.pool.rewards = {})
    (hcalls : ∀ call ∈ calls, call.Hooked)
    (hbalance : ∀ before, before <+: calls → ∀ account,
      (system.run before).2.env.stakes.balance account ≤ rewardPrecision)
    (hfits : (calls.map Call.offer).sum + system.checkpoints calls ≤ Quantity.maxAmount) :
    (system.run calls).2.Flowing (calls.map Call.offer).sum := by
  obtain ⟨last, hbacked⟩ := (Backed.of_fresh hfresh).run hcalls hbalance
  rw [Nat.zero_add, Nat.zero_add] at hbacked
  exact hbacked.flowing hfits (hbalance calls (List.prefix_refl _))

/-- Nearly all that an amount can hold is distributed over a single debt share, and then the null
account is issued so many that they would overflow with all of the growth. -/
def hugeAfterTiny : List Call :=
  [.mint other 1, .notify (Quantity.maxAmount - 8), .mint .zero (rewardPrecision - 1), .notify 1,
    .settle other]

/-- The null account was brought up to date before, so that its shares count for the later growth
only. -/
theorem stream_never_overflows_hugeAfterTiny :
    twoSlots.pool.rewards = {} ∧ (∀ call ∈ hugeAfterTiny, call.Hooked) ∧
      (∀ before, before <+: hugeAfterTiny → ∀ account,
        (twoSlots.run before).2.env.stakes.balance account ≤ rewardPrecision) ∧
      (hugeAfterTiny.map Call.offer).sum + twoSlots.checkpoints hugeAfterTiny ≤
        Quantity.maxAmount ∧
      Quantity.maxRatio < (twoSlots.run hugeAfterTiny).2.env.stakes.balance .zero *
        (twoSlots.run hugeAfterTiny).2.pool.rewards.ratio ∧
      (twoSlots.run hugeAfterTiny).2.earned .zero = .ok 1 ∧
      (twoSlots.run hugeAfterTiny).2.Flowing (Quantity.maxAmount - 7) := by
  have hcalls : ∀ call ∈ hugeAfterTiny, call.Hooked := by
    simp [hugeAfterTiny, Call.Hooked]
  have hsupplies : ∀ before ∈ hugeAfterTiny.inits,
      (twoSlots.run before).2.env.stakes.supply ≤ rewardPrecision := by
    decide
  have hbalance : ∀ before, before <+: hugeAfterTiny → ∀ account,
      (twoSlots.run before).2.env.stakes.balance account ≤ rewardPrecision := by
    intro before hbefore account
    exact (Stakes.balance_le_supply _ account).trans
      (hsupplies before ((List.mem_inits _ _).mpr hbefore))
  have hfits : (hugeAfterTiny.map Call.offer).sum + twoSlots.checkpoints hugeAfterTiny ≤
      Quantity.maxAmount := by
    decide
  exact ⟨rfl, hcalls, hbalance, hfits, by decide, by decide,
    stream_never_overflows rfl hcalls hbalance hfits⟩

end System

end FeeDistribution
