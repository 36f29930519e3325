import FeeDistribution.Proofs.RewardStream
import FeeDistribution.Proofs.Surroundings

/-!
# What a call does to the reward stream

Of the calls of a pool some make a request to its reward stream, at the balance or the supply of the
moment (`System.request?`).  Such a call does to the stream and to the payments on record what the
request does (`step_rewards`), and any other call leaves the stream alone and pays nothing from it.
A balance changes only right after its account was brought up to date (`balance_step`), unless it is
set from outside.
-/

namespace FeeDistribution

namespace Rewards

variable {rewards : Rewards} {stakes : Stakes} {account other : Account} {amount : Amount}

/-! ## Changes of stake -/

theorem beforeChange_eq (rewards : Rewards) (stakes : Stakes) (account : Account) :
    rewards.beforeChange stakes account =
      (rewards.update account (stakes.balance account)).map Prod.snd := by
  unfold beforeChange
  cases rewards.update account (stakes.balance account) <;> rfl

theorem balance_setBalance :
    (stakes.setBalance account amount).balance other =
      if account = other then amount else stakes.balance other :=
  stakes.balances.get_set account other amount

theorem rewards_mint (treasury : Treasury) :
    (rewards.mint stakes account amount).2.1 =
      (Books.keep { rewards, treasury }
        (rewards.update account (stakes.balance account))).rewards := by
  unfold mint
  rw [beforeChange_eq]
  cases rewards.update account (stakes.balance account) with
  | error fault => rfl
  | ok answer =>
      -- the checkpoint stays even where the new balance overflows
      dsimp only [Except.map]
      split <;> rfl

theorem rewards_burn (treasury : Treasury) (hamount : ¬ stakes.balance account < amount) :
    (rewards.burn stakes account amount).2.1 =
      (Books.keep { rewards, treasury }
        (rewards.update account (stakes.balance account))).rewards := by
  unfold burn
  rw [if_neg hamount, beforeChange_eq]
  cases rewards.update account (stakes.balance account) <;> rfl

/-- Issuing debt shares changes no balance but that of an account just brought up to date. -/
theorem balance_mint (rewards : Rewards) (stakes : Stakes) (account other : Account)
    (amount : Amount) :
    (rewards.mint stakes account amount).2.2.balance other = stakes.balance other ∨
      account = other ∧ ∃ answer, rewards.update account (stakes.balance account) = .ok answer := by
  unfold mint
  rw [beforeChange_eq]
  cases rewards.update account (stakes.balance account) with
  | error fault => exact .inl rfl
  | ok answer =>
      dsimp only [Except.map]
      by_cases hother : account = other
      · exact .inr ⟨hother, answer, rfl⟩
      · left
        split
        · rfl
        · exact balance_setBalance.trans (if_neg hother)

/-- Burning debt shares changes no balance but that of an account just brought up to date. -/
theorem balance_burn (rewards : Rewards) (stakes : Stakes) (account other : Account)
    (amount : Amount) :
    (rewards.burn stakes account amount).2.2.balance other = stakes.balance other ∨
      ¬ stakes.balance account < amount ∧ account = other ∧
        ∃ answer, rewards.update account (stakes.balance account) = .ok answer := by
  unfold burn
  split
  · exact .inl rfl
  · rename_i hamount
    rw [beforeChange_eq]
    cases rewards.update account (stakes.balance account) with
    | error fault => exact .inl rfl
    | ok answer =>
        by_cases hother : account = other
        · exact .inr ⟨hamount, hother, answer, rfl⟩
        · exact .inl (balance_setBalance.trans (if_neg hother))

end Rewards

/-- Whether a call changes balances only through the reward stream. -/
def Call.Hooked : Call → Prop
  | around (.balance _ _) => False
  | _ => True

namespace System

variable {α : Type} {system : System} {call : Call} {request : Rewards.Request} {account : Account}

/-! ## What a call does to the stream -/

/-- The reward stream of a system and the treasury from which it pays. -/
def rewardBooks (system : System) : Rewards.Books where
  rewards := system.pool.rewards
  treasury := system.env.treasury

/-- The request that a call makes to the reward stream, if any. -/
def request? (system : System) : Call → Option Rewards.Request
  | .notify amount => some (.notify system.env.stakes.supply amount)
  | .distributePending => some (.distributePending system.env.stakes.supply)
  | .checkpoint account | .mint account _ =>
    some (.update account (system.env.stakes.balance account))
  | .burn account amount =>
    if system.env.stakes.balance account < amount then none
    else some (.update account (system.env.stakes.balance account))
  | .settle account => some (.settle account (system.env.stakes.balance account))
  | _ => none

/-- The distribution that a call makes, if any. -/
def distribution? (system : System) (call : Call) : Option Rewards.Distribution :=
  (system.request? call).bind system.rewardBooks.distribution?

/-- The account that a call brings up to date with the stream, if any, even if the call fails
afterwards. -/
def updated? (system : System) (call : Call) : Option Account :=
  (system.request? call).bind system.rewardBooks.updated?

theorem distribution?_of_none (hrequest : system.request? call = none) :
    system.distribution? call = none := by
  rw [distribution?, hrequest]
  rfl

theorem updated?_of_none (hrequest : system.request? call = none) :
    system.updated? call = none := by
  rw [updated?, hrequest]
  rfl

theorem updated?_eq {balance : Amount} {answer : Amount × Rewards}
    (hrequest : system.request? call = some request)
    (hstake : request.stake? = some (account, balance))
    (hupdate : system.pool.rewards.update account balance = .ok answer) :
    system.updated? call = some account := by
  have hbooks : system.rewardBooks.rewards.update account balance = .ok answer := hupdate
  simp [updated?, hrequest, Rewards.Books.updated?, hstake, hbooks]

theorem step_rewards (hrequest : system.request? call = some request) :
    (system.step call).2.pool.rewards = (system.rewardBooks.step request).rewards ∧
      (system.step call).2.env.treasury.payments =
        (system.rewardBooks.step request).treasury.payments := by
  cases call with
  | notify amount =>
      obtain rfl := Option.some.inj hrequest
      simp only [step, reply, notify, onPool, rewardBooks, Rewards.Books.step, Rewards.Books.keep]
      cases system.pool.rewards.notify system.env.stakes.supply amount <;> exact ⟨rfl, rfl⟩
  | distributePending =>
      obtain rfl := Option.some.inj hrequest
      simp only [step, reply, distributePending, onPool, rewardBooks, Rewards.Books.step,
        Rewards.Books.keep]
      cases system.pool.rewards.distributePending system.env.stakes.supply <;> exact ⟨rfl, rfl⟩
  | checkpoint account =>
      obtain rfl := Option.some.inj hrequest
      simp only [step, reply, checkpoint, onPool, rewardBooks, Rewards.Books.step,
        Rewards.Books.keep, Rewards.beforeChange_eq]
      cases system.pool.rewards.update account (system.env.stakes.balance account) <;>
        exact ⟨rfl, rfl⟩
  | mint account amount =>
      obtain rfl := Option.some.inj hrequest
      exact ⟨Rewards.rewards_mint system.env.treasury,
        (congrArg Treasury.payments (system.rewardBooks.treasury_keep _)).symm⟩
  | burn account amount =>
      have hburned : ¬ system.env.stakes.balance account < amount := by
        intro hamount
        rw [request?, if_pos hamount] at hrequest
        cases hrequest
      rw [request?, if_neg hburned] at hrequest
      obtain rfl := Option.some.inj hrequest
      exact ⟨Rewards.rewards_burn system.env.treasury hburned,
        (congrArg Treasury.payments (system.rewardBooks.treasury_keep _)).symm⟩
  | settle account =>
      obtain rfl := Option.some.inj hrequest
      refine ⟨?_, rfl⟩
      show (system.settle account).2.pool.rewards =
        (system.pool.rewards.settle system.env.treasury account
          (system.env.stakes.balance account)).2.1
      unfold settle
      generalize system.pool.rewards.settle _ _ _ = settled
      obtain ⟨result, rewards, treasury⟩ := settled
      cases result with
      | error fault => rfl
      | ok paid =>
          dsimp only
          split <;> rfl
  | _ => cases hrequest

/-- A call that makes no request leaves the stream alone. -/
theorem step_rewards_of_none (hrequest : system.request? call = none) :
    (system.step call).2.pool.rewards = system.pool.rewards := by
  cases call with
  | notify | distributePending | checkpoint | mint | settle => cases hrequest
  | burn account amount =>
      show (system.pool.rewards.burn system.env.stakes account amount).2.1 = _
      unfold Rewards.burn
      split
      · rfl
      · rename_i hamount
        rw [request?, if_neg hamount] at hrequest
        cases hrequest
  | fee | reward | finishImport =>
      refine view_onPool (·.rewards) fun answer pool hresult => ?_
      obtain ⟨_, _, heq⟩ := Fallible.bind_eq_ok.mp hresult
      cases heq
      rfl
  | importPeriod | importWatermark =>
      refine view_onPool (·.rewards) fun answer pool hresult => ?_
      simp only [Fallible.bind_eq_ok] at hresult
      obtain ⟨_, _, _, _, heq⟩ := hresult
      cases heq
      rfl
  | setDuration | setIssuanceRatio | setTargetThreshold | setStalePeriod | setRelayer =>
      exact view_configure (·.rewards) fun _ => rfl
  | closeTimed | closeRelayed =>
      obtain ⟨_, _, hpool⟩ := system.pool_afterClose _
      exact congrArg (·.rewards) hpool
  | claim account now =>
      obtain ⟨_, _, hpool⟩ := system.pool_claim account now
      exact congrArg (·.rewards) hpool
  | claimOnBehalf account delegate now =>
      obtain ⟨_, _, hpool⟩ := system.pool_claimOnBehalf account delegate now
      exact congrArg (·.rewards) hpool
  | approve | removeDelegate =>
      obtain ⟨_, hpool⟩ := system.pool_delegation _ _ _
      exact congrArg (·.rewards) hpool
  | drain | around => rfl

/-- A call that makes a request moves the stream as the request does. -/
theorem step_movement (hrequest : system.request? call = some request) :
    Rewards.Movement system.pool.rewards system.env.treasury.payments request
      (system.distribution? call) (system.updated? call) (system.step call).2.pool.rewards
      (system.step call).2.env.treasury.payments := by
  obtain ⟨hrewards, hpayments⟩ := step_rewards hrequest
  rw [hrewards, hpayments, distribution?, updated?, hrequest]
  exact system.rewardBooks.step_movement request

/-- A call that makes no request pays nothing from the stream. -/
theorem received_step_of_none (hrequest : system.request? call = none) (hcall : ¬ call.Foreign)
    (account : Account) :
    Payments.received (system.step call).2.env.treasury.payments account .liquidationRewards =
      Payments.received system.env.treasury.payments account .liquidationRewards := by
  have hposting := system.step_posting call
  generalize (system.step call).1 = result at hposting
  generalize (system.step call).2.pool.ledger = next at hposting
  generalize (system.step call).2.env.treasury.payments = payments at hposting ⊢
  cases hposting with
  | settled => cases hrequest
  | outside => exact absurd ⟨_, _, rfl⟩ hcall
  | claimed =>
      rw [Payments.received_append, Payments.total_legs_liquidationRewards, ite_self]
      rfl
  | _ => rfl

/-- A balance changes only right after its account was brought up to date. -/
theorem balance_step (hcall : call.Hooked) (account : Account) :
    (system.step call).2.env.stakes.balance account = system.env.stakes.balance account ∨
      system.updated? call = some account := by
  have hsame : ∀ {next : System}, next.env.stakes.balances = system.env.stakes.balances →
      next.env.stakes.balance account = system.env.stakes.balance account := by
    intro next hbalances
    rw [Stakes.balance, hbalances]
    rfl
  cases call with
  | mint holder amount =>
      rcases system.pool.rewards.balance_mint system.env.stakes holder account amount with
        hbalance | ⟨rfl, _, hupdate⟩
      · exact .inl hbalance
      · exact .inr (updated?_eq rfl rfl hupdate)
  | burn holder amount =>
      rcases system.pool.rewards.balance_burn system.env.stakes holder account amount with
        hbalance | ⟨hamount, rfl, _, hupdate⟩
      · exact .inl hbalance
      · exact .inr (updated?_eq (if_neg hamount) rfl hupdate)
  | around change =>
      cases change with
      | balance => exact hcall.elim
      | _ => exact .inl rfl
  | closeTimed | closeRelayed => exact .inl (hsame (balances_close trivial))
  | claim => exact .inl (hsame (congrArg Stakes.balances env_claim.1))
  | claimOnBehalf => exact .inl (hsame (congrArg Stakes.balances env_claimOnBehalf.1))
  | approve | removeDelegate | settle | drain => exact .inl rfl
  | fee | reward | importPeriod | importWatermark | finishImport | notify | distributePending
  | checkpoint =>
      exact .inl (hsame (congrArg (·.stakes.balances) env_onPool))
  | setDuration | setIssuanceRatio | setTargetThreshold | setStalePeriod | setRelayer =>
      exact .inl (hsame (congrArg (·.stakes.balances) env_configure))

/-- A request is made at the supply of the moment, or at the live balance of its account. -/
theorem request_cases (hrequest : system.request? call = some request) :
    (∃ amount, call = .notify amount ∧ request = .notify system.env.stakes.supply amount) ∨
      (call = .distributePending ∧ request = .distributePending system.env.stakes.supply) ∨
      ∃ account, request.stake? = some (account, system.env.stakes.balance account) := by
  cases call with
  | notify amount =>
      obtain rfl := Option.some.inj hrequest
      exact .inl ⟨amount, rfl, rfl⟩
  | distributePending =>
      obtain rfl := Option.some.inj hrequest
      exact .inr (.inl ⟨rfl, rfl⟩)
  | checkpoint account | mint account | settle account =>
      obtain rfl := Option.some.inj hrequest
      exact .inr (.inr ⟨account, rfl⟩)
  | burn account amount =>
      rw [request?] at hrequest
      split at hrequest
      · cases hrequest
      · obtain rfl := Option.some.inj hrequest
        exact .inr (.inr ⟨account, rfl⟩)
  | _ => cases hrequest

theorem madeAt_of_request (hrequest : system.request? call = some request) :
    request.MadeAt system.env.stakes := by
  cases call with
  | notify | distributePending | checkpoint | mint | settle =>
      cases hrequest
      rfl
  | burn account amount =>
      rw [request?] at hrequest
      split at hrequest
      · cases hrequest
      · cases hrequest
        rfl
  | _ => cases hrequest

theorem stake_of_request (hrequest : system.request? call = some request) (account : Account)
    (stake : Amount) (hstake : request.stake? = some (account, stake)) :
    stake = system.env.stakes.balance account :=
  (madeAt_of_request hrequest).stake_eq hstake

end System

end FeeDistribution
