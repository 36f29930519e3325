import FeeDistribution.Proofs.RewardCalls
import Mathlib.Data.List.Infix

/-!
# Fairness of the reward stream

An account that holds a balance while the ratio grows is entitled to the product of the two, up to
the precision of the ratio.  The stream never looks at the history of an account: a checkpoint
prices what has accrued since the last one at the balance of the moment.  That this comes to the
same needs that no balance changes without a checkpoint before it, which is what issuing and burning
debt shares through the stream ensures.

`earns_pro_rata` compares what an account has received and could still claim with its entitlement
over the whole run: the two differ by less than one unit for each checkpoint of the account, and one
for the claim itself.  Distributions made before the account held stake count for nothing.

## Strategy

The potential is `Rewards.standing`, all that an account has received and could claim, and what its
balance has accrued since its last checkpoint, scaled and without any rounding.  A distribution
raises it by exactly what the account is entitled to.  A checkpoint moves it by a rounding error.  A
payment moves what can be claimed to what was received, and a change of the balance comes after a
checkpoint, when nothing has accrued at the old balance: both leave it alone.
-/

namespace FeeDistribution

/-! ## The standing of an account -/

namespace Rewards

variable {rewards next : Rewards} {account other : Account} {balance claimable received : Amount}

/-- All that an account has received and could claim, and what its balance accrued since its last
checkpoint, scaled. -/
def standing (rewards : Rewards) (received : Amount) (account : Account) (balance : Amount) : Int :=
  rewardPrecision * (received + (rewards.checkpoint account).claimable) +
    balance * (rewards.ratio - (rewards.checkpoint account).ratio)

/-- Right after a checkpoint nothing has accrued, at any balance. -/
theorem standing_of_ratio_eq (hratio : (rewards.checkpoint account).ratio = rewards.ratio) :
    rewards.standing received account balance =
      rewardPrecision * (received + (rewards.checkpoint account).claimable) := by
  rw [standing, hratio, sub_self, mul_zero, add_zero]

theorem standing_record :
    (rewards.record account claimable).standing received account balance =
      rewardPrecision * (received + claimable) := by
  have hcheckpoint := rewards.checkpoint_record account account claimable
  rw [if_pos rfl] at hcheckpoint
  rw [standing_of_ratio_eq (by rw [hcheckpoint]; rfl), hcheckpoint]

theorem standing_record_of_ne (hother : other ≠ account) :
    (rewards.record other claimable).standing received account balance =
      rewards.standing received account balance := by
  have hcheckpoint := rewards.checkpoint_record other account claimable
  rw [if_neg hother] at hcheckpoint
  rw [standing, hcheckpoint]
  rfl

theorem standing_spread (distribution : Distribution) (notified : Amount) :
    standing { rewards.spread distribution with notified } received account balance =
      rewards.standing received account balance + balance * distribution.growth := by
  show (rewardPrecision * (received + (rewards.checkpoint account).claimable) +
    balance * ((rewards.ratio + distribution.growth : Nat) - (rewards.checkpoint account).ratio) :
      Int) = _
  rw [standing]
  push_cast
  ring

/-- What an account can claim differs from what it is due by the rounding of its gain. -/
theorem sub_standing_of_earned (received : Amount)
    (hearned : rewards.earned account balance = .ok claimable) :
    rewardPrecision * (received + claimable) - rewards.standing received account balance =
      rewardPrecision * gain balance (rewards.ratio - (rewards.checkpoint account).ratio) -
        balance * ((rewards.ratio - (rewards.checkpoint account).ratio : Nat) : Int) := by
  obtain ⟨hratio, rfl⟩ := earned_ok hearned
  rw [standing, Nat.cast_sub hratio]
  push_cast
  ring

/-- The rounding errs by less than one unit. -/
theorem abs_sub_standing_lt (hearned : rewards.earned account balance = .ok claimable)
    (hbalance : balance ≤ rewardPrecision) :
    |rewardPrecision * (received + claimable) - rewards.standing received account balance| <
      rewardPrecision := by
  rw [sub_standing_of_earned received hearned]
  exact abs_gain_sub_lt hbalance

/-- An account without stake gains nothing, so nothing is rounded. -/
theorem standing_of_earned_zero (hearned : rewards.earned account 0 = .ok claimable) :
    rewardPrecision * (received + claimable) = rewards.standing received account 0 := by
  have hsub := sub_standing_of_earned received hearned
  rw [gain_zero] at hsub
  simpa [sub_eq_zero] using hsub

/-- A checkpoint moves the standing by a rounding error. -/
theorem abs_checkpoint_sub_standing_le (hearned : rewards.earned account balance = .ok claimable)
    (hbalance : balance ≤ rewardPrecision) :
    |rewardPrecision * (received + claimable) - rewards.standing received account balance| ≤
      if balance ≠ 0 then (rewardPrecision : Int) else 0 := by
  split
  · exact (abs_sub_standing_lt hearned hbalance).le
  · rename_i hzero
    obtain rfl : balance = 0 := not_not.mp hzero
    rw [standing_of_earned_zero hearned, sub_self, abs_zero]

section Movement

variable {payments nextPayments : Payments} {request : Request}
  {distribution? : Option Distribution} {updated? : Option Account}

/-- A movement raises the standing of an account by what its balance accrues, and if it brings the
account up to date, by a rounding error. -/
theorem Movement.abs_standing_sub_le
    (hmovement : Movement rewards payments request distribution? updated? next nextPayments)
    (hstake : ∀ stake, request.stake? = some (account, stake) → stake = balance)
    (hbalance : balance ≤ rewardPrecision) :
    |next.standing (nextPayments.received account .liquidationRewards) account balance -
        (rewards.standing (payments.received account .liquidationRewards) account balance +
          balance * (distribution?.elim 0 Distribution.growth : Nat))| ≤
      if updated? = some account ∧ balance ≠ 0 then (rewardPrecision : Int) else 0 := by
  cases hmovement with
  | idle => simp
  | withheld hinflow =>
      rename_i total notified
      have hsame : standing { rewards with pending := total, notified }
          (payments.received account .liquidationRewards) account balance =
        rewards.standing (payments.received account .liquidationRewards) account balance := rfl
      simp [hsame]
  | distributed hsupply hinflow =>
      rw [standing_spread]
      simp
  | updated hrequest hearned =>
      rename_i other stake claimable
      by_cases hother : other = account
      · subst hother
        obtain rfl := hstake stake hrequest
        rw [standing_record]
        simpa using abs_checkpoint_sub_standing_le hearned hbalance
      · rw [standing_record_of_ne hother]
        simp [hother]
  | paid hrequest hearned hclaim hunpaid =>
      rename_i other stake claimable payout
      show |(rewards.record other (claimable - payout)).standing _ account balance - _| ≤ _
      rw [received_paid]
      by_cases hother : other = account
      · subst hother
        obtain rfl := hstake stake hrequest
        -- what is paid leaves the claim, so both together are as after a checkpoint
        have hmoved : ((payments.received other .liquidationRewards + payout : Nat) : Int) +
            (claimable - payout : Nat) =
              payments.received other .liquidationRewards + claimable := by
          rw [Nat.cast_sub hclaim]
          push_cast
          ring
        rw [if_pos rfl, standing_record, hmoved]
        simpa using abs_checkpoint_sub_standing_le hearned hbalance
      · rw [if_neg hother, standing_record_of_ne hother]
        simp [hother]

/-- The checkpoint of an account that was brought up to date notes the present ratio. -/
theorem Movement.ratio_eq
    (hmovement : Movement rewards payments request distribution? (some account) next nextPayments) :
    (next.checkpoint account).ratio = next.ratio := by
  have hrecord : ∀ claimable,
      ((rewards.record account claimable).checkpoint account).ratio = rewards.ratio := by
    intro claimable
    rw [checkpoint_record, if_pos rfl]
  cases hmovement with
  | updated => exact hrecord _
  | paid => exact hrecord _

end Movement

end Rewards

namespace System

variable {system : System} {call : Call} {account : Account}

/-! ## Runs -/

/-- All that an account has received from the stream and could claim, and what its balance accrued
since its last checkpoint, scaled. -/
def standing (system : System) (account : Account) : Int :=
  system.pool.rewards.standing
    (Payments.received system.env.treasury.payments account .liquidationRewards) account
    (system.env.stakes.balance account)

/-- What a call entitles an account to, scaled: the balance of the account times the growth of the
ratio, if the call distributes. -/
def accrual (system : System) (account : Account) (call : Call) : Nat :=
  system.env.stakes.balance account *
    (system.distribution? call).elim 0 Rewards.Distribution.growth

/-- What a list of calls entitles an account to, scaled. -/
def accruals (system : System) (account : Account) : List Call → Nat
  | [] => 0
  | call :: calls => system.accrual account call + (system.step call).2.accruals account calls

/-- How often a list of calls brings an account up to date. -/
def updates (system : System) (account : Account) : List Call → Nat
  | [] => 0
  | call :: calls =>
    (if system.updated? call = some account then 1 else 0) +
      (system.step call).2.updates account calls

/-- A call raises the standing of an account by what it entitles it to, and if it brings the account
up to date at a balance other than zero, by a rounding error. -/
theorem abs_standing_step_le (hcall : call.Hooked) (hforeign : ¬ call.Foreign)
    (hbalance : system.env.stakes.balance account ≤ rewardPrecision) :
    |(system.step call).2.standing account -
        (system.standing account + system.accrual account call)| ≤
      if system.updated? call = some account ∧ system.env.stakes.balance account ≠ 0 then
        (rewardPrecision : Int)
      else 0 := by
  have hnext := system.balance_step hcall account
  unfold standing accrual
  cases hrequest : system.request? call with
  | none =>
      have hupdated := updated?_of_none hrequest
      rw [hupdated] at hnext
      rw [step_rewards_of_none hrequest, received_step_of_none hrequest hforeign,
        hnext.resolve_right (Option.some_ne_none account).symm, distribution?_of_none hrequest,
        hupdated]
      simp
  | some request =>
      have hmovement := step_movement hrequest
      have hbound := hmovement.abs_standing_sub_le (stake_of_request hrequest account) hbalance
      rcases hnext with hsame | hnow
      · rwa [hsame]
      · -- the balance may have changed, but nothing has accrued since the checkpoint
        rw [hnow] at hmovement
        rwa [Rewards.standing_of_ratio_eq hmovement.ratio_eq] at hbound ⊢

/-- The rounding errors of a first step and of the rest add up. -/
theorem abs_sub_le_add {start middle last first rest roundingFirst roundingRest : Int}
    (hfirst : |middle - (start + first)| ≤ roundingFirst)
    (hrest : |last - (middle + rest)| ≤ roundingRest) :
    |last - (start + (first + rest))| ≤ roundingFirst + roundingRest := by
  have hsplit : last - (start + (first + rest)) =
      (middle - (start + first)) + (last - (middle + rest)) := by ring
  calc |last - (start + (first + rest))|
      = |(middle - (start + first)) + (last - (middle + rest))| := by rw [hsplit]
    _ ≤ |middle - (start + first)| + |last - (middle + rest)| := abs_add_le _ _
    _ ≤ roundingFirst + roundingRest := add_le_add hfirst hrest

/-- Over a run the standing of an account rises by what it is entitled to, up to a rounding error
for each checkpoint. -/
theorem abs_standing_run_le (system : System) {calls : List Call}
    (hcalls : ∀ call ∈ calls, call.Hooked ∧ ¬ call.Foreign)
    (hbalance : ∀ before, before <+: calls →
      (system.run before).2.env.stakes.balance account ≤ rewardPrecision) :
    |(system.run calls).2.standing account -
        (system.standing account + system.accruals account calls)| ≤
      rewardPrecision * system.updates account calls := by
  induction calls generalizing system with
  | nil => simp [run, accruals, updates]
  | cons call calls ih =>
      obtain ⟨⟨hhooked, hforeign⟩, hcalls⟩ := List.forall_mem_cons.mp hcalls
      have hstart : system.env.stakes.balance account ≤ rewardPrecision :=
        hbalance [] List.nil_prefix
      have hstep : |(system.step call).2.standing account -
          (system.standing account + system.accrual account call)| ≤
          rewardPrecision * (if system.updated? call = some account then 1 else 0 : Nat) := by
        refine (abs_standing_step_le hhooked hforeign hstart).trans ?_
        by_cases hupdated : system.updated? call = some account
        · rw [if_pos hupdated, Nat.cast_one, mul_one]
          split
          · exact le_rfl
          · exact Int.natCast_nonneg _
        · rw [if_neg fun h => hupdated h.1, if_neg hupdated, Nat.cast_zero, mul_zero]
      have hrest := ih (system.step call).2 hcalls fun before hbefore =>
        hbalance (call :: before) (List.cons_prefix_cons.mpr ⟨rfl, hbefore⟩)
      rw [updates, accruals, Nat.cast_add, Nat.cast_add, mul_add]
      exact abs_sub_le_add hstep hrest

/-- A run at whose calls an account holds no stake leaves its standing alone. -/
theorem standing_run_of_no_stake (system : System) {calls : List Call}
    (hcalls : ∀ call ∈ calls, call.Hooked ∧ ¬ call.Foreign)
    (hstake : ∀ before call, before ++ [call] <+: calls →
      (system.run before).2.env.stakes.balance account = 0) :
    (system.run calls).2.standing account = system.standing account := by
  induction calls generalizing system with
  | nil => rfl
  | cons call calls ih =>
      obtain ⟨⟨hhooked, hforeign⟩, hcalls⟩ := List.forall_mem_cons.mp hcalls
      have hstart : system.env.stakes.balance account = 0 :=
        hstake [] call (List.cons_prefix_cons.mpr ⟨rfl, List.nil_prefix⟩)
      have hstep := abs_standing_step_le hhooked hforeign (hstart.le.trans (Nat.zero_le _))
      -- at a balance of zero a call accrues nothing, and a checkpoint rounds nothing
      rw [accrual, hstart, zero_mul, if_neg (fun h => h.2 rfl)] at hstep
      have hsame : (system.step call).2.standing account = system.standing account := by
        simpa [sub_eq_zero] using hstep
      have hrest := ih (system.step call).2 hcalls fun before next hbefore =>
        hstake (call :: before) next (List.cons_prefix_cons.mpr ⟨rfl, hbefore⟩)
      exact hrest.trans hsame

theorem standing_of_fresh (hfresh : system.pool.rewards = {}) :
    system.standing account =
      rewardPrecision * (system.env.treasury.paidTo account .liquidationRewards : Int) := by
  have hratio : (system.pool.rewards.checkpoint account).ratio = system.pool.rewards.ratio := by
    rw [hfresh]
    rfl
  have hclaimable : (system.pool.rewards.checkpoint account).claimable = 0 := by
    rw [hfresh]
    rfl
  rw [standing, Rewards.standing_of_ratio_eq hratio, hclaimable, Treasury.paidTo_eq, Nat.cast_zero,
    add_zero]

theorem abs_earned_sub_standing_lt {amount : Amount}
    (hbalance : system.env.stakes.balance account ≤ rewardPrecision)
    (hearned : system.earned account = .ok amount) :
    |rewardPrecision *
          ((system.env.treasury.paidTo account .liquidationRewards : Int) + amount) -
        system.standing account| < rewardPrecision := by
  rw [Treasury.paidTo_eq]
  exact Rewards.abs_sub_standing_lt hearned hbalance

/-- What an account gets once it may hold stake, if it held none before. -/
theorem abs_earned_since_lt (first second : List Call) {amount : Amount}
    (hfresh : system.pool.rewards = {})
    (hcalls : ∀ call ∈ first ++ second, call.Hooked ∧ ¬ call.Foreign)
    (hbalance : ∀ before, before <+: first ++ second →
      (system.run before).2.env.stakes.balance account ≤ rewardPrecision)
    (hstake : ∀ before call, before ++ [call] <+: first →
      (system.run before).2.env.stakes.balance account = 0)
    (hearned : (system.run (first ++ second)).2.earned account = .ok amount) :
    |(rewardPrecision *
          (((system.run (first ++ second)).2.env.treasury.paidTo account .liquidationRewards : Int) -
            system.env.treasury.paidTo account .liquidationRewards + amount) -
        (system.run first).2.accruals account second : Int)| <
      rewardPrecision * ((system.run first).2.updates account second + 1) := by
  obtain ⟨hfirst, hsecond⟩ := List.forall_mem_append.mp hcalls
  have hbefore := system.standing_run_of_no_stake hfirst hstake
  rw [standing_of_fresh hfresh] at hbefore
  have hsince := (system.run first).2.abs_standing_run_le hsecond fun before hprefix => by
    rw [← run_append]
    exact hbalance (first ++ before) ((List.prefix_append_right_inj first).mpr hprefix)
  have hend := hbalance (first ++ second) (List.prefix_refl _)
  rw [run_append] at hearned hend ⊢
  have hrounding := abs_earned_sub_standing_lt hend hearned
  rw [hbefore] at hsince
  calc |rewardPrecision *
            ((((system.run first).2.run second).2.env.treasury.paidTo account .liquidationRewards :
              Int) - system.env.treasury.paidTo account .liquidationRewards + amount) -
          (system.run first).2.accruals account second|
      = |(rewardPrecision *
              ((((system.run first).2.run second).2.env.treasury.paidTo account
                .liquidationRewards : Int) + amount) -
            ((system.run first).2.run second).2.standing account) +
          (((system.run first).2.run second).2.standing account -
            (rewardPrecision * (system.env.treasury.paidTo account .liquidationRewards : Int) +
              (system.run first).2.accruals account second))| := by
        congr 1
        ring
    _ ≤ _ := abs_add_le _ _
    _ < rewardPrecision + rewardPrecision * (system.run first).2.updates account second :=
        add_lt_add_of_lt_of_le hrounding hsince
    _ = rewardPrecision * ((system.run first).2.updates account second + 1) := by ring

/-- What an account has received and could claim is what it is entitled to: its balance at each
distribution times the growth of the ratio, up to less than one unit for each checkpoint of the
account and one for the claim.  Of the distributions made before the account held stake, and of the
checkpoints before, nothing remains. -/
theorem earns_pro_rata {calls : List Call} {account : Account} {amount : Amount}
    (hfresh : system.pool.rewards = {})
    (hcalls : ∀ call ∈ calls, call.Hooked ∧ ¬ call.Foreign)
    (hbalance : ∀ before, before <+: calls →
      (system.run before).2.env.stakes.balance account ≤ rewardPrecision)
    (hearned : (system.run calls).2.earned account = .ok amount) :
    |(rewardPrecision *
            (((system.run calls).2.env.treasury.paidTo account .liquidationRewards : Int) -
              system.env.treasury.paidTo account .liquidationRewards + amount) -
          system.accruals account calls : Int)| <
        rewardPrecision * (system.updates account calls + 1) ∧
      ∀ first second, calls = first ++ second →
        (∀ before call, before ++ [call] <+: first →
          (system.run before).2.env.stakes.balance account = 0) →
        |(rewardPrecision *
              (((system.run calls).2.env.treasury.paidTo account .liquidationRewards : Int) -
                system.env.treasury.paidTo account .liquidationRewards + amount) -
            (system.run first).2.accruals account second : Int)| <
          rewardPrecision * ((system.run first).2.updates account second + 1) := by
  constructor
  · have hnone : ∀ before call, before ++ [call] <+: ([] : List Call) →
        (system.run before).2.env.stakes.balance account = 0 := by
      intro before call hprefix
      simp at hprefix
    exact abs_earned_since_lt [] calls hfresh hcalls hbalance hnone hearned
  · rintro first second rfl hstake
    exact abs_earned_since_lt first second hfresh hcalls hbalance hstake hearned

/-- Rewards flow in before and after the null account takes a third of the stake. -/
def lateHolder : List Call :=
  [.mint other 2, .notify 5, .mint .zero 1, .notify 10, .settle other, .checkpoint .zero,
    .burn .zero 1, .notify 7]

/-- The null account could claim a third of the second inflow, and nothing of the first. -/
theorem earns_pro_rata_lateHolder :
    twoSlots.pool.rewards = {} ∧ (∀ call ∈ lateHolder, call.Hooked ∧ ¬ call.Foreign) ∧
      (∀ before, before <+: lateHolder →
        (twoSlots.run before).2.env.stakes.balance .zero ≤ rewardPrecision) ∧
      (twoSlots.run lateHolder).2.earned .zero = .ok 3 ∧
      |(rewardPrecision *
            (((twoSlots.run lateHolder).2.env.treasury.paidTo .zero .liquidationRewards : Int) -
              twoSlots.env.treasury.paidTo .zero .liquidationRewards + (3 : Nat)) -
          (twoSlots.run (lateHolder.take 3)).2.accruals .zero (lateHolder.drop 3) : Int)| <
        rewardPrecision *
          ((twoSlots.run (lateHolder.take 3)).2.updates .zero (lateHolder.drop 3) + 1) := by
  have hcalls : ∀ call ∈ lateHolder, call.Hooked ∧ ¬ call.Foreign := by
    simp [lateHolder, Call.Hooked, Call.Foreign]
  have hprefixes : ∀ before ∈ lateHolder.inits,
      (twoSlots.run before).2.env.stakes.balance .zero ≤ rewardPrecision := by
    decide
  have hbalance : ∀ before, before <+: lateHolder →
      (twoSlots.run before).2.env.stakes.balance .zero ≤ rewardPrecision :=
    fun before hbefore => hprefixes before ((List.mem_inits _ _).mpr hbefore)
  have hearned : (twoSlots.run lateHolder).2.earned .zero = .ok 3 := by decide
  have hlate : ∀ before ∈ (lateHolder.take 3).inits,
      (twoSlots.run before.dropLast).2.env.stakes.balance .zero = 0 := by
    decide
  refine ⟨rfl, hcalls, hbalance, hearned, ?_⟩
  refine (earns_pro_rata rfl hcalls hbalance hearned).2 _ _ (List.take_append_drop 3 _).symm ?_
  intro before call hbefore
  have hstake := hlate (before ++ [call]) ((List.mem_inits _ _).mpr hbefore)
  rwa [List.dropLast_concat] at hstake

end System

end FeeDistribution

