import FeeDistribution.Proofs.ProRata
import FeeDistribution.Proofs.Reachable
import FeeDistribution.Proofs.RewardStream

/-!
# The sole holder of stake

If one account holds all stake, all that is distributed is its own.  A distribution divides by the
balance of the account and leaves a remainder, and every checkpoint multiplies by it again and
rounds.  However the accrual is cut into checkpoints, none of this is lost: each settlement pays
everything that was distributed and not yet paid (`sole_holder_gets_all`).  This includes the inflow
held back before the account held any stake.

## Strategy

At a checkpoint of the holder its payments and its claim together cover what its balance accrued up
to then (`SoleClaim.claimed`).  What was distributed exceeds what the balance accrued by the last
remainder only, which is below the balance, and the rounding of a gain makes up for just that much
(`SoleClaim.due_le`).  So the claim covers all that is unpaid, and it is the limit of the payment
that keeps the holder from getting more.
-/

namespace FeeDistribution

theorem Stakes.supply_eq_balance {stakes : Stakes} {holder : Account}
    (hothers : ∀ other ≠ holder, stakes.balance other = 0) :
    stakes.supply = stakes.balance holder := by
  have hsum : ([holder].map stakes.balance).sum = stakes.supply :=
    sum_balance_eq_supply (List.nodup_singleton holder) fun other hother =>
      hothers other (mt List.mem_singleton.mpr hother)
  rw [← hsum]
  exact List.sum_singleton

namespace Rewards

variable {rewards next : Rewards} {payments nextPayments : Payments} {request : Request}
  {distribution? : Option Distribution} {updated? : Option Account} {stakes : Stakes}
  {holder account : Account} {balance stake claimable payout paid left : Amount}

/-- What a stream owes to an account that holds all stake there ever is, of this balance: what was
distributed is what the balance accrued and one remainder, and the account was paid or can claim
what it accrued up to its last checkpoint. -/
structure SoleClaim (rewards : Rewards) (payments : Payments) (holder : Account)
    (balance : Amount) : Prop extends rewards.Solvent payments where
  divided : balance * rewards.ratio + rewards.dust + rewards.pending * rewardPrecision =
    rewards.notified * rewardPrecision
  dust_lt : rewards.dust < balance
  claimed : balance * (rewards.checkpoint holder).ratio ≤
    rewardPrecision * (rewards.paid + (rewards.checkpoint holder).claimable)
  others : ∀ other ≠ holder, (rewards.checkpoint other).claimable = 0
  received : payments.received holder .liquidationRewards = rewards.paid

theorem soleClaim_empty (holder : Account) (hpositive : 0 < balance) :
    SoleClaim {} [] holder balance where
  toSolvent := solvent_empty
  divided := by
    show balance * 0 + 0 + 0 * rewardPrecision = 0 * rewardPrecision
    rw [Nat.mul_zero, Nat.zero_add]
  dust_lt := hpositive
  claimed := Nat.zero_le _
  others := fun _ _ => rfl
  received := rfl

/-! ## What the holder is due -/

/-- A gain that errs by less than the remainder allows for covers what was distributed. -/
theorem due_le_of_gain
    {precision balance ratio growth dust pending notified paid claimed gain : Nat}
    (hdivided : balance * (ratio + growth) + dust + pending * precision = notified * precision)
    (hdust : dust < balance) (hclaimed : balance * ratio ≤ precision * (paid + claimed))
    (hgain : balance * (growth + 1) ≤ precision * (gain + 1)) :
    notified ≤ pending + (paid + (claimed + gain)) := by
  have hscaled : notified * precision < (pending + (paid + (claimed + gain)) + 1) * precision :=
    calc notified * precision
        = balance * ratio + (balance * growth + dust) + pending * precision := by
          rw [← hdivided]
          ring
      -- the remainder is below the balance, which is what one more step of the growth adds
      _ < balance * ratio + balance * (growth + 1) + pending * precision := by
          rw [Nat.mul_succ]
          omega
      _ ≤ precision * (paid + claimed) + precision * (gain + 1) + pending * precision :=
          Nat.add_le_add_right (Nat.add_le_add hclaimed hgain) _
      _ = (pending + (paid + (claimed + gain)) + 1) * precision := by ring
  exact Nat.le_of_lt_succ (Nat.lt_of_mul_lt_mul_right hscaled)

namespace SoleClaim

/-- What the holder was paid and can claim covers all that was distributed. -/
theorem due_le (hsole : rewards.SoleClaim payments holder balance)
    (hbalance : balance ≤ rewardPrecision)
    (hearned : rewards.earned holder balance = .ok claimable) :
    rewards.notified ≤ rewards.pending + (rewards.paid + claimable) := by
  obtain ⟨hbehind, rfl⟩ := earned_ok hearned
  refine due_le_of_gain ?_ hsole.dust_lt hsole.claimed (mul_succ_le_gain hbalance)
  rw [Nat.add_sub_of_le hbehind]
  exact hsole.divided

/-- Whoever holds no stake can claim nothing. -/
theorem claimable_eq_zero (hsole : rewards.SoleClaim payments holder balance)
    (hother : account ≠ holder) (hearned : rewards.earned account 0 = .ok claimable) :
    claimable = 0 := by
  obtain ⟨-, rfl⟩ := earned_ok hearned
  rw [hsole.others account hother, gain_zero]

/-- A checkpoint of the holder covers what it accrued, be it that nothing accrued as yet. -/
theorem claimed_of_earned (hsole : rewards.SoleClaim payments holder balance)
    (hbalance : balance ≤ rewardPrecision) (hstake : stake = balance ∨ rewards.ratio = 0)
    (hearned : rewards.earned holder stake = .ok claimable) :
    balance * rewards.ratio ≤ rewardPrecision * (rewards.paid + claimable) := by
  rcases hstake with rfl | hratio
  · have hdue := Nat.mul_le_mul_right rewardPrecision (hsole.due_le hbalance hearned)
    rw [← hsole.divided, Nat.add_mul, Nat.add_comm (rewards.pending * rewardPrecision),
      Nat.mul_comm (rewards.paid + claimable)] at hdue
    exact (Nat.le_add_right _ _).trans (Nat.le_of_add_le_add_right hdue)
  · rw [hratio, Nat.mul_zero]
    exact Nat.zero_le _

/-- A record that leaves of the claim what was not paid covers what the holder accrued. -/
theorem claimed_record (hsole : rewards.SoleClaim payments holder balance)
    (hbalance : balance ≤ rewardPrecision)
    (hholder : account = holder → stake = balance ∨ rewards.ratio = 0)
    (hearned : rewards.earned account stake = .ok claimable) (hpaid : rewards.paid ≤ paid)
    (hleft : paid + left = rewards.paid + claimable) :
    balance * ((rewards.record account left).checkpoint holder).ratio ≤
      rewardPrecision * (paid + ((rewards.record account left).checkpoint holder).claimable) := by
  rw [checkpoint_record]
  split
  · rename_i haccount
    subst haccount
    rw [hleft]
    exact hsole.claimed_of_earned hbalance (hholder rfl) hearned
  · exact hsole.claimed.trans (Nat.mul_le_mul_left _ (Nat.add_le_add_right hpaid _))

theorem others_record (hsole : rewards.SoleClaim payments holder balance)
    (hother : account ≠ holder → stake = 0)
    (hearned : rewards.earned account stake = .ok claimable) (hleft : left ≤ claimable) :
    ∀ other ≠ holder, ((rewards.record account left).checkpoint other).claimable = 0 := by
  intro other hne
  rw [checkpoint_record]
  split
  · rename_i haccount
    subst haccount
    obtain rfl := hother hne
    rw [hsole.claimable_eq_zero hne hearned] at hleft
    exact Nat.le_zero.mp hleft
  · exact hsole.others other hne

theorem received_append (hsole : rewards.SoleClaim payments holder balance)
    (hother : account ≠ holder → stake = 0)
    (hearned : rewards.earned account stake = .ok claimable) (hpayout : payout ≤ claimable) :
    Payments.received (payments ++ [(account, { asset := .liquidationRewards, amount := payout })])
        holder .liquidationRewards =
      rewards.paid + payout := by
  rw [received_paid, hsole.received]
  split
  · rfl
  · rename_i hne
    obtain rfl := hother hne
    rw [hsole.claimable_eq_zero hne hearned] at hpayout
    rw [Nat.le_zero.mp hpayout]

end SoleClaim

/-! ## Runs -/

/-- A distribution over the balance of the holder divides what came in without loss. -/
theorem SoleClaim.spread {distribution : Distribution} {total notified : Amount}
    (hsole : rewards.SoleClaim payments holder distribution.supply)
    (hdivision : distribution.supply * distribution.growth + distribution.dust =
      total * rewardPrecision + rewards.dust)
    (hremainder : distribution.dust < distribution.supply)
    (hinflow : total + rewards.notified = rewards.pending + notified)
    (hsolvent : Solvent { rewards.spread distribution with notified } payments) :
    SoleClaim { rewards.spread distribution with notified } payments holder
      distribution.supply where
  toSolvent := hsolvent
  divided :=
    calc distribution.supply * (rewards.ratio + distribution.growth) + distribution.dust +
          0 * rewardPrecision
        = distribution.supply * rewards.ratio + (total * rewardPrecision + rewards.dust) := by
          rw [Nat.zero_mul, Nat.add_zero, Nat.mul_add, Nat.add_assoc, hdivision]
      _ = notified * rewardPrecision := exact_of_inflow hsole.divided hinflow
  dust_lt := hremainder
  claimed := hsole.claimed
  others := hsole.others
  received := hsole.received

/-- What a request does to the claim of a sole holder: it divides by its balance if at all, it names
this balance for the holder, or nothing accrued as yet, and no balance for anybody else. -/
theorem Movement.soleClaim
    (hmovement : Movement rewards payments request distribution? updated? next nextPayments)
    (hbalance : balance ≤ rewardPrecision)
    (hsupply : ∀ distribution, distribution? = some distribution → distribution.supply = balance)
    (hholder : ∀ account stake, request.stake? = some (account, stake) → account = holder →
      stake = balance ∨ rewards.ratio = 0)
    (hothers : ∀ account stake, request.stake? = some (account, stake) → account ≠ holder →
      stake = 0)
    (hsole : rewards.SoleClaim payments holder balance) :
    next.SoleClaim nextPayments holder balance := by
  have hsolvent := hmovement.solvent hsole.toSolvent
  cases hmovement with
  | idle => exact hsole
  | withheld hinflow =>
      have hdivided := exact_of_inflow hsole.divided hinflow
      refine ⟨hsolvent, ?_, hsole.dust_lt, hsole.claimed, hsole.others, hsole.received⟩
      rwa [Nat.add_assoc, Nat.add_comm rewards.dust]
  | distributed hpositive hinflow =>
      rename_i supply total notified
      obtain rfl : supply = balance := hsupply _ rfl
      exact SoleClaim.spread hsole rewards.division_exact (rewards.dust_division_lt hpositive)
        hinflow hsolvent
  | updated hrequest hearned =>
      have hstake := hholder _ _ hrequest
      have hother := hothers _ _ hrequest
      exact ⟨hsolvent, hsole.divided, hsole.dust_lt,
        hsole.claimed_record hbalance hstake hearned le_rfl rfl,
        hsole.others_record hother hearned le_rfl, hsole.received⟩
  | paid hrequest hearned hclaim hunpaid =>
      rename_i account stake claimable payout
      have hstake := hholder _ _ hrequest
      have hother := hothers _ _ hrequest
      have hleft : rewards.paid + payout + (claimable - payout) = rewards.paid + claimable := by
        rw [Nat.add_assoc, Nat.add_sub_of_le hclaim]
      exact ⟨hsolvent, hsole.divided, hsole.dust_lt,
        hsole.claimed_record hbalance hstake hearned (Nat.le_add_right _ _) hleft,
        hsole.others_record hother hearned (Nat.sub_le _ _),
        hsole.received_append hother hearned hclaim⟩

namespace Books

variable {books : Books} {requests : List Request}

/-- While nobody holds stake, nothing accrues. -/
theorem soleClaim_run_of_no_stake (hbalance : balance ≤ rewardPrecision)
    (hrequests : ∀ request ∈ requests, request.MadeAt {})
    (hsole : books.rewards.SoleClaim books.treasury.payments holder balance)
    (hratio : books.rewards.ratio = 0) :
    (books.run requests).rewards.SoleClaim (books.run requests).treasury.payments holder
      balance := by
  induction requests generalizing books with
  | nil => exact hsole
  | cons request requests ih =>
      obtain ⟨hmade, hrequests⟩ := List.forall_mem_cons.mp hrequests
      have hmovement := books.step_movement request
      have hnone : books.distribution? request = none := by
        refine Option.eq_none_iff_forall_ne_some.mpr fun distribution hdistribution => ?_
        rw [hdistribution] at hmovement
        exact hmovement.supply_pos.ne' (supply_of_distribution hmade hdistribution)
      rw [hnone] at hmovement
      refine ih hrequests (hmovement.soleClaim hbalance nofun ?_ ?_ hsole) ?_
      · exact fun _ _ _ _ => .inr hratio
      · exact fun _ _ hstake _ => hmade.stake_eq hstake
      · rw [hmovement.ratio_of_none, hratio]

/-- While one account holds all stake, its claim covers what it accrues. -/
theorem soleClaim_step (hbalance : stakes.balance holder ≤ rewardPrecision)
    (hothers : ∀ other ≠ holder, stakes.balance other = 0) (hmade : request.MadeAt stakes)
    (hsole : books.rewards.SoleClaim books.treasury.payments holder (stakes.balance holder)) :
    (books.step request).rewards.SoleClaim (books.step request).treasury.payments holder
      (stakes.balance holder) := by
  refine (books.step_movement request).soleClaim hbalance ?_ ?_ ?_ hsole
  · intro distribution hdistribution
    rw [supply_of_distribution hmade hdistribution, Stakes.supply_eq_balance hothers]
  · rintro account stake hstake rfl
    exact .inl (hmade.stake_eq hstake)
  · intro account stake hstake hother
    rw [hmade.stake_eq hstake, hothers account hother]

theorem soleClaim_run (hbalance : stakes.balance holder ≤ rewardPrecision)
    (hothers : ∀ other ≠ holder, stakes.balance other = 0)
    (hrequests : ∀ request ∈ requests, request.MadeAt stakes)
    (hsole : books.rewards.SoleClaim books.treasury.payments holder (stakes.balance holder)) :
    (books.run requests).rewards.SoleClaim (books.run requests).treasury.payments holder
      (stakes.balance holder) := by
  induction requests generalizing books with
  | nil => exact hsole
  | cons request requests ih =>
      obtain ⟨hmade, hrequests⟩ := List.forall_mem_cons.mp hrequests
      exact ih hrequests (soleClaim_step hbalance hothers hmade hsole)

end Books

/-- A claim for at least what is unpaid has all of it paid. -/
theorem paid_add_min {paid pending notified claimable : Nat} (hcovered : paid + pending ≤ notified)
    (hdue : notified ≤ pending + (paid + claimable)) :
    paid + min claimable (notified - pending - paid) + pending = notified := by
  omega

/-- A settlement of an account that holds all stake pays all that was distributed and not yet paid,
whatever was asked of the stream before.  Nothing remains unpaid but what is held back, and the
account received all payments there were. -/
theorem sole_holder_gets_all {before later : List Request} {treasury : Treasury}
    (hpositive : 0 < stakes.balance holder) (hbalance : stakes.balance holder ≤ rewardPrecision)
    (hothers : ∀ other ≠ holder, stakes.balance other = 0)
    (hbefore : ∀ request ∈ before, request.MadeAt {})
    (hlater : ∀ request ∈ later, request.MadeAt stakes)
    (hsettle : (after (before ++ later)).rewards.settle (after (before ++ later)).treasury holder
      (stakes.balance holder) = (.ok payout, next, treasury)) :
    next.unpaid = 0 ∧ next.paid + next.pending = next.notified ∧
      Payments.received treasury.payments holder .liquidationRewards = next.paid := by
  have hrun : after (before ++ later) = (after before).run later := List.foldl_append
  have hsole : (after (before ++ later)).rewards.SoleClaim
      (after (before ++ later)).treasury.payments holder (stakes.balance holder) := by
    rw [hrun]
    refine Books.soleClaim_run hbalance hothers hlater ?_
    exact Books.soleClaim_run_of_no_stake hbalance hbefore (soleClaim_empty holder hpositive) rfl
  generalize after (before ++ later) = books at hsettle hsole
  have hmade : (Request.settle holder (stakes.balance holder)).MadeAt stakes := rfl
  have hsettled := Books.soleClaim_step hbalance hothers hmade hsole
  simp only [Books.step, hsettle] at hsettled
  obtain ⟨claimable, hearned, rfl, hnext⟩ := settle_ok hsettle
  have hall : next.paid + next.pending = next.notified := by
    rw [hnext]
    exact paid_add_min hsole.covered (hsole.due_le hbalance hearned)
  refine ⟨?_, hall, hsettled.received⟩
  rw [unpaid, ← hall, Nat.add_sub_cancel, Nat.sub_self]

/-- The null account holds seven units of stake. -/
def soleStakes : Stakes :=
  Stakes.setBalance {} .zero 7

/-- Inflow before and after, accrued between checkpoints that may see the ratio grow or not, and one
payment that is refused. -/
def cutAccrual : List Request :=
  [.distributePending 7, .update .zero 7, .notify 7 3, .update System.other 0, .update .zero 7,
    .refuseNext, .settle .zero 7, .settle System.other 0, .notify 7 4, .update .zero 7, .notify 7 1,
    .update .zero 7]

theorem sole_holder_gets_all_cutAccrual :
    ∃ next treasury,
      0 < soleStakes.balance .zero ∧ soleStakes.balance .zero ≤ rewardPrecision ∧
        (∀ other ≠ .zero, soleStakes.balance other = 0) ∧
        (∀ request ∈ [Request.notify 0 5], request.MadeAt {}) ∧
        (∀ request ∈ cutAccrual, request.MadeAt soleStakes) ∧
        (after ([.notify 0 5] ++ cutAccrual)).rewards.settle
            (after ([.notify 0 5] ++ cutAccrual)).treasury .zero (soleStakes.balance .zero) =
          (.ok 13, next, treasury) ∧
        next.unpaid = 0 ∧ next.paid + next.pending = next.notified ∧
        Payments.received treasury.payments .zero .liquidationRewards = next.paid := by
  have hpositive : 0 < soleStakes.balance .zero := by decide
  have hbalance : soleStakes.balance .zero ≤ rewardPrecision := by decide
  have hothers : ∀ other ≠ .zero, soleStakes.balance other = 0 :=
    fun other hother => (Tally.get_set _ _ _ _).trans (if_neg hother.symm)
  have hbefore : ∀ request ∈ [Request.notify 0 5], request.MadeAt {} := by decide
  have hlater : ∀ request ∈ cutAccrual, request.MadeAt soleStakes := by decide
  have hpaid : ((after ([.notify 0 5] ++ cutAccrual)).rewards.settle
      (after ([.notify 0 5] ++ cutAccrual)).treasury .zero (soleStakes.balance .zero)).1 =
        .ok 13 := by
    decide
  have hsettle := Prod.ext hpaid rfl
  exact ⟨_, _, hpositive, hbalance, hothers, hbefore, hlater, hsettle,
    sole_holder_gets_all hpositive hbalance hothers hbefore hlater hsettle⟩

end Rewards

end FeeDistribution
