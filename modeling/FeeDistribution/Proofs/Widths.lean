import FeeDistribution.Proofs.Capacity
import FeeDistribution.Proofs.EventStream
import FeeDistribution.Proofs.FrozenShares
import FeeDistribution.Proofs.RewardBounds
import FeeDistribution.Proofs.StoredState

/-!
# What is stored stays within its width

Whatever the program adds up and keeps, it checks first; what it keeps unchecked was an amount
before.  So the totals of all periods, the numbers of the reward stream, the sums of the balances
that were frozen and the terms of the gate stay as narrow as they are kept (`System.Narrow`), as
long as the live balances sum to an amount and imported periods are read from their types.

The claimed part of a pot needs no bound of its own: it never exceeds the total.
-/

namespace FeeDistribution

open Quantity

/-! ## The periods -/

theorem Pot.total_le_of_deposit {pot raised : Pot} {amount : Amount}
    (hdeposit : pot.deposit amount = .ok raised) : raised.total ≤ maxAmount := by
  obtain ⟨hfits, rfl⟩ := deposit_eq_ok.mp hdeposit
  exact hfits

namespace Period

variable {period : Period} {limit : Amount}

/-- Both totals stay within a limit. -/
def TotalsLe (period : Period) (limit : Amount) : Prop :=
  ∀ revenue, (period.pot revenue).total ≤ limit

theorem totalsLe_iff :
    period.TotalsLe limit ↔ period.fees.total ≤ limit ∧ period.rewards.total ≤ limit :=
  ⟨fun htotals => ⟨htotals .fees, htotals .rewards⟩,
    fun ⟨hfees, hrewards⟩ revenue => by cases revenue <;> assumption⟩

theorem totalsLe_opened (id : PeriodId) (start : Timestamp) : (opened id start).TotalsLe limit :=
  totalsLe_iff.mpr ⟨Nat.zero_le _, Nat.zero_le _⟩

theorem InRange.totalsLe (hrange : period.InRange) : period.TotalsLe maxAmount :=
  totalsLe_iff.mpr ⟨hrange.fees_le, hrange.rewards_le⟩

end Period

namespace Window

variable {window : Window} {index : Nat} {period : Period} {limit : Amount}

/-- The totals of all periods stay within a limit. -/
def TotalsLe (window : Window) (limit : Amount) : Prop :=
  ∀ index, (window.recent index).TotalsLe limit

theorem TotalsLe.set (htotals : window.TotalsLe limit) (aligned : window.Aligned)
    (hindex : index < window.length) (hperiod : period.TotalsLe limit) :
    (window.set index period).TotalsLe limit := by
  intro other
  rw [recent_set aligned hindex]
  split
  · exact hperiod
  · exact htotals other

theorem TotalsLe.push (htotals : window.TotalsLe limit) (aligned : window.Aligned)
    (hperiod : period.TotalsLe limit) : (window.push period).2.TotalsLe limit := by
  intro index
  by_cases hindex : index < window.length
  · cases index with
    | zero =>
        rw [recent_push_zero aligned]
        exact hperiod
    | succ older =>
        rw [recent_push_succ aligned hindex]
        exact htotals older
  · rw [recent_of_length_le (by simpa using hindex)]
    exact Period.totalsLe_opened 0 0

/-- Claims leave the totals alone. -/
theorem TotalsLe.takeOut (htotals : window.TotalsLe limit) (aligned : window.Aligned)
    {entitlements : List Entitlement}
    (hslots : ∀ owed ∈ entitlements, owed.slot < window.length) :
    (window.modifyAll Period.takeOut entitlements).TotalsLe limit := by
  intro index revenue
  rw [recent_takeOut aligned hslots, Period.pot_claim]
  exact htotals index revenue

end Window

namespace Ledger

variable {ledger next : Ledger} {amount limit : Amount}

theorem totalsLe_setCurrent {period : Period} (htotals : ledger.window.TotalsLe limit)
    (aligned : ledger.window.Aligned) (hperiod : period.TotalsLe limit) :
    (ledger.setCurrent period).window.TotalsLe limit :=
  htotals.set aligned (Nat.zero_lt_of_lt aligned.two_le_length) hperiod

theorem totalsLe_recordFee (htotals : ledger.window.TotalsLe maxAmount)
    (aligned : ledger.window.Aligned) (hrecord : ledger.recordFee amount = .ok next) :
    next.window.TotalsLe maxAmount := by
  unfold recordFee at hrecord
  split at hrecord
  · cases hrecord
    exact htotals
  · obtain ⟨fees, hfees, hnext⟩ := Fallible.bind_eq_ok.mp hrecord
    have hraised := Pot.total_le_of_deposit hfees
    rw [← Fallible.pure_eq_ok.mp hnext]
    exact totalsLe_setCurrent htotals aligned
      (Period.totalsLe_iff.mpr ⟨hraised, htotals 0 .rewards⟩)

theorem totalsLe_recordReward (htotals : ledger.window.TotalsLe maxAmount)
    (aligned : ledger.window.Aligned) (hrecord : ledger.recordReward amount = .ok next) :
    next.window.TotalsLe maxAmount := by
  unfold recordReward at hrecord
  split at hrecord
  · cases hrecord
    exact htotals
  · obtain ⟨rewards, hrewards, hnext⟩ := Fallible.bind_eq_ok.mp hrecord
    have hraised := Pot.total_le_of_deposit hrewards
    rw [← Fallible.pure_eq_ok.mp hnext]
    exact totalsLe_setCurrent htotals aligned
      (Period.totalsLe_iff.mpr ⟨htotals 0 .fees, hraised⟩)

/-- A close is only planned if the rollover fits. -/
theorem totalsLe_receivingRaised {new : PeriodId} {plan : ClosePlan}
    (hplan : ledger.planClose new = .ok plan) : ledger.receivingRaised.TotalsLe maxAmount := by
  obtain ⟨_, hfits, _⟩ := planClose_eq_ok.mp hplan
  exact Period.totalsLe_iff.mpr hfits

theorem totalsLe_closedWindow {new : PeriodId} {start : Timestamp}
    (htotals : ledger.window.TotalsLe limit) (aligned : ledger.window.Aligned)
    (hraised : ledger.receivingRaised.TotalsLe limit) :
    (ledger.closedWindow new start).TotalsLe limit := by
  have hslot : ledger.window.length - 2 < ledger.window.length := by
    have := aligned.two_le_length
    omega
  exact (htotals.set aligned hslot hraised).push aligned.set (Period.totalsLe_opened _ _)

theorem totalsLe_commitClaim {plan : ClaimPlan} {previous : PeriodId}
    (htotals : ledger.window.TotalsLe limit) (aligned : ledger.window.Aligned)
    (hcommit : ledger.commitClaim plan = .ok (previous, next)) : next.window.TotalsLe limit := by
  obtain ⟨hchecks, _, rfl⟩ := commitClaim_ok hcommit
  exact htotals.takeOut aligned fun owed howed => (checkEntitlement_ok (hchecks owed howed)).1

end Ledger

/-- Every call that changes the ledger leaves the totals amounts. -/
theorem Posting.totalsLe {ledger next : Ledger} {payments nextPayments : Payments} {call : Call}
    {result : Except Fault Reply}
    (hposting : Posting ledger payments call result next nextPayments)
    (aligned : ledger.window.Aligned) (htotals : ledger.window.TotalsLe maxAmount)
    (himport : ∀ caller slot period, call = .importPeriod caller slot period → period.InRange) :
    next.window.TotalsLe maxAmount := by
  cases hposting with
  | refused | aside | settled | outside | finishImport => exact htotals
  | fee hrecord => exact Ledger.totalsLe_recordFee htotals aligned hrecord
  | reward hrecord => exact Ledger.totalsLe_recordReward htotals aligned hrecord
  | closed _ hcommit =>
      obtain ⟨hplan, _, rfl⟩ := Ledger.commitClose_ok hcommit
      exact Ledger.totalsLe_closedWindow htotals aligned (Ledger.totalsLe_receivingRaised hplan)
  | claimed _ _ hcommit => exact Ledger.totalsLe_commitClaim htotals aligned hcommit
  | unpaid _ _ hcommit =>
      rw [Ledger.revertClaim_of_commitClaim hcommit]
      exact htotals
  | importPeriod himported =>
      obtain ⟨_, hslot, _, _, _, rfl⟩ := Ledger.importPeriod_ok himported
      exact htotals.set aligned hslot (himport _ _ _ rfl).totalsLe
  | importWatermark himported =>
      obtain ⟨_, rfl⟩ := Ledger.importWatermark_ok himported
      exact htotals

/-! ## The reward stream -/

namespace Rewards

variable {rewards next : Rewards} {supply amount balance claimable : Amount} {inflow : Inflow}
  {account : Account}

theorem InRange.checkpoint (hrange : rewards.InRange) (account : Account) :
    (rewards.checkpoint account).InRange := by
  unfold Rewards.checkpoint
  cases hget : rewards.checkpoints[account]? with
  | none => exact ⟨Nat.zero_le _, Nat.zero_le _⟩
  | some checkpoint =>
      exact hrange.checkpoints (account, checkpoint)
        (Std.ExtTreeMap.mem_toList_iff_getElem?_eq_some.mpr hget)

theorem InRange.record (hrange : rewards.InRange) (account : Account)
    (hclaimable : claimable ≤ maxAmount) :
    (rewards.record account claimable).InRange where
  ratio_le := hrange.ratio_le
  dust_le := hrange.dust_le
  pending_le := hrange.pending_le
  notified_le := hrange.notified_le
  paid_le := hrange.paid_le
  checkpoints := by
    rintro ⟨holder, checkpoint⟩ hmem
    have hget := Std.ExtTreeMap.mem_toList_iff_getElem?_eq_some.mp hmem
    simp only [Rewards.record, Std.ExtTreeMap.getElem?_insert] at hget
    split at hget
    · cases hget
      exact ⟨hrange.ratio_le, hclaimable⟩
    · exact hrange.checkpoints (holder, checkpoint)
        (Std.ExtTreeMap.mem_toList_iff_getElem?_eq_some.mpr hget)

/-- The remainder of a distribution is below the supply. -/
theorem InRange.distribute (hrange : rewards.InRange) (hsupply : supply ≤ maxAmount)
    (hamount : amount ≤ maxAmount)
    (hdistribute : rewards.distribute supply amount = .ok (inflow, next)) : next.InRange := by
  unfold Rewards.distribute at hdistribute
  split at hdistribute
  · cases hdistribute
    exact { hrange with pending_le := hamount }
  · rename_i hpositive
    dsimp only at hdistribute
    split at hdistribute
    · cases hdistribute
    · rename_i hratio
      cases hdistribute
      have hdust := Nat.mod_lt (amount * rewardPrecision + rewards.dust)
        (Nat.pos_of_ne_zero hpositive)
      exact
        { hrange with
          ratio_le := Nat.le_of_not_lt hratio
          dust_le := hdust.le.trans hsupply
          pending_le := Nat.zero_le _ }

theorem InRange.notify (hrange : rewards.InRange) (hsupply : supply ≤ maxAmount)
    (hnotify : rewards.notify supply amount = .ok (inflow, next)) : next.InRange := by
  simp only [Rewards.notify, Fallible.guard_eq_ok, Fallible.bind_eq_ok, Fallible.pure_eq_ok]
    at hnotify
  obtain ⟨_, total, htotal, notified, hnotified, ⟨_, spread⟩, hdistribute, heq⟩ := hnotify
  obtain ⟨rfl, htotalFits⟩ := Fallible.eq_of_add_eq_ok htotal
  obtain ⟨rfl, hnotifiedFits⟩ := Fallible.eq_of_add_eq_ok hnotified
  have hspread := hrange.distribute hsupply htotalFits hdistribute
  cases heq
  exact { hspread with notified_le := hnotifiedFits }

theorem InRange.distributePending (hrange : rewards.InRange) (hsupply : supply ≤ maxAmount)
    (hpending : rewards.distributePending supply = .ok (inflow, next)) : next.InRange := by
  unfold Rewards.distributePending at hpending
  split at hpending
  · cases hpending
    exact hrange
  · exact hrange.distribute hsupply hrange.pending_le hpending

theorem InRange.earned_le (hrange : rewards.InRange)
    (hearned : rewards.earned account balance = .ok claimable) : claimable ≤ maxAmount := by
  unfold Rewards.earned at hearned
  dsimp only at hearned
  split at hearned
  · cases hearned
  · split at hearned
    · cases hearned
      exact (hrange.checkpoint account).claimable_le
    · obtain ⟨gain, _, hsum⟩ := Fallible.bind_eq_ok.mp hearned
      obtain ⟨rfl, hfits⟩ := Fallible.eq_of_add_eq_ok hsum
      exact hfits

theorem InRange.update (hrange : rewards.InRange)
    (hupdate : rewards.update account balance = .ok (claimable, next)) : next.InRange := by
  obtain ⟨hearned, rfl⟩ := update_eq_ok.mp hupdate
  exact hrange.record account (hrange.earned_le hearned)

theorem InRange.settle (hrange : rewards.InRange) (treasury : Treasury) :
    (rewards.settle treasury account balance).2.1.InRange := by
  unfold Rewards.settle
  split
  · exact hrange
  · rename_i claimable updated hupdate
    have hupdated := hrange.update hupdate
    have hclaimable := hrange.earned_le (update_eq_ok.mp hupdate).1
    dsimp only
    split
    · exact hupdated
    · split
      · exact hupdated
      · rename_i paid hpaid
        obtain ⟨rfl, hfits⟩ := Fallible.eq_of_add_eq_ok hpaid
        split
        · exact hupdated
        · have hkept := (Nat.sub_le claimable (min claimable updated.unpaid)).trans hclaimable
          exact { hupdated.record account hkept with paid_le := hfits }

end Rewards

namespace Rewards.Books

variable {books : Books} {request : Request}

theorem inRange_keep {α : Type} {outcome : Except Fault (α × Rewards)}
    (hrange : books.rewards.InRange)
    (houtcome : ∀ answer next, outcome = .ok (answer, next) → next.InRange) :
    (books.keep outcome).rewards.InRange := by
  cases outcome with
  | error fault => exact hrange
  | ok answer => exact houtcome answer.1 answer.2 rfl

theorem inRange_step_of_stake (hrange : books.rewards.InRange) {stake : Account × Amount}
    (hstake : request.stake? = some stake) : (books.step request).rewards.InRange := by
  cases request with
  | update account balance => exact inRange_keep hrange fun _ _ => hrange.update
  | settle account balance => exact hrange.settle books.treasury
  | _ => cases hstake

end Rewards.Books

/-! ## The debt shares -/

namespace Stakes

variable {stakes : Stakes}

/-- The balances of every snapshot sum to an amount. -/
def Narrow (stakes : Stakes) : Prop :=
  ∀ (id : PeriodId) (balances : Tally),
    stakes.snapshots[id]? = some balances → balances.total ≤ maxAmount

/-- A snapshot is a copy of the live balances. -/
theorem Narrow.takeSnapshot (hnarrow : stakes.Narrow) (hsupply : stakes.supply ≤ maxAmount)
    (opened : PeriodId) : (stakes.takeSnapshot opened).Narrow := by
  intro id balances hsnapshot
  rw [getElem?_takeSnapshot] at hsnapshot
  split at hsnapshot
  · cases hsnapshot
    exact hsupply
  · exact hnarrow id balances hsnapshot

end Stakes

/-! ## Runs -/

namespace System

variable {system : System} {call : Call}

theorem inRange_step (hrange : system.pool.rewards.InRange)
    (hsupply : system.env.stakes.supply ≤ maxAmount) :
    (system.step call).2.pool.rewards.InRange := by
  cases hrequest : system.request? call with
  | none =>
      rw [step_rewards_of_none hrequest]
      exact hrange
  | some request =>
      have hbooks : system.rewardBooks.rewards.InRange := hrange
      rw [(step_rewards hrequest).1]
      rcases request_cases hrequest with ⟨amount, _, rfl⟩ | ⟨_, rfl⟩ | ⟨account, hstake⟩
      · exact Rewards.Books.inRange_keep hbooks fun _ _ => hrange.notify hsupply
      · exact Rewards.Books.inRange_keep hbooks fun _ _ => hrange.distributePending hsupply
      · exact Rewards.Books.inRange_step_of_stake hbooks hstake

theorem narrow_stakes_step (hnarrow : system.env.stakes.Narrow)
    (hsupply : system.env.stakes.supply ≤ maxAmount) :
    (system.step call).2.env.stakes.Narrow := by
  by_cases hclosed : ∃ outcome, (system.step call).1 = .ok (.closed outcome)
  · obtain ⟨outcome, hclosed⟩ := hclosed
    rw [stakes_of_closed hclosed]
    exact hnarrow.takeSnapshot hsupply _
  · push Not at hclosed
    by_cases hcall : ∃ id, call = .around (.snapshot id)
    · obtain ⟨id, rfl⟩ := hcall
      exact hnarrow.takeSnapshot hsupply id
    · push Not at hcall
      unfold Stakes.Narrow
      rw [(frozen_step hclosed hcall).1]
      exact hnarrow

/-- Everything a system keeps is as narrow as its type. -/
structure Narrow (system : System) : Prop where
  reachable : system.Reachable
  terms : system.pool.settings.terms.Narrow
  window : system.pool.ledger.window.TotalsLe maxAmount
  rewards : system.pool.rewards.InRange
  stakes : system.env.stakes.Narrow

theorem Narrow.step (hnarrow : system.Narrow) (hsupply : system.env.stakes.supply ≤ maxAmount)
    (himport : ∀ caller slot period, call = .importPeriod caller slot period → period.InRange) :
    (system.step call).2.Narrow where
  reachable := hnarrow.reachable.step
  terms := narrow_step hnarrow.terms
  window :=
    (step_posting system call).totalsLe hnarrow.reachable.wellFormed.toAligned hnarrow.window himport
  rewards := inRange_step hnarrow.rewards hsupply
  stakes := narrow_stakes_step hnarrow.stakes hsupply

theorem Narrow.run (hnarrow : system.Narrow) {calls : List Call}
    (himports : ∀ caller slot period, .importPeriod caller slot period ∈ calls → period.InRange)
    (hsupply : ∀ before, before <+: calls →
      (system.run before).2.env.stakes.supply ≤ maxAmount) :
    (system.run calls).2.Narrow := by
  induction calls generalizing system with
  | nil => exact hnarrow
  | cons call calls ih =>
      have hnext : (system.step call).2.Narrow := by
        refine hnarrow.step (hsupply [] (List.nil_prefix)) fun caller slot period hcall => ?_
        exact himports caller slot period (hcall ▸ List.mem_cons_self)
      refine ih hnext (fun caller slot period hmem => ?_) fun before hbefore => ?_
      · exact himports caller slot period (List.mem_cons_of_mem _ hmem)
      · exact hsupply (call :: before) ((List.prefix_cons_inj call).mpr hbefore)

/-- A new pool holds nothing. -/
theorem totalsLe_create {settings : Settings} {now : Timestamp} {limit : Amount}
    (hcreate : Pool.create settings now = .ok system.pool) :
    system.pool.ledger.window.TotalsLe limit := by
  intro index
  rw [recent_create hcreate]
  split <;> exact Period.totalsLe_opened _ _

theorem narrow_of_create {settings : Settings} {now : Timestamp}
    (hcreate : Pool.create settings now = .ok system.pool) (hterms : settings.terms.Narrow)
    (hstakes : system.env.stakes.Narrow) : system.Narrow where
  reachable := .created hcreate
  terms := by
    rw [(create_ok hcreate).1]
    exact hterms
  window := totalsLe_create hcreate
  rewards := by
    rw [(pool_of_create hcreate).1]
    exact ⟨Nat.zero_le _, Nat.zero_le _, Nat.zero_le _, by simp, Nat.zero_le _, Nat.zero_le _⟩
  stakes := hstakes

end System

end FeeDistribution
