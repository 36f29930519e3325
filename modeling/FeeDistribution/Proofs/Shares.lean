import FeeDistribution.Proofs.ProRata
import FeeDistribution.Proofs.Watermarks

/-!
# What accounts are due

A share of a closed period entitles to that part of what the period collected, as far as it is left.
If the shares of each period come to at most one, the second half of this sentence does not matter:
what is left always suffices.  A claim therefore does not depend on who claimed before.

## Strategy

The invariant is `SharedOut`: what was claimed from a period was due to accounts that can not claim
from it again, each once.  These together with one more account are due no more than the whole
(`sum_mul_div_le`), so what this account is due is still there (`SharedOut.suffices`).  The
invariant outlasts a rollover, which raises the total of a period that was already claimed from, for
then all that accounts are due rises as well.
-/

namespace FeeDistribution

/-- The share of every account on every period. -/
abbrev Shares := Account → PeriodId → Amount

/-- The shares of each period come to at most one. -/
def Shares.Bounded (shares : Shares) : Prop :=
  ∀ id (accounts : Finset Account), ∑ account ∈ accounts, shares account id ≤ unit

theorem Shares.Bounded.le_unit {shares : Shares} (hbounded : shares.Bounded) (account : Account)
    (id : PeriodId) : shares account id ≤ unit := by
  have hsingle := hbounded id {account}
  rwa [Finset.sum_singleton] at hsingle

/-! ## One pot -/

namespace Pot

variable {pot : Pot} {share amount : Amount}

/-- What a share entitles to, however much is left. -/
def due (pot : Pot) (share : Amount) : Amount :=
  share * pot.total / unit

theorem due_claim : (pot.claim amount).due share = pot.due share :=
  rfl

theorem due_le_due_raise : pot.due share ≤ (pot.raise amount).due share :=
  Nat.div_le_div_right (Nat.mul_le_mul_left _ (Nat.le_add_right _ _))

/-- The limit to what is left does not bind where enough is left. -/
theorem part_eq_multiply (hshare : share ≤ unit) (hleft : pot.due share ≤ pot.unclaimed) :
    pot.part (min share unit) = Decimal.multiply share pot.total := by
  rw [part, Nat.min_eq_left hshare]
  cases hdue : Decimal.multiply share pot.total with
  | error fault => rfl
  | ok amount =>
      have hamount : amount = pot.due share := Decimal.eq_of_mulDiv_eq_ok hdue
      show Except.ok (min amount pot.unclaimed) = .ok amount
      rw [hamount, Nat.min_eq_left hleft]

end Pot

/-! ## One period -/

namespace Period

variable {period : Period} {shares : Shares} {watermark next : Account → PeriodId}
  {account : Account} {revenue : Revenue} {share : Amount} {slot : Nat}

/-- What is left of each revenue covers what a share entitles to. -/
def Suffices (period : Period) (share : Amount) : Prop :=
  ∀ revenue, (period.pot revenue).due share ≤ (period.pot revenue).unclaimed

/-- What a share of a period entitles to, however much is left. -/
def dues (period : Period) (slot : Nat) (share : Amount) : Except Fault Entitlement := do
  let fees ← Decimal.multiply share period.fees.total
  let rewards ← Decimal.multiply share period.rewards.total
  pure { slot, id := period.id, fees, rewards }

/-- What was claimed does not change what accounts are due. -/
theorem dues_claim {fees rewards : Amount} :
    (period.claim fees rewards).dues slot share = period.dues slot share :=
  rfl

theorem dues_ok {owed : Entitlement} (hdues : period.dues slot share = .ok owed) :
    owed.slot = slot ∧ owed.id = period.id ∧
      ∀ revenue, owed.of revenue = (period.pot revenue).due share := by
  simp only [dues, Fallible.bind_eq_ok, Fallible.pure_eq_ok] at hdues
  obtain ⟨fees, hfees, rewards, hrewards, rfl⟩ := hdues
  refine ⟨rfl, rfl, fun revenue => ?_⟩
  cases revenue
  · exact Decimal.eq_of_mulDiv_eq_ok hfees
  · exact Decimal.eq_of_mulDiv_eq_ok hrewards

theorem entitlement_eq_dues (hshare : share ≤ unit) (hleft : period.Suffices share) :
    Ledger.entitlement slot period share = period.dues slot share := by
  have hfees : period.fees.part (min share unit) = _ := Pot.part_eq_multiply hshare (hleft .fees)
  have hrewards : period.rewards.part (min share unit) = _ :=
    Pot.part_eq_multiply hshare (hleft .rewards)
  rw [Ledger.entitlement, hfees, hrewards]
  rfl

/-- What was claimed from a period was due to some accounts, each once, that can not claim from it
again. -/
def SharedOut (period : Period) (watermark : Account → PeriodId) (shares : Shares) : Prop :=
  ∀ revenue, ∃ claimants : Finset Account,
    (∀ account ∈ claimants, period.id ≤ watermark account) ∧
      (period.pot revenue).claimed ≤
        ∑ account ∈ claimants, (period.pot revenue).due (shares account period.id)

theorem sharedOut_of_unclaimed (hunclaimed : ∀ revenue, (period.pot revenue).claimed = 0) :
    period.SharedOut watermark shares := by
  intro revenue
  refine ⟨∅, fun account haccount => absurd haccount (Finset.notMem_empty account), ?_⟩
  rw [hunclaimed]
  exact Nat.zero_le _

theorem sharedOut_opened {id : PeriodId} {start : Timestamp} :
    (opened id start).SharedOut watermark shares :=
  sharedOut_of_unclaimed fun revenue => by cases revenue <;> rfl

theorem sharedOut_empty : empty.SharedOut watermark shares :=
  sharedOut_of_unclaimed fun revenue => by cases revenue <;> rfl

theorem SharedOut.mono (hshared : period.SharedOut watermark shares)
    (hnext : ∀ account, watermark account ≤ next account) : period.SharedOut next shares := by
  intro revenue
  obtain ⟨claimants, hclaimants, hclaimed⟩ := hshared revenue
  exact ⟨claimants, fun account haccount => (hclaimants account haccount).trans (hnext account),
    hclaimed⟩

theorem SharedOut.raise {fees rewards : Amount} (hshared : period.SharedOut watermark shares) :
    (period.raise fees rewards).SharedOut watermark shares := by
  intro revenue
  obtain ⟨claimants, hclaimants, hclaimed⟩ := hshared revenue
  refine ⟨claimants, hclaimants, ?_⟩
  rw [pot_raise]
  exact hclaimed.trans (Finset.sum_le_sum fun account _ => Pot.due_le_due_raise)

/-- An account that claims what it is due joins those who did. -/
theorem SharedOut.claim (hshared : period.SharedOut watermark shares)
    (habove : watermark account < period.id) (hnext : ∀ other, watermark other ≤ next other)
    (hreached : period.id ≤ next account) :
    (period.claim (period.fees.due (shares account period.id))
      (period.rewards.due (shares account period.id))).SharedOut next shares := by
  intro revenue
  obtain ⟨claimants, hclaimants, hclaimed⟩ := hshared revenue
  -- its watermark is still below the period, so the account is none of those who claimed
  have hnew : account ∉ claimants := fun hmem => (hclaimants account hmem).not_gt habove
  refine ⟨insert account claimants, ?_, ?_⟩
  · intro other hother
    rcases Finset.mem_insert.mp hother with rfl | hother
    · exact hreached
    · exact (hclaimants other hother).trans (hnext other)
  · rw [Finset.sum_insert hnew, pot_claim]
    have hdue : revenue.select (period.fees.due (shares account period.id))
        (period.rewards.due (shares account period.id)) =
          (period.pot revenue).due (shares account period.id) := by
      cases revenue <;> rfl
    rw [hdue, Nat.add_comm]
    exact Nat.add_le_add_right hclaimed _

/-- What is left suffices for every account that may still claim. -/
theorem SharedOut.suffices (hshared : period.SharedOut watermark shares)
    (hbounded : shares.Bounded) (habove : watermark account < period.id) :
    period.Suffices (shares account period.id) := by
  intro revenue
  obtain ⟨claimants, hclaimants, hclaimed⟩ := hshared revenue
  have hnew : account ∉ claimants := fun hmem => (hclaimants account hmem).not_gt habove
  refine Nat.le_sub_of_add_le ?_
  calc (period.pot revenue).due (shares account period.id) + (period.pot revenue).claimed
      ≤ (period.pot revenue).due (shares account period.id) +
          ∑ other ∈ claimants, (period.pot revenue).due (shares other period.id) :=
        Nat.add_le_add_left hclaimed _
    _ = ∑ other ∈ insert account claimants, (period.pot revenue).due (shares other period.id) :=
        by rw [Finset.sum_insert hnew]
    _ ≤ (period.pot revenue).total := sum_mul_div_le _ _ (hbounded period.id _)

end Period

namespace Ledger

variable {ledger next : Ledger} {shares : Shares} {account : Account}
  {shareOn : PeriodId → Amount} {plan : ClaimPlan} {previous : PeriodId} {revenue : Revenue}

/-! ## A plan can be carried out -/

theorem part_ok {pot : Pot} {share amount : Amount} (hpart : pot.part share = .ok amount) :
    amount = min (pot.due share) pot.unclaimed := by
  obtain ⟨due, hdue, hamount⟩ := Fallible.bind_eq_ok.mp hpart
  rw [← Fallible.pure_eq_ok.mp hamount, Decimal.eq_of_mulDiv_eq_ok hdue]
  rfl

/-- From a period is owed what a share is due, as far as it is left. -/
theorem of_entitlement {slot : Nat} {period : Period} {share : Amount} {owed : Entitlement}
    (howed : entitlement slot period share = .ok owed) (revenue : Revenue) :
    owed.of revenue =
      min ((period.pot revenue).due (min share unit)) (period.pot revenue).unclaimed := by
  simp only [entitlement, Fallible.bind_eq_ok, Fallible.pure_eq_ok] at howed
  obtain ⟨fees, hfees, rewards, hrewards, rfl⟩ := howed
  cases revenue
  · exact part_ok hfees
  · exact part_ok hrewards

theorem of_le_unclaimed {slot : Nat} {period : Period} {share : Amount} {owed : Entitlement}
    (howed : entitlement slot period share = .ok owed) (revenue : Revenue) :
    owed.of revenue ≤ (period.pot revenue).unclaimed := by
  rw [of_entitlement howed]
  exact Nat.min_le_right _ _

/-- The commit of a plan just made finds every period as the plan left it. -/
theorem commitClaim_of_planClaim (hplan : ledger.planClaim account shareOn = .ok plan) :
    ∃ next, ledger.commitClaim plan = .ok (ledger.watermark account, next) := by
  obtain ⟨_, hentitlements, _, _, haccount, _⟩ := planClaim_ok hplan
  have hchecks : ∀ owed ∈ plan.entitlements, ledger.checkEntitlement owed = .ok () := by
    intro owed howed
    obtain ⟨row, hrow, hentitlement⟩ := (Fallible.mem_of_mapM hentitlements).1 owed howed
    obtain ⟨_, hfilled, hread, _⟩ := mem_claimable hrow
    have hindex : row.1 < ledger.window.length := Window.lt_length_of_filled (hread ▸ hfilled)
    obtain ⟨hslot, hid⟩ := entitlement_ok hentitlement
    rw [checkEntitlement_eq_ok, hslot, hid, hread]
    exact ⟨hindex, rfl, of_le_unclaimed hentitlement .fees, of_le_unclaimed hentitlement .rewards⟩
  obtain ⟨⟨previous, next⟩, hcommit⟩ := exists_commitClaim.mpr hchecks
  obtain ⟨_, rfl, _⟩ := commitClaim_ok hcommit
  exact ⟨next, haccount ▸ hcommit⟩

/-! ## The invariant -/

/-- What was claimed from the periods in the window was due to accounts that can not claim it
again. -/
def SharedOut (ledger : Ledger) (shares : Shares) : Prop :=
  ∀ index, (ledger.window.recent index).SharedOut ledger.watermark shares

theorem sharedOut_create {length : Nat} {start : Timestamp}
    (hcreate : Ledger.create length start = .ok ledger) : ledger.SharedOut shares := by
  obtain ⟨window, hwindow, hledger⟩ := Fallible.bind_eq_ok.mp hcreate
  obtain rfl : { window := window : Ledger } = ledger := Fallible.pure_eq_ok.mp hledger
  intro index
  show (window.recent index).SharedOut _ shares
  rw [(Window.create_ok hwindow).2.2]
  split
  · exact Period.sharedOut_opened
  · exact Period.sharedOut_empty

theorem SharedOut.deposited {fees rewards : Amount} (hshared : ledger.SharedOut shares)
    (aligned : ledger.window.Aligned) (hdeposited : ledger.Deposited fees rewards next) :
    next.SharedOut shares := by
  rcases hdeposited with ⟨_, _, rfl⟩ | rfl
  · exact hshared
  · intro index
    show ((ledger.window.set 0 _).recent index).SharedOut ledger.watermark shares
    rw [Window.recent_set aligned (Nat.zero_lt_of_lt aligned.two_le_length)]
    split
    · exact (hshared 0).raise
    · exact hshared index

theorem SharedOut.closedWindow {new : PeriodId} {start : Timestamp}
    (hshared : ledger.SharedOut shares) (aligned : ledger.window.Aligned) (index : Nat) :
    ((ledger.closedWindow new start).recent index).SharedOut ledger.watermark shares := by
  cases index with
  | zero =>
      rw [Ledger.closedWindow, Window.recent_push_zero aligned.set]
      exact Period.sharedOut_opened
  | succ index =>
      by_cases hindex : index + 1 < ledger.window.length
      · rw [recent_closedWindow_succ aligned hindex]
        split
        · exact (hshared _).raise
        · exact hshared index
      · rw [Ledger.closedWindow, Window.recent_of_length_le (by simpa using hindex)]
        exact Period.sharedOut_empty

/-! ## What a claim takes -/

/-- What an account is due of a revenue from the period at an index, if it is closed and above the
watermark of the account. -/
def owed (ledger : Ledger) (shares : Shares) (account : Account) (index : Nat)
    (revenue : Revenue) : Amount :=
  if 1 ≤ index ∧ (ledger.window.recent index).Filled ∧
      ledger.watermark account < (ledger.window.recent index).id then
    ((ledger.window.recent index).pot revenue).due
      (shares account (ledger.window.recent index).id)
  else 0

/-- Whatever is owed is still there. -/
theorem SharedOut.suffices (hshared : ledger.SharedOut shares) (hbounded : shares.Bounded)
    {row : Nat × Period} (hrow : row ∈ ledger.claimable account) :
    row.2.Suffices (shares account row.2.id) := by
  obtain ⟨_, _, hread, habove⟩ := mem_claimable hrow
  rw [← hread] at habove ⊢
  exact (hshared row.1).suffices hbounded habove

theorem entitlements_eq_dues (hshared : ledger.SharedOut shares) (hbounded : shares.Bounded)
    (hshares : ∀ row ∈ ledger.claimable account, shareOn row.2.id = shares account row.2.id) :
    ledger.entitlements account shareOn =
      (ledger.claimable account).mapM fun row => row.2.dues row.1 (shares account row.2.id) := by
  refine Fallible.mapM_congr fun row hrow => ?_
  show entitlement row.1 row.2 (shareOn row.2.id) = _
  rw [hshares row hrow]
  exact Period.entitlement_eq_dues (hbounded.le_unit account row.2.id)
    (hshared.suffices hbounded hrow)

section Claim

variable (wf : ledger.window.WellFormed) (hshared : ledger.SharedOut shares)
  (hbounded : shares.Bounded)
  (hshares : ∀ row ∈ ledger.claimable account, shareOn row.2.id = shares account row.2.id)
  (hplan : ledger.planClaim account shareOn = .ok plan)
include hshared hbounded hshares hplan

theorem dues_of_planClaim :
    (ledger.claimable account).mapM (fun row => row.2.dues row.1 (shares account row.2.id)) =
      .ok plan.entitlements := by
  rw [← entitlements_eq_dues hshared hbounded hshares]
  exact (planClaim_ok hplan).2.1

/-- A plan names all that its account is due, and no more. -/
theorem of_planClaim (revenue : Revenue) :
    plan.of revenue = ((ledger.claimable account).map fun row =>
      (row.2.pot revenue).due (shares account row.2.id)).sum := by
  have hdues := Fallible.forall₂_of_mapM (dues_of_planClaim hshared hbounded hshares hplan)
  have hrows : plan.entitlements.map (·.of revenue) = (ledger.claimable account).map fun row =>
      (row.2.pot revenue).due (shares account row.2.id) := by
    generalize ledger.claimable account = rows at hdues
    generalize plan.entitlements = entitlements at hdues
    induction hdues with
    | nil => rfl
    | cons hdue _ ih => rw [List.map_cons, List.map_cons, (Period.dues_ok hdue).2.2, ih]
  rw [← hrows]
  exact (sumEntitlements_ok (planClaim_ok hplan).2.2.1 revenue).symm

/-- From every index a plan takes what is owed there. -/
theorem sumOf_planClaim (index : Nat) (revenue : Revenue) :
    Period.sumOf (plan.entitlements.filter fun owed => decide (index = owed.slot)) revenue =
      ledger.owed shares account index revenue := by
  unfold owed
  split
  · rename_i hclaimable
    obtain ⟨owed, howed, hsum⟩ := exists_sumOf_planClaim hplan hclaimable
    obtain ⟨hindex, hfilled, habove⟩ := hclaimable
    have hrow : (index, ledger.window.recent index) ∈ ledger.claimable account :=
      mem_claimable_of_above hindex hfilled habove
    rw [hshares _ hrow, Period.entitlement_eq_dues (hbounded.le_unit account _)
      (hshared.suffices hbounded hrow)] at howed
    rw [hsum, (Period.dues_ok howed).2.2]
  · exact sumOf_planClaim_eq_zero hplan ‹_› revenue

include wf

/-- A claim takes from every period what its account is owed there. -/
theorem recent_commitClaim (hcommit : ledger.commitClaim plan = .ok (previous, next))
    (index : Nat) :
    next.window.recent index =
      (ledger.window.recent index).claim (ledger.owed shares account index .fees)
        (ledger.owed shares account index .rewards) := by
  have hsum := sumOf_planClaim hshared hbounded hshares hplan index
  rw [recent_takeOut wf.toAligned hcommit, hsum, hsum]

theorem SharedOut.commitClaim (hcommit : ledger.commitClaim plan = .ok (previous, next)) :
    next.SharedOut shares := by
  intro index
  have hraised := watermark_le_commitClaim hcommit
  rw [recent_commitClaim wf hshared hbounded hshares hplan hcommit index]
  unfold owed
  split
  · rename_i hclosed
    obtain ⟨hindex, hfilled, habove⟩ := hclosed
    have hreached : (ledger.window.recent index).id ≤ next.watermark account := by
      rw [watermark_commitClaim wf hplan hcommit, if_pos rfl, (planClaim_ok hplan).2.2.2.2.2]
      exact id_le_of_mem_claimable wf (mem_claimable_of_above hindex hfilled habove)
    exact (hshared index).claim habove hraised hreached
  · -- nothing is taken here, and those who claimed before are still above
    rw [Period.claim_zero]
    exact (hshared index).mono hraised

end Claim

end Ledger

end FeeDistribution
