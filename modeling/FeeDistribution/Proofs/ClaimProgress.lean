import FeeDistribution.Proofs.Shares

/-!
# From one close to the next

Between two closes deposits go into the open period and claims are paid from the closed ones.
`Ledger.Progress` describes such a ledger in terms of an earlier one, the start: by the accounts
that were paid by then and by what was put in.  As long as what is left suffices for all accounts,
the next claim is planned as it would have been at the start (`Progress.planClaim_eq`), and the
description does not depend on the order in which the accounts were paid (`Progress.unique`).
-/

namespace FeeDistribution

namespace Period

variable {period : Period} {fees rewards moreFees moreRewards : Amount}

theorem claim_claim :
    (period.claim fees rewards).claim moreFees moreRewards =
      period.claim (fees + moreFees) (rewards + moreRewards) := by
  simp [claim, Pot.claim, Nat.add_assoc]

theorem raise_raise :
    (period.raise fees rewards).raise moreFees moreRewards =
      period.raise (fees + moreFees) (rewards + moreRewards) := by
  simp [raise, Pot.raise, Nat.add_assoc]

end Period

namespace Ledger

variable {start ledger next other : Ledger} {shares : Shares} {account : Account}
  {claimants others : List Account} {deposits : Revenue → Amount}
  {shareOn : PeriodId → Amount} {plan : ClaimPlan} {previous : PeriodId} {revenue : Revenue}

/-- The plan of the claim of an account at these shares, if there is one. -/
def planned? (ledger : Ledger) (shares : Shares) (account : Account) : Option ClaimPlan :=
  (ledger.planClaim account (shares account)).toOption

/-- A ledger is what another one was at the start, except that some accounts were paid what they
were due at the start, and something was put into the open period. -/
structure Progress (start : Ledger) (shares : Shares) (claimants : List Account)
    (deposits : Revenue → Amount) (ledger : Ledger) : Prop where
  head_eq : ledger.window.head = start.window.head
  length_eq : ledger.window.length = start.window.length
  current : ledger.window.recent 0 =
    (start.window.recent 0).raise (deposits .fees) (deposits .rewards)
  closed : ∀ index, 1 ≤ index → ledger.window.recent index =
    (start.window.recent index).claim
      (claimants.map fun account => start.owed shares account index .fees).sum
      (claimants.map fun account => start.owed shares account index .rewards).sum
  watermark_eq : ∀ account, ledger.watermark account =
    if account ∈ claimants then (start.window.recent 1).id else start.watermark account

namespace Progress

theorem refl (start : Ledger) : start.Progress shares [] (fun _ => 0) start where
  head_eq := rfl
  length_eq := rfl
  current := rfl
  closed := fun _ _ => rfl
  watermark_eq := fun _ => (if_neg List.not_mem_nil).symm

variable (progress : start.Progress shares claimants deposits ledger)
include progress

theorem id_eq {index : Nat} (hindex : 1 ≤ index) :
    (ledger.window.recent index).id = (start.window.recent index).id := by
  rw [progress.closed index hindex, Period.id_claim]

theorem watermark_of_notMem (haccount : account ∉ claimants) :
    ledger.watermark account = start.watermark account := by
  rw [progress.watermark_eq, if_neg haccount]

/-- An account that was not yet paid is owed what it was owed at the start. -/
theorem owed_eq (haccount : account ∉ claimants) (index : Nat) (revenue : Revenue) :
    ledger.owed shares account index revenue = start.owed shares account index revenue := by
  unfold owed
  rw [progress.watermark_of_notMem haccount]
  by_cases hindex : 1 ≤ index
  · rw [progress.closed index hindex, Period.pot_claim, Pot.due_claim]
    rfl
  · rw [if_neg fun h => hindex h.1, if_neg fun h => hindex h.1]

/-- The closed periods above its watermark are the same as at the start, but for what was claimed.
-/
theorem claimable_eq (haccount : account ∉ claimants) :
    ledger.claimable account =
      (start.claimable account).map fun row => (row.1, ledger.window.recent row.1) :=
  claimable_of_ids progress.length_eq (fun _ => progress.id_eq)
    (progress.watermark_of_notMem haccount)

/-- The claim of an account that was not yet paid is planned as it was at the start. -/
theorem planClaim_eq (haccount : account ∉ claimants) (hstart : start.SharedOut shares)
    (hshared : ledger.SharedOut shares) (hbounded : shares.Bounded)
    (hshares : ∀ row ∈ ledger.claimable account, shareOn row.2.id = shares account row.2.id) :
    ledger.planClaim account shareOn = start.planClaim account (shares account) := by
  have howed : ledger.entitlements account shareOn =
      start.entitlements account (shares account) := by
    -- what is left limits neither plan, so what others have claimed does not matter
    rw [entitlements_eq_dues hshared hbounded hshares,
      entitlements_eq_dues hstart hbounded fun _ _ => rfl, progress.claimable_eq haccount,
      List.mapM_map]
    refine Fallible.mapM_congr fun row hrow => ?_
    obtain ⟨hindex, _, hread, _⟩ := mem_claimable hrow
    rw [Function.comp_apply, progress.closed row.1 hindex, hread, Period.dues_claim,
      Period.id_claim]
  have hid := progress.id_eq (Nat.le_refl 1)
  simp only [planClaim, Period.Filled, hid, howed]

/-- A claim adds its account to those that were paid. -/
theorem claim (wf : ledger.window.WellFormed) (haccount : account ∉ claimants)
    (hshared : ledger.SharedOut shares) (hbounded : shares.Bounded)
    (hshares : ∀ row ∈ ledger.claimable account, shareOn row.2.id = shares account row.2.id)
    (hplan : ledger.planClaim account shareOn = .ok plan)
    (hcommit : ledger.commitClaim plan = .ok (previous, next)) :
    start.Progress shares (claimants ++ [account]) deposits next := by
  have hrecent := recent_commitClaim wf hshared hbounded hshares hplan hcommit
  refine ⟨(head_commitClaim hcommit).trans progress.head_eq,
    (length_commitClaim hcommit).trans progress.length_eq, ?_, ?_, ?_⟩
  · rw [hrecent, ← progress.current]
    rfl
  · intro index hindex
    rw [hrecent, progress.owed_eq haccount, progress.owed_eq haccount,
      progress.closed index hindex, Period.claim_claim]
    simp
  · intro other
    have hnewest := progress.id_eq (Nat.le_refl 1)
    rw [watermark_commitClaim wf hplan hcommit, (planClaim_ok hplan).2.2.2.2.2, hnewest,
      progress.watermark_eq]
    by_cases hother : account = other
    · simp [hother]
    · simp [hother, Ne.symm hother]

/-- A deposit adds to what was put into the open period. -/
theorem deposited {fees rewards : Amount} (aligned : ledger.window.Aligned)
    (hdeposited : ledger.Deposited fees rewards next) :
    start.Progress shares claimants
      (fun revenue => deposits revenue + revenue.select fees rewards) next := by
  rcases hdeposited with ⟨rfl, rfl, rfl⟩ | rfl
  · have hnothing : (fun revenue => deposits revenue + revenue.select 0 0) = deposits := by
      funext revenue
      cases revenue <;> rfl
    rw [hnothing]
    exact progress
  · have hzero : 0 < ledger.window.length := Nat.zero_lt_of_lt aligned.two_le_length
    refine ⟨Window.head_set.trans progress.head_eq, Window.length_set.trans progress.length_eq,
      ?_, ?_, progress.watermark_eq⟩
    · show (ledger.window.set 0 _).recent 0 = _
      rw [Window.recent_set_self aligned hzero, Window.current, progress.current,
        Period.raise_raise]
      rfl
    · intro index hindex
      rw [← progress.closed index hindex]
      exact Window.recent_set_ne aligned hzero (Nat.ne_of_lt hindex)

/-- The window and the watermarks do not depend on the order in which the accounts were paid. -/
theorem unique (aligned : ledger.window.Aligned)
    (hother : start.Progress shares others deposits other) (hperm : claimants.Perm others) :
    ledger.window = other.window ∧ ledger.watermarks = other.watermarks := by
  have hsum : ∀ index revenue,
      (claimants.map fun account => start.owed shares account index revenue).sum =
        (others.map fun account => start.owed shares account index revenue).sum :=
    fun index revenue => (hperm.map _).sum_eq
  constructor
  · refine Window.eq_of_recent_eq aligned (progress.head_eq.trans hother.head_eq.symm)
      (progress.length_eq.trans hother.length_eq.symm) fun index => ?_
    cases index with
    | zero => rw [progress.current, hother.current]
    | succ index =>
        have hindex : 1 ≤ index + 1 := Nat.le_add_left 1 index
        rw [progress.closed _ hindex, hother.closed _ hindex, hsum, hsum]
  · refine Tally.ext_get fun account => ?_
    show ledger.watermark account = other.watermark account
    rw [progress.watermark_eq, hother.watermark_eq]
    exact if_congr hperm.mem_iff rfl rfl

end Progress

end Ledger

end FeeDistribution
