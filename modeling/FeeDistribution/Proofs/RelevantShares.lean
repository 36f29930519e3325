import FeeDistribution.Proofs.Lifecycle
import FeeDistribution.Proofs.Shares

/-!
# Which shares matter

What an account is owed depends on its debt shares, which come from outside and may be anything.
But only few of them can make a difference: those of the account itself, on periods that stand
closed in the window and that it has not yet claimed, and of each only as much as does not exceed
one.  Let two sources of shares agree there.  They may differ on the open period, on ids that were
skipped, on periods that were evicted or claimed, on all other accounts and beyond one, and whatever
is computed from them is the same (`Ledger.relevant_shares`).

## Strategy

A share is asked for only on the claimable periods (`Ledger.entitlements_congr`), and what it
entitles to depends on no more of it than one (`Ledger.entitlement_congr`).  All that is owed is
computed from the entitlements.  That the claimable periods are those of which the status says that
they are closed, and which are not claimed, is read off the window index by index
(`Ledger.payable_iff`).
-/

namespace FeeDistribution

namespace Ledger

variable {ledger : Ledger} {account : Account} {first second : PeriodId → Amount} {id : PeriodId}

/-! ## What can be claimed -/

/-- Whether an account can still claim from a period. -/
def Payable (ledger : Ledger) (account : Account) (id : PeriodId) : Prop :=
  ∃ index, ledger.ClaimableAt account index ∧ (ledger.window.recent index).id = id

theorem payable_of_mem_claimable {row : Nat × Period} (hrow : row ∈ ledger.claimable account) :
    ledger.Payable account row.2.id := by
  have hread := (mem_claimable hrow).2.2.1
  exact ⟨row.1, claimableAt_of_mem_claimable hrow, by rw [hread]⟩

/-- An account can claim what is closed and what it has not claimed. -/
theorem payable_iff (wf : ledger.window.WellFormed) :
    ledger.Payable account id ↔
      (ledger.window.status? id = some .closed ∨
        ledger.window.status? id = some .partiallyClaimed) ∧
      ledger.hasClaimed account id = false := by
  rw [wf.closed_iff, hasClaimed, decide_eq_false_iff_not, Nat.not_le]
  constructor
  · rintro ⟨index, ⟨hindex, hfilled, habove⟩, rfl⟩
    exact ⟨⟨index, hindex, hfilled, rfl⟩, habove⟩
  · rintro ⟨⟨index, hindex, hfilled, rfl⟩, habove⟩
    exact ⟨index, ⟨hindex, hfilled, habove⟩, rfl⟩

/-! ## What is computed -/

/-- A share above one counts as one. -/
theorem entitlement_congr {slot : Nat} {period : Period} {share other : Amount}
    (hsame : min share unit = min other unit) :
    entitlement slot period share = entitlement slot period other := by
  rw [entitlement, entitlement, hsame]

section Agree

variable (hagree : ∀ id, ledger.Payable account id → min (first id) unit = min (second id) unit)
include hagree

theorem entitlements_congr :
    ledger.entitlements account first = ledger.entitlements account second :=
  Fallible.mapM_congr fun _ hrow => entitlement_congr (hagree _ (payable_of_mem_claimable hrow))

theorem available_congr : ledger.available account first = ledger.available account second := by
  rw [available, available, entitlements_congr hagree]

theorem breakdown_congr (liveShare : Amount) :
    ledger.breakdown account first liveShare = ledger.breakdown account second liveShare := by
  rw [breakdown, breakdown, entitlements_congr hagree]

theorem planClaim_congr : ledger.planClaim account first = ledger.planClaim account second := by
  rw [planClaim, planClaim, entitlements_congr hagree]

end Agree

/-- Only the shares of the account on closed periods that it has not yet claimed make a difference,
and of each only as much as does not exceed one.  Where two sources of shares agree in this, the
account is owed the same from every period, the same in all, it is shown the same, and the same
claim is planned or refused for the same reason. -/
theorem relevant_shares (wf : ledger.window.WellFormed) (account : Account) :
    (∀ id, ledger.Payable account id ↔
      (ledger.window.status? id = some .closed ∨
        ledger.window.status? id = some .partiallyClaimed) ∧
      ledger.hasClaimed account id = false) ∧
    ∀ first second : Shares,
      (∀ id, ledger.Payable account id →
        min (first account id) unit = min (second account id) unit) →
      ledger.entitlements account (first account) =
          ledger.entitlements account (second account) ∧
        ledger.available account (first account) = ledger.available account (second account) ∧
        (∀ liveShare, ledger.breakdown account (first account) liveShare =
          ledger.breakdown account (second account) liveShare) ∧
        ledger.planClaim account (first account) = ledger.planClaim account (second account) :=
  ⟨fun _ => payable_iff wf, fun _ _ hagree => ⟨entitlements_congr hagree, available_congr hagree,
    breakdown_congr hagree, planClaim_congr hagree⟩⟩

end Ledger

namespace System

/-- In a window of two, period one was evicted, those before period seven and between it and period
nine were skipped, and period nine is open. -/
def sevenClosed : System :=
  (twoSlots.run [.fee 5, .closeRelayed .zero 7 0, .fee 3, .closeRelayed .zero 9 0]).2

/-- The null account has all of period seven, and nothing else. -/
def seventh : Shares :=
  fun account id => if account = .zero ∧ id = 7 then unit else 0

/-- A source of shares that gives every account twice of everything agrees where it matters: the
null account can claim what period seven collected and what it took over from period one.  One that
gives it half of period seven does not agree, and only half can be claimed. -/
theorem relevant_shares_sevenClosed :
    sevenClosed.pool.ledger.window.WellFormed ∧
      sevenClosed.pool.ledger.Payable .zero 7 ∧
      (∀ id, sevenClosed.pool.ledger.Payable .zero id →
        min (seventh .zero id) unit = min (2 * unit) unit) ∧
      sevenClosed.pool.ledger.available .zero (seventh .zero) = .ok (8, 0) ∧
      sevenClosed.pool.ledger.available .zero (fun _ => 2 * unit) = .ok (8, 0) ∧
      sevenClosed.pool.ledger.available .zero (fun _ => unit / 2) = .ok (4, 0) := by
  have wf : sevenClosed.pool.ledger.window.WellFormed := (reachable_twoSlots.run _).wellFormed
  obtain ⟨hpayable, hsame⟩ := Ledger.relevant_shares wf .zero
  have hagree : ∀ id, sevenClosed.pool.ledger.Payable .zero id →
      min (seventh .zero id) unit = min (2 * unit) unit := by
    rintro _ ⟨index, ⟨hindex, hfilled, _⟩, rfl⟩
    have hinside : index < 2 := Window.lt_length_of_filled hfilled
    obtain rfl : index = 1 := by omega
    decide
  have havailable : sevenClosed.pool.ledger.available .zero (seventh .zero) = .ok (8, 0) := by
    decide
  obtain ⟨_, htwice, _⟩ := hsame seventh (fun _ _ => 2 * unit) hagree
  exact ⟨wf, (hpayable 7).mpr ⟨.inl (by decide), by decide⟩, hagree, havailable,
    htwice ▸ havailable, by decide⟩

end System

end FeeDistribution
