import FeeDistribution.Proofs.Burns
import FeeDistribution.Proofs.Shares

/-!
# The sum of all totals

A rollover adds what is left in the oldest period to the *total* of the receiving one, from which
accounts may have claimed already; a remainder that rolls on and on could be counted again each
time.  It is not, since the oldest period leaves the window with its own total.  `Window.gross`, the
sum of the totals of all periods in a window, is thus raised by deposits only (`Posting.gross_le`).

Whatever the ledger adds up is a part of this sum: one period, the unclaimed remainders, the
entitlements of an account.  If it fits an amount (`Ledger.Fits`), no operation of the ledger
overflows.
-/

namespace FeeDistribution

/-! ## The sum of all totals -/

namespace Window

variable {window : Window} {revenue : Revenue}

/-- The sum of the totals of all periods in a window. -/
def gross (window : Window) (revenue : Revenue) : Int :=
  (window.toList.map fun period => ((period.pot revenue).total : Int)).sum

theorem gross_nonneg : 0 ≤ window.gross revenue := by
  apply List.sum_nonneg
  simp

theorem total_le_gross (index : Nat) :
    (((window.recent index).pot revenue).total : Int) ≤ window.gross revenue := by
  by_cases hindex : index < window.length
  · apply List.single_le_sum
    · simp
    · exact List.mem_map.mpr ⟨_, mem_toList.mpr ⟨index, hindex, rfl⟩, rfl⟩
  · rw [recent_of_length_le (Nat.le_of_not_lt hindex)]
    cases revenue <;> exact gross_nonneg

theorem held_le_gross : window.held revenue ≤ window.gross revenue := by
  apply List.sum_le_sum
  intro period _
  simp [Pot.left]

/-- What is left in the closed periods together. -/
theorem WellFormed.sum_unclaimed_le_gross (wf : window.WellFormed) (revenue : Revenue) :
    ((window.closed.map fun row => (row.2.pot revenue).unclaimed).sum : Nat) ≤
      window.gross revenue := by
  have hheld := wf.held_eq revenue
  have hopen : ((window.current.pot revenue).unclaimed : Int) =
      (window.current.pot revenue).left := Pot.unclaimed_eq_left (wf.covered 0 revenue)
  have hgross : window.held revenue ≤ window.gross revenue := held_le_gross
  omega

theorem gross_takeOut {entitlements : List Entitlement} (aligned : window.Aligned)
    (hslots : ∀ owed ∈ entitlements, owed.slot < window.length) :
    (window.modifyAll Period.takeOut entitlements).gross revenue = window.gross revenue := by
  rw [gross, gross, toList, toList, length_modifyAll, List.map_map, List.map_map]
  congr 2
  funext index
  simp only [Function.comp_apply]
  rw [recent_takeOut aligned hslots, Period.pot_claim]
  rfl

end Window

namespace Ledger

variable {ledger next : Ledger} {revenue : Revenue}

theorem gross_deposited {fees rewards : Amount} (aligned : ledger.window.Aligned)
    (hdeposited : ledger.Deposited fees rewards next) :
    next.window.gross revenue = ledger.window.gross revenue + revenue.select fees rewards := by
  rcases hdeposited with ⟨rfl, rfl, rfl⟩ | rfl
  · cases revenue <;> exact (add_zero _).symm
  · have hzero : 0 < ledger.window.length := Nat.zero_lt_of_lt aligned.two_le_length
    rw [setCurrent, Window.gross, Window.sum_set _ aligned hzero, Window.gross, Period.pot_raise,
      Pot.raise, Window.current]
    push_cast
    ring

/-- The receiving period gains no more than leaves with the oldest one. -/
theorem gross_closedWindow_le {new : PeriodId} {start : Timestamp}
    (aligned : ledger.window.Aligned) :
    (ledger.closedWindow new start).gross revenue ≤ ledger.window.gross revenue := by
  have htwo := aligned.two_le_length
  have hreceiving : ledger.window.length - 2 < ledger.window.length := by omega
  have holdest : (ledger.window.set (ledger.window.length - 2) ledger.receivingRaised).recent
      (ledger.window.length - 1) = ledger.oldest :=
    Window.recent_set_ne aligned hreceiving (by omega)
  have hopened : ((Period.opened new start).pot revenue).total = 0 := by cases revenue <;> rfl
  have hraised : (ledger.receivingRaised.pot revenue).total =
      (ledger.receiving.pot revenue).total + (ledger.oldest.pot revenue).unclaimed := by
    cases revenue <;> rfl
  have hrolled : ((ledger.oldest.pot revenue).unclaimed : Int) ≤
      (ledger.oldest.pot revenue).total := Int.ofNat_le.mpr (Nat.sub_le _ _)
  have hgross : (ledger.closedWindow new start).gross revenue =
      ledger.window.gross revenue + (ledger.oldest.pot revenue).unclaimed -
        (ledger.oldest.pot revenue).total := by
    rw [closedWindow, Window.gross, Window.sum_push _ aligned.set, Window.length_set, holdest,
      hopened, Window.sum_set _ aligned hreceiving, hraised, Window.gross, receiving]
    push_cast
    ring
  omega

theorem gross_commitClaim {plan : ClaimPlan} {previous : PeriodId} (aligned : ledger.window.Aligned)
    (hcommit : ledger.commitClaim plan = .ok (previous, next)) :
    next.window.gross revenue = ledger.window.gross revenue := by
  obtain ⟨hchecks, _, rfl⟩ := commitClaim_ok hcommit
  exact Window.gross_takeOut aligned fun owed howed => (checkEntitlement_ok (hchecks owed howed)).1

end Ledger

namespace Call

/-- The amount of a revenue that a call offers; it is deposited if the call succeeds. -/
def offered (revenue : Revenue) (call : Call) : Amount :=
  call.deposited revenue (.ok .done)

theorem deposited_le_offered {revenue : Revenue} {call : Call} {result : Except Fault Reply} :
    call.deposited revenue result ≤ call.offered revenue := by
  cases result with
  | error fault =>
      rw [deposited_error]
      exact Nat.zero_le _
  | ok reply => cases call <;> exact Nat.le_refl _

end Call

/-- Only deposits raise the sum of all totals. -/
theorem Posting.gross_le {ledger next : Ledger} {payments nextPayments : Payments} {call : Call}
    {result : Except Fault Reply} {revenue : Revenue}
    (hposting : Posting ledger payments call result next nextPayments)
    (aligned : ledger.window.Aligned)
    (himport : ∀ caller slot period, call ≠ .importPeriod caller slot period) :
    next.window.gross revenue ≤ ledger.window.gross revenue + call.deposited revenue result := by
  have hgrows : ledger.window.gross revenue ≤
      ledger.window.gross revenue + call.deposited revenue result := by
    exact le_add_of_nonneg_right (Int.natCast_nonneg _)
  cases hposting with
  | refused | aside | settled | outside | finishImport => exact hgrows
  | fee hrecord =>
      exact (Ledger.gross_deposited aligned (Ledger.recordFee_ok hrecord)).le
  | reward hrecord =>
      exact (Ledger.gross_deposited aligned (Ledger.recordReward_ok hrecord)).le
  | closed _ hcommit =>
      obtain ⟨_, _, rfl⟩ := Ledger.commitClose_ok hcommit
      exact (Ledger.gross_closedWindow_le aligned).trans hgrows
  | claimed _ _ hcommit => exact (Ledger.gross_commitClaim aligned hcommit).le.trans hgrows
  | unpaid _ _ hcommit =>
      rw [Ledger.revertClaim_of_commitClaim hcommit]
      exact hgrows
  | importPeriod => exact absurd rfl (himport _ _ _)
  | importWatermark himported =>
      obtain ⟨_, rfl⟩ := Ledger.importWatermark_ok himported
      exact hgrows

/-! ## What can be computed -/

namespace Ledger

variable {ledger : Ledger} {account : Account} {shareOn : PeriodId → Amount}

/-- A share of a period can be computed, however large the share. -/
theorem exists_entitlement {period : Period}
    (htotal : ∀ revenue, (period.pot revenue).total ≤ Quantity.maxAmount) (slot : Nat)
    (share : Amount) : ∃ owed, entitlement slot period share = .ok owed := by
  have hfees := Decimal.multiply_eq_ok (Nat.min_le_right share unit) (htotal .fees)
  have hrewards := Decimal.multiply_eq_ok (Nat.min_le_right share unit) (htotal .rewards)
  simp only [entitlement, Pot.part, Fallible.bind_eq_ok, Fallible.pure_eq_ok]
  exact ⟨_, _, ⟨_, hfees, rfl⟩, _, ⟨_, hrewards, rfl⟩, rfl⟩

/-- Entitlements can be added up if both sums fit. -/
theorem exists_sumEntitlements {entitlements : List Entitlement}
    (hfits : ∀ revenue, (entitlements.map (·.of revenue)).sum ≤ Quantity.maxAmount) :
    ∃ total, sumEntitlements entitlements = .ok total := by
  -- the sums may start anywhere
  have key : ∀ (entitlements : List Entitlement) (start : Amount × Amount),
      (∀ revenue : Revenue, revenue.select start.1 start.2 +
        (entitlements.map (·.of revenue)).sum ≤ Quantity.maxAmount) →
      ∃ total, entitlements.foldlM
        (fun (total : Amount × Amount) (owed : Entitlement) => do
          let fees ← Decimal.add total.1 owed.fees
          let rewards ← Decimal.add total.2 owed.rewards
          pure (fees, rewards)) start = .ok total := by
    intro entitlements
    induction entitlements with
    | nil => exact fun start _ => ⟨start, rfl⟩
    | cons owed entitlements ih =>
        intro start hstart
        simp only [List.map_cons, List.sum_cons, ← Nat.add_assoc] at hstart
        have hfees : Decimal.add start.1 owed.fees = .ok (start.1 + owed.fees) :=
          Fallible.add_eq_ok (le_trans (Nat.le_add_right _ _) (hstart .fees))
        have hrewards : Decimal.add start.2 owed.rewards = .ok (start.2 + owed.rewards) :=
          Fallible.add_eq_ok (le_trans (Nat.le_add_right _ _) (hstart .rewards))
        rw [List.foldlM_cons, hfees, hrewards]
        refine ih (start.1 + owed.fees, start.2 + owed.rewards) fun revenue => ?_
        cases revenue
        · exact hstart .fees
        · exact hstart .rewards
  refine key entitlements (0, 0) fun revenue => ?_
  cases revenue <;> simpa [Revenue.select] using hfits _

/-- The totals in the window of a ledger fit an amount together. -/
structure Fits (ledger : Ledger) : Prop where
  wellFormed : ledger.window.WellFormed
  gross_le : ∀ revenue, ledger.window.gross revenue ≤ Quantity.maxAmount

namespace Fits

theorem total_le (hfits : ledger.Fits) (index : Nat) (revenue : Revenue) :
    ((ledger.window.recent index).pot revenue).total ≤ Quantity.maxAmount := by
  exact_mod_cast (Window.total_le_gross index).trans (hfits.gross_le revenue)

theorem sum_unclaimed_le (hfits : ledger.Fits) (revenue : Revenue) :
    (ledger.window.closed.map fun row => (row.2.pot revenue).unclaimed).sum ≤
      Quantity.maxAmount := by
  exact_mod_cast (hfits.wellFormed.sum_unclaimed_le_gross revenue).trans (hfits.gross_le revenue)

/-- The rollover of any close fits. -/
theorem rolloverFits (hfits : ledger.Fits) : ledger.RolloverFits := by
  have htwo := hfits.wellFormed.two_le_length
  have hindex : ledger.window.length - 2 + 1 < ledger.window.length := by omega
  -- the raised period is bounded as one of the window after the close, whatever opens in front
  have hraised : ∀ revenue, (ledger.receivingRaised.pot revenue).total ≤ Quantity.maxAmount := by
    intro revenue
    have hread : (ledger.closedWindow 0 0).recent (ledger.window.length - 2 + 1) =
        ledger.receivingRaised :=
      (recent_closedWindow_succ hfits.wellFormed.toAligned hindex).trans (if_pos rfl)
    rw [← hread]
    exact_mod_cast (Window.total_le_gross _).trans
      ((gross_closedWindow_le hfits.wellFormed.toAligned).trans (hfits.gross_le revenue))
  exact ⟨hraised .fees, hraised .rewards⟩

theorem planClose_ne_overflow (hfits : ledger.Fits) (new : PeriodId) :
    ledger.planClose new ≠ .error .overflow := by
  rw [planClose_eq, if_pos hfits.rolloverFits]
  split <;> nofun

/-- The entitlements of an account can be computed and added up. -/
theorem exists_entitlements (hfits : ledger.Fits) (account : Account)
    (shareOn : PeriodId → Amount) :
    ∃ entitlements, ledger.entitlements account shareOn = .ok entitlements ∧
      ∃ total, sumEntitlements entitlements = .ok total := by
  have heach : ∀ row ∈ ledger.claimable account,
      ∃ owed, entitlement row.1 row.2 (shareOn row.2.id) = .ok owed := by
    intro row hrow
    obtain ⟨_, _, hread, _⟩ := mem_claimable hrow
    exact exists_entitlement (fun revenue => hread ▸ hfits.total_le row.1 revenue) _ _
  obtain ⟨entitlements, hentitlements⟩ := Fallible.exists_mapM heach
  refine ⟨entitlements, hentitlements, exists_sumEntitlements fun revenue => ?_⟩
  have hrows := Fallible.forall₂_of_mapM hentitlements
  calc (entitlements.map (·.of revenue)).sum
      ≤ ((ledger.claimable account).map fun row => (row.2.pot revenue).unclaimed).sum := by
        refine List.Forall₂.sum_le_sum ?_
        rw [List.forall₂_map_left_iff, List.forall₂_map_right_iff]
        exact (hrows.imp fun _ _ howed => of_le_unclaimed howed revenue).flip
    _ ≤ (ledger.window.closed.map fun row => (row.2.pot revenue).unclaimed).sum :=
        (List.filter_sublist.map _).sum_le_sum fun _ _ => Nat.zero_le _
    _ ≤ Quantity.maxAmount := hfits.sum_unclaimed_le revenue

theorem planClaim_ne_overflow (hfits : ledger.Fits) (account : Account)
    (shareOn : PeriodId → Amount) : ledger.planClaim account shareOn ≠ .error .overflow := by
  obtain ⟨entitlements, hentitlements, total, htotal⟩ := hfits.exists_entitlements account shareOn
  refine Fallible.guard_ne_error nofun ?_
  rw [hentitlements]
  show sumEntitlements entitlements >>= _ ≠ _
  rw [htotal]
  exact Fallible.guard_ne_error nofun Fallible.pure_ne_error

theorem recordFee_ne_overflow {amount : Amount}
    (hfits : ledger.window.current.fees.total + amount ≤ Quantity.maxAmount) :
    ledger.recordFee amount ≠ .error .overflow := by
  unfold recordFee
  split
  · nofun
  · rw [Pot.deposit_eq_ok.mpr ⟨hfits, rfl⟩]
    nofun

theorem recordReward_ne_overflow {amount : Amount}
    (hfits : ledger.window.current.rewards.total + amount ≤ Quantity.maxAmount) :
    ledger.recordReward amount ≠ .error .overflow := by
  unfold recordReward
  split
  · nofun
  · rw [Pot.deposit_eq_ok.mpr ⟨hfits, rfl⟩]
    nofun

theorem exists_available (hfits : ledger.Fits) (account : Account)
    (shareOn : PeriodId → Amount) : ∃ owed, ledger.available account shareOn = .ok owed := by
  obtain ⟨entitlements, hentitlements, total, htotal⟩ := hfits.exists_entitlements account shareOn
  refine ⟨total, ?_⟩
  rw [available, hentitlements]
  exact htotal

theorem exists_breakdown (hfits : ledger.Fits) (account : Account) (shareOn : PeriodId → Amount)
    (liveShare : Amount) : ∃ rows, ledger.breakdown account shareOn liveShare = .ok rows := by
  obtain ⟨preview, hpreview⟩ : ∃ owed, entitlement 0 ledger.window.current liveShare = .ok owed :=
    exists_entitlement (hfits.total_le 0) 0 liveShare
  obtain ⟨entitlements, hentitlements, _⟩ := hfits.exists_entitlements account shareOn
  rw [breakdown, hpreview, hentitlements]
  exact ⟨_, rfl⟩

end Fits

end Ledger

end FeeDistribution
