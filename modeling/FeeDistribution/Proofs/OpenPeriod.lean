import FeeDistribution.Proofs.Watermarks

/-!
# The open period

The open period collects deposits, is replaced when it closes, and may be overwritten while history
is imported.  Nothing else changes it; claims, in particular, take from closed periods only.
-/

namespace FeeDistribution

namespace Call

/-- The amount of a revenue that a call deposits, given its result. -/
def deposited (revenue : Revenue) : Call → Except Fault Reply → Amount
  | fee amount, .ok _ => revenue.select amount 0
  | reward amount, .ok _ => revenue.select 0 amount
  | _, _ => 0

variable {call : Call} {result : Except Fault Reply} {revenue : Revenue}

theorem deposited_error {fault : Fault} : call.deposited revenue (.error fault) = 0 := by
  cases call <;> rfl

theorem deposited_of_neutral (hcall : call.Neutral) : call.deposited revenue result = 0 := by
  cases call <;> first | rfl | exact hcall.elim

end Call

namespace Ledger

variable {ledger next : Ledger}

theorem current_deposited {fees rewards : Amount} (aligned : ledger.window.Aligned)
    (hdeposited : ledger.Deposited fees rewards next) :
    next.window.current = ledger.window.current.raise fees rewards := by
  rcases hdeposited with ⟨rfl, rfl, rfl⟩ | rfl
  · rfl
  · exact Window.recent_set_self aligned (Nat.zero_lt_of_lt aligned.two_le_length)

theorem current_closedWindow {new : PeriodId} {start : Timestamp}
    (aligned : ledger.window.Aligned) :
    (ledger.closedWindow new start).current = .opened new start :=
  Window.recent_push_zero aligned.set _

/-- A claim takes nothing out of the open period. -/
theorem current_commitClaim {account : Account} {shareOn : PeriodId → Amount} {plan : ClaimPlan}
    {previous : PeriodId} (aligned : ledger.window.Aligned)
    (hplan : ledger.planClaim account shareOn = .ok plan)
    (hcommit : ledger.commitClaim plan = .ok (previous, next)) :
    next.window.current = ledger.window.current := by
  obtain ⟨hchecks, _, rfl⟩ := commitClaim_ok hcommit
  -- a plan takes from slot one onwards
  have hnone : plan.entitlements.filter (fun owed => decide (0 = owed.slot)) = [] := by
    apply List.filter_eq_nil_iff.mpr
    intro owed howed
    have hclosed := (slot_of_planClaim hplan howed).1
    simp only [decide_eq_true_eq]
    omega
  have hread := Window.recent_modifyAll Period.takeOut aligned
    (fun owed howed => (checkEntitlement_ok (hchecks owed howed)).1) 0
  rw [hnone] at hread
  exact hread

end Ledger

/-- A call that neither closes nor imports a period leaves the open one as it is, but for what it
deposits. -/
theorem Posting.current_eq {ledger next : Ledger} {payments nextPayments : Payments} {call : Call}
    {result : Except Fault Reply}
    (hposting : Posting ledger payments call result next nextPayments)
    (aligned : ledger.window.Aligned)
    (hopen : ∀ outcome, result ≠ .ok (.closed outcome))
    (himport : ledger.importOpen = true → ∀ caller slot period,
      call ≠ .importPeriod caller slot period) :
    next.window.current = ledger.window.current.raise (call.deposited .fees result)
      (call.deposited .rewards result) := by
  cases hposting with
  | refused => rw [Call.deposited_error, Call.deposited_error]; rfl
  | aside hneutral =>
      rw [Call.deposited_of_neutral hneutral, Call.deposited_of_neutral hneutral]
      rfl
  | settled | finishImport | outside => rfl
  | fee hrecord => exact Ledger.current_deposited aligned (Ledger.recordFee_ok hrecord)
  | reward hrecord => exact Ledger.current_deposited aligned (Ledger.recordReward_ok hrecord)
  | closed => exact absurd rfl (hopen _)
  | claimed hclaimant hplan hcommit =>
      have hneutral := Call.neutral_of_claimant hclaimant
      rw [Call.deposited_of_neutral hneutral, Call.deposited_of_neutral hneutral,
        Ledger.current_commitClaim aligned hplan hcommit]
      rfl
  | unpaid _ _ hcommit =>
      rw [Ledger.revertClaim_of_commitClaim hcommit, Call.deposited_error, Call.deposited_error]
      rfl
  | importPeriod himported =>
      exact absurd rfl (himport (Ledger.importPeriod_ok himported).1 _ _ _)
  | importWatermark himported =>
      obtain ⟨_, rfl⟩ := Ledger.importWatermark_ok himported
      rfl

namespace System

variable {system : System} {call : Call} {outcome : CloseOutcome}

/-- The period that a close opens is empty. -/
theorem Reachable.current_of_closed (hreach : system.Reachable)
    (hclosed : (system.step call).1 = .ok (.closed outcome)) :
    ∃ start, (system.step call).2.pool.ledger.window.current = .opened outcome.opened start := by
  obtain ⟨_, _, _, start, _, hnext⟩ := step_closed hclosed
  rw [hnext]
  exact ⟨start, Ledger.current_closedWindow hreach.wellFormed.toAligned⟩

end System

end FeeDistribution
