import FeeDistribution.Proofs.Gates
import FeeDistribution.Proofs.Reachable

/-!
# Claims that fail

A claim can fail before anything changes, or when the treasury refuses to pay what has been taken
out already.  In the first case the system is left as it was.  In the second the claim is undone,
and everything is as it was but for one thing: committing a claim ends the import of history, and
undoing it does not open it again.  A refused payment during the import therefore closes the import.

## Strategy

Nothing that happens before the payment fails the way a payment does, `stageClaim_ne_refusal`, so
the fault of a failed claim tells which of the two cases it was.  That undoing restores the periods
and watermarks is `Ledger.revertClaim_of_commitClaim`.
-/

namespace FeeDistribution

/-! ## Faults before the payment -/

namespace Ledger

theorem planClaim_ne_refusal {ledger : Ledger} {account : Account} {shareOn : PeriodId → Amount} :
    ledger.planClaim account shareOn ≠ .error Treasury.refusal := by
  have hpart : ∀ (pot : Pot) share, pot.part share ≠ .error Treasury.refusal := fun pot share =>
    Fallible.bind_ne_error (Decimal.multiply_ne_error nofun) fun _ => Fallible.pure_ne_error
  have howed : ledger.entitlements account shareOn ≠ .error Treasury.refusal :=
    Fallible.mapM_ne_error fun row => Fallible.bind_ne_error (hpart _ _) fun _ =>
      Fallible.bind_ne_error (hpart _ _) fun _ => Fallible.pure_ne_error
  have hadd : ∀ first second, Decimal.add first second ≠ .error Treasury.refusal :=
    fun _ _ => Decimal.narrow_ne_error nofun
  have hsum : ∀ owed, sumEntitlements owed ≠ .error Treasury.refusal := fun owed =>
    Fallible.foldlM_ne_error fun _ _ => Fallible.bind_ne_error (hadd _ _) fun _ =>
      Fallible.bind_ne_error (hadd _ _) fun _ => Fallible.pure_ne_error
  refine Fallible.guard_ne_error nofun (Fallible.bind_ne_error howed fun owed => ?_)
  refine Fallible.bind_ne_error (hsum owed) fun _ => ?_
  exact Fallible.guard_ne_error nofun Fallible.pure_ne_error

theorem commitClaim_ne_refusal {ledger : Ledger} {plan : ClaimPlan} :
    ledger.commitClaim plan ≠ .error Treasury.refusal := by
  refine Fallible.bind_ne_error (Fallible.forM_ne_error fun owed => ?_) fun _ =>
    Fallible.pure_ne_error
  unfold checkEntitlement
  split
  · nofun
  · split <;> nofun

end Ledger

namespace System

variable {system : System} {account : Account} {call : Call} {fault : Fault}

/-- Only the payment of a claim fails like a payment. -/
theorem stageClaim_ne_refusal {now : Timestamp} :
    system.stageClaim account now ≠ .error Treasury.refusal :=
  Fallible.bind_ne_error (Gate.claim.run_ne_error id) fun _ =>
    Fallible.bind_ne_error Ledger.planClaim_ne_refusal fun _ =>
      Fallible.bind_ne_error Ledger.commitClaim_ne_refusal fun _ => Fallible.pure_ne_error

/-! ## After a failure -/

/-- The system with the import of history open or ended. -/
def withImportOpen (system : System) (importOpen : Bool) : System :=
  { system with pool := { system.pool with ledger := { system.pool.ledger with importOpen } } }

theorem claim_failed {now : Timestamp} (hclaim : (system.claim account now).1 = .error fault) :
    fault ≠ Treasury.refusal ∧ (system.claim account now).2 = system ∨
      fault = Treasury.refusal ∧ system.env.treasury.refusing = true ∧
        (system.claim account now).2 = (system.withImportOpen false).withRefusing false := by
  rcases system.claim_cases account now with
    ⟨_, hstage, hresult⟩ | ⟨_, _, _, hstage, ⟨hrefusing, hresult⟩ | ⟨_, hresult⟩⟩ <;>
    rw [hresult] at hclaim ⊢
  -- the treasury was not asked
  · refine .inl ⟨?_, rfl⟩
    rintro rfl
    exact stageClaim_ne_refusal (Except.error.inj hclaim ▸ hstage)
  -- the treasury refused, and the claim was undone
  · refine .inr ⟨(Except.error.inj hclaim).symm, hrefusing, ?_⟩
    rw [afterUnpaid, Ledger.revertClaim_of_commitClaim (stageClaim_ok hstage).2]
    rfl
  · cases hclaim

theorem step_failed (hcall : call.claimant? = some account)
    (hfault : (system.step call).1 = .error fault) :
    fault ≠ Treasury.refusal ∧ (system.step call).2 = system ∨
      fault = Treasury.refusal ∧ system.env.treasury.refusing = true ∧
        (system.step call).2 = (system.withImportOpen false).withRefusing false := by
  cases call with
  | claim claimant now =>
      cases hcall
      exact claim_failed (Fallible.map_eq_error.mp hfault)
  | claimOnBehalf claimant delegate now =>
      cases hcall
      have hclaim : (system.claimOnBehalf account delegate now).1 = .error fault :=
        Fallible.map_eq_error.mp hfault
      show _ ∧ (system.claimOnBehalf account delegate now).2 = _ ∨
        _ ∧ _ ∧ (system.claimOnBehalf account delegate now).2 = _
      unfold claimOnBehalf at hclaim ⊢
      split at hclaim
      · rw [if_pos ‹_›]
        exact claim_failed hclaim
      · rw [if_neg ‹_›]
        refine .inl ⟨?_, rfl⟩
        rintro rfl
        cases hclaim
  | _ => cases hcall

theorem withImportOpen_eq_self :
    system.withImportOpen false = system ↔ system.pool.ledger.importOpen = false := by
  constructor
  · intro hsame
    rw [← hsame]
    rfl
  · intro hclosed
    rw [withImportOpen, ← hclosed]

/-- A claim that fails has no side effects, apart from using up the refusal, unless it fails for a
refused payment while history may still be imported.  Then it ends the import, and does nothing
else. -/
theorem failed_claim_restores_iff (hcall : call.claimant? = some account)
    (hfault : (system.step call).1 = .error fault) :
    (system.step call).2.withRefusing system.env.treasury.refusing =
        (if fault = Treasury.refusal then system.withImportOpen false else system) ∧
      ((system.step call).2.withRefusing system.env.treasury.refusing = system ↔
        ¬ (fault = Treasury.refusal ∧ system.pool.ledger.importOpen = true)) := by
  rcases step_failed hcall hfault with ⟨hother, hnext⟩ | ⟨rfl, _, hnext⟩ <;> rw [hnext]
  · rw [if_neg hother]
    exact ⟨rfl, fun _ himport => hother himport.1, fun _ => rfl⟩
  · have hrestored : ((system.withImportOpen false).withRefusing false).withRefusing
        system.env.treasury.refusing = system.withImportOpen false := rfl
    rw [hrestored, if_pos rfl, withImportOpen_eq_self]
    exact ⟨rfl, fun hclosed himport => Bool.false_ne_true (hclosed.symm.trans himport.2),
      fun himport => Bool.eq_false_of_not_eq_true fun hopen => himport ⟨rfl, hopen⟩⟩

/-- A pool of two slots, its history imported but the import not ended, whose next payment will be
refused. -/
def importing : System :=
  (twoSlots.run [.importPeriod .zero 0 { id := 5 },
    .importPeriod .zero 1 { id := 4, fees := { total := 100 } }, .around (.share .zero 4 unit),
    .around (.rate Defaults.collateralCurrency 0), .around .refuseNext]).2

theorem failed_claim_restores_iff_importing :
    (Call.claim .zero 0).claimant? = some .zero ∧
      (importing.step (.claim .zero 0)).1 = .error Treasury.refusal ∧
      (importing.step (.claim .zero 0)).2.withRefusing importing.env.treasury.refusing =
        importing.withImportOpen false := by
  have hcall : (Call.claim .zero 0).claimant? = some .zero := rfl
  have hfault : (importing.step (.claim .zero 0)).1 = .error Treasury.refusal := rfl
  obtain ⟨hrestored, _⟩ := failed_claim_restores_iff hcall hfault
  rw [if_pos rfl] at hrestored
  exact ⟨hcall, hfault, hrestored⟩

/-- A refused payment closes the import. -/
theorem failed_claim_not_restored :
    importing.Reachable ∧ (importing.step (.claim .zero 0)).1 = .error Treasury.refusal ∧
      importing.pool.ledger.importOpen = true ∧
      (importing.step (.claim .zero 0)).2.pool.ledger.importOpen = false ∧
      (importing.step (.claim .zero 0)).2.withRefusing importing.env.treasury.refusing ≠
        importing := by
  refine ⟨reachable_twoSlots.run _, rfl, rfl, rfl, fun hsame => ?_⟩
  have himport := congrArg (fun system => system.pool.ledger.importOpen) hsame
  cases himport

end System

end FeeDistribution
