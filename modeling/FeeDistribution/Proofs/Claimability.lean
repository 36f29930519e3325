import FeeDistribution.Proofs.Capacity
import FeeDistribution.Proofs.Gates

/-!
# The gate and the query of a claim

Whether the ratio of debt to collateral lets an account claim is decided twice: by the last check of
the gate, against the penalty threshold, and by a query, which accepts a ratio below the target
before it computes the threshold.  The two agree, because the threshold can always be computed and
is never below the target (`Terms.Narrow.issuanceRatio_le`).  Both refuse a ratio behind which the
rates are declared invalid, the gate where it asks for fresh rates.  So where nothing is suspended
and the rates are fresh, the gate lets exactly those claims through that the query announces
(`Terms.Narrow.query_tells_gate`).
-/

namespace FeeDistribution

/-! ## The threshold -/

namespace Terms

variable {terms : Terms}

/-- Raising the target ratio does not lower it, also when rounded down. -/
theorem issuanceRatio_le (terms : Terms) : terms.issuanceRatio ≤ terms.highestRatio := by
  have hunit : 0 < unit := by decide
  rw [highestRatio, Nat.le_div_iff_mul_le hunit]
  exact Nat.mul_le_mul_left _ (Nat.le_add_right _ _)

/-- That a ratio below the target is accepted at once decides nothing. -/
theorem Narrow.allows_eq (hnarrow : terms.Narrow) (ratio : Amount) :
    terms.allows ratio = .ok (decide (ratio ≤ terms.highestRatio)) := by
  unfold allows
  split
  · rename_i hbelow
    rw [decide_eq_true (hbelow.le.trans terms.issuanceRatio_le)]
  · rw [hnarrow.penaltyThreshold_eq]
    rfl

end Terms

/-! ## The checks -/

namespace Check

variable {circumstances : Circumstances} {account : Account}

theorem run_active_eq_ok {part : Subsystem} :
    (active part).run circumstances = .ok () ↔
      circumstances.env.suspensions.suspends part = false := by
  rw [run]
  cases circumstances.env.suspensions.suspends part <;> simp

/-- Where there is a claimant, the rates behind its ratio must be valid besides. -/
theorem run_ratesFresh_eq_ok (hclaimant : circumstances.claimant = some account) :
    ratesFresh.run circumstances = .ok () ↔
      (∀ key ∈ circumstances.terms.requiredRates,
        circumstances.terms.stale (circumstances.env.updatedAt? key) circumstances.now = false) ∧
      circumstances.env.stakes.ratesInvalid = false := by
  have hfresh : staleRate? circumstances = none ↔
      ∀ key ∈ circumstances.terms.requiredRates,
        circumstances.terms.stale (circumstances.env.updatedAt? key) circumstances.now = false := by
    rw [staleRate?, List.find?_eq_none]
    simp only [Bool.not_eq_true]
  rw [← hfresh, run, hclaimant]
  cases staleRate? circumstances with
  | some key => simp
  | none => cases circumstances.env.stakes.ratesInvalid <;> simp

theorem run_penaltyThreshold (hnarrow : circumstances.terms.Narrow)
    (hclaimant : circumstances.claimant = some account) :
    penaltyThreshold.run circumstances =
      if circumstances.env.stakes.ratio account ≤ circumstances.terms.highestRatio then .ok ()
      else .error (.ratioTooHigh (circumstances.env.stakes.ratio account)
        circumstances.terms.highestRatio) := by
  rw [run, hclaimant]
  dsimp only
  rw [hnarrow.penaltyThreshold_eq]
  show (if circumstances.terms.highestRatio < _ then _ else _) = _
  by_cases hratio : circumstances.env.stakes.ratio account ≤ circumstances.terms.highestRatio
  · rw [if_neg hratio.not_gt, if_pos hratio]
    rfl
  · rw [if_pos (Nat.lt_of_not_le hratio), if_neg hratio]
    rfl

end Check

theorem Gate.run_eq_ok {gate : Gate} {circumstances : Circumstances} :
    gate.run circumstances = .ok () ↔ ∀ check ∈ gate, check.run circumstances = .ok () :=
  Fallible.forM_eq_ok

namespace System

variable {system : System} {account : Account}

/-! ## The query -/

theorem isClaimable_eq_ok (hnarrow : system.pool.settings.terms.Narrow) :
    system.isClaimable account = .ok true ↔
      system.env.stakes.ratesInvalid = false ∧
        system.env.stakes.ratio account ≤ system.pool.settings.terms.highestRatio := by
  rw [isClaimable, hnarrow.allows_eq]
  cases system.env.stakes.ratesInvalid <;> simp

theorem run_gate_claim_eq_ok (hnarrow : system.pool.settings.terms.Narrow) (now : Timestamp) :
    Gate.claim.run (system.circumstances account now) = .ok () ↔
      system.env.suspensions.system = false ∧ system.env.suspensions.issuance = false ∧
        (∀ key ∈ system.pool.settings.terms.requiredRates,
          system.pool.settings.terms.stale (system.env.updatedAt? key) now = false) ∧
        system.isClaimable account = .ok true := by
  have hclaimant : (system.circumstances account now).claimant = some account := rfl
  have hratio : Check.penaltyThreshold.run (system.circumstances account now) = .ok () ↔
      system.env.stakes.ratio account ≤ system.pool.settings.terms.highestRatio := by
    rw [Check.run_penaltyThreshold hnarrow hclaimant]
    split
    · exact iff_of_true rfl ‹_›
    · exact iff_of_false nofun ‹_›
  have hgate : Gate.claim = [.active .system, .active .issuance, .ratesFresh, .penaltyThreshold] :=
    rfl
  rw [Gate.run_eq_ok, hgate, isClaimable_eq_ok hnarrow]
  simp only [List.forall_mem_cons, List.not_mem_nil, false_imp_iff, implies_true, and_true]
  rw [Check.run_active_eq_ok, Check.run_active_eq_ok, Check.run_ratesFresh_eq_ok hclaimant, hratio,
    and_assoc]
  rfl

end System

/-- The gate and the query agree.  The penalty threshold can be computed at any terms that can be
kept, and it is not below the target ratio.  A ratio is announced to allow a claim just if it is at
most the threshold, and just then the check of the gate passes, which names both otherwise.  So,
whatever is owed, the gate lets a claim through if nothing is suspended, the required rates are
fresh, and the query says that the account can claim. -/
theorem Terms.Narrow.query_tells_gate {terms : Terms} (hnarrow : terms.Narrow) :
    terms.penaltyThreshold = .ok terms.highestRatio ∧
      terms.issuanceRatio ≤ terms.highestRatio ∧
      (∀ ratio, terms.allows ratio = .ok (decide (ratio ≤ terms.highestRatio))) ∧
      (∀ (circumstances : Circumstances) (account : Account),
        circumstances.terms = terms → circumstances.claimant = some account →
        Check.penaltyThreshold.run circumstances =
          if circumstances.env.stakes.ratio account ≤ terms.highestRatio then .ok ()
          else .error (.ratioTooHigh (circumstances.env.stakes.ratio account)
            terms.highestRatio)) ∧
      ∀ (system : System) (account : Account) (now : Timestamp),
        system.pool.settings.terms = terms →
        (Gate.claim.run (system.circumstances account now) = .ok () ↔
          system.env.suspensions.system = false ∧ system.env.suspensions.issuance = false ∧
            (∀ key ∈ terms.requiredRates,
              terms.stale (system.env.updatedAt? key) now = false) ∧
            system.isClaimable account = .ok true) := by
  refine ⟨hnarrow.penaltyThreshold_eq, terms.issuanceRatio_le, hnarrow.allows_eq, ?_, ?_⟩
  · rintro circumstances account rfl hclaimant
    exact Check.run_penaltyThreshold hnarrow hclaimant
  · rintro system account now rfl
    exact System.run_gate_claim_eq_ok hnarrow now

namespace System

/-- A pool in which something is owed to the null account, whose ratio is given. -/
def oneOwedAt (ratio : Amount) : System :=
  (oneOwed.step (.around (.ratio .zero ratio))).2

/-- The threshold lies at twenty-two hundredths.  Exactly there a claim is announced and let
through; a little above it is neither. -/
theorem query_tells_gate_oneOwed :
    Terms.Narrow {} ∧
      Gate.claim.run ((oneOwedAt 220000000000000000).circumstances .zero 0) = .ok () ∧
      (oneOwedAt 220000000000000000).isClaimable .zero = .ok true ∧
      Gate.claim.run ((oneOwedAt 220000000000000001).circumstances .zero 0) ≠ .ok () ∧
      (oneOwedAt 220000000000000001).isClaimable .zero = .ok false := by
  have hnarrow : Terms.Narrow {} := ⟨by decide, by decide⟩
  obtain ⟨_, _, _, _, hgate⟩ := hnarrow.query_tells_gate
  have hat : (oneOwedAt 220000000000000000).isClaimable .zero = .ok true := by decide
  have habove : (oneOwedAt 220000000000000001).isClaimable .zero = .ok false := by decide
  refine ⟨hnarrow, (hgate _ _ _ rfl).mpr ⟨rfl, rfl, by decide, hat⟩, hat, fun hpasses => ?_, habove⟩
  obtain ⟨_, _, _, hclaimable⟩ := (hgate _ _ _ rfl).mp hpasses
  rw [habove] at hclaimable
  cases hclaimable

end System

end FeeDistribution
