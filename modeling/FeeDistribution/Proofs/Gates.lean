import FeeDistribution.Proofs.Clock
import FeeDistribution.Proofs.Fallible

/-!
# What the gates ask

A gate is a list of checks of which the first that fails decides.  The two gates before a close
begin with the same checks, that nothing is suspended; the gate of a close by time asks for fresh
rates after that (`Gate.run_close`).  So where the rates are fresh the two let the same closes
through and refuse the others for the same reason (`Gate.run_close_of_fresh`).

Whatever its checks, a gate never blames the time, the plan, the caller or a payment
(`Gate.run_ne_error`).
-/

namespace FeeDistribution

variable {fault : Fault}

/-! ## Faults -/

namespace Decimal

theorem narrow_ne_error {value : Nat} (hfault : Fault.overflow ≠ fault) :
    narrow value ≠ .error fault := by
  unfold narrow
  split
  · nofun
  · exact fun hthrow => hfault (Except.error.inj hthrow)

theorem multiply_ne_error {first second : Amount} (hfault : Fault.overflow ≠ fault) :
    multiply first second ≠ .error fault := by
  have hunit : unit ≠ 0 := by decide
  rw [multiply, mulDiv, if_neg hunit]
  exact narrow_ne_error hfault

end Decimal

/-- Whether a gate may report a fault. -/
def Fault.OfGate : Fault → Prop
  | suspended _ | rateUnusable _ | ratioTooHigh _ _ | overflow => True
  | _ => False

theorem Check.run_ne_error {circumstances : Circumstances} (check : Check)
    (hfault : ¬ fault.OfGate) : check.run circumstances ≠ .error fault := by
  cases check with
  | active part =>
      rw [run]
      split
      · rintro ⟨⟩
        exact hfault trivial
      · nofun
  | ratesFresh =>
      rw [run]
      split
      · rintro ⟨⟩
        exact hfault trivial
      · split
        · rintro ⟨⟩
          exact hfault trivial
        · nofun
  | penaltyThreshold =>
      have hoverflow : Fault.overflow ≠ fault := by
        rintro ⟨⟩
        exact hfault trivial
      rw [run]
      split
      · nofun
      · refine Fallible.bind_ne_error ?_ fun threshold => Fallible.guard_ne_error_unit ?_
        · exact Fallible.bind_ne_error (Decimal.narrow_ne_error hoverflow) fun _ =>
            Decimal.multiply_ne_error hoverflow
        · rintro ⟨⟩
          exact hfault trivial

theorem Gate.run_ne_error {circumstances : Circumstances} (gate : Gate) (hfault : ¬ fault.OfGate) :
    gate.run circumstances ≠ .error fault :=
  Fallible.forM_ne_error fun check => check.run_ne_error hfault

/-! ## Before a close -/

variable {circumstances : Circumstances}

/-- Where there is no claimant only the required rates are asked for. -/
theorem Check.run_ratesFresh (hclaimant : circumstances.claimant = none) :
    Check.ratesFresh.run circumstances =
      (staleRate? circumstances).elim (.ok ()) fun key => .error (.rateUnusable key) := by
  rw [run, hclaimant]
  cases staleRate? circumstances <;> rfl

/-- In exact seconds, a rate is usable if it is fresh. -/
theorem Check.staleRate?_eq (hfit : Settings.FitStalePeriod circumstances.terms.stalePeriod) :
    staleRate? circumstances = circumstances.terms.requiredRates.find? fun key =>
      ¬ circumstances.terms.Fresh (circumstances.env.updatedAt? key) circumstances.now := by
  unfold staleRate?
  simp only [Terms.stale_eq hfit]

namespace Gate

theorem run_relayedClose (circumstances : Circumstances) :
    relayedClose.run circumstances =
      if circumstances.env.suspensions.system then .error (.suspended .system)
      else if circumstances.env.suspensions.issuance then .error (.suspended .issuance)
      else .ok () := by
  show (Check.active .system).run circumstances >>= (fun _ =>
    (Check.active .issuance).run circumstances >>= fun _ => pure ()) = _
  unfold Check.run Suspensions.suspends
  cases circumstances.env.suspensions.system <;>
    cases circumstances.env.suspensions.issuance <;> rfl

theorem run_append (first second : Gate) (circumstances : Circumstances) :
    run (first ++ second) circumstances =
      first.run circumstances >>= fun _ => second.run circumstances :=
  List.forM_append ..

theorem run_singleton (check : Check) (circumstances : Circumstances) :
    run [check] circumstances = check.run circumstances := by
  show check.run circumstances >>= pure = _
  exact bind_pure _

/-- A close by time asks for what a relayed close asks for, and then for the rates. -/
theorem run_close (circumstances : Circumstances) :
    close.run circumstances =
      relayedClose.run circumstances >>= fun _ => Check.ratesFresh.run circumstances := by
  have hclose : close = relayedClose ++ [.ratesFresh] := rfl
  rw [hclose, run_append, run_singleton]

/-- Where the rates are fresh the two gates are one. -/
theorem run_close_of_fresh (hfresh : Check.ratesFresh.run circumstances = .ok ()) :
    close.run circumstances = relayedClose.run circumstances := by
  rw [run_close, hfresh]
  exact bind_pure _

end Gate

end FeeDistribution
