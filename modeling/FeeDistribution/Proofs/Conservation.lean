import FeeDistribution.Proofs.Reachable
import Mathlib.Algebra.BigOperators.Group.List.Basic

/-!
# Conservation of revenue

What was paid out of a revenue and what the window still holds of it change together: only a deposit
and an imported period bring something in.  A claim pays what it takes out, a close moves what is
left in the oldest period into another, and a failed claim puts everything back.

## Strategy

The value of a revenue is the sum of all payments of it and of what is left in all periods, as an
integer, so that nothing is cut off at zero.  Each way to change a window changes what it holds by a
known amount: `held_set`, `held_push`, `held_takeOut`.  The remainder that rolls over is
`Pot.unclaimed`, which is cut off; that it is what is really left needs that the oldest period is
covered.
-/

namespace FeeDistribution

/-! ## What a window holds -/

namespace Window

variable {window : Window} {revenue : Revenue} {period : Period}

/-- Overwriting a period changes a sum over all periods by the difference. -/
theorem sum_set (measure : Period → Int) {index : Nat} (aligned : window.Aligned)
    (hindex : index < window.length) :
    ((window.set index period).toList.map measure).sum =
      (window.toList.map measure).sum + measure period - measure (window.recent index) := by
  have hlength : index < (window.toList.map measure).length := by simpa using hindex
  rw [toList_set aligned hindex, List.map_set, List.sum_set', dif_pos hlength]
  simp
  ring

/-- Opening a period takes the oldest one out of a sum over all periods. -/
theorem sum_push (measure : Period → Int) (aligned : window.Aligned) :
    ((window.push period).2.toList.map measure).sum =
      (window.toList.map measure).sum + measure period -
        measure (window.recent (window.length - 1)) := by
  have htwo := aligned.two_le_length
  have hne : window.toList ≠ [] := by
    rw [← List.length_pos_iff, length_toList]
    omega
  have hlast : window.toList.getLast hne = window.recent (window.length - 1) := by
    rw [List.getLast_eq_getElem, getElem_toList, length_toList]
  rw [toList_push aligned]
  conv_rhs => rw [← List.dropLast_append_getLast hne, hlast]
  simp
  ring

/-- All that is left of a revenue in the periods of a window. -/
def held (window : Window) (revenue : Revenue) : Int :=
  (window.toList.map fun period => (period.pot revenue).left).sum

theorem held_set {index : Nat} (aligned : window.Aligned) (hindex : index < window.length) :
    (window.set index period).held revenue =
      window.held revenue + (period.pot revenue).left -
        ((window.recent index).pot revenue).left :=
  sum_set (fun period => (period.pot revenue).left) aligned hindex

theorem held_push (aligned : window.Aligned) :
    (window.push period).2.held revenue =
      window.held revenue + (period.pot revenue).left -
        ((window.recent (window.length - 1)).pot revenue).left :=
  sum_push (fun period => (period.pot revenue).left) aligned

/-- Taking entitlements out lowers what is left by what they name. -/
theorem held_takeOut {entitlements : List Entitlement} (aligned : window.Aligned)
    (hslots : ∀ owed ∈ entitlements, owed.slot < window.length) :
    (window.modifyAll Period.takeOut entitlements).held revenue =
      window.held revenue - (entitlements.map (·.of revenue)).sum := by
  unfold modifyAll
  induction entitlements generalizing window with
  | nil => simp
  | cons owed entitlements ih =>
      obtain ⟨hslot, hslots⟩ := List.forall_mem_cons.mp hslots
      rw [List.foldl_cons, ih aligned.modify (by simpa using hslots), modify,
        held_set aligned hslot, Period.takeOut, Period.pot_claim, Pot.left_claim]
      simp [Entitlement.of]
      ring

end Window

namespace Ledger

variable {ledger : Ledger} {revenue : Revenue}

theorem held_deposited {next : Ledger} {fees rewards : Amount} (aligned : ledger.window.Aligned)
    (hdeposited : ledger.Deposited fees rewards next) :
    next.window.held revenue = ledger.window.held revenue + revenue.select fees rewards := by
  rcases hdeposited with ⟨rfl, rfl, rfl⟩ | rfl
  · cases revenue <;> exact (add_zero _).symm
  · have hzero : 0 < ledger.window.length := Nat.zero_lt_of_lt aligned.two_le_length
    rw [setCurrent, Window.held_set aligned hzero, Period.pot_raise, Pot.left_raise,
      Window.current]
    ring

/-- A close loses nothing: what is left in the oldest period is in the receiving one afterwards. -/
theorem held_closedWindow {new : PeriodId} {start : Timestamp} (wf : ledger.window.WellFormed) :
    (ledger.closedWindow new start).held revenue = ledger.window.held revenue := by
  have htwo := wf.two_le_length
  have hreceiving : ledger.window.length - 2 < ledger.window.length := by omega
  have hopened : ((Period.opened new start).pot revenue).left = 0 := by
    cases revenue <;> rfl
  -- raising the receiving period leaves the oldest one alone, also in a window of two slots
  have holdest : (ledger.window.set (ledger.window.length - 2) ledger.receivingRaised).recent
      (ledger.window.length - 1) = ledger.oldest :=
    Window.recent_set_ne wf.toAligned hreceiving (by omega)
  have hrolled :
      (revenue.select ledger.oldest.fees.unclaimed ledger.oldest.rewards.unclaimed : Int) =
        (ledger.oldest.pot revenue).left := by
    have hcovered : ledger.oldest.Covered := wf.covered _
    rw [← Pot.unclaimed_eq_left (hcovered revenue)]
    cases revenue <;> rfl
  rw [closedWindow, Window.held_push wf.toAligned.set, Window.length_set, holdest, hopened,
    Window.held_set wf.toAligned hreceiving, receivingRaised, Period.pot_raise, Pot.left_raise,
    hrolled, receiving]
  ring

theorem held_commitClaim {next : Ledger} {account : Account} {shareOn : PeriodId → Amount}
    {plan : ClaimPlan} {previous : PeriodId} (aligned : ledger.window.Aligned)
    (hplan : ledger.planClaim account shareOn = .ok plan)
    (hcommit : ledger.commitClaim plan = .ok (previous, next)) :
    next.window.held revenue = ledger.window.held revenue - plan.of revenue := by
  obtain ⟨hchecks, _, rfl⟩ := commitClaim_ok hcommit
  have hslots : ∀ owed ∈ plan.entitlements, owed.slot < ledger.window.length :=
    fun owed howed => (checkEntitlement_ok (hchecks owed howed)).1
  have hsum : (plan.entitlements.map (·.of revenue)).sum = plan.of revenue :=
    sumEntitlements_ok (planClaim_ok hplan).2.2.1 revenue
  rw [← hsum]
  exact Window.held_takeOut aligned hslots

end Ledger

/-! ## What was paid -/

namespace Payments

/-- All that was paid of an asset. -/
def total (payments : Payments) (asset : Asset) : Amount :=
  ((payments.filter fun payment => decide (payment.2.asset = asset)).map (·.2.amount)).sum

theorem total_append (first second : Payments) (asset : Asset) :
    total (first ++ second) asset = total first asset + total second asset := by
  simp [total]

/-- The legs of a claim pay what the plan names, also where a leg of zero is left out. -/
theorem total_legs (account : Account) (plan : ClaimPlan) (revenue : Revenue) :
    total (plan.legs.map fun leg => (account, leg)) revenue.asset = plan.of revenue := by
  by_cases hfees : 0 < plan.fees <;> by_cases hrewards : 0 < plan.rewards <;> cases revenue <;>
    simp_all [total, ClaimPlan.legs, ClaimPlan.of, Revenue.asset, Revenue.select]

/-- The legs of a claim are no payouts of the stream. -/
theorem total_legs_liquidationRewards (account : Account) (plan : ClaimPlan) :
    total (plan.legs.map fun leg => (account, leg)) .liquidationRewards = 0 := by
  by_cases hfees : 0 < plan.fees <;> by_cases hrewards : 0 < plan.rewards <;>
    simp_all [total, ClaimPlan.legs]

/-- The payouts of the reward stream concern neither fees nor rewards. -/
theorem total_settled (account : Account) (amount : Amount) (revenue : Revenue) :
    total [(account, { asset := .liquidationRewards, amount })] revenue.asset = 0 := by
  cases revenue <;> rfl

/-- All that an account was paid of an asset. -/
def received (payments : Payments) (account : Account) (asset : Asset) : Amount :=
  total (payments.filter fun payment => decide (payment.1 = account)) asset

/-- A batch is received by the account to which it is paid, and by no other. -/
theorem received_append (payments : Payments) (legs : List Payout) (receiver account : Account)
    (asset : Asset) :
    received (payments ++ legs.map fun leg => (receiver, leg)) account asset =
      received payments account asset +
        if receiver = account then total (legs.map fun leg => (receiver, leg)) asset else 0 := by
  by_cases haccount : receiver = account <;>
    simp [received, total, List.filter_map, haccount, Function.comp_def]

end Payments

theorem Treasury.paidTo_eq (treasury : Treasury) (account : Account) (asset : Asset) :
    treasury.paidTo account asset = Payments.received treasury.payments account asset := by
  unfold paidTo Payments.received Payments.total
  rw [List.filter_filter]
  generalize treasury.payments = payments
  induction payments with
  | nil => rfl
  | cons payment payments ih =>
      by_cases hpayment : payment.1 = account ∧ payment.2.asset = asset
      · simpa [hpayment] using ih
      · have hother : ¬ (payment.2.asset = asset ∧ payment.1 = account) := fun h => hpayment h.symm
        simpa [hpayment, hother] using ih

/-! ## Every call -/

/-- Whether a call is a payment that the pool does not make. -/
def Call.Foreign (call : Call) : Prop :=
  ∃ account legs, call = .around (.pay account legs)

/-- What a call brings into the window, given its result: a deposit its amount, an imported period
what is left in it less what was left in the slot before, and any other call nothing. -/
def Ledger.inflow (ledger : Ledger) (revenue : Revenue) : Call → Except Fault Reply → Int
  | _, .error _ => 0
  | .fee amount, .ok _ => revenue.select amount 0
  | .reward amount, .ok _ => revenue.select 0 amount
  | .importPeriod _ slot period, .ok _ =>
    (period.pot revenue).left - ((ledger.window.recent slot).pot revenue).left
  | _, .ok _ => 0

theorem Ledger.inflow_of_neutral {ledger : Ledger} {revenue : Revenue} {call : Call}
    {result : Except Fault Reply} (hcall : call.Neutral) :
    ledger.inflow revenue call result = 0 := by
  cases result <;> cases call <;> first | rfl | exact hcall.elim

/-- What was paid and what is held change together by the inflow. -/
theorem Posting.conserves {ledger next : Ledger} {payments nextPayments : Payments} {call : Call}
    {result : Except Fault Reply} {revenue : Revenue}
    (hposting : Posting ledger payments call result next nextPayments)
    (wf : ledger.window.WellFormed) (hcall : ¬ call.Foreign) :
    Payments.total nextPayments revenue.asset + next.window.held revenue =
      Payments.total payments revenue.asset + ledger.window.held revenue +
        ledger.inflow revenue call result := by
  cases hposting with
  | refused => simp [Ledger.inflow]
  | aside hneutral => simp [Ledger.inflow_of_neutral hneutral]
  | settled =>
      rw [Payments.total_append, Payments.total_settled, Nat.add_zero]
      simp [Ledger.inflow]
  | outside => exact absurd ⟨_, _, rfl⟩ hcall
  | fee hrecord =>
      rw [Ledger.held_deposited wf.toAligned (Ledger.recordFee_ok hrecord), Ledger.inflow]
      ring
  | reward hrecord =>
      rw [Ledger.held_deposited wf.toAligned (Ledger.recordReward_ok hrecord), Ledger.inflow]
      ring
  | closed hneutral hcommit =>
      obtain ⟨_, _, rfl⟩ := Ledger.commitClose_ok hcommit
      rw [Ledger.held_closedWindow wf, Ledger.inflow_of_neutral hneutral, add_zero]
  | claimed hclaimant hplan hcommit =>
      rw [Payments.total_append, Payments.total_legs,
        Ledger.held_commitClaim wf.toAligned hplan hcommit,
        Ledger.inflow_of_neutral (Call.neutral_of_claimant hclaimant)]
      push_cast
      ring
  | unpaid _ _ hcommit =>
      rw [Ledger.revertClaim_of_commitClaim hcommit, Ledger.inflow, add_zero]
  | importPeriod himport =>
      obtain ⟨_, hslot, _, _, _, rfl⟩ := Ledger.importPeriod_ok himport
      rw [Window.held_set wf.toAligned hslot, Ledger.inflow]
      ring
  | importWatermark himport =>
      obtain ⟨_, rfl⟩ := Ledger.importWatermark_ok himport
      simp [Ledger.inflow]
  | finishImport => simp [Ledger.inflow, Ledger.finishImport]

namespace System

variable {system : System} {revenue : Revenue} {call : Call}

/-- What was paid of a revenue and what the window still holds of it. -/
def value (system : System) (revenue : Revenue) : Int :=
  Payments.total system.env.treasury.payments revenue.asset +
    system.pool.ledger.window.held revenue

/-- What a list of calls brings into the window. -/
def inflow (system : System) (revenue : Revenue) : List Call → Int
  | [] => 0
  | call :: calls =>
    system.pool.ledger.inflow revenue call (system.step call).1 +
      (system.step call).2.inflow revenue calls

/-- Value is conserved: in every reachable system a call changes what was paid and what is held
together by what it brings into the window, and by nothing if it fails. -/
theorem Reachable.conserves_value (hreach : system.Reachable) (hcall : ¬ call.Foreign)
    (revenue : Revenue) :
    (system.step call).2.value revenue =
      system.value revenue + system.pool.ledger.inflow revenue call (system.step call).1 :=
  (step_posting system call).conserves hreach.wellFormed hcall

theorem conserves_value_oneOwed :
    oneOwed.Reachable ∧ ¬ (Call.claim .zero 0).Foreign ∧
      (oneOwed.step (.claim .zero 0)).2.value .fees = 5 := by
  have hcall : ¬ (Call.claim .zero 0).Foreign := fun ⟨_, _, heq⟩ => nomatch heq
  refine ⟨reachable_oneOwed, hcall, ?_⟩
  rw [reachable_oneOwed.conserves_value hcall]
  decide

/-- Over a run, what was paid and what is held change together by all that the calls bring in. -/
theorem Reachable.value_run (hreach : system.Reachable) {calls : List Call}
    (hcalls : ∀ call ∈ calls, ¬ call.Foreign) (revenue : Revenue) :
    (system.run calls).2.value revenue = system.value revenue + system.inflow revenue calls := by
  induction calls generalizing system with
  | nil => exact (add_zero _).symm
  | cons call calls ih =>
      obtain ⟨hcall, hcalls⟩ := List.forall_mem_cons.mp hcalls
      have hstep : (system.step call).2.value revenue =
          system.value revenue + system.pool.ledger.inflow revenue call (system.step call).1 :=
        (step_posting system call).conserves hreach.wellFormed hcall
      calc ((system.step call).2.run calls).2.value revenue
          = (system.step call).2.value revenue + (system.step call).2.inflow revenue calls :=
            ih hreach.step hcalls
        _ = _ := by rw [hstep, inflow, add_assoc]

end System

end FeeDistribution
