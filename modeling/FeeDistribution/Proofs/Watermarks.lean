import FeeDistribution.Proofs.Reachable

/-!
# No period pays an account twice

All that is remembered of the claims of an account is its watermark.  That this is enough rests on
three facts: the ids of the closed periods fall with the index, so that the newest of them bounds
all that a claim takes; a claim takes only what lies above the watermark; and the watermark never
goes down again, since the first claim that succeeds ends the import of history, a failed claim
restores the watermark it found, and nothing else lowers one.
-/

namespace FeeDistribution

namespace Ledger

variable {ledger next : Ledger} {account : Account} {shareOn : PeriodId → Amount}
  {plan : ClaimPlan} {previous : PeriodId}

/-! ## What a plan takes -/

theorem mem_claimable {row : Nat × Period} (hrow : row ∈ ledger.claimable account) :
    1 ≤ row.1 ∧ row.2.Filled ∧ ledger.window.recent row.1 = row.2 ∧
      ledger.watermark account < row.2.id := by
  obtain ⟨hclosed, habove⟩ := List.mem_filter.mp hrow
  obtain ⟨hindex, _, hread, hfilled⟩ := Window.mem_closed.mp hclosed
  exact ⟨hindex, hfilled, hread, of_decide_eq_true habove⟩

theorem mem_claimable_of_above {index : Nat} (hindex : 1 ≤ index)
    (hfilled : (ledger.window.recent index).Filled)
    (habove : ledger.watermark account < (ledger.window.recent index).id) :
    (index, ledger.window.recent index) ∈ ledger.claimable account := by
  have hclosed : (index, ledger.window.recent index) ∈ ledger.window.closed :=
    Window.mem_closed.mpr ⟨hindex, Window.lt_length_of_filled hfilled, rfl, hfilled⟩
  exact List.mem_filter.mpr ⟨hclosed, decide_eq_true habove⟩

/-- Whether a closed period stands at an index from which an account has not yet claimed. -/
def ClaimableAt (ledger : Ledger) (account : Account) (index : Nat) : Prop :=
  1 ≤ index ∧ (ledger.window.recent index).Filled ∧
    ledger.watermark account < (ledger.window.recent index).id

theorem claimableAt_of_mem_claimable {row : Nat × Period}
    (hrow : row ∈ ledger.claimable account) : ledger.ClaimableAt account row.1 := by
  obtain ⟨hindex, hfilled, hread, habove⟩ := mem_claimable hrow
  rw [← hread] at hfilled habove
  exact ⟨hindex, hfilled, habove⟩

/-- What is claimable depends on the ids and the watermark. -/
theorem claimable_of_ids (hlength : next.window.length = ledger.window.length)
    (hids : ∀ index, 1 ≤ index → (next.window.recent index).id = (ledger.window.recent index).id)
    (hwatermark : next.watermark account = ledger.watermark account) :
    next.claimable account =
      (ledger.claimable account).map fun row => (row.1, next.window.recent row.1) := by
  simp only [claimable, Window.closed, List.filter_map, List.map_map, List.filter_filter, hlength]
  refine congrArg (List.map _) (List.filter_congr fun index hindex => ?_)
  have hid := hids index (List.mem_range'_1.mp hindex).1
  have hfilled : (next.window.recent index).Filled ↔ (ledger.window.recent index).Filled := by
    rw [Period.Filled, Period.Filled, hid]
  rw [Bool.eq_iff_iff]
  simp only [Function.comp_apply, Bool.and_eq_true, decide_eq_true_eq, hid, hfilled, hwatermark]

/-- The claimable periods are listed from the newest to the oldest. -/
theorem pairwise_claimable (wf : ledger.window.WellFormed) :
    ((ledger.claimable account).map fun row => row.2.id).Pairwise (· > ·) := by
  rw [List.pairwise_map]
  refine (Window.pairwise_closed.filter _).imp_of_mem fun {newer older} hnewer holder hlt => ?_
  obtain ⟨_, _, hnewer, _⟩ := mem_claimable hnewer
  obtain ⟨_, hfilled, holder, _⟩ := mem_claimable holder
  rw [← hnewer, ← holder]
  exact wf.id_lt hlt (holder ▸ hfilled)

/-- The newest closed period bounds all that are claimable. -/
theorem id_le_of_mem_claimable (wf : ledger.window.WellFormed) {row : Nat × Period}
    (hrow : row ∈ ledger.claimable account) : row.2.id ≤ (ledger.window.recent 1).id := by
  obtain ⟨hindex, hfilled, hread, _⟩ := mem_claimable hrow
  rw [← hread]
  rcases hindex.eq_or_lt with heq | hlt
  · rw [← heq]
  · exact Nat.le_of_lt (wf.id_lt hlt (hread ▸ hfilled))

/-- An account is owed from closed periods above its watermark, each in its slot. -/
theorem slot_of_entitlements {entitlements : List Entitlement}
    (hentitlements : ledger.entitlements account shareOn = .ok entitlements) {owed : Entitlement}
    (howed : owed ∈ entitlements) :
    1 ≤ owed.slot ∧ (ledger.window.recent owed.slot).Filled ∧
      (ledger.window.recent owed.slot).id = owed.id ∧ ledger.watermark account < owed.id := by
  have hrows := entitlements_ok hentitlements
  have hmem : (owed.slot, owed.id) ∈
      (ledger.claimable account).map fun row => (row.1, row.2.id) :=
    hrows ▸ List.mem_map.mpr ⟨owed, howed, rfl⟩
  obtain ⟨row, hrow, heq⟩ := List.mem_map.mp hmem
  obtain ⟨hslot, hid⟩ := Prod.mk.inj heq
  obtain ⟨hindex, hfilled, hread, habove⟩ := mem_claimable hrow
  rw [← hslot, ← hid, hread]
  exact ⟨hindex, hfilled, rfl, habove⟩

/-- A plan takes from such periods. -/
theorem slot_of_planClaim (hplan : ledger.planClaim account shareOn = .ok plan) {owed : Entitlement}
    (howed : owed ∈ plan.entitlements) :
    1 ≤ owed.slot ∧ (ledger.window.recent owed.slot).Filled ∧
      (ledger.window.recent owed.slot).id = owed.id ∧ ledger.watermark account < owed.id :=
  slot_of_entitlements (planClaim_ok hplan).2.1 howed

/-- Out of a claimable period a plan takes what is owed from it. -/
theorem exists_sumOf_planClaim {index : Nat}
    (hplan : ledger.planClaim account shareOn = .ok plan)
    (hclaimable : ledger.ClaimableAt account index) :
    ∃ owed, entitlement index (ledger.window.recent index)
        (shareOn (ledger.window.recent index).id) = .ok owed ∧
      ∀ revenue, Period.sumOf
        (plan.entitlements.filter fun other => decide (index = other.slot)) revenue =
          owed.of revenue := by
  obtain ⟨hindex, hfilled, habove⟩ := hclaimable
  have hentitlements := (planClaim_ok hplan).2.1
  obtain ⟨owed, hmem, howed⟩ := (Fallible.mem_of_mapM hentitlements).2 _
    (mem_claimable_of_above hindex hfilled habove)
  obtain rfl : owed.slot = index := (entitlement_ok howed).1
  exact ⟨owed, howed, fun revenue => Period.sumOf_filter_eq (nodup_slots hentitlements) hmem⟩

/-- Out of any other it takes nothing. -/
theorem sumOf_planClaim_eq_zero {index : Nat}
    (hplan : ledger.planClaim account shareOn = .ok plan)
    (hother : ¬ ledger.ClaimableAt account index) (revenue : Revenue) :
    Period.sumOf (plan.entitlements.filter fun owed => decide (index = owed.slot)) revenue = 0 := by
  refine Period.sumOf_filter_eq_zero fun owed howed hslot => hother ?_
  obtain ⟨hindex, hfilled, hid, habove⟩ := slot_of_planClaim hplan howed
  rw [← hslot]
  exact ⟨hindex, hfilled, hid ▸ habove⟩

theorem ids_of_planClaim (hplan : ledger.planClaim account shareOn = .ok plan) :
    plan.entitlements.map Entitlement.id =
      (ledger.claimable account).map fun row => row.2.id := by
  have hrows := congrArg (List.map Prod.snd) (entitlements_ok (planClaim_ok hplan).2.1)
  simpa [Function.comp_def] using hrows

theorem id_of_planClaim (wf : ledger.window.WellFormed)
    (hplan : ledger.planClaim account shareOn = .ok plan) {id : PeriodId}
    (hid : id ∈ plan.entitlements.map Entitlement.id) :
    ledger.watermark account < id ∧ id ≤ plan.through := by
  rw [ids_of_planClaim hplan] at hid
  obtain ⟨row, hrow, rfl⟩ := List.mem_map.mp hid
  obtain ⟨_, _, _, _, _, hthrough⟩ := planClaim_ok hplan
  rw [hthrough]
  exact ⟨(mem_claimable hrow).2.2.2, id_le_of_mem_claimable wf hrow⟩

/-- A claim that takes something raises the watermark. -/
theorem watermark_lt_through (wf : ledger.window.WellFormed)
    (hplan : ledger.planClaim account shareOn = .ok plan) :
    ledger.watermark account < plan.through := by
  obtain ⟨_, _, hsum, hnonzero, _, _⟩ := planClaim_ok hplan
  cases hentitlements : plan.entitlements with
  | nil =>
      -- nothing to take is refused when the claim is planned
      rw [hentitlements] at hsum
      have hfees : 0 = plan.fees := sumEntitlements_ok hsum .fees
      have hrewards : 0 = plan.rewards := sumEntitlements_ok hsum .rewards
      exact absurd ⟨hfees.symm, hrewards.symm⟩ hnonzero
  | cons owed entitlements =>
      have hid : owed.id ∈ plan.entitlements.map Entitlement.id := by simp [hentitlements]
      obtain ⟨habove, hbelow⟩ := id_of_planClaim wf hplan hid
      exact habove.trans_le hbelow

/-- The receipt of a claim names periods of the plan. -/
theorem periods_sublist : plan.receipt.periods.Sublist (plan.entitlements.map Entitlement.id) :=
  List.filter_sublist.map _

/-! ## What a claim leaves -/

/-- A commit raises the watermark of its account to the newest period of the plan, also if the plan
was made long before. -/
theorem watermark_of_commitClaim (hcommit : ledger.commitClaim plan = .ok (previous, next))
    (other : Account) :
    next.watermark other =
      if plan.account = other then max (ledger.watermark plan.account) plan.through
      else ledger.watermark other := by
  obtain ⟨_, _, rfl⟩ := commitClaim_ok hcommit
  exact Tally.get_set _ _ _ _

theorem watermark_le_commitClaim (hcommit : ledger.commitClaim plan = .ok (previous, next))
    (other : Account) : ledger.watermark other ≤ next.watermark other := by
  rw [watermark_of_commitClaim hcommit]
  split
  · subst other
    exact Nat.le_max_left _ _
  · exact Nat.le_refl _

theorem watermark_commitClaim (wf : ledger.window.WellFormed)
    (hplan : ledger.planClaim account shareOn = .ok plan)
    (hcommit : ledger.commitClaim plan = .ok (previous, next)) (other : Account) :
    next.watermark other = if account = other then plan.through else ledger.watermark other := by
  obtain ⟨_, _, _, _, haccount, _⟩ := planClaim_ok hplan
  rw [watermark_of_commitClaim hcommit, haccount,
    Nat.max_eq_right (Nat.le_of_lt (watermark_lt_through wf hplan))]

theorem watermark_le_deposited {fees rewards : Amount}
    (hdeposited : ledger.Deposited fees rewards next) (other : Account) :
    ledger.watermark other ≤ next.watermark other := by
  rw [watermark, watermark, hdeposited.watermarks_eq.1]

end Ledger

/-! ## Every call -/

namespace Posting

variable {ledger next : Ledger} {payments nextPayments : Payments} {call : Call}
  {result : Except Fault Reply}

/-- Only a claim answers with a receipt. -/
theorem of_claimed {receipt : Receipt}
    (hposting : Posting ledger payments call (.ok (.claimed receipt)) next nextPayments) :
    ∃ account shareOn plan previous, call.claimant? = some account ∧
      ledger.planClaim account shareOn = .ok plan ∧
      ledger.commitClaim plan = .ok (previous, next) ∧ receipt = plan.receipt := by
  cases hposting with
  | aside _ hreply => exact absurd rfl (hreply receipt)
  | claimed hcall hplan hcommit => exact ⟨_, _, _, _, hcall, hplan, hcommit, rfl⟩

/-- Once the import of history has ended it stays so, and no watermark goes down. -/
theorem watermark_le (hposting : Posting ledger payments call result next nextPayments)
    (hclosed : ledger.importOpen = false) :
    next.importOpen = false ∧ ∀ account, ledger.watermark account ≤ next.watermark account := by
  cases hposting with
  | refused | aside | settled | outside => exact ⟨hclosed, fun _ => Nat.le_refl _⟩
  | fee hrecord =>
      have hdeposited := Ledger.recordFee_ok hrecord
      exact ⟨hdeposited.watermarks_eq.2 hclosed, Ledger.watermark_le_deposited hdeposited⟩
  | reward hrecord =>
      have hdeposited := Ledger.recordReward_ok hrecord
      exact ⟨hdeposited.watermarks_eq.2 hclosed, Ledger.watermark_le_deposited hdeposited⟩
  | closed _ hcommit =>
      obtain ⟨_, _, rfl⟩ := Ledger.commitClose_ok hcommit
      exact ⟨rfl, fun _ => Nat.le_refl _⟩
  | claimed _ hplan hcommit =>
      refine ⟨?_, Ledger.watermark_le_commitClaim hcommit⟩
      rw [(Ledger.commitClaim_ok hcommit).2.2]
  | unpaid _ _ hcommit =>
      rw [Ledger.revertClaim_of_commitClaim hcommit]
      exact ⟨rfl, fun _ => Nat.le_refl _⟩
  | importPeriod himport =>
      rw [(Ledger.importPeriod_ok himport).1] at hclosed
      cases hclosed
  | importWatermark himport =>
      rw [(Ledger.importWatermark_ok himport).1] at hclosed
      cases hclosed
  | finishImport => exact ⟨rfl, fun _ => Nat.le_refl _⟩

end Posting

namespace System

variable {system : System} {call : Call} {receipt : Receipt}

theorem Reachable.watermark_le_run (hreach : system.Reachable)
    (hclosed : system.pool.ledger.importOpen = false) (calls : List Call) :
    (system.run calls).2.pool.ledger.importOpen = false ∧
      ∀ account, system.pool.ledger.watermark account ≤
        (system.run calls).2.pool.ledger.watermark account := by
  induction calls generalizing system with
  | nil => exact ⟨hclosed, fun _ => Nat.le_refl _⟩
  | cons call calls ih =>
      obtain ⟨hnext, hstep⟩ := (step_posting system call).watermark_le hclosed
      obtain ⟨hlast, hrun⟩ := ih hreach.step hnext
      exact ⟨hlast, fun account => (hstep account).trans (hrun account)⟩

/-- A successful claim pays each closed period above the watermark once and moves the watermark to
the newest of them. -/
theorem Reachable.claimed_spec (hreach : system.Reachable)
    (hclaim : (system.step call).1 = .ok (.claimed receipt)) :
    call.claimant? = some receipt.account ∧
      receipt.periods.Pairwise (· > ·) ∧
      (∀ id ∈ receipt.periods,
        system.pool.ledger.watermark receipt.account < id ∧ id ≤ receipt.through) ∧
      (system.step call).2.pool.ledger.watermark receipt.account = receipt.through ∧
      (system.step call).2.pool.ledger.importOpen = false ∧
      ∀ account, system.pool.ledger.watermark account ≤
        (system.step call).2.pool.ledger.watermark account := by
  have wf := hreach.wellFormed
  have hposting := step_posting system call
  rw [hclaim] at hposting
  obtain ⟨account, shareOn, plan, previous, hcall, hplan, hcommit, rfl⟩ := hposting.of_claimed
  obtain rfl : plan.account = account := (Ledger.planClaim_ok hplan).2.2.2.2.1
  have hsublist : plan.receipt.periods.Sublist _ := Ledger.periods_sublist
  refine ⟨hcall, ?_, fun id hid => ?_, ?_, ?_, Ledger.watermark_le_commitClaim hcommit⟩
  · refine List.Pairwise.sublist hsublist ?_
    rw [Ledger.ids_of_planClaim hplan]
    exact Ledger.pairwise_claimable wf
  · exact Ledger.id_of_planClaim wf hplan (hsublist.subset hid)
  · exact (Ledger.watermark_commitClaim wf hplan hcommit plan.account).trans (if_pos rfl)
  · rw [(Ledger.commitClaim_ok hcommit).2.2]

/-- No period pays an account twice.  The periods of a receipt fall, lie above the watermark the
claim found and none lies above the one it leaves; from then on, whatever is called, no watermark of
any account goes down, and every later receipt of the same account names newer periods only. -/
theorem Reachable.pays_once (hreach : system.Reachable)
    (hclaim : (system.step call).1 = .ok (.claimed receipt)) :
    call.claimant? = some receipt.account ∧
      receipt.periods.Pairwise (· > ·) ∧
      (∀ id ∈ receipt.periods,
        system.pool.ledger.watermark receipt.account < id ∧ id ≤ receipt.through) ∧
      (system.step call).2.pool.ledger.watermark receipt.account = receipt.through ∧
      (∀ account, system.pool.ledger.watermark account ≤
        (system.step call).2.pool.ledger.watermark account) ∧
      (∀ between after account,
        ((system.step call).2.run between).2.pool.ledger.watermark account ≤
          (((system.step call).2.run between).2.run after).2.pool.ledger.watermark account) ∧
      (∀ between later (other : Receipt),
        (((system.step call).2.run between).2.step later).1 = .ok (.claimed other) →
        other.account = receipt.account →
        (∀ id ∈ other.periods, receipt.through < id) ∧ other.periods.Disjoint receipt.periods) := by
  obtain ⟨hcall, hfalling, hperiods, hthrough, hclosed, hraised⟩ := hreach.claimed_spec hclaim
  refine ⟨hcall, hfalling, hperiods, hthrough, hraised, fun between after => ?_,
    fun between later other hlater haccount => ?_⟩
  · obtain ⟨hstill, _⟩ := hreach.step.watermark_le_run hclosed between
    exact ((hreach.step.run between).watermark_le_run hstill after).2
  · obtain ⟨_, hkept⟩ := hreach.step.watermark_le_run hclosed between
    obtain ⟨_, _, hnewer, _⟩ := (hreach.step.run between).claimed_spec hlater
    -- the later claim takes only what lies above the watermark it finds, which has not gone down
    have habove : ∀ id ∈ other.periods, receipt.through < id := by
      intro id hid
      calc receipt.through
          = (system.step call).2.pool.ledger.watermark other.account := by rw [haccount, hthrough]
        _ ≤ ((system.step call).2.run between).2.pool.ledger.watermark other.account :=
            hkept other.account
        _ < id := (hnewer id hid).1
    refine ⟨habove, fun id hid hold => ?_⟩
    exact Nat.lt_irrefl _ ((habove id hid).trans_le (hperiods id hold).2)

theorem pays_once_oneOwed :
    oneOwed.Reachable ∧
      (oneOwed.step (.claim .zero 0)).1 = .ok (.claimed
        { account := .zero, fees := 5, rewards := 0, through := 1, periods := [1] }) ∧
      (oneOwed.step (.claim .zero 0)).2.pool.ledger.watermark .zero = 1 := by
  have hclaim : (oneOwed.step (.claim .zero 0)).1 = .ok (.claimed
      { account := .zero, fees := 5, rewards := 0, through := 1, periods := [1] }) := rfl
  obtain ⟨_, _, _, hthrough, _⟩ := reachable_oneOwed.pays_once hclaim
  exact ⟨reachable_oneOwed, hclaim, hthrough⟩

end System

end FeeDistribution
