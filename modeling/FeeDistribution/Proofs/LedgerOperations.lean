import FeeDistribution.Ledger.Close
import FeeDistribution.Ledger.Import
import FeeDistribution.Proofs.Revenue
import FeeDistribution.Proofs.Ring

/-!
# What the operations of a ledger do

For each operation of the ledger, what it found and what it left if it succeeded.  Later files use
these statements and do not look into the operations again.

A deposit raises the open period.  A close raises the receiving period by what is left in the oldest
one and then opens a new period, `closedWindow`.  A claim checks all entitlements of its plan
against the ledger as it finds it and only then takes them out.  An import checks the imported
period against its neighbours.
-/

namespace FeeDistribution.Ledger

variable {ledger next : Ledger}

/-! ## Deposits -/

/-- A deposit raises the open period, which ends the import of history; a deposit of nothing does
nothing. -/
def Deposited (ledger : Ledger) (fees rewards : Amount) (next : Ledger) : Prop :=
  fees = 0 ∧ rewards = 0 ∧ next = ledger ∨
    next = ledger.setCurrent (ledger.window.current.raise fees rewards)

theorem recordFee_ok {amount : Amount} (hrecord : ledger.recordFee amount = .ok next) :
    ledger.Deposited amount 0 next := by
  unfold recordFee at hrecord
  split at hrecord
  · exact .inl ⟨‹_›, rfl, (Except.ok.inj hrecord).symm⟩
  · obtain ⟨fees, hfees, hnext⟩ := Fallible.bind_eq_ok.mp hrecord
    rw [← Fallible.pure_eq_ok.mp hnext, (Pot.deposit_eq_ok.mp hfees).2]
    exact .inr rfl

theorem recordReward_ok {amount : Amount} (hrecord : ledger.recordReward amount = .ok next) :
    ledger.Deposited 0 amount next := by
  unfold recordReward at hrecord
  split at hrecord
  · exact .inl ⟨rfl, ‹_›, (Except.ok.inj hrecord).symm⟩
  · obtain ⟨rewards, hrewards, hnext⟩ := Fallible.bind_eq_ok.mp hrecord
    rw [← Fallible.pure_eq_ok.mp hnext, (Pot.deposit_eq_ok.mp hrewards).2]
    exact .inr rfl

theorem Deposited.length_eq {fees rewards : Amount}
    (hdeposited : ledger.Deposited fees rewards next) :
    next.window.length = ledger.window.length := by
  rcases hdeposited with ⟨_, _, rfl⟩ | rfl
  · rfl
  · exact Window.length_set

/-- A deposit raises no period but the open one. -/
theorem recent_deposited {fees rewards : Amount} (aligned : ledger.window.Aligned)
    (hdeposited : ledger.Deposited fees rewards next) (index : Nat) :
    next.window.recent index =
      if index = 0 then ledger.window.current.raise fees rewards
      else ledger.window.recent index := by
  rcases hdeposited with ⟨rfl, rfl, rfl⟩ | rfl
  · split
    · subst index
      rfl
    · rfl
  · rw [setCurrent, Window.recent_set aligned (Nat.zero_lt_of_lt aligned.two_le_length)]
    exact if_congr eq_comm rfl rfl

/-- A deposit concerns no watermark, and does not open the import again. -/
theorem Deposited.watermarks_eq {fees rewards : Amount}
    (hdeposited : ledger.Deposited fees rewards next) :
    next.watermarks = ledger.watermarks ∧
      (ledger.importOpen = false → next.importOpen = false) := by
  rcases hdeposited with ⟨_, _, rfl⟩ | rfl
  · exact ⟨rfl, id⟩
  · exact ⟨rfl, fun _ => rfl⟩

/-! ## Closing -/

/-- The receiving period with what is left in the oldest one added to it. -/
def receivingRaised (ledger : Ledger) : Period :=
  ledger.receiving.raise ledger.oldest.fees.unclaimed ledger.oldest.rewards.unclaimed

/-- The window after a close: the remainder rolled over, the oldest slot gone, a new period open. -/
def closedWindow (ledger : Ledger) (new : PeriodId) (start : Timestamp) : Window :=
  ((ledger.window.set (ledger.window.length - 2) ledger.receivingRaised).push
    (.opened new start)).2

@[simp] theorem length_closedWindow {new : PeriodId} {start : Timestamp} :
    (ledger.closedWindow new start).length = ledger.window.length :=
  Window.length_push.trans Window.length_set

/-- A close puts every period that stays back by one index, and raises the one that is then the
oldest. -/
theorem recent_closedWindow_succ {new : PeriodId} {start : Timestamp} {index : Nat}
    (aligned : ledger.window.Aligned) (hindex : index + 1 < ledger.window.length) :
    (ledger.closedWindow new start).recent (index + 1) =
      if ledger.window.length - 2 = index then ledger.receivingRaised
      else ledger.window.recent index := by
  rw [closedWindow, Window.recent_push_succ aligned.set (by simpa using hindex),
    Window.recent_set aligned (by omega)]

/-- Whether the receiving period has room for what is left in the oldest one. -/
def RolloverFits (ledger : Ledger) : Prop :=
  ledger.receiving.fees.total + ledger.oldest.fees.unclaimed ≤ Quantity.maxAmount ∧
    ledger.receiving.rewards.total + ledger.oldest.rewards.unclaimed ≤ Quantity.maxAmount

instance (ledger : Ledger) : Decidable ledger.RolloverFits :=
  inferInstanceAs (Decidable (_ ∧ _))

/-- The plan of a close in favour of period `new`. -/
def closePlan (ledger : Ledger) (new : PeriodId) : ClosePlan where
  closed := ledger.window.current.id
  opened := new
  burned := ledger.window.current.fees.total
  rolledFees := ledger.oldest.fees.unclaimed
  rolledRewards := ledger.oldest.rewards.unclaimed

theorem deposit_receiving (ledger : Ledger) :
    ledger.receiving.deposit ledger.oldest.fees.unclaimed ledger.oldest.rewards.unclaimed =
      if ledger.RolloverFits then .ok ledger.receivingRaised else .error .overflow :=
  Period.deposit_eq _ _ _

/-- A close is planned unless its id does not follow or the remainder does not fit. -/
theorem planClose_eq (ledger : Ledger) (new : PeriodId) :
    ledger.planClose new =
      if new ≤ ledger.window.current.id then
        .error (.invalid (.notAfter new ledger.window.current.id))
      else if ledger.RolloverFits then .ok (ledger.closePlan new)
      else .error .overflow := by
  unfold planClose
  dsimp only
  split
  · rfl
  · show ledger.receiving.deposit _ _ >>= _ = _
    rw [deposit_receiving]
    split <;> rfl

theorem planClose_eq_ok {new : PeriodId} {plan : ClosePlan} :
    ledger.planClose new = .ok plan ↔
      ledger.window.current.id < new ∧ ledger.RolloverFits ∧ plan = ledger.closePlan new := by
  rw [planClose_eq]
  split
  · simp [*]
  · split <;> simp [*, Nat.lt_of_not_le, eq_comm]

/-- The sums that a commit forms are those that were checked for its plan. -/
theorem deposit_closePlan (hfits : ledger.RolloverFits) (new : PeriodId) :
    ledger.receiving.deposit (ledger.closePlan new).rolledFees
        (ledger.closePlan new).rolledRewards = .ok ledger.receivingRaised :=
  (deposit_receiving ledger).trans (if_pos hfits)

theorem planClose_ok {new : PeriodId} {plan : ClosePlan} (hplan : ledger.planClose new = .ok plan) :
    ledger.window.current.id < new ∧ plan = ledger.closePlan new :=
  have hclose := planClose_eq_ok.mp hplan
  ⟨hclose.1, hclose.2.2⟩

/-- A close that is carried out is the one the ledger itself would plan. -/
theorem commitClose_ok {plan : ClosePlan} {start : Timestamp} {outcome : CloseOutcome}
    (hcommit : ledger.commitClose plan start = .ok (outcome, next)) :
    ledger.planClose plan.opened = .ok plan ∧ outcome.toClosePlan = plan ∧
      next =
        { ledger with window := ledger.closedWindow plan.opened start, importOpen := false } := by
  simp only [commitClose, Fallible.guard_eq_ok, Fallible.bind_eq_ok, Fallible.pure_eq_ok,
    Prod.mk.injEq] at hcommit
  obtain ⟨fresh, hfresh, hsame, raised, hraised, rfl, rfl⟩ := hcommit
  obtain rfl : fresh = plan := not_not.mp hsame
  obtain ⟨_, hfits, hplan⟩ := planClose_eq_ok.mp hfresh
  rw [hplan, deposit_closePlan hfits] at hraised
  obtain rfl := Except.ok.inj hraised
  exact ⟨hfresh, rfl, rfl⟩

/-! ## Claims -/

theorem checkEntitlement_eq_ok {owed : Entitlement} :
    ledger.checkEntitlement owed = .ok () ↔
      owed.slot < ledger.window.length ∧ (ledger.window.recent owed.slot).id = owed.id ∧
        owed.fees ≤ (ledger.window.recent owed.slot).fees.unclaimed ∧
        owed.rewards ≤ (ledger.window.recent owed.slot).rewards.unclaimed := by
  by_cases hslot : owed.slot < ledger.window.length
  · simp only [checkEntitlement, Window.recent?_eq hslot, hslot, true_and]
    split
    · rename_i hstale
      refine iff_of_false nofun fun ⟨hid, hfees, hrewards⟩ => ?_
      rcases hstale with hother | hless | hless
      · exact hother hid
      · exact hfees.not_gt hless
      · exact hrewards.not_gt hless
    · rename_i hfresh
      push Not at hfresh
      exact iff_of_true rfl hfresh
  · have hnone : ledger.window.recent? owed.slot = none := if_neg hslot
    simp only [checkEntitlement, hnone, hslot, false_and]
    exact iff_of_false nofun id

theorem checkEntitlement_ok {owed : Entitlement} (hcheck : ledger.checkEntitlement owed = .ok ()) :
    owed.slot < ledger.window.length ∧ (ledger.window.recent owed.slot).id = owed.id ∧
      owed.fees ≤ (ledger.window.recent owed.slot).fees.unclaimed ∧
      owed.rewards ≤ (ledger.window.recent owed.slot).rewards.unclaimed :=
  checkEntitlement_eq_ok.mp hcheck

/-- A plan can be committed if all its entitlements can. -/
theorem exists_commitClaim {plan : ClaimPlan} :
    (∃ answer, ledger.commitClaim plan = .ok answer) ↔
      ∀ owed ∈ plan.entitlements, ledger.checkEntitlement owed = .ok () := by
  rw [← Fallible.forM_eq_ok]
  simp only [commitClaim, Fallible.bind_eq_ok, Fallible.pure_eq_ok]
  exact ⟨fun ⟨_, _, hchecks, _⟩ => hchecks, fun hchecks => ⟨_, (), hchecks, rfl⟩⟩

theorem commitClaim_ok {plan : ClaimPlan} {previous : PeriodId}
    (hcommit : ledger.commitClaim plan = .ok (previous, next)) :
    (∀ owed ∈ plan.entitlements, ledger.checkEntitlement owed = .ok ()) ∧
      previous = ledger.watermark plan.account ∧
      next =
        { window := plan.entitlements.foldl takeOut ledger.window
          watermarks :=
            ledger.watermarks.set plan.account (max (ledger.watermark plan.account) plan.through)
          importOpen := false } := by
  obtain ⟨_, hchecks, hcommit⟩ := Fallible.bind_eq_ok.mp hcommit
  have hanswer := Fallible.pure_eq_ok.mp hcommit
  exact ⟨Fallible.forM_eq_ok.mp hchecks, (congrArg Prod.fst hanswer).symm,
    (congrArg Prod.snd hanswer).symm⟩

/-- Entitlements that could be added up sum to the totals. -/
theorem sumEntitlements_ok {entitlements : List Entitlement} {fees rewards : Amount}
    (hsum : sumEntitlements entitlements = .ok (fees, rewards)) (revenue : Revenue) :
    (entitlements.map (·.of revenue)).sum = revenue.select fees rewards := by
  -- the sum may start anywhere
  have key : ∀ (entitlements : List Entitlement) (start : Amount × Amount),
      entitlements.foldlM
          (fun (total : Amount × Amount) (owed : Entitlement) => do
            let fees ← Decimal.add total.1 owed.fees
            let rewards ← Decimal.add total.2 owed.rewards
            pure (fees, rewards)) start = .ok (fees, rewards) →
        revenue.select start.1 start.2 + (entitlements.map (·.of revenue)).sum =
          revenue.select fees rewards := by
    intro entitlements
    induction entitlements with
    | nil =>
        intro start hsum
        rw [List.foldlM_nil, Fallible.pure_eq_ok] at hsum
        simp [hsum]
    | cons owed entitlements ih =>
        intro start hsum
        rw [List.foldlM_cons] at hsum
        simp only [Fallible.bind_eq_ok, Fallible.pure_eq_ok] at hsum
        obtain ⟨_, ⟨fees', hfees, rewards', hrewards, rfl⟩, hrest⟩ := hsum
        rw [← ih _ hrest, (Fallible.eq_of_add_eq_ok hfees).1, (Fallible.eq_of_add_eq_ok hrewards).1,
          List.map_cons, List.sum_cons]
        cases revenue <;> exact (Nat.add_assoc _ _ _).symm
  have hstart := key entitlements (0, 0) hsum
  cases revenue <;> simpa [Revenue.select] using hstart

theorem entitlement_ok {slot : Nat} {period : Period} {share : Amount} {owed : Entitlement}
    (howed : entitlement slot period share = .ok owed) :
    owed.slot = slot ∧ owed.id = period.id := by
  simp only [entitlement, Fallible.bind_eq_ok, Fallible.pure_eq_ok] at howed
  obtain ⟨_, _, _, _, rfl⟩ := howed
  exact ⟨rfl, rfl⟩

/-- The entitlements of an account name the closed periods above its watermark, in order. -/
theorem entitlements_ok {account : Account} {shareOn : PeriodId → Amount}
    {entitlements : List Entitlement}
    (howed : ledger.entitlements account shareOn = .ok entitlements) :
    entitlements.map (fun owed => (owed.slot, owed.id)) =
      (ledger.claimable account).map fun row => (row.1, row.2.id) := by
  unfold Ledger.entitlements at howed
  generalize ledger.claimable account = rows at howed ⊢
  have hrows := Fallible.forall₂_of_mapM howed
  clear howed
  induction hrows with
  | nil => rfl
  | cons hrow _ ih =>
      obtain ⟨hslot, hid⟩ := entitlement_ok hrow
      simp [hslot, hid, ih]

theorem planClaim_ok {account : Account} {shareOn : PeriodId → Amount} {plan : ClaimPlan}
    (hplan : ledger.planClaim account shareOn = .ok plan) :
    (ledger.window.recent 1).Filled ∧
      ledger.entitlements account shareOn = .ok plan.entitlements ∧
      sumEntitlements plan.entitlements = .ok (plan.fees, plan.rewards) ∧
      ¬ (plan.fees = 0 ∧ plan.rewards = 0) ∧
      plan.account = account ∧ plan.through = (ledger.window.recent 1).id := by
  simp only [planClaim, Fallible.guard_eq_ok, Fallible.bind_eq_ok, Fallible.pure_eq_ok] at hplan
  obtain ⟨hfilled, entitlements, hentitlements, ⟨fees, rewards⟩, hsum, hnonzero, rfl⟩ := hplan
  exact ⟨not_not.mp hfilled, hentitlements, hsum, hnonzero, rfl, rfl⟩

/-! ## Importing history -/

/-- A period fits between its neighbours if the newer one is there and has a larger id, and the
older one, where there is one, a smaller id. -/
theorem checkNeighbours_eq_ok {slot : Nat} {period : Period} :
    ledger.checkNeighbours slot period = .ok () ↔
      (slot ≠ 0 → (ledger.window.recent (slot - 1)).Filled ∧
        period.id < (ledger.window.recent (slot - 1)).id) ∧
      ((ledger.window.recent (slot + 1)).Filled →
        (ledger.window.recent (slot + 1)).id < period.id) := by
  by_cases hslot : slot = 0
  · simp only [checkNeighbours, hslot, ne_eq, not_true_eq_false, if_false,
      Fallible.guard_eq_ok_unit, not_and, Nat.not_le, false_implies, true_and]
  · simp only [checkNeighbours, hslot, ne_eq, not_false_eq_true, if_true, Fallible.guard_eq_ok,
      Fallible.guard_eq_ok_unit, not_not, not_and, Nat.not_le, forall_const, and_assoc]

/-- A period is imported if it passes every check, and then it stands in its slot. -/
theorem importPeriod_eq_ok {slot : Nat} {period : Period} :
    ledger.importPeriod slot period = .ok next ↔
      ledger.importOpen = true ∧ slot < ledger.window.length ∧ period.Filled ∧ period.Covered ∧
        ledger.checkNeighbours slot period = .ok () ∧
        { ledger with window := ledger.window.set slot period } = next := by
  simp only [importPeriod, Fallible.guard_eq_ok, Fallible.bind_eq_ok, Fallible.pure_eq_ok, not_not,
    Nat.not_le]
  constructor
  · rintro ⟨hopen, hslot, hfilled, _, hvalid, _, hcheck, hnext⟩
    exact ⟨hopen, hslot, hfilled, Period.validate_eq_ok.mp hvalid, hcheck, hnext⟩
  · rintro ⟨hopen, hslot, hfilled, hcovered, hcheck, hnext⟩
    exact ⟨hopen, hslot, hfilled, (), Period.validate_eq_ok.mpr hcovered, (), hcheck, hnext⟩

theorem importPeriod_ok {slot : Nat} {period : Period}
    (himport : ledger.importPeriod slot period = .ok next) :
    ledger.importOpen = true ∧ slot < ledger.window.length ∧ period.Filled ∧ period.Covered ∧
      ledger.checkNeighbours slot period = .ok () ∧
      next = { ledger with window := ledger.window.set slot period } :=
  have ⟨hopen, hslot, hfilled, hcovered, hcheck, hnext⟩ := importPeriod_eq_ok.mp himport
  ⟨hopen, hslot, hfilled, hcovered, hcheck, hnext.symm⟩

theorem importWatermark_ok {account : Account} {id : PeriodId}
    (himport : ledger.importWatermark account id = .ok next) :
    ledger.importOpen = true ∧
      next = { ledger with watermarks := ledger.watermarks.set account id } := by
  unfold importWatermark at himport
  split at himport
  · exact ⟨‹_›, (Except.ok.inj himport).symm⟩
  · cases himport

end FeeDistribution.Ledger
