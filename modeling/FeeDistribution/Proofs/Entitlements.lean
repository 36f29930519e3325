import FeeDistribution.Proofs.LedgerOperations

/-!
# Taking entitlements out and putting them back

A claim takes the entitlements of its plan out of the window one after the other, and a claim that
could not be paid puts them back in the same order.  Both are folds of `Window.modify`, and such a
fold is read place by place: a place of storage sees just the entitlements that concern it
(`Window.getElem?_slots_modifyAll`).

From one period, what a list of entitlements takes out is the sum of its amounts
(`foldl_claim`), and what it puts back is the same sum as long as the entitlements name that period
(`foldl_unclaim`).  So putting back undoes taking out, whatever the order and even if several
entitlements concern one place: `Window.modifyAll_putBack_takeOut`.
-/

namespace FeeDistribution

/-! ## One period -/

namespace Period

variable {period : Period} {entitlements : List Entitlement}

/-- Takes an entitlement out. -/
def takeOut (period : Period) (owed : Entitlement) : Period :=
  period.claim owed.fees owed.rewards

/-- Puts an entitlement back, if it names this period. -/
def putBack (period : Period) (owed : Entitlement) : Period :=
  if period.id = owed.id then period.unclaim owed.fees owed.rewards else period

/-- The fees and rewards that entitlements name. -/
def sumOf (entitlements : List Entitlement) (revenue : Revenue) : Amount :=
  (entitlements.map (·.of revenue)).sum

/-- Of the entitlements of different slots one alone concerns its slot. -/
theorem sumOf_filter_eq {owed : Entitlement} {revenue : Revenue}
    (hslots : (entitlements.map Entitlement.slot).Nodup) (howed : owed ∈ entitlements) :
    sumOf (entitlements.filter fun other => decide (owed.slot = other.slot)) revenue =
      owed.of revenue := by
  induction entitlements with
  | nil => cases howed
  | cons first entitlements ih =>
      obtain ⟨hfirst, hslots⟩ := List.nodup_cons.mp hslots
      rcases List.mem_cons.mp howed with rfl | howed
      · have hnone : entitlements.filter (fun other => decide (owed.slot = other.slot)) = [] := by
          apply List.filter_eq_nil_iff.mpr
          intro other hother hsame
          exact hfirst (of_decide_eq_true hsame ▸ List.mem_map_of_mem hother)
        rw [List.filter_cons_of_pos (by simp), hnone]
        simp [sumOf]
      · have hne : ¬ owed.slot = first.slot := by
          intro hsame
          exact hfirst (hsame ▸ List.mem_map_of_mem howed)
        rw [List.filter_cons_of_neg (by simpa using hne)]
        exact ih hslots howed

theorem sumOf_filter_eq_zero {index : Nat} {revenue : Revenue}
    (hother : ∀ owed ∈ entitlements, owed.slot ≠ index) :
    sumOf (entitlements.filter fun owed => decide (index = owed.slot)) revenue = 0 := by
  have hnone : entitlements.filter (fun owed => decide (index = owed.slot)) = [] := by
    apply List.filter_eq_nil_iff.mpr
    intro owed howed hsame
    exact hother owed howed (of_decide_eq_true hsame).symm
  rw [hnone]
  rfl

theorem foldl_claim :
    entitlements.foldl takeOut period =
      period.claim (sumOf entitlements .fees) (sumOf entitlements .rewards) := by
  induction entitlements generalizing period with
  | nil => rfl
  | cons owed entitlements ih =>
      rw [List.foldl_cons, ih]
      simp [takeOut, claim, Pot.claim, sumOf, Entitlement.of, Revenue.select, Nat.add_assoc]

theorem foldl_unclaim (hids : ∀ owed ∈ entitlements, period.id = owed.id) :
    entitlements.foldl putBack period =
      period.unclaim (sumOf entitlements .fees) (sumOf entitlements .rewards) := by
  induction entitlements generalizing period with
  | nil => rfl
  | cons owed entitlements ih =>
      obtain ⟨hid, hids⟩ := List.forall_mem_cons.mp hids
      have hrest : entitlements.foldl putBack (period.unclaim owed.fees owed.rewards) = _ := ih hids
      rw [List.foldl_cons, putBack, if_pos hid, hrest]
      simp [unclaim, Pot.unclaim, sumOf, Entitlement.of, Revenue.select, Nat.sub_sub]

/-- Entitlements of one period can be put back after they were all taken out. -/
theorem foldl_unclaim_foldl_claim (hids : ∀ owed ∈ entitlements, period.id = owed.id) :
    entitlements.foldl putBack (entitlements.foldl takeOut period) = period := by
  have hclaimed : ∀ fees rewards, ∀ owed ∈ entitlements, (period.claim fees rewards).id = owed.id :=
    fun _ _ => hids
  rw [foldl_claim, foldl_unclaim (hclaimed _ _), unclaim_claim]

end Period

/-! ## All places of storage -/

namespace Window

variable {window : Window} {entitlements : List Entitlement}
  {change : Period → Entitlement → Period}

/-- Changes the period of each entitlement, one after the other. -/
def modifyAll (change : Period → Entitlement → Period) (window : Window)
    (entitlements : List Entitlement) : Window :=
  entitlements.foldl (fun window owed => window.modify owed.slot (change · owed)) window

@[simp] theorem length_modifyAll :
    (window.modifyAll change entitlements).length = window.length := by
  unfold modifyAll
  induction entitlements generalizing window with
  | nil => rfl
  | cons owed entitlements ih =>
      rw [List.foldl_cons, ih, length_modify]

@[simp] theorem head_modifyAll : (window.modifyAll change entitlements).head = window.head := by
  unfold modifyAll
  induction entitlements generalizing window with
  | nil => rfl
  | cons owed entitlements ih =>
      rw [List.foldl_cons, ih, head_modify]

@[simp] theorem place_modifyAll : (window.modifyAll change entitlements).place = window.place := by
  funext index
  simp [place]

/-- A place of storage sees the entitlements that concern it. -/
theorem getElem?_slots_modifyAll (hslots : ∀ owed ∈ entitlements, owed.slot < window.length)
    (place : Nat) :
    (window.modifyAll change entitlements).slots[place]? =
      (window.slots[place]?).map
        ((entitlements.filter fun owed =>
          decide (place = window.place owed.slot)).foldl change) := by
  unfold modifyAll
  induction entitlements generalizing window with
  | nil => simp
  | cons owed entitlements ih =>
      obtain ⟨hslot, hslots⟩ := List.forall_mem_cons.mp hslots
      rw [List.foldl_cons, ih (by simpa [modify] using hslots), getElem?_slots_modify hslot,
        Option.map_map]
      congr 1
      funext period
      by_cases hplace : place = window.place owed.slot <;> simp [modify, hplace]

/-- Within the window, an index sees the entitlements of its slot. -/
theorem recent_modifyAll (change : Period → Entitlement → Period) (aligned : window.Aligned)
    (hslots : ∀ owed ∈ entitlements, owed.slot < window.length) (index : Nat) :
    (window.modifyAll change entitlements).recent index =
      (entitlements.filter fun owed => decide (index = owed.slot)).foldl change
        (window.recent index) := by
  by_cases hindex : index < window.length
  · have hread : (window.modifyAll change entitlements).slots[
          (window.modifyAll change entitlements).place index]? =
        some ((window.modifyAll change entitlements).recent index) := recent_eq (by simpa)
    have hconcern : entitlements.filter (fun owed =>
          decide (window.place index = window.place owed.slot)) =
        entitlements.filter fun owed => decide (index = owed.slot) := by
      apply List.filter_congr
      intro owed howed
      have hplace : window.place index = window.place owed.slot ↔ index = owed.slot :=
        ⟨place_inj aligned hindex (hslots owed howed), congrArg window.place⟩
      simp [hplace]
    rw [place_modifyAll, getElem?_slots_modifyAll hslots, recent_eq hindex, hconcern] at hread
    exact (Option.some.inj hread).symm
  · have hnone : entitlements.filter (fun owed => decide (index = owed.slot)) = [] := by
      apply List.filter_eq_nil_iff.mpr
      intro owed howed
      have := hslots owed howed
      simp only [decide_eq_true_eq]
      omega
    rw [hnone, recent_of_length_le (by simpa using hindex), recent_of_length_le (by omega)]
    rfl

/-- From each period, entitlements take out the sum of those in its slot. -/
theorem recent_takeOut (aligned : window.Aligned)
    (hslots : ∀ owed ∈ entitlements, owed.slot < window.length) (index : Nat) :
    (window.modifyAll Period.takeOut entitlements).recent index =
      (window.recent index).claim
        (Period.sumOf (entitlements.filter fun owed => decide (index = owed.slot)) .fees)
        (Period.sumOf (entitlements.filter fun owed => decide (index = owed.slot)) .rewards) := by
  rw [recent_modifyAll Period.takeOut aligned hslots, Period.foldl_claim]

/-- Entitlements that stand for the periods in their slots can be put back after they were all
taken out. -/
theorem modifyAll_putBack_takeOut
    (hstand : ∀ owed ∈ entitlements,
      owed.slot < window.length ∧ (window.recent owed.slot).id = owed.id) :
    (window.modifyAll Period.takeOut entitlements).modifyAll Period.putBack entitlements =
      window := by
  have hslots : ∀ owed ∈ entitlements, owed.slot < window.length := fun owed howed =>
    (hstand owed howed).1
  refine eq_of_slots_eq (Array.ext_getElem? fun place => ?_) (by simp)
  rw [getElem?_slots_modifyAll (by simpa using hslots), getElem?_slots_modifyAll hslots,
    Option.map_map, place_modifyAll]
  cases hperiod : window.slots[place]? with
  | none => rfl
  | some period =>
      refine congrArg some (Period.foldl_unclaim_foldl_claim fun owed howed => ?_)
      obtain ⟨howed, hplace⟩ := List.mem_filter.mp howed
      obtain ⟨hslot, hid⟩ := hstand owed howed
      have hread := recent_eq hslot
      rw [← of_decide_eq_true hplace, hperiod] at hread
      rw [← hid, Option.some.inj hread]

end Window

/-! ## A claim carried out -/

theorem Ledger.length_commitClaim {ledger next : Ledger} {plan : ClaimPlan} {previous : PeriodId}
    (hcommit : ledger.commitClaim plan = .ok (previous, next)) :
    next.window.length = ledger.window.length := by
  rw [(commitClaim_ok hcommit).2.2]
  exact Window.length_modifyAll

theorem Ledger.head_commitClaim {ledger next : Ledger} {plan : ClaimPlan} {previous : PeriodId}
    (hcommit : ledger.commitClaim plan = .ok (previous, next)) :
    next.window.head = ledger.window.head := by
  rw [(commitClaim_ok hcommit).2.2]
  exact Window.head_modifyAll

/-- A claim takes from each period what its plan has for the slot. -/
theorem Ledger.recent_takeOut {ledger next : Ledger} {plan : ClaimPlan} {previous : PeriodId}
    (aligned : ledger.window.Aligned) (hcommit : ledger.commitClaim plan = .ok (previous, next))
    (index : Nat) :
    next.window.recent index =
      (ledger.window.recent index).claim
        (Period.sumOf (plan.entitlements.filter fun owed => decide (index = owed.slot)) .fees)
        (Period.sumOf (plan.entitlements.filter fun owed => decide (index = owed.slot))
          .rewards) := by
  obtain ⟨hchecks, _, rfl⟩ := commitClaim_ok hcommit
  exact Window.recent_takeOut aligned
    (fun owed howed => (checkEntitlement_ok (hchecks owed howed)).1) index

/-! ## A claim undone -/

/-- Setting the number of an account back to what it was undoes setting it. -/
theorem Tally.set_get {tally : Tally} {account : Account} {value : Nat} :
    (tally.set account value).set account (tally.get account) = tally := by
  apply ext_get
  intro other
  rw [get_set, get_set]
  split
  · rw [‹account = other›]
  · rfl

/-- Undoing a claim restores the periods and the watermarks; that the import of history has ended
remains. -/
theorem Ledger.revertClaim_of_commitClaim {ledger next : Ledger} {plan : ClaimPlan}
    {previous : PeriodId} (hcommit : ledger.commitClaim plan = .ok (previous, next)) :
    next.revertClaim plan previous = { ledger with importOpen := false } := by
  obtain ⟨hchecks, rfl, rfl⟩ := commitClaim_ok hcommit
  have hwindow : (ledger.window.modifyAll Period.takeOut plan.entitlements).modifyAll
      Period.putBack plan.entitlements = ledger.window :=
    Window.modifyAll_putBack_takeOut fun owed howed =>
      have hstand := checkEntitlement_ok (hchecks owed howed)
      ⟨hstand.1, hstand.2.1⟩
  rw [revertClaim, Ledger.mk.injEq]
  exact ⟨hwindow, Tally.set_get, rfl⟩

end FeeDistribution
