import FeeDistribution.Proofs.Entitlements
import Mathlib.Order.Lattice.Nat

/-!
# Well-formed windows

The filled slots of a window are a run from the open period, their ids fall with the index, a slot
that was never filled is empty, and from no period more was claimed than it collected.  This file
shows that every operation of the ledger keeps this; that every run keeps it is concluded in
`Reachable.lean`.

## Strategy

`WellFormed` speaks of `Window.recent` at all indices, outside the window as well, where everything
reads as empty; so no bound has to be carried along.  That ids fall wherever the older slot is
filled already says that the filled slots are a run, `WellFormed.filled_of_le`: the id of a newer
slot is above some id, hence not zero.

Deposits, the rollover and claims leave all ids alone and are covered by one lemma,
`WellFormed.of_ids`.  The parts depend on each other in the rollover: it raises the receiving slot,
which must not be one that was never filled, and it is not, because the oldest slot, if anything is
left in it, is filled as well.
-/

namespace FeeDistribution

namespace Window

variable {window : Window}

/-- What holds of the window of a ledger at all times. -/
structure WellFormed (window : Window) : Prop extends window.Aligned where
  /-- A period is open. -/
  filled_current : window.current.Filled
  /-- Ids fall with the index, as far as slots are filled. -/
  id_lt : ∀ {newer older : Nat}, newer < older → (window.recent older).Filled →
    (window.recent older).id < (window.recent newer).id
  /-- A slot that was never filled is empty. -/
  eq_empty : ∀ {index : Nat}, ¬ (window.recent index).Filled → window.recent index = .empty
  /-- From no period more was claimed than it collected. -/
  covered : ∀ index, (window.recent index).Covered

/-- The filled slots are a run from the open period. -/
theorem WellFormed.filled_of_le (wf : window.WellFormed) {newer older : Nat} (hle : newer ≤ older)
    (hfilled : (window.recent older).Filled) : (window.recent newer).Filled := by
  rcases hle.eq_or_lt with rfl | hlt
  · exact hfilled
  · exact Nat.ne_zero_of_lt (wf.id_lt hlt hfilled)

/-- A window with the same ids is well-formed if its periods are covered and its unfilled slots
empty. -/
theorem WellFormed.of_ids {changed : Window} (wf : window.WellFormed) (aligned : changed.Aligned)
    (hids : ∀ index, (changed.recent index).id = (window.recent index).id)
    (hempty : ∀ index, ¬ (changed.recent index).Filled → changed.recent index = .empty)
    (hcovered : ∀ index, (changed.recent index).Covered) : changed.WellFormed where
  toAligned := aligned
  filled_current := by
    unfold current Period.Filled
    rw [hids]
    exact wf.filled_current
  id_lt := by
    intro newer older hlt hfilled
    rw [hids, hids]
    exact wf.id_lt hlt (by rwa [Period.Filled, ← hids])
  eq_empty := hempty _
  covered := hcovered

/-- The filled slots are the first few. -/
theorem WellFormed.exists_filled_iff_lt (wf : window.WellFormed) :
    ∃ count ≤ window.length, ∀ index, (window.recent index).Filled ↔ index < count := by
  have hunfilled : ¬ (window.recent window.length).Filled :=
    fun hfilled => Nat.lt_irrefl _ (lt_length_of_filled hfilled)
  have hexists : ∃ index, ¬ (window.recent index).Filled := ⟨_, hunfilled⟩
  refine ⟨Nat.find hexists, Nat.find_le hunfilled, fun index => ⟨fun hfilled => ?_, fun hlt => ?_⟩⟩
  · by_contra hle
    exact Nat.find_spec hexists (wf.filled_of_le (Nat.not_lt.mp hle) hfilled)
  · exact not_not.mp (Nat.find_min hexists hlt)

theorem WellFormed.covered_of_mem (wf : window.WellFormed) {period : Period}
    (hperiod : period ∈ window.slots) : period.Covered := by
  obtain ⟨index, _, rfl⟩ := (mem_slots wf.toAligned).mp hperiod
  exact wf.covered index

/-! ## One slot overwritten -/

/-- Overwriting a period by one of the same id. -/
theorem WellFormed.set_of_id_eq {index : Nat} {period : Period} (wf : window.WellFormed)
    (hindex : index < window.length) (hid : period.id = (window.recent index).id)
    (hempty : ¬ period.Filled → period = .empty) (hcovered : period.Covered) :
    (window.set index period).WellFormed := by
  have hread := recent_set wf.toAligned hindex period
  refine wf.of_ids wf.toAligned.set (fun other => ?_) (fun other => ?_) (fun other => ?_) <;>
    rw [hread other] <;> split
  · rename_i heq
    rw [← heq, hid]
  · rfl
  · exact hempty
  · exact wf.eq_empty
  · exact hcovered
  · exact wf.covered other

/-- Overwriting a period by one that fits between its neighbours leaves ids falling: what lies
further off is beyond a neighbour. -/
theorem id_lt_set_of_neighbours {index : Nat} {period : Period} (aligned : window.Aligned)
    (hfalling : ∀ {newer older : Nat}, newer < older → (window.recent older).Filled →
      (window.recent older).id < (window.recent newer).id)
    (hindex : index < window.length)
    (hnewer : index ≠ 0 → period.id < (window.recent (index - 1)).id)
    (holder : (window.recent (index + 1)).Filled → (window.recent (index + 1)).id < period.id)
    {newer older : Nat} (hlt : newer < older)
    (hfilled : ((window.set index period).recent older).Filled) :
    ((window.set index period).recent older).id < ((window.set index period).recent newer).id := by
  have habove : ∀ {newer}, newer < index → period.id < (window.recent newer).id := by
    intro newer hlt
    have hnext := hnewer (by omega)
    rcases (Nat.le_sub_one_of_lt hlt).eq_or_lt with rfl | hfar
    · exact hnext
    · exact hnext.trans (hfalling hfar (Nat.ne_zero_of_lt hnext))
  have hbelow : ∀ {older}, index < older → (window.recent older).Filled →
      (window.recent older).id < period.id := by
    intro older hlt holderFilled
    rcases (Nat.succ_le_of_lt hlt).eq_or_lt with rfl | hfar
    · exact holder holderFilled
    · have hnext := hfalling hfar holderFilled
      exact hnext.trans (holder (Nat.ne_zero_of_lt hnext))
  rw [recent_set aligned hindex] at hfilled ⊢
  rw [recent_set aligned hindex]
  by_cases hhere : index = older
  · subst hhere
    rw [if_pos rfl, if_neg hlt.ne']
    exact habove hlt
  · rw [if_neg hhere] at hfilled ⊢
    split
    · rename_i heq
      exact hbelow (heq ▸ hlt) hfilled
    · exact hfalling hlt hfilled

/-- Overwriting a period by one that fits between its neighbours. -/
theorem WellFormed.set_of_neighbours {index : Nat} {period : Period} (wf : window.WellFormed)
    (hindex : index < window.length) (hfilled : period.Filled) (hcovered : period.Covered)
    (hnewer : index ≠ 0 → period.id < (window.recent (index - 1)).id)
    (holder : (window.recent (index + 1)).Filled → (window.recent (index + 1)).id < period.id) :
    (window.set index period).WellFormed := by
  have hread := recent_set wf.toAligned hindex period
  refine ⟨wf.toAligned.set, ?_, ?_, ?_, ?_⟩
  · unfold current
    rw [hread]
    split
    · exact hfilled
    · exact wf.filled_current
  · exact id_lt_set_of_neighbours wf.toAligned wf.id_lt hindex hnewer holder
  · intro other
    rw [hread]
    split
    · exact fun hnot => absurd hfilled hnot
    · exact wf.eq_empty
  · intro other
    rw [hread]
    split
    · exact hcovered
    · exact wf.covered other

/-! ## A new period opened -/

theorem WellFormed.push {period : Period} (wf : window.WellFormed)
    (hnew : window.current.id < period.id) (hcovered : period.Covered) :
    (window.push period).2.WellFormed := by
  have hzero := recent_push_zero wf.toAligned period
  have hread : ∀ index, (window.push period).2.recent (index + 1) = window.recent index ∨
      (window.push period).2.recent (index + 1) = .empty := by
    intro index
    by_cases hindex : index + 1 < window.length
    · exact .inl (recent_push_succ wf.toAligned hindex)
    · exact .inr (recent_of_length_le (by simpa using hindex))
  refine ⟨wf.toAligned.push, ?_, ?_, ?_, ?_⟩
  · rw [current, hzero]
    exact Nat.ne_zero_of_lt hnew
  · intro newer older hlt hfilled
    obtain ⟨older, rfl⟩ : ∃ index, older = index + 1 := ⟨older - 1, by omega⟩
    -- the older slot is filled, so it and all newer ones come from the old window
    have hindex := lt_length_of_filled hfilled
    rw [length_push] at hindex
    rw [recent_push_succ wf.toAligned hindex] at hfilled ⊢
    cases newer with
    | zero =>
        rw [hzero]
        rcases Nat.eq_zero_or_pos older with rfl | hpos
        · exact hnew
        · exact (wf.id_lt hpos hfilled).trans hnew
    | succ newer =>
        rw [recent_push_succ wf.toAligned (by omega)]
        exact wf.id_lt (by omega) hfilled
  · intro index hunfilled
    cases index with
    | zero =>
        rw [hzero] at hunfilled
        exact absurd (Nat.ne_zero_of_lt hnew) hunfilled
    | succ index =>
        rcases hread index with hold | hempty
        · rw [hold] at hunfilled ⊢
          exact wf.eq_empty hunfilled
        · exact hempty
  · intro index
    cases index with
    | zero => rwa [hzero]
    | succ index =>
        rcases hread index with hold | hempty
        · rw [hold]
          exact wf.covered index
        · rw [hempty]
          exact Period.covered_opened

/-! ## A new window -/

/-- A window in which no slot was ever filled. -/
private def blank (length : Nat) : Window :=
  { slots := Array.replicate length .empty, head := length - 1 }

@[simp] private theorem length_blank {length : Nat} : (blank length).length = length :=
  Array.size_replicate

private theorem recent_blank {length index : Nat} : (blank length).recent index = .empty := by
  by_cases hindex : index < (blank length).length
  · have hplace : (blank length).place index < length :=
      Nat.lt_of_lt_of_eq (place_lt hindex) length_blank
    have hstored : (blank length).slots[(blank length).place index]? = some .empty :=
      Array.getElem?_replicate.trans (if_pos hplace)
    exact Option.some.inj ((recent_eq hindex).symm.trans hstored)
  · exact recent_of_length_le (Nat.not_lt.mp hindex)

/-- In a new window nothing is filled but the open period. -/
theorem create_ok {length : Nat} {id : PeriodId} {start : Timestamp}
    (hcreate : Window.create length id start = .ok window) :
    window.Aligned ∧ window.length = length ∧
      ∀ index, window.recent index = if 0 = index then .opened id start else .empty := by
  unfold create at hcreate
  split at hcreate
  · cases hcreate
  · rename_i hlength
    obtain rfl : (blank length).set 0 (.opened id start) = window := Except.ok.inj hcreate
    have aligned : (blank length).Aligned := by
      refine ⟨?_, ?_⟩ <;> rw [length_blank]
      · exact Nat.le_of_not_lt hlength
      · exact Nat.le_add_of_sub_le (Nat.le_refl (length - 1))
    refine ⟨aligned.set, by simp, fun index => ?_⟩
    rw [recent_set aligned (Nat.zero_lt_of_lt aligned.two_le_length), recent_blank]

theorem wellFormed_create {length : Nat} {start : Timestamp}
    (hcreate : Window.create length 1 start = .ok window) :
    window.WellFormed ∧ window.length = length := by
  obtain ⟨aligned, hlength, hread⟩ := create_ok hcreate
  have hunfilled : ¬ Period.empty.Filled := fun hfilled => hfilled rfl
  refine ⟨⟨aligned, ?_, ?_, ?_, ?_⟩, hlength⟩
  · rw [current, hread, if_pos rfl]
    exact Nat.one_ne_zero
  · intro newer older hlt hfilled
    rw [hread, if_neg (by omega)] at hfilled
    exact absurd hfilled hunfilled
  · intro index hempty
    rw [hread] at hempty ⊢
    split at hempty
    · exact absurd Nat.one_ne_zero hempty
    · rw [if_neg ‹_›]
  · intro index
    rw [hread]
    split <;> exact Period.covered_opened

/-! ## Entitlements taken out -/

/-- Entitlements of different slots that each fit into what is left also fit together. -/
private theorem sumOf_filter_le {entitlements : List Entitlement} {revenue : Revenue}
    (hslots : (entitlements.map Entitlement.slot).Nodup) (bound : Nat → Amount)
    (hbound : ∀ owed ∈ entitlements, owed.of revenue ≤ bound owed.slot) (index : Nat) :
    Period.sumOf (entitlements.filter fun owed => decide (index = owed.slot)) revenue ≤
      bound index := by
  by_cases hconcern : ∃ owed ∈ entitlements, owed.slot = index
  · obtain ⟨owed, howed, rfl⟩ := hconcern
    rw [Period.sumOf_filter_eq hslots howed]
    exact hbound owed howed
  · push Not at hconcern
    rw [Period.sumOf_filter_eq_zero hconcern]
    exact Nat.zero_le _

/-- A period that gives out no more than is left stays covered; an empty one stays empty. -/
private theorem takeOut_all {period : Period} {entitlements : List Entitlement}
    (hcovered : period.Covered)
    (hfit : ∀ revenue, Period.sumOf entitlements revenue ≤ (period.pot revenue).unclaimed) :
    (entitlements.foldl Period.takeOut period).Covered ∧
      (entitlements.foldl Period.takeOut period).id = period.id ∧
      (period = .empty → entitlements.foldl Period.takeOut period = .empty) := by
  rw [Period.foldl_claim]
  refine ⟨Period.Covered.claim hcovered (hfit .fees) (hfit .rewards), rfl, ?_⟩
  rintro rfl
  rw [Nat.le_zero.mp (hfit .fees), Nat.le_zero.mp (hfit .rewards), Period.claim_zero]

theorem WellFormed.takeOut {entitlements : List Entitlement} (wf : window.WellFormed)
    (hslots : (entitlements.map Entitlement.slot).Nodup)
    (hfit : ∀ owed ∈ entitlements, owed.slot < window.length ∧
      ∀ revenue, owed.of revenue ≤ ((window.recent owed.slot).pot revenue).unclaimed) :
    (window.modifyAll Period.takeOut entitlements).WellFormed := by
  have hread := recent_modifyAll Period.takeOut wf.toAligned fun owed howed =>
    (hfit owed howed).1
  have htogether : ∀ index revenue,
      Period.sumOf (entitlements.filter fun owed => decide (index = owed.slot)) revenue ≤
        ((window.recent index).pot revenue).unclaimed := fun index revenue =>
    sumOf_filter_le hslots (fun slot => ((window.recent slot).pot revenue).unclaimed)
      (fun owed howed => (hfit owed howed).2 revenue) index
  have htaken := fun index => takeOut_all (wf.covered index) (htogether index)
  have aligned : (window.modifyAll Period.takeOut entitlements).Aligned :=
    ⟨by simpa using wf.two_le_length, by simpa using wf.length_le_head⟩
  refine wf.of_ids aligned (fun index => ?_) (fun index hunfilled => ?_) (fun index => ?_)
  · rw [hread]
    exact (htaken index).2.1
  · rw [hread] at hunfilled ⊢
    refine (htaken index).2.2 (wf.eq_empty ?_)
    rwa [Period.Filled, (htaken index).2.1] at hunfilled
  · rw [hread]
    exact (htaken index).1

end Window

namespace Ledger

variable {ledger next : Ledger}

/-! ## The operations of the ledger -/

theorem checkCovered_eq_ok (wf : ledger.window.WellFormed) :
    ledger.checkCovered = .ok () := by
  refine if_pos fun period hperiod => ?_
  obtain ⟨index, _, rfl⟩ := Window.mem_toList.mp hperiod
  exact Period.covered_iff.mp (wf.covered index)

theorem wellFormed_create {length : Nat} {start : Timestamp}
    (hcreate : Ledger.create length start = .ok ledger) :
    ledger.window.WellFormed ∧ ledger.window.length = length := by
  obtain ⟨window, hwindow, hledger⟩ := Fallible.bind_eq_ok.mp hcreate
  obtain rfl : { window := window : Ledger } = ledger := Fallible.pure_eq_ok.mp hledger
  exact Window.wellFormed_create hwindow

theorem wellFormed_deposited {fees rewards : Amount} (wf : ledger.window.WellFormed)
    (hdeposited : ledger.Deposited fees rewards next) : next.window.WellFormed := by
  rcases hdeposited with ⟨_, _, rfl⟩ | rfl
  · exact wf
  · exact wf.set_of_id_eq (Nat.zero_lt_of_lt wf.two_le_length) rfl
      (fun hunfilled => absurd wf.filled_current hunfilled) (wf.covered 0).raise

/-- The receiving slot is raised only if it was filled before. -/
theorem receivingRaised_eq_empty (wf : ledger.window.WellFormed)
    (hunfilled : ¬ ledger.receivingRaised.Filled) : ledger.receivingRaised = .empty := by
  have hreceiving : ledger.receiving = .empty := wf.eq_empty hunfilled
  have holdest : ledger.oldest = .empty :=
    wf.eq_empty fun hfilled => hunfilled (wf.filled_of_le (by omega) hfilled)
  rw [receivingRaised, hreceiving, holdest]
  rfl

theorem wellFormed_closedWindow {new : PeriodId} {start : Timestamp}
    (wf : ledger.window.WellFormed) (hnew : ledger.window.current.id < new) :
    (ledger.closedWindow new start).WellFormed := by
  have htwo := wf.two_le_length
  have hraised : (ledger.window.set (ledger.window.length - 2) ledger.receivingRaised).WellFormed :=
    wf.set_of_id_eq (by omega) rfl (receivingRaised_eq_empty wf) (wf.covered _).raise
  refine hraised.push ?_ Period.covered_opened
  -- raising the receiving period leaves the id of the open one alone, also if they are the same
  rw [Window.current, Window.recent_set wf.toAligned (by omega)]
  split
  · rename_i hreceiving
    rwa [Window.current, ← hreceiving] at hnew
  · exact hnew

/-- A plan lists entitlements of different slots. -/
theorem nodup_slots {account : Account} {shareOn : PeriodId → Amount}
    {entitlements : List Entitlement}
    (howed : ledger.entitlements account shareOn = .ok entitlements) :
    (entitlements.map Entitlement.slot).Nodup := by
  -- the slots are those of the claimable periods, which are listed by index
  have hrows := congrArg (List.map Prod.fst) (entitlements_ok howed)
  simp only [List.map_map] at hrows
  have hordered : ((ledger.claimable account).map Prod.fst).Pairwise (· < ·) :=
    List.pairwise_map.mpr (Window.pairwise_closed.filter _)
  have hslots : (entitlements.map Entitlement.slot).Pairwise (· < ·) := hrows ▸ hordered
  exact hslots.imp Nat.ne_of_lt

/-- A claim keeps the window well-formed if its plan lists different slots, even if the plan was made
long before. -/
theorem wellFormed_commitClaim_of_nodup {plan : ClaimPlan} {previous : PeriodId}
    (wf : ledger.window.WellFormed) (hslots : (plan.entitlements.map Entitlement.slot).Nodup)
    (hcommit : ledger.commitClaim plan = .ok (previous, next)) : next.window.WellFormed := by
  obtain ⟨hchecks, _, rfl⟩ := commitClaim_ok hcommit
  refine wf.takeOut hslots fun owed howed => ?_
  obtain ⟨hslot, _, hfees, hrewards⟩ := checkEntitlement_ok (hchecks owed howed)
  exact ⟨hslot, fun revenue => by cases revenue <;> assumption⟩

theorem wellFormed_commitClaim {account : Account} {shareOn : PeriodId → Amount} {plan : ClaimPlan}
    {previous : PeriodId} (wf : ledger.window.WellFormed)
    (hplan : ledger.planClaim account shareOn = .ok plan)
    (hcommit : ledger.commitClaim plan = .ok (previous, next)) : next.window.WellFormed :=
  wellFormed_commitClaim_of_nodup wf (nodup_slots (planClaim_ok hplan).2.1) hcommit

theorem wellFormed_importPeriod {slot : Nat} {period : Period} (wf : ledger.window.WellFormed)
    (himport : ledger.importPeriod slot period = .ok next) : next.window.WellFormed := by
  obtain ⟨_, hslot, hfilled, hcovered, hcheck, rfl⟩ := importPeriod_ok himport
  -- the check against the neighbours is what `set_of_neighbours` asks for
  obtain ⟨hnewer, holder⟩ := checkNeighbours_eq_ok.mp hcheck
  exact wf.set_of_neighbours hslot hfilled hcovered (fun hne => (hnewer hne).2) holder

end Ledger

end FeeDistribution
