import FeeDistribution.Proofs.Lifecycle
import Mathlib.Order.Bounds.Basic

/-!
# Looking up a period

A period is looked up by its id.  Ids outside the range from the oldest one in the window to the open
one are refused before the slots are scanned, and the range itself is found by a scan from the other
end.  This file shows that neither test ever hides a period: in a well-formed window an id is found
exactly if it stands there, at the one index where it stands, and all that is said about the status of
an id follows from where it stands (`Window.WellFormed.lookups_exact`).

Ids may have gaps and slots may never have been filled.  A slot of this kind has the id zero, which is
why zero is not looked up (`Window.StandsAt`).
-/

namespace FeeDistribution.Window

variable {window : Window} {id : PeriodId} {index : Nat}

/-- A period with this id stands at this index.  Zero is the id of slots that were never filled and
stands nowhere. -/
def StandsAt (window : Window) (id : PeriodId) (index : Nat) : Prop :=
  id ≠ 0 ∧ ∃ period, window.recent? index = some period ∧ period.id = id

theorem standsAt_iff : window.StandsAt id index ↔ id ≠ 0 ∧ (window.recent index).id = id := by
  refine and_congr_right fun hid => ?_
  unfold recent
  cases window.recent? index with
  | none => simpa [Period.empty] using hid.symm
  | some period => simp

/-! ## Well-formedness can be computed -/

/-- Outside the window there is nothing to check. -/
theorem wellFormed_iff :
    window.WellFormed ↔
      (2 ≤ window.length ∧ window.length ≤ window.head + 1) ∧ window.current.Filled ∧
        (∀ older < window.length, ∀ newer < older, (window.recent older).Filled →
          (window.recent older).id < (window.recent newer).id) ∧
        (∀ index < window.length,
          ¬ (window.recent index).Filled → window.recent index = .empty) ∧
        ∀ index < window.length, (window.recent index).Covered := by
  constructor
  · intro wf
    exact ⟨⟨wf.two_le_length, wf.length_le_head⟩, wf.filled_current,
      fun _ _ _ hlt => wf.id_lt hlt, fun _ _ => wf.eq_empty, fun index _ => wf.covered index⟩
  · rintro ⟨⟨htwo, hhead⟩, hcurrent, hids, hempty, hcovered⟩
    refine ⟨⟨htwo, hhead⟩, hcurrent, fun hlt hfilled => ?_, fun {index} => ?_, fun index => ?_⟩
    · exact hids _ (lt_length_of_filled hfilled) _ hlt hfilled
    · by_cases hindex : index < window.length
      · exact hempty index hindex
      · exact fun _ => recent_of_length_le (Nat.not_lt.mp hindex)
    · by_cases hindex : index < window.length
      · exact hcovered index hindex
      · rw [recent_of_length_le (Nat.not_lt.mp hindex)]
        exact Period.covered_opened

instance (period : Period) : Decidable period.Covered :=
  decidable_of_iff _ Period.covered_iff.symm

instance (window : Window) : Decidable window.WellFormed :=
  decidable_of_iff _ wellFormed_iff.symm

/-! ## The oldest id -/

/-- The oldest id is that of a period in the window. -/
theorem WellFormed.exists_oldest (wf : window.WellFormed) :
    ∃ index, (window.recent index).Filled ∧ (window.recent index).id = window.oldestId := by
  unfold oldestId
  split
  · rename_i period hfind
    have hmem := List.mem_reverse.mp (List.mem_of_find?_eq_some hfind)
    obtain ⟨index, _, rfl⟩ := mem_toList.mp hmem
    exact ⟨index, by simpa using List.find?_some hfind, rfl⟩
  · exact ⟨0, wf.filled_current, rfl⟩

theorem WellFormed.isLeast_oldestId (wf : window.WellFormed) :
    IsLeast {id | ∃ index, window.StandsAt id index} window.oldestId := by
  constructor
  · obtain ⟨index, hfilled, hid⟩ := wf.exists_oldest
    exact ⟨index, standsAt_iff.mpr ⟨hid ▸ hfilled, hid⟩⟩
  · rintro id ⟨index, hstands⟩
    obtain ⟨hid, rfl⟩ := standsAt_iff.mp hstands
    exact wf.oldestId_le hid

/-! ## The index of an id -/

theorem WellFormed.position?_eq_some_iff_standsAt (wf : window.WellFormed) :
    window.position? id = some index ↔ window.StandsAt id index :=
  wf.position?_eq_some_iff.trans standsAt_iff.symm

theorem WellFormed.index_unique (wf : window.WellFormed) {first second : Nat}
    (hfirst : window.StandsAt id first) (hsecond : window.StandsAt id second) : first = second := by
  rw [← wf.position?_eq_some_iff_standsAt] at hfirst hsecond
  exact Option.some.inj (hfirst.symm.trans hsecond)

/-! ## The status of an id -/

theorem WellFormed.status?_of_standsAt (wf : window.WellFormed)
    (hstands : window.StandsAt id index) :
    window.status? id =
      some (if index = 0 then .opened
        else if (window.recent index).Touched then .partiallyClaimed else .closed) := by
  obtain ⟨hid, rfl⟩ := standsAt_iff.mp hstands
  exact wf.status?_recent hid

theorem WellFormed.status?_eq_evicted_iff (wf : window.WellFormed) :
    window.status? id = some .evicted ↔
      id ≠ 0 ∧ id ≤ window.current.id ∧ ∀ index, ¬ window.StandsAt id index := by
  constructor
  · intro hevicted
    have hborn : ¬ (id = 0 ∨ window.current.id < id) := by
      intro hunborn
      rw [status?_of_unborn hunborn] at hevicted
      cases hevicted
    obtain ⟨hid, hreached⟩ := not_or.mp hborn
    refine ⟨hid, Nat.le_of_not_lt hreached, fun index hstands => ?_⟩
    rw [wf.status?_of_standsAt hstands, Option.some.injEq] at hevicted
    split at hevicted
    · cases hevicted
    · split at hevicted <;> cases hevicted
  · rintro ⟨hid, hreached, habsent⟩
    exact wf.status?_of_absent hid hreached fun index hstands =>
      habsent index (standsAt_iff.mpr ⟨hid, hstands⟩)

theorem WellFormed.status?_eq_none_iff (wf : window.WellFormed) :
    window.status? id = none ↔ id = 0 ∨ window.current.id < id := by
  refine ⟨fun hnone => ?_, status?_of_unborn⟩
  by_contra hborn
  obtain ⟨hid, hreached⟩ := not_or.mp hborn
  by_cases hstands : ∃ index, window.StandsAt id index
  · obtain ⟨index, hstands⟩ := hstands
    rw [wf.status?_of_standsAt hstands] at hnone
    cases hnone
  · rw [wf.status?_eq_evicted_iff.mpr
      ⟨hid, Nat.le_of_not_lt hreached, not_exists.mp hstands⟩] at hnone
    cases hnone

theorem WellFormed.status?_eq_partiallyClaimed_iff (wf : window.WellFormed) :
    window.status? id = some .partiallyClaimed ↔
      ∃ index, 1 ≤ index ∧ window.StandsAt id index ∧ (window.recent index).Touched := by
  constructor
  · intro hclaimed
    obtain ⟨index, hindex, hfilled, rfl⟩ := wf.closed_iff.mp (.inr hclaimed)
    refine ⟨index, hindex, standsAt_iff.mpr ⟨hfilled, rfl⟩, ?_⟩
    rw [wf.status?_recent hfilled, if_neg (Nat.one_le_iff_ne_zero.mp hindex)] at hclaimed
    by_contra huntouched
    rw [if_neg huntouched] at hclaimed
    cases hclaimed
  · rintro ⟨index, hindex, hstands, htouched⟩
    rw [wf.status?_of_standsAt hstands, if_neg (Nat.one_le_iff_ne_zero.mp hindex), if_pos htouched]

/-- In a well-formed window, with whatever gaps between its ids: the oldest id is the least that
stands in a slot; an id is found exactly at the index where it stands, and it stands at one index at
most.  It has no status exactly if it is zero or above the open id, is open exactly if it is the open
id, is closed exactly if it stands behind the open period, partially claimed if something was claimed
there, and was evicted in all other cases. -/
theorem WellFormed.lookups_exact (wf : window.WellFormed) (id : PeriodId) :
    IsLeast {other | ∃ index, window.StandsAt other index} window.oldestId ∧
      (∀ index, window.position? id = some index ↔ window.StandsAt id index) ∧
      (∀ first second, window.StandsAt id first → window.StandsAt id second → first = second) ∧
      (window.status? id = none ↔ id = 0 ∨ window.current.id < id) ∧
      (window.status? id = some .opened ↔ id = window.current.id) ∧
      ((window.status? id = some .closed ∨ window.status? id = some .partiallyClaimed) ↔
        ∃ index, 1 ≤ index ∧ window.StandsAt id index) ∧
      (window.status? id = some .partiallyClaimed ↔
        ∃ index, 1 ≤ index ∧ window.StandsAt id index ∧ (window.recent index).Touched) ∧
      (window.status? id = some .evicted ↔
        id ≠ 0 ∧ id ≤ window.current.id ∧ ∀ index, ¬ window.StandsAt id index) := by
  refine ⟨wf.isLeast_oldestId, fun _ => wf.position?_eq_some_iff_standsAt,
    fun _ _ => wf.index_unique, wf.status?_eq_none_iff, wf.status?_eq_opened_iff, ?_,
    wf.status?_eq_partiallyClaimed_iff, wf.status?_eq_evicted_iff⟩
  rw [wf.closed_iff]
  refine exists_congr fun index => and_congr_right fun _ => ?_
  rw [standsAt_iff]
  refine and_congr_left fun hid => ?_
  rw [Period.Filled, hid]

/-- Four slots after two closes that skipped ids.  One slot was never filled, and something was
claimed from period 5. -/
def gapped : Window where
  slots := #[{ id := 5, fees := { total := 10, claimed := 4 } }, .opened 9 20, .empty, .opened 2 0]
  head := 5

/-- The scan passes the open period to find the one behind it, and no slot hides an id that was
skipped. -/
theorem lookups_exact_gapped :
    gapped.WellFormed ∧
      IsLeast {id | ∃ index, gapped.StandsAt id index} 2 ∧
      gapped.position? 5 = some 1 ∧ gapped.status? 5 = some .partiallyClaimed ∧
      gapped.status? 4 = some .evicted ∧ ∀ index, ¬ gapped.StandsAt 4 index := by
  have wf : gapped.WellFormed := by decide
  have hfive : gapped.StandsAt 5 1 := standsAt_iff.mpr (by decide)
  have hskipped : gapped.status? 4 = some .evicted := by decide
  obtain ⟨holdest, hposition, _, _, _, _, hclaimed, _⟩ := wf.lookups_exact 5
  obtain ⟨_, _, _, _, _, _, _, hevicted⟩ := wf.lookups_exact 4
  exact ⟨wf, holdest, (hposition 1).mpr hfive,
    hclaimed.mpr ⟨1, Nat.le_refl 1, hfive, by decide⟩, hskipped, (hevicted.mp hskipped).2.2⟩

end FeeDistribution.Window
