import FeeDistribution.Proofs.SlidingWindow

/-!
# The life of a period

A period is opened, closed, claimed from and evicted, in this order and never back.  None of this
is stored: `Window.status?` computes the status of an id from the window, by its range of ids and a
scan.  Ids may have gaps, so that an id within the range may belong to no period at all.

## Strategy

In a well-formed window the scan finds an id exactly where a period carries it
(`WellFormed.position?_eq_some_iff`), and there are three cases: an id that was never reached has no
status, one that stands in the window has the status of its index (`WellFormed.status?_recent`), and
any other was evicted (`WellFormed.status?_of_absent`).

`Advances` compares two windows without mentioning a status: every period of the later window that
is not newer than all of the earlier one stood there, no further back, and what had been claimed
from has been claimed from.  No call but an import breaks this, and the status can only rise
(`Advances.rank_le`).
-/

namespace FeeDistribution

/-- The order in which the status of an id changes. -/
def PeriodStatus.rank : Option PeriodStatus → Nat
  | none => 0
  | some .opened => 1
  | some .closed => 2
  | some .partiallyClaimed => 3
  | some .evicted => 4

theorem PeriodStatus.rank_le (status : Option PeriodStatus) :
    rank status ≤ rank (some .evicted) := by
  cases status with
  | none => decide
  | some status => cases status <;> decide

namespace Window

variable {window earlier later : Window} {id : PeriodId} {index : Nat}

/-! ## Finding a period -/

theorem WellFormed.id_le (wf : window.WellFormed) {newer older : Nat} (hle : newer ≤ older)
    (hfilled : (window.recent older).Filled) :
    (window.recent older).id ≤ (window.recent newer).id := by
  rcases hle.eq_or_lt with rfl | hlt
  · exact Nat.le_refl _
  · exact (wf.id_lt hlt hfilled).le

theorem WellFormed.id_le_current (wf : window.WellFormed) (hfilled : (window.recent index).Filled) :
    (window.recent index).id ≤ window.current.id :=
  wf.id_le (Nat.zero_le index) hfilled

/-- The oldest id is that of the last filled index. -/
theorem WellFormed.oldestId_le (wf : window.WellFormed) (hfilled : (window.recent index).Filled) :
    window.oldestId ≤ (window.recent index).id := by
  have hindex := lt_length_of_filled hfilled
  unfold oldestId
  split
  · rename_i period hfind
    obtain ⟨hfound, place, hplace, hread, hbefore⟩ := List.find?_eq_some_iff_getElem.mp hfind
    have hlast : window.recent (window.length - 1 - place) = period := by
      rw [← hread, List.getElem_reverse, getElem_toList, length_toList]
    have hperiod : period.Filled := by simpa using hfound
    rw [← hlast] at hperiod ⊢
    refine wf.id_le ?_ hperiod
    -- everything behind the period that was found is unfilled
    by_contra hbehind
    have hunfilled := hbefore (window.length - 1 - index) (by omega)
    rw [List.getElem_reverse, getElem_toList, length_toList] at hunfilled
    have hback : window.length - 1 - (window.length - 1 - index) = index := by omega
    rw [hback] at hunfilled
    simp [hfilled] at hunfilled
  · rename_i hnone
    have hmem : window.recent index ∈ window.toList.reverse := by
      rw [List.mem_reverse, mem_toList]
      exact ⟨index, hindex, rfl⟩
    have hunfilled := List.find?_eq_none.mp hnone _ hmem
    simp [hfilled] at hunfilled

theorem WellFormed.position?_eq_some_iff (wf : window.WellFormed) :
    window.position? id = some index ↔ id ≠ 0 ∧ (window.recent index).id = id := by
  unfold position?
  constructor
  · intro hfound
    split at hfound
    · cases hfound
    · rename_i hrange
      obtain ⟨hid, _⟩ := List.find?_range_eq_some.mp hfound
      exact ⟨fun hzero => hrange (.inl hzero), by simpa using hid⟩
  · rintro ⟨hzero, rfl⟩
    have hrange : ¬ ((window.recent index).id = 0 ∨ (window.recent index).id < window.oldestId ∨
        window.current.id < (window.recent index).id) := by
      rintro (hempty | hbelow | habove)
      · exact hzero hempty
      · exact hbelow.not_ge (wf.oldestId_le hzero)
      · exact habove.not_ge (wf.id_le_current hzero)
    rw [if_neg hrange, List.find?_range_eq_some]
    refine ⟨by simp, List.mem_range.mpr (lt_length_of_filled hzero), fun newer hlt => ?_⟩
    simp [(wf.id_lt hlt hzero).ne']

theorem WellFormed.position?_eq_none_iff (wf : window.WellFormed) (hid : id ≠ 0) :
    window.position? id = none ↔ ∀ index, (window.recent index).id ≠ id := by
  rw [Option.eq_none_iff_forall_ne_some]
  refine forall_congr' fun index => ?_
  rw [Ne, wf.position?_eq_some_iff]
  simp [hid]

/-! ## The status of an id -/

theorem status?_of_unborn (hunborn : id = 0 ∨ window.current.id < id) :
    window.status? id = none :=
  if_pos hunborn

/-- The status of a period that stands in the window. -/
theorem WellFormed.status?_recent (wf : window.WellFormed)
    (hfilled : (window.recent index).Filled) :
    window.status? (window.recent index).id =
      some (if index = 0 then .opened
        else if (window.recent index).Touched then .partiallyClaimed else .closed) := by
  have hposition : window.position? (window.recent index).id = some index :=
    wf.position?_eq_some_iff.mpr ⟨hfilled, rfl⟩
  have hborn : ¬ ((window.recent index).id = 0 ∨ window.current.id < (window.recent index).id) :=
    not_or.mpr ⟨hfilled, (wf.id_le_current hfilled).not_gt⟩
  rw [status?, if_neg hborn, hposition]
  cases index with
  | zero => rfl
  | succ index =>
      rw [if_neg (Nat.succ_ne_zero index)]
      show (if (window.recent (index + 1)).Touched then _ else _) = _
      split <;> rfl

theorem WellFormed.status?_of_absent (wf : window.WellFormed) (hzero : id ≠ 0)
    (hborn : id ≤ window.current.id) (habsent : ∀ index, (window.recent index).id ≠ id) :
    window.status? id = some .evicted := by
  rw [status?, if_neg (not_or.mpr ⟨hzero, hborn.not_gt⟩),
    (wf.position?_eq_none_iff hzero).mpr habsent]

/-- An id was never reached, stands at an index, or was evicted. -/
theorem WellFormed.status?_cases (wf : window.WellFormed) (id : PeriodId) :
    window.status? id = none ∨
      (∃ index, (window.recent index).Filled ∧ (window.recent index).id = id ∧
        window.status? id = some (if index = 0 then .opened
          else if (window.recent index).Touched then .partiallyClaimed else .closed)) ∨
      window.status? id = some .evicted := by
  by_cases hunborn : id = 0 ∨ window.current.id < id
  · exact .inl (status?_of_unborn hunborn)
  · obtain ⟨hzero, hborn⟩ := not_or.mp hunborn
    by_cases hstands : ∃ index, (window.recent index).id = id
    · obtain ⟨index, rfl⟩ := hstands
      exact .inr (.inl ⟨index, hzero, rfl, wf.status?_recent hzero⟩)
    · push Not at hstands
      exact .inr (.inr (wf.status?_of_absent hzero (Nat.le_of_not_lt hborn) hstands))

/-- One id is open, that of the open period. -/
theorem WellFormed.status?_eq_opened_iff (wf : window.WellFormed) :
    window.status? id = some .opened ↔ id = window.current.id := by
  constructor
  · intro hopened
    rcases wf.status?_cases id with hstatus | ⟨index, _, rfl, hstatus⟩ | hstatus <;>
      rw [hstatus] at hopened
    · cases hopened
    · by_cases hindex : index = 0
      · subst index
        rfl
      · rw [if_neg hindex] at hopened
        split at hopened <;> cases hopened
    · cases hopened
  · rintro rfl
    exact wf.status?_recent wf.filled_current

/-- The closed periods are those behind the open one. -/
theorem WellFormed.closed_iff (wf : window.WellFormed) :
    (window.status? id = some .closed ∨ window.status? id = some .partiallyClaimed) ↔
      ∃ index, 1 ≤ index ∧ (window.recent index).Filled ∧ (window.recent index).id = id := by
  constructor
  · intro hclosed
    rcases wf.status?_cases id with hstatus | ⟨index, hfilled, hid, hstatus⟩ | hstatus <;>
      rw [hstatus] at hclosed
    · simp at hclosed
    · refine ⟨index, Nat.one_le_iff_ne_zero.mpr ?_, hfilled, hid⟩
      rintro rfl
      simp at hclosed
    · simp at hclosed
  · rintro ⟨index, hindex, hfilled, rfl⟩
    rw [wf.status?_recent hfilled, if_neg (Nat.one_le_iff_ne_zero.mp hindex)]
    split
    · exact .inr rfl
    · exact .inl rfl

/-! ## A window moves on -/

/-- Every period of the later window that is not newer than all of the earlier one stood there, no
further back, and what had been claimed from has been claimed from. -/
structure Advances (earlier later : Window) : Prop where
  current_le : earlier.current.id ≤ later.current.id
  stood : ∀ index, (later.recent index).Filled → (later.recent index).id ≤ earlier.current.id →
    ∃ before ≤ index, (earlier.recent before).id = (later.recent index).id ∧
      ((earlier.recent before).Touched → (later.recent index).Touched)

/-- A window whose periods keep their ids, and of which more may have been claimed. -/
theorem Advances.of_ids (hids : ∀ index, (later.recent index).id = (earlier.recent index).id)
    (htouched : ∀ index, (earlier.recent index).Touched → (later.recent index).Touched) :
    earlier.Advances later where
  current_le := (hids 0).ge
  stood index _ _ := ⟨index, Nat.le_refl _, (hids index).symm, htouched index⟩

theorem Advances.refl : window.Advances window :=
  .of_ids (fun _ => rfl) fun _ => id

/-- The status of an id only rises. -/
theorem Advances.rank_le (hadvances : earlier.Advances later) (wf : earlier.WellFormed)
    (wfLater : later.WellFormed) (id : PeriodId) :
    PeriodStatus.rank (earlier.status? id) ≤ PeriodStatus.rank (later.status? id) := by
  by_cases hunborn : id = 0 ∨ earlier.current.id < id
  · rw [status?_of_unborn hunborn]
    exact Nat.zero_le _
  · obtain ⟨hzero, hborn⟩ := not_or.mp hunborn
    by_cases hstands : ∃ index, (later.recent index).id = id
    · obtain ⟨index, rfl⟩ := hstands
      have hfilled : (later.recent index).Filled := hzero
      obtain ⟨before, hle, hid, htouched⟩ :=
        hadvances.stood index hfilled (Nat.le_of_not_lt hborn)
      have hbefore : (earlier.recent before).Filled := by rwa [Period.Filled, hid]
      rw [wfLater.status?_recent hfilled, ← hid, wf.status?_recent hbefore]
      rcases Nat.eq_zero_or_pos before with rfl | hpos
      · -- it was open, which is the lowest status a period can have
        rw [if_pos rfl]
        split
        · exact Nat.le_refl _
        · split <;> decide
      · rw [if_neg hpos.ne', if_neg (hpos.trans_le hle).ne']
        by_cases hclaimed : (earlier.recent before).Touched
        · rw [if_pos hclaimed, if_pos (htouched hclaimed)]
        · rw [if_neg hclaimed]
          split <;> decide
    · push Not at hstands
      have hreached : id ≤ later.current.id := (Nat.le_of_not_lt hborn).trans hadvances.current_le
      rw [wfLater.status?_of_absent hzero hreached hstands]
      exact PeriodStatus.rank_le _

end Window

namespace Ledger

variable {ledger next : Ledger}

theorem advances_deposited {fees rewards : Amount} (aligned : ledger.window.Aligned)
    (hdeposited : ledger.Deposited fees rewards next) : ledger.window.Advances next.window := by
  refine .of_ids (id_recent_deposited aligned hdeposited) fun index htouched => ?_
  rw [recent_deposited aligned hdeposited]
  split
  · subst index
    exact htouched
  · exact htouched

theorem advances_commitClaim {plan : ClaimPlan} {previous : PeriodId}
    (aligned : ledger.window.Aligned) (hcommit : ledger.commitClaim plan = .ok (previous, next)) :
    ledger.window.Advances next.window := by
  refine .of_ids (id_recent_commitClaim aligned hcommit) fun index htouched => ?_
  rw [recent_takeOut aligned hcommit]
  exact htouched.imp (Nat.lt_of_lt_of_le · (Nat.le_add_right _ _))
    (Nat.lt_of_lt_of_le · (Nat.le_add_right _ _))

/-- A close moves every period to the next slot; the remainder that rolls over claims nothing. -/
theorem advances_closedWindow {new : PeriodId} {start : Timestamp}
    (aligned : ledger.window.Aligned) (hnew : ledger.window.current.id < new) :
    ledger.window.Advances (ledger.closedWindow new start) where
  current_le := by
    rw [current_closedWindow aligned]
    exact hnew.le
  stood := by
    intro index hfilled hold
    cases index with
    | zero =>
        have hopened : (ledger.closedWindow new start).recent 0 = .opened new start :=
          current_closedWindow aligned
        rw [hopened] at hold
        exact absurd hnew (Nat.not_lt.mpr hold)
    | succ index =>
        have hindex : index + 1 < ledger.window.length :=
          length_closedWindow ▸ Window.lt_length_of_filled hfilled
        refine ⟨index, Nat.le_succ index, (id_recent_closedWindow aligned hindex).symm,
          fun htouched => ?_⟩
        rw [recent_closedWindow_succ aligned hindex]
        split
        · subst index
          exact htouched
        · exact htouched

end Ledger

namespace Posting

variable {ledger next : Ledger} {payments nextPayments : Payments} {call : Call}
  {result : Except Fault Reply}

/-- Once the import of history has ended, it has ended for good. -/
theorem importOpen_eq (hposting : Posting ledger payments call result next nextPayments)
    (himport : ledger.importOpen = false) : next.importOpen = false := by
  cases hposting with
  | refused | aside | settled | outside => exact himport
  | finishImport => rfl
  | fee hrecord => exact (Ledger.recordFee_ok hrecord).watermarks_eq.2 himport
  | reward hrecord => exact (Ledger.recordReward_ok hrecord).watermarks_eq.2 himport
  | closed _ hcommit =>
      obtain ⟨_, _, rfl⟩ := Ledger.commitClose_ok hcommit
      rfl
  | claimed _ _ hcommit =>
      obtain ⟨_, _, rfl⟩ := Ledger.commitClaim_ok hcommit
      rfl
  | unpaid _ _ hcommit => rw [Ledger.revertClaim_of_commitClaim hcommit]
  | importPeriod himported =>
      obtain ⟨hopen, _⟩ := Ledger.importPeriod_ok himported
      rw [himport] at hopen
      cases hopen
  | importWatermark himported =>
      obtain ⟨hopen, _⟩ := Ledger.importWatermark_ok himported
      rw [himport] at hopen
      cases hopen

theorem advances (hposting : Posting ledger payments call result next nextPayments)
    (aligned : ledger.window.Aligned) (himport : ledger.importOpen = false) :
    ledger.window.Advances next.window := by
  cases hposting with
  | refused | aside | settled | outside | finishImport => exact .refl
  | fee hrecord => exact Ledger.advances_deposited aligned (Ledger.recordFee_ok hrecord)
  | reward hrecord => exact Ledger.advances_deposited aligned (Ledger.recordReward_ok hrecord)
  | closed _ hcommit =>
      obtain ⟨hplan, _, rfl⟩ := Ledger.commitClose_ok hcommit
      exact Ledger.advances_closedWindow aligned (Ledger.planClose_ok hplan).1
  | claimed _ _ hcommit => exact Ledger.advances_commitClaim aligned hcommit
  | unpaid _ _ hcommit =>
      rw [Ledger.revertClaim_of_commitClaim hcommit]
      exact .refl
  | importPeriod himported =>
      obtain ⟨hopen, _⟩ := Ledger.importPeriod_ok himported
      rw [himport] at hopen
      cases hopen
  | importWatermark himported =>
      obtain ⟨_, rfl⟩ := Ledger.importWatermark_ok himported
      exact .refl

end Posting

namespace System

variable {system : System} {call : Call} {id : PeriodId}

/-- The status of an id. -/
def status? (system : System) (id : PeriodId) : Option PeriodStatus :=
  system.pool.ledger.window.status? id

theorem Reachable.rank_step_le (hreach : system.Reachable)
    (himport : system.pool.ledger.importOpen = false) :
    PeriodStatus.rank (system.status? id) ≤
      PeriodStatus.rank ((system.step call).2.status? id) :=
  ((step_posting system call).advances hreach.wellFormed.toAligned himport).rank_le
    hreach.wellFormed hreach.step.wellFormed id

theorem importOpen_run (himport : system.pool.ledger.importOpen = false) (calls : List Call) :
    (system.run calls).2.pool.ledger.importOpen = false := by
  induction calls generalizing system with
  | nil => exact himport
  | cons call calls ih => exact ih ((step_posting system call).importOpen_eq himport)

theorem Reachable.rank_run_le (hreach : system.Reachable)
    (himport : system.pool.ledger.importOpen = false) (calls : List Call) :
    PeriodStatus.rank (system.status? id) ≤
      PeriodStatus.rank ((system.run calls).2.status? id) := by
  induction calls generalizing system with
  | nil => exact Nat.le_refl _
  | cons call calls ih =>
      calc PeriodStatus.rank (system.status? id)
          ≤ PeriodStatus.rank ((system.step call).2.status? id) := hreach.rank_step_le himport
        _ ≤ PeriodStatus.rank (((system.step call).2.run calls).2.status? id) :=
            ih hreach.step ((step_posting system call).importOpen_eq himport)

/-- A close raises the open id. -/
theorem Reachable.current_lt_of_closed (hreach : system.Reachable) {outcome : CloseOutcome}
    (hclosed : (system.step call).1 = .ok (.closed outcome)) :
    system.pool.ledger.window.current.id <
      (system.step call).2.pool.ledger.window.current.id := by
  obtain ⟨hid, hnew, _⟩ := step_closed hclosed
  obtain ⟨_, hcurrent⟩ := hreach.current_of_closed hclosed
  rw [hcurrent, ← hid]
  exact hnew

/-- Once the import of history has ended, it stays so, and periods only move forward: between any
two moments of a run the status of no id falls.  At every moment one id is open, that of the open
period, and every close that succeeds raises it. -/
theorem Reachable.status_forward (hreach : system.Reachable)
    (himport : system.pool.ledger.importOpen = false) (before after : List Call) :
    (system.run before).2.pool.ledger.importOpen = false ∧
      (∀ id, PeriodStatus.rank ((system.run before).2.status? id) ≤
        PeriodStatus.rank (((system.run before).2.run after).2.status? id)) ∧
      (∀ id, (system.run before).2.status? id = some .opened ↔
        id = (system.run before).2.pool.ledger.window.current.id) ∧
      ∀ call outcome, ((system.run before).2.step call).1 = .ok (.closed outcome) →
        (system.run before).2.pool.ledger.window.current.id <
          ((system.run before).2.step call).2.pool.ledger.window.current.id := by
  have hmoment := hreach.run before
  have hstays := importOpen_run himport before
  refine ⟨hstays, fun id => hmoment.rank_run_le hstays after, fun id => ?_, fun call outcome => ?_⟩
  · exact hmoment.wellFormed.status?_eq_opened_iff
  · exact hmoment.current_lt_of_closed

/-- A claim that is refused by the treasury leaves its period closed, and one that is paid does
not; the ids that a relayed close skips count as evicted. -/
theorem status_forward_oneOwed :
    oneOwed.Reachable ∧ oneOwed.pool.ledger.importOpen = false ∧
      (∀ id, PeriodStatus.rank (oneOwed.status? id) ≤
        PeriodStatus.rank ((oneOwed.run [.around .refuseNext, .claim .zero 0]).2.status? id)) ∧
      (oneOwed.run [.around .refuseNext, .claim .zero 0]).2.status? 7 = some .opened ∧
      (oneOwed.run [.around .refuseNext, .claim .zero 0]).2.status? 1 = some .closed ∧
      (oneOwed.run [.claim .zero 0]).2.status? 1 = some .partiallyClaimed ∧
      oneOwed.status? 3 = some .evicted := by
  have himport : oneOwed.pool.ledger.importOpen = false := by decide
  obtain ⟨_, hforward, _⟩ := reachable_oneOwed.status_forward himport []
    [.around .refuseNext, .claim .zero 0]
  obtain ⟨_, _, hopened, _⟩ := reachable_oneOwed.status_forward himport
    [.around .refuseNext, .claim .zero 0] []
  exact ⟨reachable_oneOwed, himport, hforward, (hopened 7).mpr (by decide), by decide, by decide,
    by decide⟩

end System

end FeeDistribution
