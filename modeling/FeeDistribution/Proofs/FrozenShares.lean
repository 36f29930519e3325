import FeeDistribution.Proofs.OpenPeriod
import FeeDistribution.Proofs.Surroundings

/-!
# Shares after a close

When a period closes, the debt shares are to be frozen for it.  The keeper of the shares is told
which period opens, not which one closes; it freezes the balances for the period that it was told
last.  After a close this is the period that is open (`System.InStep`), and from then on all goes
well: the next close freezes for the right period, and nothing is ever frozen for it again, since
ids only grow.

Before the first close it is period one.  If history was imported and the open period has got
another number, the first close freezes the balances for a period that is not there, and the period
it closes is judged by live balances forever.  `share_after_close` says when this happens
and what the shares are in either case; `share_not_frozen` is a run in which it does.
-/

namespace FeeDistribution

theorem Stakes.shareOn_of_unpinned {stakes : Stakes} {account : Account} {id : PeriodId}
    (hpinned : stakes.pinnedShare? account id = none) :
    stakes.shareOn account id = partOf (stakes.snapshots[id]?.getD stakes.balances) account := by
  rw [shareOn, hpinned]

theorem Stakes.getElem?_takeSnapshot (stakes : Stakes) (opened id : PeriodId) :
    (stakes.takeSnapshot opened).snapshots[id]? =
      if stakes.period = id then some stakes.balances else stakes.snapshots[id]? := by
  simp [takeSnapshot, Std.ExtTreeMap.getElem?_insert]

namespace System

variable {system : System} {call : Call} {calls : List Call} {outcome : CloseOutcome}

/-- The debt shares are as at the beginning: none are frozen, and the first to be are those of
period one. -/
structure Untouched (system : System) : Prop where
  snapshots : system.env.stakes.snapshots = ∅
  period : system.env.stakes.period = 1

/-- The next debt shares to be frozen are those of the open period, and for no other than past
periods any were. -/
structure InStep (system : System) : Prop where
  importClosed : system.pool.ledger.importOpen = false
  period : system.env.stakes.period = system.pool.ledger.window.current.id
  past : ∀ id, system.pool.ledger.window.current.id ≤ id → system.env.stakes.snapshots[id]? = none

/-! ## One call -/

/-- A close freezes the balances for the period that was expected, and the next one is expected to
be the one it opens. -/
theorem stakes_of_closed (hclosed : (system.step call).1 = .ok (.closed outcome)) :
    (system.step call).2.env.stakes = system.env.stakes.takeSnapshot outcome.opened := by
  obtain ⟨_, _, _, _, _, hnext⟩ := step_closed hclosed
  rw [hnext]
  rfl

theorem Untouched.step (huntouched : system.Untouched)
    (hcall : ∀ id, call ≠ .around (.snapshot id))
    (hopen : ∀ outcome, (system.step call).1 ≠ .ok (.closed outcome)) :
    (system.step call).2.Untouched := by
  obtain ⟨hsnapshots, hperiod⟩ := frozen_step hopen hcall
  exact ⟨hsnapshots.trans huntouched.snapshots, hperiod.trans huntouched.period⟩

/-- A close brings the keeper of the shares in step if nothing was frozen for the period it opens or
a later one. -/
theorem Reachable.inStep_of_closed (hreach : system.Reachable)
    (hclosed : (system.step call).1 = .ok (.closed outcome))
    (hperiod : system.env.stakes.period < outcome.opened)
    (hpast : ∀ id, outcome.opened ≤ id → system.env.stakes.snapshots[id]? = none) :
    (system.step call).2.InStep := by
  obtain ⟨_, hcurrent⟩ := hreach.current_of_closed hclosed
  obtain ⟨_, _, _, _, _, hnext⟩ := step_closed hclosed
  refine ⟨?_, ?_, fun id hid => ?_⟩
  · rw [hnext]
    rfl
  · rw [stakes_of_closed hclosed, hcurrent]
    rfl
  · rw [hcurrent] at hid
    rw [stakes_of_closed hclosed, Stakes.getElem?_takeSnapshot,
      if_neg (Nat.ne_of_lt (hperiod.trans_le hid))]
    exact hpast id hid

theorem Reachable.inStep_of_untouched (hreach : system.Reachable)
    (huntouched : system.Untouched) (hclosed : (system.step call).1 = .ok (.closed outcome)) :
    (system.step call).2.InStep := by
  obtain ⟨hid, hnew, _⟩ := step_closed hclosed
  have hfilled : system.pool.ledger.window.current.id ≠ 0 := hreach.wellFormed.filled_current
  refine hreach.inStep_of_closed hclosed ?_ fun id _ => ?_
  · calc system.env.stakes.period = 1 := huntouched.period
      _ ≤ system.pool.ledger.window.current.id := Nat.one_le_iff_ne_zero.mpr hfilled
      _ = outcome.closed := hid.symm
      _ < outcome.opened := hnew
  · rw [huntouched.snapshots]
    exact Std.ExtTreeMap.getElem?_empty

/-- Once in step, always in step, and what is frozen for a past period stays as it is. -/
theorem InStep.step (hstep : system.InStep) (hreach : system.Reachable)
    (hcall : ∀ id, call ≠ .around (.snapshot id)) :
    (system.step call).2.InStep ∧
      ∀ id < system.pool.ledger.window.current.id,
        id < (system.step call).2.pool.ledger.window.current.id ∧
          (system.step call).2.env.stakes.snapshots[id]? = system.env.stakes.snapshots[id]? := by
  by_cases hclosed : ∃ outcome, (system.step call).1 = .ok (.closed outcome)
  · obtain ⟨outcome, hclosed⟩ := hclosed
    obtain ⟨hid, hnew, _⟩ := step_closed hclosed
    obtain ⟨_, hcurrent⟩ := hreach.current_of_closed hclosed
    refine ⟨hreach.inStep_of_closed hclosed ?_ fun id hlater => ?_, fun id hpast => ⟨?_, ?_⟩⟩
    · rw [hstep.period, ← hid]
      exact hnew
    · exact hstep.past id (hid ▸ (hnew.le.trans hlater))
    · rw [hcurrent]
      exact hpast.trans (hid ▸ hnew)
    · -- what is frozen now is for the period being closed, which comes after `id`
      rw [stakes_of_closed hclosed, Stakes.getElem?_takeSnapshot, hstep.period,
        if_neg (Nat.ne_of_gt hpast)]
  · push Not at hclosed
    obtain ⟨hsnapshots, hperiod⟩ := frozen_step hclosed hcall
    have hposting := step_posting system call
    have hcurrent : (system.step call).2.pool.ledger.window.current.id =
        system.pool.ledger.window.current.id := by
      rw [hposting.current_eq hreach.wellFormed.toAligned hclosed
        fun himport => absurd himport (by simp [hstep.importClosed])]
      rfl
    have himport := (hposting.watermark_le hstep.importClosed).1
    refine ⟨⟨himport, ?_, fun id hlater => ?_⟩,
      fun id hpast => ⟨hcurrent ▸ hpast, congrArg (·[id]?) hsnapshots⟩⟩
    · rw [hperiod, hcurrent, hstep.period]
    · rw [hsnapshots]
      exact hstep.past id (hcurrent ▸ hlater)

/-! ## A run -/

theorem InStep.run (hstep : system.InStep) (hreach : system.Reachable)
    (hcalls : ∀ id, .around (.snapshot id) ∉ calls) :
    (system.run calls).2.InStep ∧
      ∀ id < system.pool.ledger.window.current.id,
        (system.run calls).2.env.stakes.snapshots[id]? = system.env.stakes.snapshots[id]? := by
  induction calls generalizing system with
  | nil => exact ⟨hstep, fun _ _ => rfl⟩
  | cons call calls ih =>
      have hcall : ∀ id, call ≠ .around (.snapshot id) := fun id heq =>
        hcalls id (List.mem_cons.mpr (.inl heq.symm))
      have hcalls : ∀ id, .around (.snapshot id) ∉ calls := fun id hmem =>
        hcalls id (List.mem_cons_of_mem _ hmem)
      obtain ⟨hnext, hfrozen⟩ := hstep.step hreach hcall
      obtain ⟨hlast, hstill⟩ := ih hnext hreach.step hcalls
      refine ⟨hlast, fun id hpast => ?_⟩
      obtain ⟨hlater, hsame⟩ := hfrozen id hpast
      exact (hstill id hlater).trans hsame

/-- Whether a list of calls closes a period. -/
def Closed (system : System) (calls : List Call) : Prop :=
  ∃ outcome, .ok (.closed outcome) ∈ (system.run calls).1

/-- The keeper of the shares is in step after the first close, and untouched before. -/
theorem Untouched.run (huntouched : system.Untouched) (hreach : system.Reachable)
    (hcalls : ∀ id, .around (.snapshot id) ∉ calls) :
    system.Closed calls ∧ (system.run calls).2.InStep ∨
      ¬ system.Closed calls ∧ (system.run calls).2.Untouched := by
  induction calls generalizing system with
  | nil => exact .inr ⟨fun ⟨_, hmem⟩ => absurd hmem List.not_mem_nil, huntouched⟩
  | cons call calls ih =>
      have hcall : ∀ id, call ≠ .around (.snapshot id) := fun id heq =>
        hcalls id (List.mem_cons.mpr (.inl heq.symm))
      have hcalls : ∀ id, .around (.snapshot id) ∉ calls := fun id hmem =>
        hcalls id (List.mem_cons_of_mem _ hmem)
      by_cases hclosed : ∃ outcome, (system.step call).1 = .ok (.closed outcome)
      · -- the first close: the other invariant carries the rest of the run
        obtain ⟨outcome, hclosed⟩ := hclosed
        have hnext := hreach.inStep_of_untouched huntouched hclosed
        exact .inl ⟨⟨outcome, List.mem_cons.mpr (.inl hclosed.symm)⟩,
          (hnext.run hreach.step hcalls).1⟩
      · push Not at hclosed
        refine (ih (huntouched.step hcall hclosed) hreach.step hcalls).imp ?_ ?_
        · rintro ⟨⟨outcome, hmem⟩, hlast⟩
          exact ⟨⟨outcome, List.mem_cons_of_mem _ hmem⟩, hlast⟩
        · rintro ⟨hnone, hlast⟩
          refine ⟨fun ⟨outcome, hmem⟩ => ?_, hlast⟩
          rcases List.mem_cons.mp hmem with hfirst | hmem
          · exact hclosed outcome hfirst.symm
          · exact hnone ⟨outcome, hmem⟩

/-- What is frozen for a period that was closed, whatever happened since. -/
theorem Reachable.snapshot_of_closed (hreach : system.Reachable)
    (hclosed : (system.step call).1 = .ok (.closed outcome)) (hnext : (system.step call).2.InStep)
    (hcalls : ∀ id, .around (.snapshot id) ∉ calls) :
    ((system.step call).2.run calls).2.env.stakes.snapshots[outcome.closed]? =
      if system.env.stakes.period = outcome.closed then some system.env.stakes.balances
      else system.env.stakes.snapshots[outcome.closed]? := by
  obtain ⟨_, hnew, _⟩ := step_closed hclosed
  obtain ⟨_, hcurrent⟩ := hreach.current_of_closed hclosed
  have hpast : outcome.closed < (system.step call).2.pool.ledger.window.current.id := by
    rw [hcurrent]
    exact hnew
  rw [(hnext.run hreach.step hcalls).2 _ hpast, stakes_of_closed hclosed,
    Stakes.getElem?_takeSnapshot]

/-- The share of an account on a period that was closed, whatever happened since, unless one was
pinned: its part of the balances at the close if the period was number one or not the first to be
closed, and otherwise its part of the live balances. -/
theorem share_after_close {start : System} {settings : Settings} {now : Timestamp}
    (hcreate : Pool.create settings now = .ok start.pool) (huntouched : start.Untouched)
    {before after : List Call} (hbefore : ∀ id, .around (.snapshot id) ∉ before)
    (hafter : ∀ id, .around (.snapshot id) ∉ after)
    (hclosed : ((start.run before).2.step call).1 = .ok (.closed outcome)) {account : Account}
    (hpinned : (((start.run before).2.step call).2.run after).2.env.stakes.pinnedShare? account
      outcome.closed = none) :
    (outcome.closed = 1 ∨ start.Closed before →
        (((start.run before).2.step call).2.run after).2.env.stakes.shareOn account
            outcome.closed =
          Stakes.partOf (start.run before).2.env.stakes.balances account) ∧
      (outcome.closed ≠ 1 → ¬ start.Closed before →
        (((start.run before).2.step call).2.run after).2.env.stakes.shareOn account
            outcome.closed =
          Stakes.partOf (((start.run before).2.step call).2.run after).2.env.stakes.balances
            account) := by
  have hstart : start.Reachable := .created hcreate
  have hreach := hstart.run before
  rw [Stakes.shareOn_of_unpinned hpinned]
  rcases huntouched.run hstart hbefore with ⟨hearlier, hclosing⟩ | ⟨hfirst, hclosing⟩
  · -- the keeper was told the id of this period when it opened
    have hcall : ∀ id, call ≠ .around (.snapshot id) := by
      rintro id rfl
      exact closes_of_closed hclosed
    have hnext := (hclosing.step hreach hcall).1
    have hperiod : (start.run before).2.env.stakes.period = outcome.closed :=
      hclosing.period.trans (step_closed hclosed).1.symm
    rw [hreach.snapshot_of_closed hclosed hnext hafter, if_pos hperiod]
    exact ⟨fun _ => rfl, fun _ hnone => absurd hearlier hnone⟩
  · -- the first close freezes for period one, whatever period it closes
    have hnext := hreach.inStep_of_untouched hclosing hclosed
    rw [hreach.snapshot_of_closed hclosed hnext hafter, hclosing.period, hclosing.snapshots]
    refine ⟨fun hone => ?_, fun hother _ => ?_⟩
    · rw [if_pos (hone.resolve_right hfirst).symm]
      rfl
    · rw [if_neg (Ne.symm hother)]
      simp

/-- A new pool in which one account holds all debt shares. -/
def oneHolder : System :=
  (twoSlots.run [.around (.balance .zero 1)]).2

/-- The balances at the close of period one decide, not those set later. -/
theorem share_after_close_oneHolder :
    twoSlots.Untouched ∧
      (oneHolder.step (.closeRelayed .zero 6 0)).1 = .ok (.closed
        { closed := 1, opened := 6, burned := 0, rolledFees := 0, rolledRewards := 0,
          evicted := .empty }) ∧
      ((oneHolder.step (.closeRelayed .zero 6 0)).2.run
        [.around (.balance other 3)]).2.env.stakes.shareOn .zero 1 = unit := by
  have huntouched : twoSlots.Untouched := ⟨rfl, rfl⟩
  have hclosed : (oneHolder.step (.closeRelayed .zero 6 0)).1 = .ok (.closed
      { closed := 1, opened := 6, burned := 0, rolledFees := 0, rolledRewards := 0,
        evicted := .empty }) := rfl
  have hcreate : Pool.create twoSlots.pool.settings 0 = .ok twoSlots.pool := rfl
  have hbefore : ∀ id, .around (.snapshot id) ∉ [Call.around (.balance .zero 1)] := by simp
  have hafter : ∀ id, .around (.snapshot id) ∉ [Call.around (.balance other 3)] := by simp
  have hpinned : ((oneHolder.step (.closeRelayed .zero 6 0)).2.run
      [.around (.balance other 3)]).2.env.stakes.pinnedShare? .zero 1 = none := rfl
  obtain ⟨hfrozen, _⟩ :=
    share_after_close hcreate huntouched hbefore hafter hclosed hpinned
  exact ⟨huntouched, hclosed, (hfrozen (.inl rfl)).trans (by decide)⟩

/-- The same pool after its open period was given another number. -/
def renumbered : System :=
  (oneHolder.run [.importPeriod .zero 0 { id := 5 }]).2

/-- When it closes, nothing is frozen for it: the share of its only holder falls from one to a
quarter as soon as somebody else gets debt shares. -/
theorem share_not_frozen :
    (renumbered.step (.closeRelayed .zero 6 0)).1 = .ok (.closed
        { closed := 5, opened := 6, burned := 0, rolledFees := 0, rolledRewards := 0,
          evicted := .empty }) ∧
      Stakes.partOf renumbered.env.stakes.balances .zero = unit ∧
      ((renumbered.step (.closeRelayed .zero 6 0)).2.run
        [.around (.balance other 3)]).2.env.stakes.pinnedShare? .zero 5 = none ∧
      ((renumbered.step (.closeRelayed .zero 6 0)).2.run
        [.around (.balance other 3)]).2.env.stakes.shareOn .zero 5 = unit / 4 := by
  refine ⟨rfl, by decide, rfl, by decide⟩

end System

end FeeDistribution
