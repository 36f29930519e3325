import FeeDistribution.Proofs.Events
import FeeDistribution.Proofs.Lifecycle

/-!
# The event stream is a faithful journal

All events of a run, those drained followed by those still held, tell its whole history as far as
events can: the payments in their order, the closes, the inflow of the reward stream, and who
approved whom.  Every call is told by the events it records, and `Tells` composes, so the run follows
by induction.  The ids of closed periods increase because a close ends the import of history, and
from then on the open id never falls.
-/

namespace FeeDistribution

namespace System

variable {system : System} {call : Call} {fault : Fault}

/-- No event tells of a change of stakes. -/
theorem told_stakes {result : Except Fault Unit} {rewards : Rewards} {stakes : Stakes}
    (hnotified : rewards.notified = system.pool.rewards.notified) :
    system.Told
      (reply .ofUnit
        (result, { pool := { system.pool with rewards }, env := { system.env with stakes } })) := by
  cases result <;> exact told_of_same rfl rfl rfl hnotified rfl rfl

/-- Every call is told by the events it records, unless somebody else pays. -/
theorem step_told (system : System) {call : Call} (hcall : ¬ call.Foreign) :
    system.Told (system.step call) := by
  cases call with
  | fee | reward | finishImport =>
      refine told_onPool fun answer pool hresult => ?_
      obtain ⟨_, _, heq⟩ := Fallible.bind_eq_ok.mp hresult
      cases heq
      exact told_of_same rfl rfl rfl rfl rfl rfl
  | importWatermark =>
      refine told_onPool fun answer pool hresult => ?_
      simp only [Fallible.bind_eq_ok] at hresult
      obtain ⟨_, _, _, _, heq⟩ := hresult
      cases heq
      exact told_of_same rfl rfl rfl rfl rfl rfl
  | importPeriod caller slot period =>
      refine told_onPool fun answer pool hresult => ?_
      simp only [Fallible.bind_eq_ok] at hresult
      obtain ⟨_, _, _, _, heq⟩ := hresult
      cases heq
      exact ⟨[.periodImported slot period.id], .recorded rfl rfl (List.append_nil _).symm rfl
        (fun _ _ => rfl) nofun rfl⟩
  | notify amount =>
      refine told_onPool fun answer pool hresult => ?_
      obtain ⟨⟨inflow, rewards⟩, hnotify, heq⟩ := Fallible.bind_eq_ok.mp hresult
      cases heq
      exact ⟨[.rewardsNotified amount _], .recorded rfl rfl (List.append_nil _).symm
        (Rewards.notified_notify hnotify) (fun _ _ => rfl) nofun rfl⟩
  | distributePending =>
      refine told_onPool fun answer pool hresult => ?_
      obtain ⟨⟨inflow, rewards⟩, hpending, heq⟩ := Fallible.bind_eq_ok.mp hresult
      cases heq
      exact told_of_same rfl rfl rfl (Rewards.notified_distributePending hpending) rfl rfl
  | checkpoint account =>
      refine told_onPool fun answer pool hresult => ?_
      obtain ⟨rewards, hupdate, heq⟩ := Fallible.bind_eq_ok.mp hresult
      cases heq
      exact told_of_same rfl rfl rfl (Rewards.notified_beforeChange hupdate) rfl rfl
  | closeTimed | closeRelayed => exact told_close trivial
  | claim => exact told_claim
  | claimOnBehalf account delegate now =>
      change system.Told (reply .claimed (system.claimOnBehalf account delegate now))
      unfold claimOnBehalf
      split
      · exact told_claim
      · exact told_of_same rfl rfl rfl rfl rfl rfl
  | approve owner delegate => exact told_approve owner delegate
  | removeDelegate owner delegate => exact told_removeDelegate owner delegate
  | settle => exact told_settle
  | mint account amount =>
      exact told_stakes (system.pool.rewards.notified_mint system.env.stakes account amount)
  | burn account amount =>
      exact told_stakes (system.pool.rewards.notified_burn system.env.stakes account amount)
  | setDuration | setIssuanceRatio | setTargetThreshold | setStalePeriod | setRelayer =>
      exact told_configure
  | drain => exact ⟨[], .silent rfl rfl rfl (fun _ _ => rfl) rfl (List.append_nil _).symm⟩
  | around => exact told_around hcall

/-- All events of a run, those drained followed by those still held. -/
def eventsOf (run : List (Except Fault Reply) × System) : List Event :=
  run.1.flatMap drainedBy ++ run.2.pool.journal.events

theorem run_told (system : System) {calls : List Call}
    (hcalls : ∀ call ∈ calls, ¬ call.Foreign) :
    ∃ events, Tells system (system.run calls).1 events (system.run calls).2 := by
  induction calls generalizing system with
  | nil => exact ⟨[], .refl⟩
  | cons call calls ih =>
      obtain ⟨hcall, hcalls⟩ := List.forall_mem_cons.mp hcalls
      obtain ⟨events, hstep⟩ := step_told system hcall
      obtain ⟨more, hrun⟩ := ih (system.step call).2 hcalls
      exact ⟨events ++ more, hstep.append hrun⟩

/-! ## Calls that fail -/

theorem journal_settle_of_failed {account : Account}
    (hfault : (system.settle account).1 = .error fault) :
    (system.settle account).2.pool.journal = system.pool.journal := by
  unfold settle at hfault ⊢
  generalize system.pool.rewards.settle _ _ _ = settled at hfault ⊢
  obtain ⟨result, rewards, treasury⟩ := settled
  cases hfault
  rfl

/-- A call that fails records and drains nothing. -/
theorem journal_of_failed (hfault : (system.step call).1 = .error fault) :
    (system.step call).2.pool.journal = system.pool.journal := by
  by_cases hcall : call.PaysNobody
  · rcases step_of_failed hcall hfault with hnext | ⟨_, _, _, hnext⟩ <;> rw [hnext]
    rfl
  · cases call with
    | claim | claimOnBehalf =>
        rcases step_failed rfl hfault with ⟨_, hnext⟩ | ⟨_, _, hnext⟩ <;> rw [hnext]
        rfl
    | settle account => exact journal_settle_of_failed (Fallible.map_eq_error.mp hfault)
    | mint | burn | around => rfl
    | _ => exact absurd trivial hcall

/-! ## Closed periods -/

/-- Once history is complete, no call lowers the open id. -/
theorem Reachable.current_le_step (hreach : system.Reachable)
    (himport : system.pool.ledger.importOpen = false) (call : Call) :
    system.pool.ledger.window.current.id ≤
      (system.step call).2.pool.ledger.window.current.id :=
  ((step_posting system call).advances hreach.wellFormed.toAligned himport).current_le

theorem importOpen_of_closed {outcome : CloseOutcome}
    (hclosed : (system.step call).1 = .ok (.closed outcome)) :
    (system.step call).2.pool.ledger.importOpen = false := by
  obtain ⟨_, _, _, _, _, hnext⟩ := step_closed hclosed
  rw [hnext]
  rfl

theorem closedBy_eq_some {result : Except Fault Reply} {id : PeriodId} :
    closedBy result = some id ↔
      ∃ outcome : CloseOutcome, result = .ok (.closed outcome) ∧ outcome.closed = id := by
  constructor
  · intro hclosed
    match result, hclosed with
    | .ok (.closed outcome), rfl => exact ⟨outcome, rfl, rfl⟩
  · rintro ⟨outcome, rfl, rfl⟩
    rfl

theorem Reachable.closed_increasing (hreach : system.Reachable) (calls : List Call) :
    (system.pool.ledger.importOpen = false →
        ∀ id ∈ (system.run calls).1.filterMap closedBy,
          system.pool.ledger.window.current.id ≤ id) ∧
      ((system.run calls).1.filterMap closedBy).Pairwise (· < ·) := by
  induction calls generalizing system with
  | nil => exact ⟨fun _ => nofun, .nil⟩
  | cons call calls ih =>
      obtain ⟨hlater, hpairwise⟩ := ih hreach.step
      cases hclosed : closedBy (system.step call).1 with
      | none =>
          simp only [System.run, List.filterMap_cons_none hclosed]
          refine ⟨fun himport id hid => ?_, hpairwise⟩
          exact (hreach.current_le_step himport call).trans
            (hlater ((step_posting system call).importOpen_eq himport) id hid)
      | some closed =>
          obtain ⟨outcome, hanswer, rfl⟩ := closedBy_eq_some.mp hclosed
          have hid := (step_closed hanswer).1
          have hrest := hlater (importOpen_of_closed hanswer)
          have hrises := hreach.current_lt_of_closed hanswer
          simp only [System.run, List.filterMap_cons_some hclosed, List.forall_mem_cons,
            List.pairwise_cons, hid]
          refine ⟨fun _ => ⟨Nat.le_refl _, fun id hmem => ?_⟩, fun id hmem => ?_, hpairwise⟩
          · exact hrises.le.trans (hrest id hmem)
          · exact hrises.trans_le (hrest id hmem)

/-! ## The stream of a run -/

theorem pool_of_create {settings : Settings} {now : Timestamp} {pool : Pool}
    (hcreate : Pool.create settings now = .ok pool) :
    pool.rewards = {} ∧ pool.delegation = {} ∧
      pool.journal = .withLimit settings.eventBuffer := by
  simp only [Pool.create, Fallible.bind_eq_ok, Fallible.pure_eq_ok] at hcreate
  obtain ⟨_, _, ledger, _, rfl⟩ := hcreate
  exact ⟨rfl, rfl, rfl⟩

/-- While no event is dropped and nobody but the pool pays, the events of a run tell what happened.
They tell the payments in their order; one close for each that succeeded, of a greater id each time;
an inflow that adds up to all that was taken in; and of each owner and delegate, by turns, that the
approval was given and that it was taken away, so that the delegate is approved exactly if it was
given last.  A call that fails adds nothing to them. -/
theorem events_tell_run {settings : Settings} {now : Timestamp} {start : System}
    (hcreate : Pool.create settings now = .ok start.pool) {calls : List Call}
    (hcalls : ∀ call ∈ calls, ¬ call.Foreign)
    (hkept : (start.run calls).2.pool.journal.dropped = 0) :
    (start.run calls).2.env.treasury.payments =
        start.env.treasury.payments ++ (eventsOf (start.run calls)).flatMap Event.payments ∧
      ((eventsOf (start.run calls)).filterMap Event.closed? =
          (start.run calls).1.filterMap closedBy ∧
        ((eventsOf (start.run calls)).filterMap Event.closed?).Pairwise (· < ·)) ∧
      ((eventsOf (start.run calls)).map Event.notified).sum =
        (start.run calls).2.pool.rewards.notified ∧
      (∀ owner delegate,
        (false :: (eventsOf (start.run calls)).filterMap (Event.mark? owner delegate)).IsChain
            (· ≠ ·) ∧
          ((start.run calls).2.pool.delegation.allows owner delegate ↔
            ((eventsOf (start.run calls)).filterMap (Event.mark? owner delegate)).getLast? =
              some true)) ∧
      ∀ before call fault, ((start.run before).2.step call).1 = .error fault →
        ((start.run before).2.step call).2.pool.journal = (start.run before).2.pool.journal := by
  obtain ⟨hrewards, hdelegation, hjournal⟩ := pool_of_create hcreate
  have hnobody : ∀ owner delegate, start.pool.delegation.allows owner delegate = false := by
    rw [hdelegation]
    exact fun _ _ => rfl
  obtain ⟨events, htells⟩ := run_told start hcalls
  obtain rfl : events = eventsOf (start.run calls) := by
    have hdropped : (start.run calls).2.pool.journal.dropped = start.pool.journal.dropped := by
      rw [hkept, hjournal]
      rfl
    have hevents := htells.journal hdropped
    rw [hjournal] at hevents
    exact hevents
  have hincreasing := ((Reachable.created hcreate : start.Reachable).closed_increasing calls).2
  refine ⟨htells.payments, ⟨htells.closed, htells.closed ▸ hincreasing⟩, ?_, ?_,
    fun _ _ _ => journal_of_failed⟩
  · rw [htells.notified, hrewards]
    exact (Nat.zero_add _).symm
  · intro owner delegate
    have hmarks := htells.marks owner delegate
    have hallows := htells.allows owner delegate
    rw [hnobody] at hmarks hallows
    refine ⟨hmarks, ?_⟩
    rw [hallows]
    cases (List.filterMap (Event.mark? owner delegate) _).getLast? <;> simp

/-- A pool that is drained between a close and the claim of a delegate, who was approved twice. -/
def journaledCalls : List Call :=
  [.approve .zero other, .approve .zero other, .fee 5, .around (.share .zero 1 unit),
    .closeRelayed .zero 7 0, .around (.rate Defaults.collateralCurrency 0), .drain,
    .claimOnBehalf .zero other 0, .claim .zero 0, .removeDelegate .zero other, .notify 3]

/-- The second approval and the second claim are not told. -/
theorem events_tell_run_twoSlots :
    Pool.create twoSlots.pool.settings 0 = .ok twoSlots.pool ∧
      (∀ call ∈ journaledCalls, ¬ call.Foreign) ∧
      (twoSlots.run journaledCalls).2.pool.journal.dropped = 0 ∧
      eventsOf (twoSlots.run journaledCalls) =
        [.delegateApproved .zero other, .periodClosed 1, .feesClaimed .zero 5 0,
          .delegateRemoved .zero other, .rewardsNotified 3 false] ∧
      (twoSlots.run journaledCalls).2.env.treasury.payments =
        [(.zero, { asset := .fees, amount := 5 })] := by
  have hcreate : Pool.create twoSlots.pool.settings 0 = .ok twoSlots.pool := rfl
  have hcalls : ∀ call ∈ journaledCalls, ¬ call.Foreign := by
    rintro call hcall ⟨account, legs, rfl⟩
    simp [journaledCalls] at hcall
  have hkept : (twoSlots.run journaledCalls).2.pool.journal.dropped = 0 := by decide
  have hevents : eventsOf (twoSlots.run journaledCalls) =
      [.delegateApproved .zero other, .periodClosed 1, .feesClaimed .zero 5 0,
        .delegateRemoved .zero other, .rewardsNotified 3 false] := by
    decide
  obtain ⟨hpayments, _⟩ := events_tell_run hcreate hcalls hkept
  rw [hevents] at hpayments
  exact ⟨hcreate, hcalls, hkept, hevents, hpayments⟩

end System

end FeeDistribution
