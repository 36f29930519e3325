import FeeDistribution.Proofs.Closes
import FeeDistribution.Proofs.HeldPlans

/-!
# The effect of one close

A close writes to the ring twice, first to the place of the receiving period and then, once the head
has moved on, to the place of the oldest one.  Seen from the present its effect is simple: a new
period is open, every other is put back by one index, and the period that is now the oldest has the
remainder of the one that left added to its totals (`Ledger.ClosedInto`).  This holds in a window of
two slots as well, where the period that closes is the one that receives the remainder and the
oldest one afterwards; what is burned is what it had collected before.

## Strategy

A close refuses an id that does not follow, then sums that do not fit, and nothing else
(`Ledger.planClose_eq`).  Its commit makes the same plan again, so it can not fail after that, and
the places that it writes to are told apart by the lemmas on the ring.
-/

namespace FeeDistribution

namespace Ledger

variable {ledger next : Ledger} {new : PeriodId} {start : Timestamp}

/-! ## What a close leaves -/

/-- What a close in favour of period `new` answers and leaves. -/
structure ClosedInto (ledger : Ledger) (new : PeriodId) (start : Timestamp)
    (outcome : CloseOutcome) (next : Ledger) : Prop where
  length_eq : next.window.length = ledger.window.length
  head_eq : next.window.head = ledger.window.head + 1
  opened : next.window.recent 0 = .opened new start
  /-- Every period but the last two is put back by one index. -/
  moved : ∀ index, index + 2 < ledger.window.length →
    next.window.recent (index + 1) = ledger.window.recent index
  /-- The last but one is put back and receives what was left in the last. -/
  raised : next.window.recent (ledger.window.length - 1) =
    (ledger.window.recent (ledger.window.length - 2)).raise
      (ledger.window.recent (ledger.window.length - 1)).fees.unclaimed
      (ledger.window.recent (ledger.window.length - 1)).rewards.unclaimed
  evicted : outcome.evicted = ledger.window.recent (ledger.window.length - 1)
  plan : outcome.toClosePlan = ledger.closePlan new
  watermarks_eq : next.watermarks = ledger.watermarks
  importOpen : next.importOpen = false

variable {outcome : CloseOutcome}

theorem ClosedInto.aligned (hclosed : ledger.ClosedInto new start outcome next)
    (aligned : ledger.window.Aligned) : next.window.Aligned := by
  have hhead := aligned.length_le_head
  constructor
  · rw [hclosed.length_eq]
    exact aligned.two_le_length
  · rw [hclosed.length_eq, hclosed.head_eq]
    exact Nat.le_succ_of_le hhead

/-- The description leaves nothing open: there is one answer and one ledger of which it holds. -/
theorem ClosedInto.unique {other : CloseOutcome} {last : Ledger} (aligned : ledger.window.Aligned)
    (hfirst : ledger.ClosedInto new start outcome next)
    (hsecond : ledger.ClosedInto new start other last) : outcome = other ∧ next = last := by
  have hrecent : ∀ index, next.window.recent index = last.window.recent index := by
    intro index
    by_cases hinside : index < ledger.window.length
    · rcases index with _ | index
      · exact hfirst.opened.trans hsecond.opened.symm
      · by_cases hmoved : index + 2 < ledger.window.length
        · exact (hfirst.moved index hmoved).trans (hsecond.moved index hmoved).symm
        · obtain hlast : index + 1 = ledger.window.length - 1 := by omega
          rw [hlast]
          exact hfirst.raised.trans hsecond.raised.symm
    · have houtside := Nat.not_lt.mp hinside
      rw [Window.recent_of_length_le (hfirst.length_eq ▸ houtside),
        Window.recent_of_length_le (hsecond.length_eq ▸ houtside)]
  have hwindow : next.window = last.window :=
    Window.eq_of_recent_eq (hfirst.aligned aligned) (hfirst.head_eq.trans hsecond.head_eq.symm)
      (hfirst.length_eq.trans hsecond.length_eq.symm) hrecent
  have hplan := hfirst.plan.trans hsecond.plan.symm
  have hevicted := hfirst.evicted.trans hsecond.evicted.symm
  have hwatermarks := hfirst.watermarks_eq.trans hsecond.watermarks_eq.symm
  have himport := hfirst.importOpen.trans hsecond.importOpen.symm
  constructor
  · cases outcome
    cases other
    cases hplan
    cases hevicted
    rfl
  · cases next
    cases last
    cases hwindow
    cases hwatermarks
    cases himport
    rfl

/-- The evicted period is returned as it was. -/
theorem evicted_of_commitClose {plan : ClosePlan} (aligned : ledger.window.Aligned)
    (hcommit : ledger.commitClose plan start = .ok (outcome, next)) :
    outcome.evicted = ledger.oldest := by
  have htwo := aligned.two_le_length
  simp only [commitClose, Fallible.guard_eq_ok, Fallible.bind_eq_ok, Fallible.pure_eq_ok,
    Prod.mk.injEq] at hcommit
  obtain ⟨_, _, _, receiving, _, rfl, _⟩ := hcommit
  -- the receiving period stands next to the oldest one, which is therefore not overwritten
  show ((ledger.window.set _ receiving).push (.opened plan.opened start)).1 = _
  rw [Window.push_fst aligned.set, Window.length_set,
    Window.recent_set_ne aligned (by omega) (by omega)]
  rfl

theorem closedInto_of_commitClose (aligned : ledger.window.Aligned)
    (hcommit : ledger.commitClose (ledger.closePlan new) start = .ok (outcome, next)) :
    ledger.ClosedInto new start outcome next := by
  obtain ⟨_, houtcome, hnext⟩ := commitClose_ok hcommit
  have htwo := aligned.two_le_length
  have hevicted := evicted_of_commitClose aligned hcommit
  subst hnext
  exact
    { length_eq := length_closedWindow
      head_eq := by
        show (ledger.closedWindow new start).head = _
        rw [closedWindow, Window.head_push, Window.head_set]
      opened := current_closedWindow aligned
      moved := fun index hindex => by
        show (ledger.closedWindow new start).recent _ = _
        rw [recent_closedWindow_succ aligned (by omega), if_neg (by omega)]
      raised := by
        have hlast : ledger.window.length - 2 + 1 = ledger.window.length - 1 := by omega
        show (ledger.closedWindow new start).recent _ = _
        rw [← hlast, recent_closedWindow_succ aligned (by omega), if_pos rfl]
        rw [receivingRaised, receiving, oldest, hlast]
      evicted := hevicted
      plan := houtcome
      watermarks_eq := rfl
      importOpen := rfl }

/-! ## The whole close -/

theorem close_eq_bind (ledger : Ledger) (new : PeriodId) (start : Timestamp) :
    ledger.close new start = ledger.planClose new >>= fun plan => ledger.commitClose plan start :=
  rfl

/-- A close in favour of a later id, for which the remainder fits, succeeds and has exactly the
effect described.  An id that is not later is refused as such, and a remainder that does not fit as
an overflow; neither changes a ledger in use. -/
theorem close_exact (aligned : ledger.window.Aligned) (new : PeriodId) (start : Timestamp) :
    (ledger.window.current.id < new → ledger.RolloverFits →
      ∃ outcome next, ledger.close new start = .ok (outcome, next) ∧
        ledger.ClosedInto new start outcome next) ∧
      (new ≤ ledger.window.current.id →
        ledger.close new start = .error (.invalid (.notAfter new ledger.window.current.id))) ∧
      (ledger.window.current.id < new → ¬ ledger.RolloverFits →
        ledger.close new start = .error .overflow) ∧
      ∀ session : Session, session.ledger = ledger →
        (new ≤ ledger.window.current.id ∨ ¬ ledger.RolloverFits) →
          session.step (.close new start) = session := by
  have hplan := ledger.planClose_eq new
  have hstale : new ≤ ledger.window.current.id →
      ledger.close new start = .error (.invalid (.notAfter new ledger.window.current.id)) := by
    intro hold
    rw [close_eq_bind, hplan, if_pos hold]
    rfl
  have hoverflow : ledger.window.current.id < new → ¬ ledger.RolloverFits →
      ledger.close new start = .error .overflow := by
    intro hnew hfits
    rw [close_eq_bind, hplan, if_neg (Nat.not_le.mpr hnew), if_neg hfits]
    rfl
  refine ⟨fun hnew hfits => ?_, hstale, hoverflow, ?_⟩
  · rw [if_neg (Nat.not_le.mpr hnew), if_pos hfits] at hplan
    obtain ⟨outcome, hcommit⟩ := commitClose_of_planClose hplan start
    refine ⟨outcome, _, ?_, closedInto_of_commitClose aligned hcommit⟩
    rw [close_eq_bind, hplan]
    exact hcommit
  · rintro session rfl hrefused
    have hfault : ∃ fault, session.ledger.close new start = .error fault := by
      rcases Nat.lt_or_ge session.ledger.window.current.id new with hnew | hold
      · exact ⟨_, hoverflow hnew (hrefused.resolve_left (Nat.not_le.mpr hnew))⟩
      · exact ⟨_, hstale hold⟩
    obtain ⟨fault, hfault⟩ := hfault
    show session.onLedger ((session.ledger.close new start).map Prod.snd) = session
    rw [hfault]
    rfl

/-- In a window of two slots the period that closes receives the remainder: of the two fees it
collected two are burned, and it holds seven when it is closed. -/
theorem close_exact_twoSlots :
    (System.twoSlots.run [.fee 5, .closeRelayed .zero 7 0, .fee 2]).2.pool.ledger.window.Aligned ∧
      ∃ outcome next,
        (System.twoSlots.run [.fee 5, .closeRelayed .zero 7 0, .fee 2]).2.pool.ledger.close 9 3 =
            .ok (outcome, next) ∧
          outcome.burned = 2 ∧ outcome.evicted.fees.total = 5 ∧
          next.window.current = .opened 9 3 ∧ (next.window.recent 1).id = 7 ∧
          (next.window.recent 1).fees.total = 7 := by
  have aligned := (System.reachable_twoSlots.run
    [.fee 5, .closeRelayed .zero 7 0, .fee 2]).wellFormed.toAligned
  obtain ⟨outcome, next, hclose, heffect⟩ := (close_exact aligned 9 3).1 (by decide) (by decide)
  have houtcome := heffect.plan
  have hraised := heffect.raised
  refine ⟨aligned, outcome, next, hclose, ?_, ?_, heffect.opened, ?_, ?_⟩
  · exact congrArg ClosePlan.burned houtcome
  · rw [heffect.evicted]
    rfl
  · exact congrArg Period.id hraised
  · exact congrArg (·.fees.total) hraised

end Ledger

end FeeDistribution
