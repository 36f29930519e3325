import FeeDistribution.Proofs.Gates
import FeeDistribution.Proofs.ValidSettings

/-!
# When the open period can be closed

A close by time asks seven things in a fixed order: a duration that is set and has passed, a system
and an issuance that are not suspended, fresh rates, room for what rolls over, and a treasury that
burns the fees.  Before it asks for room it needs an id for the next period, and only at the last
word there is none.  `System.Ripe` says all of it in exact numbers, and `System.obstacle?` names the
first that is missing.  In a reachable system this is how a close by time is decided
(`System.closeTimed_decided`): the bounds of the settings keep the duration and the age limit small
enough for nothing to be cut off, as long as the due time and the time left are timestamps.

A relayed close asks less, but what it does is the same.  Whenever a close by time goes through, the
relayer could have made the same close with the next id, and the other way round where the duration
has passed and the rates are fresh (`System.closeTimed_eq_closeRelayed`).
-/

namespace FeeDistribution

open Quantity

/-! ## The books -/

namespace Closing

variable {gates : Gates} {terms : Terms} {claimant relayer : Option Account} {caller : Account}
  {duration : Nat} {now start : Timestamp} {books : Books}

/-- Where the relayer asks, the time has come and the two gates agree, the two ways to close are
one. -/
theorem timed_eq_relayed (hduration : duration ≠ 0)
    (hleft : ¬ 0 < timeLeft books.ledger duration now) (hrelayer : relayer = some caller)
    (hgates : gates.timed.run { env := books.env, terms, claimant, now } =
      gates.relayed.run { env := books.env, terms, claimant, now }) :
    timed gates terms claimant duration now books =
      relayed gates terms claimant now relayer caller books.ledger.window.current.id.next now
        books := by
  rw [timed, if_neg hduration, if_neg hleft, relayed, if_neg (not_not.mpr hrelayer), hgates]

/-- A close by time that goes through found the time come, and its gate open. -/
theorem timed_ok {outcome : CloseOutcome}
    (hclosed : (timed gates terms claimant duration now books).1 = .ok outcome) :
    duration ≠ 0 ∧ ¬ 0 < timeLeft books.ledger duration now ∧
      gates.timed.run { env := books.env, terms, claimant, now } = .ok () := by
  unfold timed at hclosed
  dsimp only at hclosed
  split at hclosed
  · cases hclosed
  · split at hclosed
    · cases hclosed
    · split at hclosed
      · cases hclosed
      · exact ⟨‹_›, ‹_›, ‹_›⟩

/-- A relayed close that goes through was asked for by the relayer. -/
theorem relayed_ok {new : PeriodId} {outcome : CloseOutcome}
    (hclosed : (relayed gates terms claimant now relayer caller new start books).1 =
      .ok outcome) : relayer = some caller := by
  by_contra hother
  rw [relayed, if_pos hother] at hclosed
  cases hclosed

end Closing

/-- In favour of the next id a close is planned if there is one, and the remainder fits. -/
theorem Ledger.planClose_next (ledger : Ledger) :
    ledger.planClose ledger.window.current.id.next =
      if maxWord ≤ ledger.window.current.id then
        .error (.invalid (.notAfter 0 ledger.window.current.id))
      else if ledger.RolloverFits then .ok (ledger.closePlan ledger.window.current.id.next)
      else .error .overflow := by
  rw [planClose_eq]
  by_cases hlast : maxWord ≤ ledger.window.current.id
  · rw [PeriodId.next_of_le hlast, if_pos hlast, if_pos (Nat.zero_le _)]
  · have hafter : ¬ ledger.window.current.id.next ≤ ledger.window.current.id := by
      rw [PeriodId.next_of_lt (Nat.not_le.mp hlast)]
      exact Nat.not_succ_le_self _
    rw [if_neg hlast, if_neg hafter]

namespace System

variable {system : System} {caller : Account} {now : Timestamp} {fault : Fault}

/-! ## What stands in the way -/

/-- The time at which the open period has lasted its duration. -/
def due (system : System) : Int :=
  system.pool.ledger.window.current.start + system.pool.settings.duration

/-- The first required rate that is not fresh. -/
def unusableRate? (system : System) (now : Timestamp) : Option String :=
  system.pool.settings.terms.requiredRates.find? fun key =>
    ¬ system.pool.settings.terms.Fresh (system.env.updatedAt? key) now

/-- Why the fees of the open period cannot be burned; there need not be any. -/
def burnFault? (system : System) : Option Fault :=
  if 0 < system.pool.ledger.window.current.fees.total then
    match (system.env.burn system.pool.ledger.window.current.fees.total).1 with
    | .error fault => some fault
    | .ok () => none
  else none

/-- The first thing that stands in the way of a close by time. -/
def obstacle? (system : System) (now : Timestamp) : Option Fault :=
  if system.pool.settings.duration = 0 then some .durationUnset
  else if now < system.due then some (.tooEarly (system.due - now))
  else if system.env.suspensions.system then some (.suspended .system)
  else if system.env.suspensions.issuance then some (.suspended .issuance)
  else
    ((system.unusableRate? now).map .rateUnusable).or
      (if maxWord ≤ system.pool.ledger.window.current.id then
        some (.invalid (.notAfter 0 system.pool.ledger.window.current.id))
      else if ¬ system.pool.ledger.RolloverFits then some .overflow
      else system.burnFault?)

/-- All that a close by time asks for. -/
structure Ripe (system : System) (now : Timestamp) : Prop where
  durationSet : system.pool.settings.duration ≠ 0
  elapsed : system.due ≤ now
  systemActive : system.env.suspensions.system = false
  issuanceActive : system.env.suspensions.issuance = false
  ratesFresh : ∀ key ∈ system.pool.settings.terms.requiredRates,
    system.pool.settings.terms.Fresh (system.env.updatedAt? key) now
  /-- The open id is not the last one. -/
  idLeft : system.pool.ledger.window.current.id < maxWord
  rolloverFits : system.pool.ledger.RolloverFits
  /-- The treasury is asked only if there is something to burn. -/
  burned : 0 < system.pool.ledger.window.current.fees.total →
    (system.env.burn system.pool.ledger.window.current.fees.total).1 = .ok ()

theorem unusableRate?_eq_none :
    system.unusableRate? now = none ↔ ∀ key ∈ system.pool.settings.terms.requiredRates,
      system.pool.settings.terms.Fresh (system.env.updatedAt? key) now := by
  simp [unusableRate?]

theorem burnFault?_eq_none :
    system.burnFault? = none ↔ (0 < system.pool.ledger.window.current.fees.total →
      (system.env.burn system.pool.ledger.window.current.fees.total).1 = .ok ()) := by
  unfold burnFault?
  split
  · split <;> simp [*]
  · simp [*]

/-- A condition that holds is the first obstacle. -/
theorem ite_some_eq_none {condition : Prop} [Decidable condition] {rest : Option Fault} :
    (if condition then some fault else rest) = none ↔ ¬ condition ∧ rest = none := by
  split <;> simp [*]

theorem obstacle?_eq_none : system.obstacle? now = none ↔ system.Ripe now := by
  rw [obstacle?, ite_some_eq_none, ite_some_eq_none, ite_some_eq_none, ite_some_eq_none,
    Option.or_eq_none_iff, Option.map_eq_none_iff, ite_some_eq_none, ite_some_eq_none,
    unusableRate?_eq_none, burnFault?_eq_none, not_lt, Bool.not_eq_true, Bool.not_eq_true, not_le,
    not_not]
  constructor
  · rintro ⟨hset, hdue, hsystem, hissuance, hrates, hid, hrollover, hburn⟩
    exact ⟨hset, hdue, hsystem, hissuance, hrates, hid, hrollover, hburn⟩
  · rintro ⟨hset, hdue, hsystem, hissuance, hrates, hid, hrollover, hburn⟩
    exact ⟨hset, hdue, hsystem, hissuance, hrates, hid, hrollover, hburn⟩

/-! ## How a close by time is decided -/

/-- The circumstances of a close. -/
def closeCircumstances (system : System) (now : Timestamp) : Circumstances :=
  { env := system.env, terms := system.pool.settings.terms, claimant := none, now }

theorem Reachable.run_ratesFresh (hreach : system.Reachable) (now : Timestamp) :
    Check.ratesFresh.run (system.closeCircumstances now) =
      (system.unusableRate? now).elim (.ok ()) fun key => .error (.rateUnusable key) := by
  obtain ⟨_, _, _, hstale, _⟩ := Settings.validate_eq_ok.mp hreach.valid
  have hrate : Check.staleRate? (system.closeCircumstances now) = system.unusableRate? now :=
    Check.staleRate?_eq hstale
  rw [Check.run_ratesFresh rfl, hrate]

theorem Reachable.run_close (hreach : system.Reachable) (now : Timestamp) :
    Gate.close.run (system.closeCircumstances now) =
      if system.env.suspensions.system then .error (.suspended .system)
      else if system.env.suspensions.issuance then .error (.suspended .issuance)
      else (system.unusableRate? now).elim (.ok ()) fun key => .error (.rateUnusable key) := by
  have hactive : Gate.relayedClose.run (system.closeCircumstances now) =
      if system.env.suspensions.system then .error (.suspended .system)
      else if system.env.suspensions.issuance then .error (.suspended .issuance)
      else .ok () :=
    Gate.run_relayedClose _
  rw [Gate.run_close, hactive, hreach.run_ratesFresh]
  split
  · rfl
  · split <;> rfl

theorem fst_burnPlanned (system : System) (new : PeriodId) :
    (Closing.burnPlanned system.env (system.pool.ledger.closePlan new)).1 =
      system.burnFault?.elim (.ok ()) .error := by
  have hburned : (system.pool.ledger.closePlan new).burned =
      system.pool.ledger.window.current.fees.total := rfl
  rw [Closing.burnPlanned, burnFault?, hburned]
  split
  · cases (system.env.burn system.pool.ledger.window.current.fees.total).1 <;> rfl
  · rfl

/-- In favour of the next id, only the last word, the rollover and the burn can stand in the way. -/
theorem map_apply_next (system : System) (start : Timestamp) :
    (Closing.apply system.books system.pool.ledger.window.current.id.next start).1.map
        (fun _ => ()) =
      (if maxWord ≤ system.pool.ledger.window.current.id then
        some (.invalid (.notAfter 0 system.pool.ledger.window.current.id))
      else if ¬ system.pool.ledger.RolloverFits then some .overflow
      else system.burnFault?).elim (.ok ()) .error := by
  have hbooks : system.books.ledger = system.pool.ledger := rfl
  rw [Closing.map_apply, hbooks, Ledger.planClose_next, ite_not]
  split
  · rfl
  · split
    · exact system.fst_burnPlanned _
    · rfl

theorem Reachable.map_closeTimed (hreach : system.Reachable)
    (hdue : Timestamp.InRange system.due) (hleft : Timestamp.InRange (system.due - now)) :
    (system.closeTimed now).1.map (fun _ => ()) =
      (system.obstacle? now).elim (.ok ()) .error := by
  have hexact : Closing.timeLeft system.books.ledger system.pool.settings.duration now =
      max 0 (system.due - now) :=
    Closing.timeLeft_eq hreach.duration_le hdue hleft
  have hgate : ({} : Closing.Gates).timed.run
      { env := system.books.env, terms := system.pool.settings.terms, claimant := none, now } = _ :=
    hreach.run_close now
  rw [closeTimed, fst_afterClose, Closing.timed, hexact, hgate, obstacle?]
  by_cases hset : system.pool.settings.duration = 0
  · rw [if_pos hset, if_pos hset]
    rfl
  rw [if_neg hset, if_neg hset]
  by_cases hearly : now < system.due
  · have hpositive : 0 < system.due - now := Int.sub_pos.mpr hearly
    rw [if_pos hearly, max_eq_right hpositive.le, if_pos hpositive]
    rfl
  · have hnone : ¬ 0 < max 0 (system.due - now) := by
      rw [max_eq_left (Int.sub_nonpos_of_le (not_lt.mp hearly))]
      exact lt_irrefl 0
    rw [if_neg hearly, if_neg hnone]
    cases system.env.suspensions.system with
    | true => rfl
    | false =>
        cases system.env.suspensions.issuance with
        | true => rfl
        | false =>
            cases system.unusableRate? now with
            | some key => rfl
            | none => exact system.map_apply_next now

/-- A close by time goes through if all that it asks for holds, and fails for the first thing that
does not.  The seconds that remain are exact. -/
theorem closeTimed_decided (hreach : system.Reachable)
    (hdue : Timestamp.InRange system.due) (hleft : Timestamp.InRange (system.due - now)) :
    ((∃ outcome, (system.closeTimed now).1 = .ok outcome) ↔ system.Ripe now) ∧
      ∀ fault, (system.closeTimed now).1 = .error fault ↔ system.obstacle? now = some fault := by
  have hdecided := hreach.map_closeTimed hdue hleft
  rw [← obstacle?_eq_none]
  cases hobstacle : system.obstacle? now with
  | none =>
      rw [hobstacle] at hdecided
      obtain ⟨outcome, hclosed, _⟩ := Fallible.map_eq_ok.mp hdecided
      exact ⟨⟨fun _ => rfl, fun _ => ⟨outcome, hclosed⟩⟩, fun fault => by simp [hclosed]⟩
  | some fault =>
      rw [hobstacle] at hdecided
      have hfault := Fallible.map_eq_error.mp hdecided
      simp [hfault]

/-- A pool of two slots that has collected a fee, and whose rate was updated when its first period
was due. -/
def weekOld : System :=
  (twoSlots.run [.fee 5, .around (.rate Defaults.collateralCurrency 604800)]).2

theorem closeTimed_decided_weekOld :
    weekOld.Reachable ∧ Timestamp.InRange weekOld.due ∧
      Timestamp.InRange (weekOld.due - 604790) ∧ Timestamp.InRange (weekOld.due - 604800) ∧
      (weekOld.closeTimed 604790).1 = .error (.tooEarly 10) ∧
      ∃ outcome, (weekOld.closeTimed 604800).1 = .ok outcome := by
  have hreach : weekOld.Reachable := reachable_twoSlots.run _
  have hdue : Timestamp.InRange weekOld.due := by decide
  have hbefore : Timestamp.InRange (weekOld.due - 604790) := by decide
  have hthen : Timestamp.InRange (weekOld.due - 604800) := by decide
  have hearly := ((closeTimed_decided hreach hdue hbefore).2 (.tooEarly 10)).mpr rfl
  have hclosed := (closeTimed_decided hreach hdue hthen).1.mpr (obstacle?_eq_none.mp rfl)
  exact ⟨hreach, hdue, hbefore, hthen, hearly, hclosed⟩

/-! ## The same close by relay -/

/-- Once the time has come and the rates are fresh, the relayer closes as anyone does, whether the
close goes through or not. -/
theorem Reachable.closeTimed_eq_of_relayer (hreach : system.Reachable)
    (hnow : Timestamp.InRange now) (hrelayer : system.pool.settings.relayer = some caller)
    (hset : system.pool.settings.duration ≠ 0) (hdue : system.due ≤ now)
    (hfresh : system.unusableRate? now = none) :
    system.closeTimed now =
      system.closeRelayed caller system.pool.ledger.window.current.id.next now := by
  have hleft : ¬ 0 < Closing.timeLeft system.books.ledger system.pool.settings.duration now := by
    rw [Closing.timeLeft_pos_iff, Timestamp.ofDuration_of_le hreach.duration_le, not_lt,
      Timestamp.saturate_le_iff hnow.1]
    exact .inl hdue
  have hgates : Gate.close.run (system.closeCircumstances now) =
      Gate.relayedClose.run (system.closeCircumstances now) := by
    apply Gate.run_close_of_fresh
    rw [hreach.run_ratesFresh, hfresh]
    rfl
  exact congrArg system.afterClose (Closing.timed_eq_relayed hset hleft hrelayer hgates)

/-- Where a close by time goes through, the close in favour of the next id that the relayer makes at
the same time has the same outcome and leaves the same pool and surroundings.  The other way round
that is so for every relayed close in favour of the next id, as long as the duration is set and has
passed at its time and the rates are fresh. -/
theorem closeTimed_eq_closeRelayed (hreach : system.Reachable) (hnow : Timestamp.InRange now) :
    (∀ outcome, (system.closeTimed now).1 = .ok outcome →
      system.pool.settings.relayer = some caller →
        system.closeRelayed caller system.pool.ledger.window.current.id.next now =
          system.closeTimed now) ∧
    ∀ outcome, (system.closeRelayed caller system.pool.ledger.window.current.id.next now).1 =
        .ok outcome →
      system.pool.settings.duration ≠ 0 →
      system.due ≤ now →
      (∀ key ∈ system.pool.settings.terms.requiredRates,
        system.pool.settings.terms.Fresh (system.env.updatedAt? key) now) →
        system.closeTimed now =
          system.closeRelayed caller system.pool.ledger.window.current.id.next now := by
  constructor
  · intro outcome hclosed hrelayer
    rw [closeTimed, fst_afterClose] at hclosed
    obtain ⟨hset, hleft, hgate⟩ := Closing.timed_ok hclosed
    -- a gate that is open to all is open to the relayer
    have hrelayed : Gate.relayedClose.run (system.closeCircumstances now) = .ok () := by
      obtain ⟨_, hpassed, _⟩ := Fallible.bind_eq_ok.mp ((Gate.run_close _).symm.trans hgate)
      exact hpassed
    exact congrArg system.afterClose
      (Closing.timed_eq_relayed hset hleft hrelayer (hgate.trans hrelayed.symm)).symm
  · intro outcome hclosed hset hdue hfresh
    rw [closeRelayed, fst_afterClose] at hclosed
    exact hreach.closeTimed_eq_of_relayer hnow (Closing.relayed_ok hclosed) hset hdue
      (unusableRate?_eq_none.mpr hfresh)

/-- Both ways round: the relayer closes a period that is due as anyone could. -/
theorem closeTimed_eq_closeRelayed_weekOld :
    weekOld.Reachable ∧ Timestamp.InRange 604800 ∧ weekOld.Ripe 604800 ∧
      weekOld.pool.settings.relayer = some .zero ∧
      (∃ outcome, (weekOld.closeTimed 604800).1 = .ok outcome) ∧
      (∃ outcome, (weekOld.closeRelayed .zero 2 604800).1 = .ok outcome) ∧
      weekOld.closeTimed 604800 = weekOld.closeRelayed .zero 2 604800 := by
  have hreach : weekOld.Reachable := reachable_twoSlots.run _
  have hnow : Timestamp.InRange 604800 := by decide
  have hripe : weekOld.Ripe 604800 := obstacle?_eq_none.mp rfl
  have hrelayer : weekOld.pool.settings.relayer = some .zero := rfl
  obtain ⟨outcome, hclosed⟩ : ∃ outcome, (weekOld.closeTimed 604800).1 = .ok outcome := ⟨_, rfl⟩
  obtain ⟨hforth, hback⟩ := closeTimed_eq_closeRelayed hreach hnow
  have hrelayed : (weekOld.closeRelayed .zero 2 604800).1 = .ok outcome :=
    (congrArg Prod.fst (hforth outcome hclosed hrelayer)).trans hclosed
  exact ⟨hreach, hnow, hripe, hrelayer, ⟨outcome, hclosed⟩, ⟨outcome, hrelayed⟩,
    hback outcome hrelayed hripe.durationSet hripe.elapsed hripe.ratesFresh⟩

end System

end FeeDistribution
