import FeeDistribution.Proofs.Gates
import FeeDistribution.Proofs.ValidSettings

/-!
# Whether a period waits out its duration

The open period may be closed by time once it has lasted its duration, and until then a close by
time is refused.  That is so as long as the time at which the period is due is computed exactly, and
there are two ways in which it is not (`Closing.Slips`).  A due time after the latest timestamp is
cut off to it, so that at the latest timestamp the period passes for due.  A duration of at least
`2 ^ 63` seconds is read as negative, so that the period passes for due as soon as it begins.  In
every other case, for any duration and at any time, the gate of time holds (`Closing.waits_iff`).

The duration of a pool is checked, so that its periods slip at the latest timestamp only
(`System.Reachable.not_slips`).  The closing itself takes any duration.
-/

namespace FeeDistribution

open Quantity

variable {left : Int}

/-! ## Faults of a close -/

/-- A burn never fails for the time. -/
theorem Treasury.burn_ne_tooEarly {treasury : Treasury} {amount : Amount} :
    (treasury.burn amount).1 ≠ .error (.tooEarly left) := by
  unfold burn
  split
  · nofun
  · split
    · nofun
    · rename_i fault hadd
      have hoverflow : Fault.overflow ≠ .tooEarly left := nofun
      intro hfault
      rw [Except.error.inj hfault] at hadd
      exact Decimal.narrow_ne_error hoverflow hadd

namespace Closing

variable {gates : Gates} {terms : Terms} {claimant : Option Account} {duration : Nat}
  {start now : Timestamp} {new : PeriodId} {books : Books}

/-- Nor does what a close does once it is let through. -/
theorem apply_ne_tooEarly : (apply books new start).1 ≠ .error (.tooEarly left) := by
  intro hfault
  rcases apply_failed hfault with hplan | ⟨plan, _, hburn⟩
  · rw [Ledger.planClose_eq] at hplan
    split at hplan
    · cases hplan
    · split at hplan <;> cases hplan
  · unfold burnPlanned at hburn
    split at hburn
    · exact Treasury.burn_ne_tooEarly hburn
    · cases hburn

/-- So a close by time is refused for the time exactly while there is time left, and then nothing
changes. -/
theorem timed_tooEarly_iff (hduration : duration ≠ 0) :
    (∃ left, timed gates terms claimant duration now books = (.error (.tooEarly left), books)) ↔
      0 < timeLeft books.ledger duration now := by
  constructor
  · rintro ⟨left, htimed⟩
    by_contra hdue
    have hfault : (timed gates terms claimant duration now books).1 = .error (.tooEarly left) :=
      congrArg Prod.fst htimed
    rw [timed, if_neg hduration, if_neg hdue] at hfault
    split at hfault
    · rename_i fault hgate
      cases hfault
      exact gates.timed.run_ne_error id hgate
    · exact apply_ne_tooEarly hfault
  · intro hleft
    exact ⟨_, by rw [timed, if_neg hduration, if_pos hleft]⟩

/-! ## Where the time is misjudged -/

/-- Whether a period with this start and duration passes for due at a time, however long it has
lasted. -/
def Slips (start : Timestamp) (duration : Nat) (now : Timestamp) : Prop :=
  if (duration : Int) ≤ latest then now = latest
  else start + duration - (maxWord + 1 : Nat) ≤ now

instance : Decidable (Slips start duration now) :=
  inferInstanceAs (Decidable (if (duration : Int) ≤ latest then _ else _))

/-- The time at which a period is due is found to lie ahead if it does so in exact seconds, unless
it slips. -/
theorem lt_due_iff (hword : duration ≤ maxWord) (hstart : Timestamp.InRange start)
    (hnow : Timestamp.InRange now) :
    now < Timestamp.saturate (start + Timestamp.ofDuration duration) ↔
      now < start + duration ∧ ¬ Slips start duration now := by
  rw [← not_le, Timestamp.saturate_le_iff hnow.1, not_or, not_le, not_le]
  by_cases hlong : (duration : Int) ≤ latest
  · rw [Slips, if_pos hlong, Timestamp.ofDuration_of_le hlong, ← Ne, ← hnow.2.lt_iff_ne]
  · rw [Slips, if_neg hlong, Timestamp.ofDuration_of_lt (not_le.mp hlong) hword, not_le,
      ← Int.add_sub_assoc]
    -- a duration is less than what is taken off it
    have hwrapped : start + (duration : Int) - (maxWord + 1 : Nat) < start + duration :=
      Int.sub_lt_self _ (by decide)
    have hfits : (duration : Int) ≤ (maxWord + 1 : Nat) :=
      Int.ofNat_le.mpr (hword.trans (Nat.le_succ _))
    have hearly : start + (duration : Int) - (maxWord + 1 : Nat) ≤ latest :=
      (sub_le_iff_le_add.mpr (add_le_add le_rfl hfits)).trans hstart.2
    constructor
    · exact fun hwaits => ⟨hwaits.1.trans hwrapped, hwaits.1⟩
    · exact fun hwaits => ⟨hwaits.2, hwaits.2.trans_le hearly⟩

/-- For every period with any duration, a close by time is refused for the time, without effect,
exactly if the period has not lasted its duration and does not slip.  So a close that goes through
is one of a period that has lasted its duration, and any other close is refused in this way, unless
the period slips before it has. -/
theorem waits_iff (gates : Gates) (terms : Terms) (claimant : Option Account) (books : Books)
    (hduration : duration ≠ 0) (hword : duration ≤ maxWord)
    (hstart : Timestamp.InRange books.ledger.window.current.start)
    (hnow : Timestamp.InRange now) :
    ((∃ left,
        timed gates terms claimant duration now books = (.error (.tooEarly left), books)) ↔
      now - books.ledger.window.current.start < duration ∧
        ¬ Slips books.ledger.window.current.start duration now) ∧
    (((∀ outcome, (timed gates terms claimant duration now books).1 = .ok outcome →
          duration ≤ now - books.ledger.window.current.start) ∧
        (now - books.ledger.window.current.start < duration → ∃ left,
          timed gates terms claimant duration now books = (.error (.tooEarly left), books))) ↔
      ¬ (now - books.ledger.window.current.start < duration ∧
        Slips books.ledger.window.current.start duration now)) := by
  have hrefused : (∃ left,
      timed gates terms claimant duration now books = (.error (.tooEarly left), books)) ↔
        now - books.ledger.window.current.start < duration ∧
          ¬ Slips books.ledger.window.current.start duration now := by
    rw [timed_tooEarly_iff hduration, timeLeft_pos_iff, lt_due_iff hword hstart hnow,
      sub_lt_iff_lt_add']
  refine ⟨hrefused, ?_, ?_⟩
  · rintro ⟨_, hearly⟩ ⟨hwaits, hslips⟩
    exact (hrefused.mp (hearly hwaits)).2 hslips
  · intro hnone
    have hearly : now - books.ledger.window.current.start < duration → ∃ left,
        timed gates terms claimant duration now books = (.error (.tooEarly left), books) :=
      fun hwaits => hrefused.mpr ⟨hwaits, fun hslips => hnone ⟨hwaits, hslips⟩⟩
    refine ⟨fun outcome hclosed => not_lt.mp fun hwaits => ?_, hearly⟩
    obtain ⟨left, hfault⟩ := hearly hwaits
    rw [hfault] at hclosed
    cases hclosed

/-- The books of a new ledger of two slots; the required rate was updated at time zero. -/
def newBooks (start : Timestamp) : Books where
  ledger := { window := { slots := #[.empty, .opened 1 start], head := 1 } }
  env := Environment.refreshRates {} 0

theorem waits_iff_newBooks :
    604800 ≠ 0 ∧ 604800 ≤ maxWord ∧
      Timestamp.InRange (newBooks (-5)).ledger.window.current.start ∧
      Timestamp.InRange 604794 ∧
      ∃ left, timed {} {} none 604800 604794 (newBooks (-5)) =
        (.error (.tooEarly left), newBooks (-5)) := by
  have hduration : 604800 ≠ 0 := by decide
  have hword : 604800 ≤ maxWord := by decide
  have hstart : Timestamp.InRange (newBooks (-5)).ledger.window.current.start := by decide
  have hnow : Timestamp.InRange 604794 := by decide
  obtain ⟨hrefused, _⟩ := waits_iff {} {} none (newBooks (-5)) hduration hword hstart hnow
  exact ⟨hduration, hword, hstart, hnow, hrefused.mpr (by decide)⟩

/-- A period of `2 ^ 63` seconds is closed in its first second. -/
theorem closed_in_first_second :
    Ledger.create 2 (-1) = .ok (newBooks (-1)).ledger ∧
      (∃ outcome, (timed {} {} none (2 ^ 63) 0 (newBooks (-1))).1 = .ok outcome) ∧
      (0 : Timestamp) - (newBooks (-1)).ledger.window.current.start < 2 ^ 63 :=
  ⟨rfl, ⟨_, rfl⟩, by decide⟩

end Closing

/-- A reachable system keeps a duration that fits, and slips at no other than the latest time. -/
theorem System.Reachable.not_slips {system : System} (hreach : system.Reachable)
    {now : Timestamp} (hnow : now ≠ latest) (start : Timestamp) :
    ¬ Closing.Slips start system.pool.settings.duration now := by
  rw [Closing.Slips, if_pos hreach.duration_le]
  exact hnow

end FeeDistribution
