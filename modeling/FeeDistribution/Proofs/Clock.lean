import FeeDistribution.Closing
import Mathlib.Algebra.Order.Ring.Int

/-!
# Time in exact seconds

Timestamps are numbers of 64 bits with a sign, and durations are numbers of 64 bits without one.
Where a sum or difference of timestamps leaves the range it is cut off at the nearer end
(`Timestamp.saturate`), and a duration that does not fit is read as a negative one
(`Timestamp.ofDuration`).  This file says what comes of that for the two questions that are asked of
the time: how old a rate is, and how long the open period still has to wait.

A cut makes no difference to a comparison with a bound inside the range.  The age of a rate is
compared with such a bound, a limit within thirty days, so it is judged in exact seconds
(`Terms.stale_eq`), and a rate from the future is fresh.  The waiting time is compared with zero,
and would be exact as well, but it is computed from the time at which the period is due, and that
may have been cut off before (`Closing.timeLeft_pos_iff`).
-/

namespace FeeDistribution

open Quantity

/-! ## Timestamps -/

namespace Timestamp

/-- Whether a number of seconds is a timestamp at all. -/
def InRange (seconds : Int) : Prop :=
  earliest ≤ seconds ∧ seconds ≤ latest

instance (seconds : Int) : Decidable (InRange seconds) :=
  inferInstanceAs (Decidable (earliest ≤ seconds ∧ seconds ≤ latest))

variable {seconds bound : Int} {duration : Nat}

theorem saturate_of_inRange (hrange : InRange seconds) : saturate seconds = seconds := by
  rw [saturate, min_eq_left hrange.2, max_eq_right hrange.1]

/-- What is cut off comes after a bound only if it did so before, and never after the latest
timestamp. -/
theorem saturate_le_iff (hbound : earliest ≤ bound) :
    saturate seconds ≤ bound ↔ seconds ≤ bound ∨ latest ≤ bound := by
  rw [saturate, max_le_iff, min_le_iff]
  exact and_iff_right hbound

/-- Inside the range a cut makes no difference to a comparison. -/
theorem lt_saturate_iff (hlow : earliest ≤ bound) (hhigh : bound < latest) :
    bound < saturate seconds ↔ bound < seconds := by
  rw [← not_le, saturate_le_iff hlow, not_or, not_le]
  exact and_iff_left (not_le.mpr hhigh)

/-- A duration that fits a signed number of seconds is read as it is. -/
theorem ofDuration_of_le (hduration : (duration : Int) ≤ latest) :
    ofDuration duration = duration := by
  have hfits : (duration : Int) ≤ 0x7fffffffffffffff := hduration
  apply Int.bmod_eq_of_le
  · simp [maxWord]
  · simp [maxWord]
    omega

/-- A longer one is read as negative. -/
theorem ofDuration_of_lt (hlong : latest < (duration : Int)) (hword : duration ≤ maxWord) :
    ofDuration duration = (duration : Int) - (maxWord + 1 : Nat) := by
  have hover : 0x7fffffffffffffff < (duration : Int) := hlong
  unfold maxWord at hword
  rw [ofDuration, ← Int.sub_bmod_right]
  apply Int.bmod_eq_of_le
  · simp [maxWord]
    omega
  · simp [maxWord]
    omega

end Timestamp

/-! ## The age of a rate -/

namespace Terms

variable {terms : Terms}

/-- Whether a rate was ever updated, and that no longer ago than the terms allow. -/
def Fresh (terms : Terms) (updated : Option Timestamp) (now : Timestamp) : Prop :=
  ∃ time ∈ updated, now - time ≤ (terms.stalePeriod : Int)

instance (updated : Option Timestamp) (now : Timestamp) : Decidable (terms.Fresh updated now) :=
  inferInstanceAs (Decidable (∃ time ∈ updated, now - time ≤ (terms.stalePeriod : Int)))

/-- Under terms with a fit limit the age of a rate is judged in exact seconds. -/
theorem stale_eq (hfit : Settings.FitStalePeriod terms.stalePeriod) (updated : Option Timestamp)
    (now : Timestamp) : terms.stale updated now = decide (¬ terms.Fresh updated now) := by
  have hlimit : (terms.stalePeriod : Int) < latest :=
    (Int.ofNat_le.mpr hfit.2).trans_lt (by decide)
  have hlow : earliest ≤ (terms.stalePeriod : Int) :=
    (show earliest ≤ 0 by decide).trans (Int.natCast_nonneg _)
  cases updated with
  | none => simp [stale, Fresh]
  | some time =>
      simp only [stale, Fresh, Option.mem_def, Option.some.injEq, exists_eq_left', not_le,
        min_eq_left hlimit.le, Timestamp.lt_saturate_iff hlow hlimit]

end Terms

/-! ## The waiting time -/

namespace Closing

variable {ledger : Ledger} {duration : Nat} {now : Timestamp}

/-- The open period has to wait until the time at which it is due, as far as that is a timestamp. -/
theorem timeLeft_pos_iff :
    0 < timeLeft ledger duration now ↔
      now < Timestamp.saturate
        (ledger.window.current.start + Timestamp.ofDuration duration) := by
  unfold timeLeft
  rw [lt_max_iff, Timestamp.lt_saturate_iff (by decide) (by decide), Int.sub_pos]
  exact or_iff_right (lt_irrefl _)

/-- Nothing is cut off where all that is computed is in range. -/
theorem timeLeft_eq (hduration : (duration : Int) ≤ latest)
    (hdue : Timestamp.InRange (ledger.window.current.start + duration))
    (hleft : Timestamp.InRange (ledger.window.current.start + duration - now)) :
    timeLeft ledger duration now = max 0 (ledger.window.current.start + duration - now) := by
  unfold timeLeft
  dsimp only
  rw [Timestamp.ofDuration_of_le hduration, Timestamp.saturate_of_inRange hdue,
    Timestamp.saturate_of_inRange hleft]

end Closing

end FeeDistribution
