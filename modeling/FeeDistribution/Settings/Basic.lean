import FeeDistribution.Fault

/-!
# Settings

The terms on which a pool works, with the values that hold where nothing is said, and the bounds
within which they are accepted.
-/

namespace FeeDistribution

/-- The terms of the gate before a close or claim. -/
structure Terms where
  /-- The target ratio of debt to collateral. -/
  issuanceRatio : Nat := Defaults.issuanceRatio
  /-- How far above the target a claimant's ratio may lie, as a part of the target. -/
  targetThreshold : Nat := Defaults.targetThreshold
  /-- The greatest age in seconds at which a rate counts as fresh. -/
  stalePeriod : Nat := Defaults.stalePeriod
  /-- The rates that must be fresh. -/
  requiredRates : List String := [Defaults.collateralCurrency]
deriving DecidableEq

/-- The settings of a pool. -/
structure Settings where
  /-- The number of slots of the window. -/
  length : Nat := Defaults.length
  /-- How long a period stays open, in seconds; zero if it cannot be closed by time. -/
  duration : Nat := Defaults.duration
  /-- Who may import history and change settings. -/
  owner : Option Account := none
  /-- Who may close a period on behalf of a counterpart. -/
  relayer : Option Account := none
  /-- The terms of the gate. -/
  terms : Terms := {}
  /-- How many events are held until drained. -/
  eventBuffer : Nat := Defaults.eventBuffer
deriving DecidableEq

namespace Settings

instance : Inhabited Settings := ⟨{}⟩

/-- Whether a duration is within bounds. -/
def FitDuration (seconds : Nat) : Prop :=
  Bounds.minDuration ≤ seconds ∧ seconds ≤ Bounds.maxDuration

instance (seconds : Nat) : Decidable (FitDuration seconds) :=
  inferInstanceAs (Decidable (Bounds.minDuration ≤ seconds ∧ seconds ≤ Bounds.maxDuration))

/-- Whether a limit on the age of rates is within bounds. -/
def FitStalePeriod (seconds : Nat) : Prop :=
  1 ≤ seconds ∧ seconds ≤ Bounds.maxStalePeriod

instance (seconds : Nat) : Decidable (FitStalePeriod seconds) :=
  inferInstanceAs (Decidable (1 ≤ seconds ∧ seconds ≤ Bounds.maxStalePeriod))

/-- Checks a duration. -/
def checkDuration (seconds : Nat) : Except Fault Unit :=
  if FitDuration seconds then .ok () else .error (.invalid (.duration seconds))

/-- Checks a limit on the age of rates. -/
def checkStalePeriod (seconds : Nat) : Except Fault Unit :=
  if FitStalePeriod seconds then .ok () else .error (.invalid (.stalePeriod seconds))

/-- Checks a target ratio of debt to collateral. -/
def checkIssuanceRatio (ratio : Nat) : Except Fault Unit :=
  if ratio = 0 ∨ Bounds.maxIssuanceRatio < ratio then .error (.invalid (.issuanceRatio ratio))
  else .ok ()

/-- Checks a threshold above the target ratio. -/
def checkTargetThreshold (threshold : Nat) : Except Fault Unit :=
  if Bounds.maxTargetThreshold < threshold then .error (.invalid (.targetThreshold threshold))
  else .ok ()

/-- Checks the settings one after the other.  A duration of zero is accepted: it leaves the close by
time switched off. -/
def validate (settings : Settings) : Except Misfit Unit :=
  if settings.length < 2 ∨ Bounds.maxLength < settings.length then
    .error (.length settings.length)
  else if settings.duration ≠ 0 ∧ ¬ FitDuration settings.duration then
    .error (.duration settings.duration)
  else if settings.terms.issuanceRatio = 0 then .error .zeroIssuanceRatio
  else if ¬ FitStalePeriod settings.terms.stalePeriod then
    .error (.stalePeriod settings.terms.stalePeriod)
  else if settings.eventBuffer = 0 then .error .zeroEventBuffer
  else .ok ()

/-- The fault by which a pool refuses unfit settings. -/
def fault (misfit : Misfit) : Fault :=
  .misconfigured (.settings misfit)

end Settings

end FeeDistribution
