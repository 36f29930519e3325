import FeeDistribution.Account.Basic
import FeeDistribution.Bounds

/-!
# Faults

Why an operation was refused.  Each fault is a cause with the data that explain it; its text, its
stable code and whether the same call may succeed later are functions of the cause.
-/

namespace FeeDistribution

/-- A part of the surrounding system that can be suspended on its own. -/
inductive Subsystem where
  /-- The whole system. -/
  | system
  /-- Issuing, burning and claiming. -/
  | issuance
deriving DecidableEq

/-- The name of a subsystem. -/
def Subsystem.name : Subsystem → String
  | system => "system"
  | issuance => "issuance"

/-- What is wrong with an argument. -/
inductive Invalid where
  /-- A quotient by zero was asked for. -/
  | divisionByZero
  /-- More fees are claimed from a period than it distributes. -/
  | feesOverclaimed (id : PeriodId)
  /-- More rewards are claimed from a period than it distributes. -/
  | rewardsOverclaimed (id : PeriodId)
  /-- The id of a new period does not follow the id of the open one. -/
  | notAfter (new current : PeriodId)
  /-- The ledger has moved since the close was planned. -/
  | staleClosePlan
  /-- The ledger has moved since the claim was planned. -/
  | staleClaimPlan
  /-- An imported period has no id. -/
  | zeroPeriodId
  /-- A slot is imported before the next newer one. -/
  | importOutOfOrder (slot : Nat)
  /-- An imported id is not below the id of the next newer slot. -/
  | notBelowNewer (slot : Nat) (id newer : PeriodId)
  /-- An imported id is not above the id of the next older slot. -/
  | notAboveOlder (slot : Nat) (id older : PeriodId)
  /-- A reward inflow of zero. -/
  | zeroReward
  /-- More stake is burned than is held. -/
  | burnExceedsBalance
  /-- A period duration out of bounds. -/
  | duration (seconds : Nat)
  /-- A target ratio out of bounds. -/
  | issuanceRatio (ratio : Nat)
  /-- A threshold out of bounds. -/
  | targetThreshold (threshold : Nat)
  /-- A freshness limit out of bounds. -/
  | stalePeriod (seconds : Nat)
  /-- A reason given in words. -/
  | because (reason : String)
deriving DecidableEq

/-- The text of what is wrong with an argument. -/
def Invalid.message : Invalid → String
  | divisionByZero => "division by zero"
  | feesOverclaimed id => s!"period {id}: fees claimed exceed fees to distribute"
  | rewardsOverclaimed id => s!"period {id}: rewards claimed exceed rewards to distribute"
  | notAfter new current => s!"new fee period {new} must follow {current}"
  | staleClosePlan => "stale close plan"
  | staleClaimPlan => "stale claim plan"
  | zeroPeriodId => "fee period id must be non-zero"
  | importOutOfOrder slot => s!"import slot {slot - 1} before slot {slot}"
  | notBelowNewer slot id newer => s!"slot {slot} id {id} must be below slot {slot - 1} id {newer}"
  | notAboveOlder slot id older => s!"slot {slot} id {id} must be above slot {slot + 1} id {older}"
  | zeroReward => "reward amount must be non-zero"
  | burnExceedsBalance => "burn exceeds balance"
  | duration seconds =>
    s!"fee period duration {seconds}s outside [{Bounds.minDuration}, {Bounds.maxDuration}]"
  | issuanceRatio ratio => s!"issuance ratio {ratio} outside (0, {Bounds.maxIssuanceRatio}]"
  | targetThreshold threshold => s!"target threshold {threshold} above {Bounds.maxTargetThreshold}"
  | stalePeriod seconds => s!"rate stale period {seconds}s outside [1, {Bounds.maxStalePeriod}]"
  | because reason => reason

/-- Which right a caller lacks. -/
inductive Denial where
  /-- The caller is not the owner. -/
  | notOwner (caller : Account)
  /-- The caller is not the relayer. -/
  | notRelayer (caller : Account)
  /-- The caller has no approval of the account. -/
  | notDelegate (delegate account : Account)
  /-- A reason given in words. -/
  | because (reason : String)
deriving DecidableEq

/-- The text of a denial. -/
def Denial.message : Denial → String
  | notOwner caller => caller.short ++ " is not the owner"
  | notRelayer caller => caller.short ++ " is not the relayer"
  | notDelegate delegate account => delegate.short ++ " may not claim for " ++ account.short
  | because reason => reason

/-- What is wrong with the settings of a pool. -/
inductive Misfit where
  /-- The number of slots is out of bounds. -/
  | length (slots : Nat)
  /-- The duration is set and out of bounds. -/
  | duration (seconds : Nat)
  /-- The target ratio is zero. -/
  | zeroIssuanceRatio
  /-- The freshness limit is out of bounds. -/
  | stalePeriod (seconds : Nat)
  /-- No event could be held. -/
  | zeroEventBuffer
deriving DecidableEq

/-- The text of what is wrong with the settings. -/
def Misfit.reason : Misfit → String
  | length slots => s!"fee_period_length must be between 2 and {Bounds.maxLength}, got {slots}"
  | duration seconds => "Invalid input: " ++ (Invalid.duration seconds).message
  | zeroIssuanceRatio => "issuance_ratio must be non-zero"
  | stalePeriod seconds => "Invalid input: " ++ (Invalid.stalePeriod seconds).message
  | zeroEventBuffer => "event_buffer must be non-zero"

/-- The text under which unfit settings are reported. -/
def Misfit.message (misfit : Misfit) : String :=
  "invalid config: " ++ misfit.reason

/-- Why nothing can be set up. -/
inductive Misconfiguration where
  /-- A window of fewer than two slots. -/
  | shortWindow (slots : Nat)
  /-- Settings out of bounds. -/
  | settings (misfit : Misfit)
  /-- A reason given in words. -/
  | because (reason : String)
deriving DecidableEq

/-- The text of why nothing can be set up. -/
def Misconfiguration.message : Misconfiguration → String
  | shortWindow slots => s!"fee period length must be at least 2, got {slots}"
  | settings misfit => misfit.message
  | because reason => reason

/-- Why an operation was refused. -/
inductive Fault where
  /-- A subsystem is suspended. -/
  | suspended (part : Subsystem)
  /-- A rate is missing, too old or declared invalid. -/
  | rateUnusable (key : String)
  /-- The ratio of debt to collateral is past the penalty threshold. -/
  | ratioTooHigh (ratio threshold : Amount)
  /-- The open period has not lasted its duration; this many seconds remain. -/
  | tooEarly (remaining : Int)
  /-- No duration is set, so the period cannot be closed by time. -/
  | durationUnset
  /-- The period is not in the window. -/
  | outsideWindow (id : PeriodId)
  /-- Normal operation has begun, so no history can be imported. -/
  | importClosed
  /-- The account is owed nothing from the closed periods. -/
  | nothingToClaim
  /-- The caller lacks a right. -/
  | unauthorized (denial : Denial)
  /-- A payment or burn did not go through. -/
  | transferFailed (reason : String)
  /-- A result does not fit its width. -/
  | overflow
  /-- An argument is wrong. -/
  | invalid (why : Invalid)
  /-- The set-up is wrong. -/
  | misconfigured (why : Misconfiguration)
deriving DecidableEq

namespace Fault

/-- The text of a fault. -/
def message : Fault → String
  | suspended part => s!"Operation prohibited: {part.name} is suspended"
  | rateUnusable key => s!"Invalid rate: {key}"
  | ratioTooHigh ratio threshold =>
    s!"C-Ratio below penalty threshold: ratio {ratio} exceeds {threshold}"
  | tooEarly remaining => s!"Too early to close fee period: {remaining}s remaining"
  | durationUnset => "Fee period duration not set"
  | outsideWindow id => s!"Fee period {id} is outside the window"
  | importClosed => "Fee period import is closed"
  | nothingToClaim => "No fees or rewards available for period, or fees already claimed"
  | unauthorized denial => "Unauthorized: " ++ denial.message
  | transferFailed reason => "Transfer failed: " ++ reason
  | overflow => "Arithmetic overflow"
  | invalid why => "Invalid input: " ++ why.message
  | misconfigured why => "Configuration error: " ++ why.message

/-- The stable code of a fault; faults without a code of their own share 9999. -/
def code : Fault → Nat
  | suspended _ => 2001
  | rateUnusable _ => 2002
  | ratioTooHigh _ _ => 2003
  | tooEarly _ => 2004
  | nothingToClaim => 2005
  | unauthorized _ => 2006
  | durationUnset => 2007
  | outsideWindow _ => 2008
  | importClosed => 2009
  | transferFailed _ => 9999
  | overflow => 9999
  | invalid _ => 9999
  | misconfigured _ => 9999

/-- Whether the fault lies in conditions that may clear on their own, so that the same call may
succeed later. -/
def isRetryable : Fault → Bool
  | suspended _ => true
  | rateUnusable _ => true
  | ratioTooHigh _ _ => true
  | tooEarly _ => true
  | transferFailed _ => true
  | _ => false

end Fault

end FeeDistribution
