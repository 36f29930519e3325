import FeeDistribution.Environment.Change
import FeeDistribution.Pool.Basic

/-!
# Calls and runs

Every entry point of a pool that can change it, and every change of its environment, as data.  A run
is a list of calls; it ends in a system and leaves one result for each call, also for those that
failed.
-/

namespace FeeDistribution

/-- One call of a pool, or one change around it. -/
inductive Call where
  /-- Fees for the open period. -/
  | fee (amount : Amount)
  /-- Rewards for the open period. -/
  | reward (amount : Amount)
  /-- A close by time. -/
  | closeTimed (now : Timestamp)
  /-- A close by relay. -/
  | closeRelayed (caller : Account) (new : PeriodId) (start : Timestamp)
  /-- A claim. -/
  | claim (account : Account) (now : Timestamp)
  /-- A claim by a delegate. -/
  | claimOnBehalf (account delegate : Account) (now : Timestamp)
  /-- The approval of a delegate. -/
  | approve (owner delegate : Account)
  /-- The removal of a delegate. -/
  | removeDelegate (owner delegate : Account)
  /-- The import of a period. -/
  | importPeriod (caller : Account) (slot : Nat) (period : Period)
  /-- The import of a watermark. -/
  | importWatermark (caller account : Account) (id : PeriodId)
  /-- The end of the import. -/
  | finishImport (caller : Account)
  /-- An inflow of the reward stream. -/
  | notify (amount : Amount)
  /-- The distribution of rewards held back. -/
  | distributePending
  /-- A checkpoint of the reward stream. -/
  | checkpoint (account : Account)
  /-- A payout of the reward stream. -/
  | settle (account : Account)
  /-- Debt shares are issued. -/
  | mint (account : Account) (amount : Amount)
  /-- Debt shares are burned. -/
  | burn (account : Account) (amount : Amount)
  /-- A new duration. -/
  | setDuration (caller : Account) (seconds : Nat)
  /-- A new target ratio. -/
  | setIssuanceRatio (caller : Account) (ratio : Nat)
  /-- A new threshold. -/
  | setTargetThreshold (caller : Account) (threshold : Nat)
  /-- A new limit on the age of rates. -/
  | setStalePeriod (caller : Account) (seconds : Nat)
  /-- A new relayer, or none. -/
  | setRelayer (caller : Account) (relayer : Option Account)
  /-- The journal is drained. -/
  | drain
  /-- A change of the environment. -/
  | around (change : Change)
deriving DecidableEq

/-- What a successful call answers. -/
inductive Reply where
  /-- Nothing. -/
  | done
  /-- What a close did. -/
  | closed (outcome : CloseOutcome)
  /-- What a claim paid. -/
  | claimed (receipt : Receipt)
  /-- What became of an inflow. -/
  | inflow (inflow : Inflow)
  /-- What was paid out. -/
  | paid (amount : Amount)
  /-- The events drained. -/
  | events (events : List Event)
deriving DecidableEq

/-- The answer to a call that answers nothing but its success. -/
def Reply.ofUnit : Unit → Reply :=
  fun _ => done

namespace System

/-- Turns the answer of an entry point into a reply. -/
def reply {α : Type} (wrap : α → Reply) :
    Except Fault α × System → Except Fault Reply × System
  | (result, system) => (result.map wrap, system)

/-- Carries out a call. -/
def step (system : System) : Call → Except Fault Reply × System
  | .fee amount => reply .ofUnit (system.recordFee amount)
  | .reward amount => reply .ofUnit (system.recordReward amount)
  | .closeTimed now => reply .closed (system.closeTimed now)
  | .closeRelayed caller new start => reply .closed (system.closeRelayed caller new start)
  | .claim account now => reply .claimed (system.claim account now)
  | .claimOnBehalf account delegate now =>
    reply .claimed (system.claimOnBehalf account delegate now)
  | .approve owner delegate => (.ok .done, system.approve owner delegate)
  | .removeDelegate owner delegate => (.ok .done, system.removeDelegate owner delegate)
  | .importPeriod caller slot period => reply .ofUnit (system.importPeriod caller slot period)
  | .importWatermark caller account id => reply .ofUnit (system.importWatermark caller account id)
  | .finishImport caller => reply .ofUnit (system.finishImport caller)
  | .notify amount => reply .inflow (system.notify amount)
  | .distributePending => reply .inflow system.distributePending
  | .checkpoint account => reply .ofUnit (system.checkpoint account)
  | .settle account => reply .paid (system.settle account)
  | .mint account amount => reply .ofUnit (system.mint account amount)
  | .burn account amount => reply .ofUnit (system.burn account amount)
  | .setDuration caller seconds => reply .ofUnit (system.setDuration caller seconds)
  | .setIssuanceRatio caller ratio => reply .ofUnit (system.setIssuanceRatio caller ratio)
  | .setTargetThreshold caller threshold =>
    reply .ofUnit (system.setTargetThreshold caller threshold)
  | .setStalePeriod caller seconds => reply .ofUnit (system.setStalePeriod caller seconds)
  | .setRelayer caller relayer => reply .ofUnit (system.setRelayer caller relayer)
  | .drain => (.ok (.events system.drain.1), system.drain.2)
  | .around change =>
    match system.env.apply change with
    | (result, env) => (result.map .ofUnit, { system with env })

/-- Carries out a list of calls, one after the other, and collects their results. -/
def run (system : System) : List Call → List (Except Fault Reply) × System
  | [] => ([], system)
  | call :: calls =>
    let (result, next) := system.step call
    let (results, last) := run next calls
    (result :: results, last)

end System

end FeeDistribution
