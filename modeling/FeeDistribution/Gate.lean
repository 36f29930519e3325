import FeeDistribution.Environment.Basic
import FeeDistribution.Settings.Basic

/-!
# The gate

Before a close or claim changes anything it passes a gate: a list of checks of which the first that
fails decides.  A close asks that nothing is suspended and the required rates are fresh; a claim
asks in addition that the claimant's ratio of debt to collateral is not past the penalty threshold;
a relayed close asks only that nothing is suspended.
-/

namespace FeeDistribution

namespace Terms

/-- The highest ratio of debt to collateral at which a claim is let through: the target ratio raised
by the threshold. -/
def penaltyThreshold (terms : Terms) : Except Fault Amount := do
  let buffer ← Decimal.add unit terms.targetThreshold
  Decimal.multiply terms.issuanceRatio buffer

/-- Whether a ratio of debt to collateral allows a claim.  A ratio below the target needs no
threshold. -/
def allows (terms : Terms) (ratio : Amount) : Except Fault Bool :=
  if ratio < terms.issuanceRatio then .ok true
  else do
    let threshold ← terms.penaltyThreshold
    pure (decide (ratio ≤ threshold))

/-- Whether a rate last updated at this time, if ever, is too old. -/
def stale (terms : Terms) (updated : Option Timestamp) (now : Timestamp) : Bool :=
  match updated with
  | none => true
  | some time =>
    decide (min (terms.stalePeriod : Int) Quantity.latest < Timestamp.saturate (now - time))

end Terms

/-- The circumstances a gate judges. -/
structure Circumstances where
  /-- The environment at that moment. -/
  env : Environment
  /-- The terms of the pool. -/
  terms : Terms
  /-- The claimant, if there is one. -/
  claimant : Option Account
  /-- The time. -/
  now : Timestamp

/-- One condition of a gate. -/
inductive Check where
  /-- A subsystem is not suspended. -/
  | active (part : Subsystem)
  /-- The required rates are fresh, and those behind the claimant's ratio are valid. -/
  | ratesFresh
  /-- The claimant's ratio is not past the penalty threshold. -/
  | penaltyThreshold
deriving DecidableEq

namespace Check

/-- The name of a check. -/
def name : Check → String
  | active .system => "system-active"
  | active .issuance => "issuance-active"
  | ratesFresh => "rates-fresh"
  | penaltyThreshold => "penalty-threshold"

/-- The first required rate that is missing or too old. -/
def staleRate? (circumstances : Circumstances) : Option String :=
  circumstances.terms.requiredRates.find? fun key =>
    circumstances.terms.stale (circumstances.env.updatedAt? key) circumstances.now

/-- Applies a check.  What concerns the claimant holds where there is none. -/
def run (circumstances : Circumstances) : Check → Except Fault Unit
  | active part =>
    if circumstances.env.suspensions.suspends part then .error (.suspended part) else .ok ()
  | ratesFresh =>
    match staleRate? circumstances with
    | some key => .error (.rateUnusable key)
    | none =>
      if circumstances.claimant.isSome ∧ circumstances.env.stakes.ratesInvalid then
        .error (.rateUnusable debtRatioKey)
      else .ok ()
  | penaltyThreshold =>
    match circumstances.claimant with
    | none => .ok ()
    | some account => do
      let threshold ← circumstances.terms.penaltyThreshold
      let ratio := circumstances.env.stakes.ratio account
      if threshold < ratio then throw (.ratioTooHigh ratio threshold)

end Check

/-- An ordered list of checks. -/
abbrev Gate := List Check

namespace Gate

/-- The gate before a close. -/
def close : Gate :=
  [.active .system, .active .issuance, .ratesFresh]

/-- The gate before a claim. -/
def claim : Gate :=
  close ++ [.penaltyThreshold]

/-- The gate before a relayed close. -/
def relayedClose : Gate :=
  [.active .system, .active .issuance]

/-- Applies the checks in order; the first that fails decides. -/
def run (gate : Gate) (circumstances : Circumstances) : Except Fault Unit :=
  gate.forM (Check.run circumstances)

end Gate

end FeeDistribution
