import FeeDistribution.Closing
import FeeDistribution.Delegation.Basic
import FeeDistribution.Event.Basic
import FeeDistribution.Ledger.Claim
import FeeDistribution.Ledger.Import
import FeeDistribution.Rewards.Staking

/-!
# The pool

A pool joins a ledger, a reward stream, delegation and a journal under common settings.  Together
with its environment it forms a `System`; an entry point takes a system and returns a result and the
system as it is afterwards.  Every entry point checks first and changes after.
-/

namespace FeeDistribution

/-- A pool. -/
structure Pool where
  /-- The settings. -/
  settings : Settings
  /-- The fee periods and watermarks. -/
  ledger : Ledger
  /-- The reward stream. -/
  rewards : Rewards := {}
  /-- The approvals of delegates. -/
  delegation : Delegation := {}
  /-- The events not yet drained. -/
  journal : Journal
deriving DecidableEq

/-- A pool and what surrounds it. -/
structure System where
  /-- The pool. -/
  pool : Pool
  /-- The environment. -/
  env : Environment
deriving DecidableEq

/-- The amounts paid by a claim. -/
structure Receipt where
  /-- The claimant. -/
  account : Account
  /-- The fees paid. -/
  fees : Amount
  /-- The rewards paid. -/
  rewards : Amount
  /-- The new watermark. -/
  through : PeriodId
  /-- The periods that paid something, newest first. -/
  periods : List PeriodId
deriving DecidableEq

namespace ClaimPlan

/-- The legs of the payment of a claim; a leg of zero is left out. -/
def legs (plan : ClaimPlan) : List Payout :=
  [{ asset := .fees, amount := plan.fees }, { asset := .rewards, amount := plan.rewards : Payout }]
    |>.filter fun leg => decide (0 < leg.amount)

/-- The receipt of a claim. -/
def receipt (plan : ClaimPlan) : Receipt :=
  { account := plan.account
    fees := plan.fees
    rewards := plan.rewards
    through := plan.through
    periods :=
      (plan.entitlements.filter fun owed => decide (0 < owed.fees ∨ 0 < owed.rewards)).map
        Entitlement.id }

end ClaimPlan

namespace Pool

/-- A pool with period one open. -/
def create (settings : Settings) (now : Timestamp) : Except Fault Pool := do
  settings.validate.mapError Settings.fault
  let ledger ← Ledger.create settings.length now
  pure { settings, ledger, journal := .withLimit settings.eventBuffer }

/-- Whether a caller is the owner. -/
def checkOwner (pool : Pool) (caller : Account) : Except Fault Unit :=
  if pool.settings.owner = some caller then .ok ()
  else .error (.unauthorized (.notOwner caller))

/-- Records an event. -/
def emit (pool : Pool) (event : Event) : Pool :=
  { pool with journal := pool.journal.emit event }

end Pool

namespace System

variable {α : Type}

/-- The system with a changed pool. -/
def withPool (system : System) (pool : Pool) : System :=
  { system with pool }

/-- Carries out a change of the pool that needs nothing from the environment. -/
def onPool (system : System) (change : Pool → Except Fault (α × Pool)) :
    Except Fault α × System :=
  match change system.pool with
  | .ok (answer, pool) => (.ok answer, system.withPool pool)
  | .error fault => (.error fault, system)

/-! ## Deposits -/

/-- Adds fees to the open period. -/
def recordFee (system : System) (amount : Amount) : Except Fault Unit × System :=
  system.onPool fun pool => do
    let ledger ← pool.ledger.recordFee amount
    pure ((), { pool with ledger })

/-- Adds rewards to the open period. -/
def recordReward (system : System) (amount : Amount) : Except Fault Unit × System :=
  system.onPool fun pool => do
    let ledger ← pool.ledger.recordReward amount
    pure ((), { pool with ledger })

/-! ## Closing -/

/-- The ledger and environment of the system. -/
def books (system : System) : Closing.Books :=
  { ledger := system.pool.ledger, env := system.env }

/-- Takes over what a close did to the ledger and environment, and records it. -/
def afterClose (system : System) :
    Except Fault CloseOutcome × Closing.Books → Except Fault CloseOutcome × System
  | (.error fault, books) =>
    (.error fault, { pool := { system.pool with ledger := books.ledger }, env := books.env })
  | (.ok outcome, books) =>
    (.ok outcome,
      { pool := { system.pool with ledger := books.ledger }.emit (.periodClosed outcome.closed)
        env := books.env })

/-- Seconds until the open period may close, zero once it may. -/
def timeLeft (system : System) (now : Timestamp) : Timestamp :=
  Closing.timeLeft system.pool.ledger system.pool.settings.duration now

/-- Closes the open period once it has lasted its duration. -/
def closeTimed (system : System) (now : Timestamp) : Except Fault CloseOutcome × System :=
  system.afterClose
    (Closing.timed {} system.pool.settings.terms none system.pool.settings.duration now
      system.books)

/-- Closes the open period by relay. -/
def closeRelayed (system : System) (caller : Account) (new : PeriodId) (start : Timestamp) :
    Except Fault CloseOutcome × System :=
  system.afterClose
    (Closing.relayed {} system.pool.settings.terms none start system.pool.settings.relayer caller
      new start system.books)

/-! ## Claims -/

/-- The circumstances of a claim. -/
def circumstances (system : System) (account : Account) (now : Timestamp) : Circumstances :=
  { env := system.env, terms := system.pool.settings.terms, claimant := some account, now }

/-- Plans and commits a claim, which is still to be paid. -/
def stageClaim (system : System) (account : Account) (now : Timestamp) :
    Except Fault (ClaimPlan × PeriodId × Ledger) := do
  Gate.claim.run (system.circumstances account now)
  let plan ← system.pool.ledger.planClaim account (system.env.stakes.shareOn account)
  let (previous, ledger) ← system.pool.ledger.commitClaim plan
  pure (plan, previous, ledger)

/-- Pays an account everything it is owed from closed periods.  If the payment fails the claim is
reverted. -/
def claim (system : System) (account : Account) (now : Timestamp) :
    Except Fault Receipt × System :=
  match system.stageClaim account now with
  | .error fault => (.error fault, system)
  | .ok (plan, previous, ledger) =>
    match system.env.pay account plan.legs with
    | (.error fault, env) =>
      (.error fault,
        { pool := { system.pool with ledger := ledger.revertClaim plan previous }, env })
    | (.ok (), env) =>
      (.ok plan.receipt,
        { pool :=
            { system.pool with ledger }.emit (.feesClaimed account plan.fees plan.rewards)
          env })

/-- Claims for an account as its delegate; the proceeds go to the account. -/
def claimOnBehalf (system : System) (account delegate : Account) (now : Timestamp) :
    Except Fault Receipt × System :=
  if system.pool.delegation.allows account delegate then system.claim account now
  else (.error (.unauthorized (.notDelegate delegate account)), system)

/-! ## Delegation -/

/-- Approves a delegate; a new approval is recorded. -/
def approve (system : System) (owner delegate : Account) : System :=
  let (isNew, delegation) := system.pool.delegation.approve owner delegate
  let pool := { system.pool with delegation }
  system.withPool (if isNew then pool.emit (.delegateApproved owner delegate) else pool)

/-- Removes a delegate; the loss of an approval is recorded. -/
def removeDelegate (system : System) (owner delegate : Account) : System :=
  let (wasApproved, delegation) := system.pool.delegation.remove owner delegate
  let pool := { system.pool with delegation }
  system.withPool (if wasApproved then pool.emit (.delegateRemoved owner delegate) else pool)

/-! ## Queries -/

/-- The fees and rewards an account is owed. -/
def available (system : System) (account : Account) : Except Fault (Amount × Amount) :=
  system.pool.ledger.available account (system.env.stakes.shareOn account)

/-- What an account is owed, slot by slot. -/
def breakdown (system : System) (account : Account) : Except Fault (List Entitlement) :=
  system.pool.ledger.breakdown account (system.env.stakes.shareOn account)
    (system.env.stakes.share account)

/-- The share of an account on the period in a slot. -/
def debtRatio (system : System) (account : Account) (slot : Nat) : Amount :=
  system.pool.ledger.debtRatio slot (system.env.stakes.shareOn account)

/-- Whether the present ratio of an account allows a claim.  A ratio computed from invalid rates
allows none. -/
def isClaimable (system : System) (account : Account) : Except Fault Bool :=
  if system.env.stakes.ratesInvalid then .ok false
  else system.pool.settings.terms.allows (system.env.stakes.ratio account)

/-- What an account could be paid from the reward stream. -/
def earned (system : System) (account : Account) : Except Fault Amount :=
  system.pool.rewards.earned account (system.env.stakes.balance account)

/-! ## Importing history -/

/-- Overwrites a slot with a period of the past. -/
def importPeriod (system : System) (caller : Account) (slot : Nat) (period : Period) :
    Except Fault Unit × System :=
  system.onPool fun pool => do
    pool.checkOwner caller
    let ledger ← pool.ledger.importPeriod slot period
    pure ((), { pool with ledger }.emit (.periodImported slot period.id))

/-- Sets the watermark of an account. -/
def importWatermark (system : System) (caller account : Account) (id : PeriodId) :
    Except Fault Unit × System :=
  system.onPool fun pool => do
    pool.checkOwner caller
    let ledger ← pool.ledger.importWatermark account id
    pure ((), { pool with ledger })

/-- Ends the import of history. -/
def finishImport (system : System) (caller : Account) : Except Fault Unit × System :=
  system.onPool fun pool => do
    pool.checkOwner caller
    pure ((), { pool with ledger := pool.ledger.finishImport })

/-! ## The reward stream -/

/-- Takes an inflow of rewards in. -/
def notify (system : System) (amount : Amount) : Except Fault Inflow × System :=
  system.onPool fun pool => do
    let (inflow, rewards) ← pool.rewards.notify system.env.stakes.supply amount
    let distributed := match inflow with
      | .distributed _ => true
      | .pending _ => false
    pure (inflow, { pool with rewards }.emit (.rewardsNotified amount distributed))

/-- Distributes rewards that were held back. -/
def distributePending (system : System) : Except Fault Inflow × System :=
  system.onPool fun pool => do
    let (inflow, rewards) ← pool.rewards.distributePending system.env.stakes.supply
    pure (inflow, { pool with rewards })

/-- Brings an account up to date with the reward stream. -/
def checkpoint (system : System) (account : Account) : Except Fault Unit × System :=
  system.onPool fun pool => do
    let rewards ← pool.rewards.beforeChange system.env.stakes account
    pure ((), { pool with rewards })

/-- Pays an account from the reward stream; a payment is recorded. -/
def settle (system : System) (account : Account) : Except Fault Amount × System :=
  match system.pool.rewards.settle system.env.treasury account
      (system.env.stakes.balance account) with
  | (result, rewards, treasury) =>
    let pool := { system.pool with rewards }
    let recorded := match result with
      | .ok paid => if 0 < paid then pool.emit (.rewardPaid account paid) else pool
      | .error _ => pool
    (result, { pool := recorded, env := { system.env with treasury } })

/-- Issues debt shares to an account. -/
def mint (system : System) (account : Account) (amount : Amount) : Except Fault Unit × System :=
  match system.pool.rewards.mint system.env.stakes account amount with
  | (result, rewards, stakes) =>
    (result, { pool := { system.pool with rewards }, env := { system.env with stakes } })

/-- Burns debt shares of an account. -/
def burn (system : System) (account : Account) (amount : Amount) : Except Fault Unit × System :=
  match system.pool.rewards.burn system.env.stakes account amount with
  | (result, rewards, stakes) =>
    (result, { pool := { system.pool with rewards }, env := { system.env with stakes } })

/-! ## Settings -/

/-- Changes the settings on behalf of the owner, if a check of the new value succeeds. -/
def configure (system : System) (caller : Account) (check : Except Fault Unit)
    (change : Settings → Settings) : Except Fault Unit × System :=
  system.onPool fun pool => do
    pool.checkOwner caller
    check
    pure ((), { pool with settings := change pool.settings })

/-- Sets how long a period stays open. -/
def setDuration (system : System) (caller : Account) (seconds : Nat) :
    Except Fault Unit × System :=
  system.configure caller (Settings.checkDuration seconds) fun settings =>
    { settings with duration := seconds }

/-- Sets the target ratio of debt to collateral. -/
def setIssuanceRatio (system : System) (caller : Account) (ratio : Nat) :
    Except Fault Unit × System :=
  system.configure caller (Settings.checkIssuanceRatio ratio) fun settings =>
    { settings with terms := { settings.terms with issuanceRatio := ratio } }

/-- Sets the threshold above the target ratio. -/
def setTargetThreshold (system : System) (caller : Account) (threshold : Nat) :
    Except Fault Unit × System :=
  system.configure caller (Settings.checkTargetThreshold threshold) fun settings =>
    { settings with terms := { settings.terms with targetThreshold := threshold } }

/-- Sets the greatest age of a fresh rate. -/
def setStalePeriod (system : System) (caller : Account) (seconds : Nat) :
    Except Fault Unit × System :=
  system.configure caller (Settings.checkStalePeriod seconds) fun settings =>
    { settings with terms := { settings.terms with stalePeriod := seconds } }

/-- Sets or removes the relayer. -/
def setRelayer (system : System) (caller : Account) (relayer : Option Account) :
    Except Fault Unit × System :=
  system.configure caller (.ok ()) fun settings => { settings with relayer }

/-- Takes all events out of the journal. -/
def drain (system : System) : List Event × System :=
  let (events, journal) := system.pool.journal.drain
  (events, system.withPool { system.pool with journal })

end System

end FeeDistribution
