import FeeDistribution.Gate
import FeeDistribution.Ledger.Close

/-!
# Closing on time and by relay

Anyone may close the open period once it has lasted its duration, in favour of the next id.  The
relayer may close it at any time, with the id and start time that a counterpart chose.  Both burn the
fees of the closed period before the window moves, so that a failed burn leaves nothing to undo, and
then freeze the debt shares.
-/

namespace FeeDistribution.Closing

/-- A ledger together with the environment it works in. -/
structure Books where
  /-- The ledger. -/
  ledger : Ledger
  /-- The environment. -/
  env : Environment
deriving DecidableEq

/-- The gates of the two ways to close. -/
structure Gates where
  /-- The gate before a close by time. -/
  timed : Gate := Gate.close
  /-- The gate before a relayed close. -/
  relayed : Gate := Gate.relayedClose

/-- Seconds until the open period may close, zero once it may. -/
def timeLeft (ledger : Ledger) (duration : Nat) (now : Timestamp) : Timestamp :=
  let due := Timestamp.saturate (ledger.window.current.start + Timestamp.ofDuration duration)
  max 0 (Timestamp.saturate (due - now))

/-- Burns the fees that a plan hands over; nothing is burned for an amount of zero. -/
def burnPlanned (env : Environment) (plan : ClosePlan) : Except Fault Unit × Environment :=
  if 0 < plan.burned then env.burn plan.burned else (.ok (), env)

/-- Closes the open period in favour of period `new`: plan, burn, commit, freeze the shares. -/
def apply (books : Books) (new : PeriodId) (start : Timestamp) :
    Except Fault CloseOutcome × Books :=
  match books.ledger.planClose new with
  | .error fault => (.error fault, books)
  | .ok plan =>
    match burnPlanned books.env plan with
    | (.error fault, env) => (.error fault, { books with env })
    | (.ok (), env) =>
      match books.ledger.commitClose plan start with
      | .error fault => (.error fault, { books with env })
      | .ok (outcome, ledger) =>
        (.ok outcome, { ledger, env := { env with stakes := env.stakes.takeSnapshot new } })

/-- Closes the open period by time.  At the last word no id is left to close it in favour of, and the
plan is refused. -/
def timed (gates : Gates) (terms : Terms) (claimant : Option Account) (duration : Nat)
    (now : Timestamp) (books : Books) : Except Fault CloseOutcome × Books :=
  let left := timeLeft books.ledger duration now
  if duration = 0 then (.error .durationUnset, books)
  else if 0 < left then (.error (.tooEarly left), books)
  else
    match gates.timed.run { env := books.env, terms, claimant, now } with
    | .error fault => (.error fault, books)
    | .ok () => apply books books.ledger.window.current.id.next now

/-- Closes the open period by relay.  The gate is judged at time `now`; the new period opens at
`start`. -/
def relayed (gates : Gates) (terms : Terms) (claimant : Option Account) (now : Timestamp)
    (relayer : Option Account) (caller : Account) (new : PeriodId) (start : Timestamp)
    (books : Books) : Except Fault CloseOutcome × Books :=
  if relayer ≠ some caller then (.error (.unauthorized (.notRelayer caller)), books)
  else
    match gates.relayed.run { env := books.env, terms, claimant, now } with
    | .error fault => (.error fault, books)
    | .ok () => apply books new start

end FeeDistribution.Closing
