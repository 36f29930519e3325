import FeeDistribution.Environment.Stakes
import FeeDistribution.Environment.Treasury

/-!
# The environment

What the program reads and what it pays through: debt shares, suspensions, the ages of exchange
rates, and the treasury.
-/

namespace FeeDistribution

/-- Which subsystems are suspended. -/
structure Suspensions where
  /-- Whether the whole system is. -/
  system : Bool := false
  /-- Whether issuing, burning and claiming are. -/
  issuance : Bool := false
deriving DecidableEq

namespace Suspensions

/-- Whether a subsystem is suspended. -/
def suspends (suspensions : Suspensions) : Subsystem → Bool
  | .system => suspensions.system
  | .issuance => suspensions.issuance

/-- Suspends or resumes a subsystem. -/
def set (suspensions : Suspensions) (part : Subsystem) (suspended : Bool) : Suspensions :=
  match part with
  | .system => { suspensions with system := suspended }
  | .issuance => { suspensions with issuance := suspended }

end Suspensions

/-- When each exchange rate was last updated, by its key. -/
abbrev RateAges := Std.ExtTreeMap String Timestamp

/-- Everything around the pool. -/
structure Environment where
  /-- The debt shares. -/
  stakes : Stakes := {}
  /-- The suspensions. -/
  suspensions : Suspensions := {}
  /-- When each rate was last updated. -/
  rates : RateAges := ∅
  /-- Where payments and burns go. -/
  treasury : Treasury := {}
deriving DecidableEq

namespace Environment

instance : Inhabited Environment := ⟨{}⟩

/-- When a rate was last updated, if ever. -/
def updatedAt? (env : Environment) (key : String) : Option Timestamp :=
  env.rates[key]?

/-- Marks a rate as updated at a time. -/
def setRate (env : Environment) (key : String) (time : Timestamp) : Environment :=
  { env with rates := env.rates.insert key time }

/-- Marks the rate of the collateral currency as updated at a time. -/
def refreshRates (env : Environment) (time : Timestamp) : Environment :=
  env.setRate Defaults.collateralCurrency time

/-- Pays an account every leg of a batch. -/
def pay (env : Environment) (account : Account) (legs : List Payout) :
    Except Fault Unit × Environment :=
  let (result, treasury) := env.treasury.pay account legs
  (result, { env with treasury })

/-- Burns fees. -/
def burn (env : Environment) (amount : Amount) : Except Fault Unit × Environment :=
  let (result, treasury) := env.treasury.burn amount
  (result, { env with treasury })

end Environment

end FeeDistribution
