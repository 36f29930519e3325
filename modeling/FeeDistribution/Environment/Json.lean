import FeeDistribution.Environment.Treasury
import FeeDistribution.Json.Record
import FeeDistribution.Json.Scalar

/-!
# Subsystems, assets and payouts in JSON
-/

namespace FeeDistribution

namespace Subsystem

/-- The subsystem of a name. -/
def ofName? : String → Option Subsystem
  | "system" => some system
  | "issuance" => some issuance
  | _ => none

/-- The tree of a subsystem. -/
def toJson (part : Subsystem) : Json :=
  Json.ofText part.name

/-- The subsystem in a tree. -/
def ofJson? (json : Json) : Option Subsystem := do
  let name ← json.choice?
  ofName? name

end Subsystem

namespace Asset

/-- The asset of a name. -/
def ofName? : String → Option Asset
  | "fees" => some fees
  | "rewards" => some rewards
  | "liquidationrewards" => some liquidationRewards
  | _ => none

/-- The tree of an asset. -/
def toJson (asset : Asset) : Json :=
  Json.ofText asset.name

/-- The asset in a tree. -/
def ofJson? (json : Json) : Option Asset := do
  let name ← json.choice?
  ofName? name

end Asset

namespace Payout

/-- The tree of a leg of a payment. -/
def toJson (leg : Payout) : Json :=
  Json.record [("asset", leg.asset.toJson), ("amount", Json.ofNat leg.amount)]

/-- The leg of a payment in a tree. -/
def ofJson? (json : Json) : Option Payout := do
  match ← json.fields? ["asset", "amount"] with
  | [asset, amount] =>
    let asset ← Json.required Asset.ofJson? asset
    let amount ← Json.required Json.amount? amount
    pure { asset, amount }
  | _ => none

end Payout

end FeeDistribution
