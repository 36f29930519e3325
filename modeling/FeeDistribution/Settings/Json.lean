import FeeDistribution.Account.Hex
import FeeDistribution.Json.Record
import FeeDistribution.Settings.Basic

/-!
# Settings in JSON

Every member may be missing and then has its default.  Reading does not judge whether the settings
are within bounds.
-/

namespace FeeDistribution

namespace Terms

/-- The tree of the terms of the gate. -/
def toJson (terms : Terms) : Json :=
  Json.record
    [("issuance_ratio", Json.ofNat terms.issuanceRatio),
      ("target_threshold", Json.ofNat terms.targetThreshold),
      ("rate_stale_period", Json.ofNat terms.stalePeriod),
      ("required_rates", Json.ofList Json.ofText terms.requiredRates)]

/-- The names of the members, in order. -/
def memberNames : List String :=
  ["issuance_ratio", "target_threshold", "rate_stale_period", "required_rates"]

/-- The terms in a tree. -/
def ofJson? (json : Json) : Option Terms := do
  match ← json.fields? memberNames with
  | [issuanceRatio, targetThreshold, stalePeriod, requiredRates] =>
    let default : Terms := {}
    let issuanceRatio ← Json.optional Json.word? default.issuanceRatio issuanceRatio
    let targetThreshold ← Json.optional Json.word? default.targetThreshold targetThreshold
    let stalePeriod ← Json.optional Json.word? default.stalePeriod stalePeriod
    let requiredRates ←
      Json.optional (Json.list? Json.text?) default.requiredRates requiredRates
    pure { issuanceRatio, targetThreshold, stalePeriod, requiredRates }
  | _ => none

end Terms

namespace Settings

/-- The tree of the settings. -/
def toJson (settings : Settings) : Json :=
  Json.record
    [("fee_period_length", Json.ofNat settings.length),
      ("fee_period_duration", Json.ofNat settings.duration),
      ("owner", Json.ofOption Account.toJson settings.owner),
      ("relayer", Json.ofOption Account.toJson settings.relayer),
      ("gate", settings.terms.toJson),
      ("event_buffer", Json.ofNat settings.eventBuffer)]

/-- The names of the members, in order. -/
def memberNames : List String :=
  ["fee_period_length", "fee_period_duration", "owner", "relayer", "gate", "event_buffer"]

/-- The settings in a tree. -/
def ofJson? (json : Json) : Option Settings := do
  match ← json.fields? memberNames with
  | [length, duration, owner, relayer, terms, eventBuffer] =>
    let default : Settings := {}
    let length ← Json.optional Json.word? default.length length
    let duration ← Json.optional Json.word? default.duration duration
    let owner ← Json.optional (Json.option? Account.ofJson?) default.owner owner
    let relayer ← Json.optional (Json.option? Account.ofJson?) default.relayer relayer
    let terms ← Json.optional Terms.ofJson? default.terms terms
    let eventBuffer ← Json.optional Json.word? default.eventBuffer eventBuffer
    pure { length, duration, owner, relayer, terms, eventBuffer }
  | _ => none

end Settings

end FeeDistribution
