import FeeDistribution.Account.Hex
import FeeDistribution.Settings.Basic
import FeeDistribution.Toml.Reader

/-!
# Settings in TOML

A pool is set up from a TOML text.  Every member may be missing and then has its default; other
members do not matter.  The settings are judged after they were read as a whole.
-/

namespace FeeDistribution

namespace Toml.Value

variable {α : Type}

/-- An integer that is not negative. -/
def word? : Value → Option Nat
  | .integer value => if 0 ≤ value then some value.toNat else none
  | _ => none

/-- A string. -/
def text? : Value → Option String
  | .text string => some string
  | _ => none

/-- An account, as a string of its digits.  An account that is given is never absent. -/
def account? (value : Value) : Option (Option Account) := do
  let string ← value.text?
  let account ← Account.ofHex? string
  pure (some account)

/-- An array of strings. -/
def texts? : Value → Option (List String)
  | .array items => items.mapM text?
  | _ => none

/-- Reads a member that may be missing. -/
def optional (read : Value → Option α) (default : α) : Option Value → Option α
  | some value => read value
  | none => some default

end Toml.Value

namespace Terms

open Toml.Value (optional word? texts?)

/-- The terms whose members are found by `find?`. -/
def ofMembers? (find? : Nat → String → Option Toml.Value) : Option Terms := do
  let default : Terms := {}
  let issuanceRatio ← optional word? default.issuanceRatio (find? 0 "issuance_ratio")
  let targetThreshold ← optional word? default.targetThreshold (find? 1 "target_threshold")
  let stalePeriod ← optional word? default.stalePeriod (find? 2 "rate_stale_period")
  let requiredRates ← optional texts? default.requiredRates (find? 3 "required_rates")
  pure { issuanceRatio, targetThreshold, stalePeriod, requiredRates }

/-- The terms in a value: a table, or an array of the values of its members in their order.  A
moment counts as a table without any of the members. -/
def ofToml? : Toml.Value → Option Terms
  | .table _ members => ofMembers? fun _ name => members.lookup name
  | .array items => ofMembers? fun position _ => items[position]?
  | .moment => some {}
  | _ => none

end Terms

/-- Why a text sets up no pool. -/
inductive SettingsFault where
  /-- There is no text, or it is not in UTF-8. -/
  | unreadable
  /-- The text is no TOML, or a value has the wrong type or range. -/
  | malformed
  /-- The settings are out of bounds. -/
  | unfit (misfit : Misfit)
deriving DecidableEq

namespace Settings

open Toml.Value (optional word? account?)

/-- The settings in the top table of a document. -/
def ofToml? (members : Toml.Members) : Option Settings := do
  let default : Settings := {}
  let length ← optional word? default.length (members.find? "fee_period_length")
  let duration ← optional word? default.duration (members.find? "fee_period_duration")
  let owner ← optional account? default.owner (members.find? "owner")
  let relayer ← optional account? default.relayer (members.find? "relayer")
  let terms ← optional Terms.ofToml? default.terms (members.find? "gate")
  let eventBuffer ← optional word? default.eventBuffer (members.find? "event_buffer")
  pure { length, duration, owner, relayer, terms, eventBuffer }

/-- The settings, if they are within bounds. -/
def check (settings : Settings) : Except SettingsFault Settings :=
  match settings.validate with
  | .ok () => .ok settings
  | .error misfit => .error (.unfit misfit)

/-- The settings that a TOML text sets up. -/
def ofText (text : String) : Except SettingsFault Settings :=
  match (Toml.parse? text).bind ofToml? with
  | some settings => settings.check
  | none => .error .malformed

/-- The settings that the content of a file sets up, if there is one. -/
def ofContent (content : Option ByteArray) : Except SettingsFault Settings :=
  match content.bind String.fromUTF8? with
  | some text => ofText text
  | none => .error .unreadable

end Settings

end FeeDistribution
