import FeeDistribution.Account.PublicKey
import FeeDistribution.Delegation.Json
import FeeDistribution.Environment.Json
import FeeDistribution.Event.Json
import FeeDistribution.Json.Printer
import FeeDistribution.Json.Reader
import FeeDistribution.Ledger.Json
import FeeDistribution.Pool.Call
import FeeDistribution.Pool.Json
import FeeDistribution.Rewards.Json
import FeeDistribution.Settings.Json
import FeeDistribution.Settings.Toml
import FeeDistribution.Proofs.Fallible
import FeeDistribution.Proofs.Revenue
import FeeDistribution.Proofs.Ring
import FeeDistribution.Proofs.LedgerOperations
import FeeDistribution.Proofs.Entitlements
import FeeDistribution.Proofs.WellFormed
import FeeDistribution.Proofs.Conservation
import FeeDistribution.Proofs.FailedClaims
import FeeDistribution.Proofs.Watermarks
import FeeDistribution.Proofs.RewardOperations
import FeeDistribution.Proofs.RewardStream
import FeeDistribution.Proofs.RewardFairness
import FeeDistribution.Proofs.ProRata
import FeeDistribution.Proofs.Shares
import FeeDistribution.Proofs.ClaimOrder
import FeeDistribution.Proofs.FailedCalls
import FeeDistribution.Proofs.Burns
import FeeDistribution.Proofs.FrozenShares
import FeeDistribution.Proofs.SlidingWindow
import FeeDistribution.Proofs.Lifecycle
import FeeDistribution.Proofs.HeldPlans
import FeeDistribution.Proofs.Totals
import FeeDistribution.Proofs.Capacity
import FeeDistribution.Proofs.RewardBounds
import FeeDistribution.Proofs.ValidSettings
import FeeDistribution.Proofs.Authority
import FeeDistribution.Proofs.Events
import FeeDistribution.Proofs.EventStream
import FeeDistribution.Proofs.JsonText
import FeeDistribution.Proofs.JsonTrees
import FeeDistribution.Proofs.JsonRecords
import FeeDistribution.Proofs.HexTexts
import FeeDistribution.Proofs.StoredState
import FeeDistribution.Proofs.Widths
import FeeDistribution.Proofs.Arithmetic
import FeeDistribution.Proofs.Inflows
import FeeDistribution.Proofs.SoleHolder
import FeeDistribution.Proofs.Shortfall
import FeeDistribution.Proofs.EventTexts
import FeeDistribution.Proofs.CloseEffect
import FeeDistribution.Proofs.Settlements
import FeeDistribution.Proofs.Rollover
import FeeDistribution.Proofs.Queries
import FeeDistribution.Proofs.Imports
import FeeDistribution.Proofs.Clock
import FeeDistribution.Proofs.Gates
import FeeDistribution.Proofs.TimeGate
import FeeDistribution.Proofs.CloseConditions
import FeeDistribution.Proofs.NewestEvents
import FeeDistribution.Proofs.RelevantShares
import FeeDistribution.Proofs.Claimability
import FeeDistribution.Proofs.ClaimEffect
import FeeDistribution.Proofs.Approvals
import FeeDistribution.Proofs.AccountTexts
import FeeDistribution.Proofs.Lookup
