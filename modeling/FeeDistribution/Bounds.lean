import FeeDistribution.Quantity

/-!
# Bounds and defaults

The limits within which a pool may be set up, and the values that hold where nothing is said.
Ratios and thresholds are eighteen-decimal fixed-point numbers.
-/

namespace FeeDistribution

/-- The number of decimals of an amount. -/
def decimals : Nat := 18

/-- One, as a fixed-point number. -/
def unit : Amount := 1000000000000000000

/-- The scale of the per-share ratio of the reward stream. -/
def rewardPrecision : Nat := unit * unit

namespace Bounds

/-- The most slots a window may have. -/
def maxLength : Nat := 64

/-- The shortest a fee period may stay open: a day. -/
def minDuration : Nat := 86400

/-- The longest a fee period may stay open: sixty days. -/
def maxDuration : Nat := 5184000

/-- The largest target ratio of debt to collateral: one. -/
def maxIssuanceRatio : Nat := unit

/-- The largest threshold above the target ratio: one half. -/
def maxTargetThreshold : Nat := unit / 2

/-- The longest a rate may count as fresh: thirty days. -/
def maxStalePeriod : Nat := 2592000

end Bounds

namespace Defaults

/-- The number of slots of a window. -/
def length : Nat := 6

/-- How long a fee period stays open: a week. -/
def duration : Nat := 604800

/-- The target ratio of debt to collateral: one fifth. -/
def issuanceRatio : Nat := unit / 5

/-- The threshold above the target ratio: one tenth. -/
def targetThreshold : Nat := unit / 10

/-- How long a rate counts as fresh: twenty-five hours. -/
def stalePeriod : Nat := 90000

/-- How many events are held until drained. -/
def eventBuffer : Nat := 10000

/-- The currency in which collateral is held; its rate must be fresh. -/
def collateralCurrency : String := "SNX"

end Defaults

/-- The key reported when the debt shares declare their own rates invalid. -/
def debtRatioKey : String := "debt-ratio"

end FeeDistribution
