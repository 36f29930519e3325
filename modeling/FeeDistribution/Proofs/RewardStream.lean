import FeeDistribution.Proofs.Conservation
import FeeDistribution.Proofs.RewardOperations
import Mathlib.Tactic.Linarith
import Mathlib.Tactic.Zify

/-!
# Runs of the reward stream

The reward stream on its own: anybody may notify rewards, bring accounts up to date and have them
paid, at balances and supplies that are whatever the caller names, and any payment may be refused.
Two things hold of every run from an empty stream.

The stream is solvent (`solvent_after`): all that was paid and all that is held back never exceed
what was notified, and no account is ahead of the ratio.  The rounding of checkpoints favours the
accounts, so the sum of all claims may exceed what there is; a settlement therefore pays no more
than `Rewards.unpaid`.

The divisions lose nothing (`divisions_exact_after`): what was distributed is exactly what the ratio
accounts for, over the supplies of the moment, and one remainder, that of the last division.

## Strategy

`Movement` lists what a request may do to the stream and to the payments on record, and
`step_movement` shows that it does nothing else.  The two invariants are then proved by the cases of
`Movement` and carried along a run by induction over the requests.
-/

namespace FeeDistribution.Rewards

/-- A request to the reward stream, at a balance or a supply that the caller names. -/
inductive Request where
  /-- An inflow. -/
  | notify (supply amount : Amount)
  /-- The distribution of what was held back. -/
  | distributePending (supply : Amount)
  /-- A checkpoint. -/
  | update (account : Account) (balance : Amount)
  /-- A checkpoint and a payment. -/
  | settle (account : Account) (balance : Amount)
  /-- The next payment will be refused. -/
  | refuseNext
deriving DecidableEq

/-- The account that a request brings up to date, and at which balance. -/
def Request.stake? : Request → Option (Account × Amount)
  | update account balance | settle account balance => some (account, balance)
  | _ => none

/-- Whether a request names the supply and the balance that these stakes have. -/
def Request.MadeAt (stakes : Stakes) : Request → Prop
  | notify supply _ | distributePending supply => supply = stakes.supply
  | update account balance | settle account balance => balance = stakes.balance account
  | refuseNext => True

instance {stakes : Stakes} : DecidablePred (Request.MadeAt stakes)
  | .notify supply _ | .distributePending supply =>
    inferInstanceAs (Decidable (supply = stakes.supply))
  | .update account balance | .settle account balance =>
    inferInstanceAs (Decidable (balance = stakes.balance account))
  | .refuseNext => inferInstanceAs (Decidable True)

theorem Request.MadeAt.stake_eq {stakes : Stakes} {request : Request} {account : Account}
    {balance : Amount} (hmade : request.MadeAt stakes)
    (hstake : request.stake? = some (account, balance)) : balance = stakes.balance account := by
  cases request with
  | notify | distributePending | refuseNext => cases hstake
  | update | settle =>
      cases hstake
      exact hmade

/-- The stream and the treasury from which it pays. -/
structure Books where
  /-- The stream. -/
  rewards : Rewards := {}
  /-- The treasury. -/
  treasury : Treasury := {}
deriving DecidableEq

/-- The distribution that an operation made over a supply.  To distribute nothing, since nothing was
held back, is no distribution. -/
def distributionOf (rewards : Rewards) (supply : Amount) :
    Except Fault (Inflow × Rewards) → Option Distribution
  | .ok (.distributed (_ + 1), next) =>
    some { supply, growth := next.ratio - rewards.ratio, dust := next.dust }
  | _ => none

theorem supply_distributionOf {rewards : Rewards} {supply : Amount}
    {outcome : Except Fault (Inflow × Rewards)} {distribution : Distribution}
    (hdistribution : rewards.distributionOf supply outcome = some distribution) :
    distribution.supply = supply := by
  unfold distributionOf at hdistribution
  split at hdistribution
  · cases hdistribution
    rfl
  · cases hdistribution

namespace Books

variable {α : Type}

/-- Takes over what an operation did to the stream, if it succeeded. -/
def keep (books : Books) : Except Fault (α × Rewards) → Books
  | .ok (_, rewards) => { books with rewards }
  | .error _ => books

theorem treasury_keep (books : Books) (outcome : Except Fault (α × Rewards)) :
    (books.keep outcome).treasury = books.treasury := by
  cases outcome <;> rfl

/-- Carries out a request. -/
def step (books : Books) : Request → Books
  | .notify supply amount => books.keep (books.rewards.notify supply amount)
  | .distributePending supply => books.keep (books.rewards.distributePending supply)
  | .update account balance => books.keep (books.rewards.update account balance)
  | .settle account balance =>
    let (_, rewards, treasury) := books.rewards.settle books.treasury account balance
    { rewards, treasury }
  | .refuseNext => { books with treasury := books.treasury.refuseNext }

/-- Carries out a list of requests. -/
def run (books : Books) (requests : List Request) : Books :=
  requests.foldl step books

/-- The distribution that a request makes, if any. -/
def distribution? (books : Books) : Request → Option Distribution
  | .notify supply amount =>
    books.rewards.distributionOf supply (books.rewards.notify supply amount)
  | .distributePending supply =>
    books.rewards.distributionOf supply (books.rewards.distributePending supply)
  | _ => none

/-- A distribution is made over the supply of the moment. -/
theorem supply_of_distribution {books : Books} {stakes : Stakes} {request : Request}
    {distribution : Distribution} (hmade : request.MadeAt stakes)
    (hdistribution : books.distribution? request = some distribution) :
    distribution.supply = stakes.supply := by
  cases request with
  | notify | distributePending => exact (supply_distributionOf hdistribution).trans hmade
  | update | settle | refuseNext => cases hdistribution

/-- The account that a request brings up to date successfully, if any. -/
def updated? (books : Books) (request : Request) : Option Account :=
  request.stake?.bind fun (account, balance) =>
    match books.rewards.update account balance with
    | .ok _ => some account
    | .error _ => none

/-- All distributions of a list of requests, oldest first. -/
def distributions (books : Books) : List Request → List Distribution
  | [] => []
  | request :: requests =>
    (books.distribution? request).toList ++ (books.step request).distributions requests

end Books

/-! ## What a request does -/

/-- What a request does to a stream and to the payments on record, which distribution it makes and
which account it brings up to date. -/
inductive Movement (rewards : Rewards) (payments : Payments) :
    Request → Option Distribution → Option Account → Rewards → Payments → Prop where
  | idle {request : Request} : Movement rewards payments request none none rewards payments
  | withheld {request : Request} {total notified : Amount}
      (hinflow : total + rewards.notified = rewards.pending + notified) :
      Movement rewards payments request none none { rewards with pending := total, notified }
        payments
  | distributed {request : Request} {supply total notified : Amount} (hsupply : 0 < supply)
      (hinflow : total + rewards.notified = rewards.pending + notified) :
      Movement rewards payments request (some (rewards.division supply total)) none
        { rewards.spread (rewards.division supply total) with notified } payments
  | updated {request : Request} {account : Account} {balance claimable : Amount}
      (hrequest : request.stake? = some (account, balance))
      (hearned : rewards.earned account balance = .ok claimable) :
      Movement rewards payments request none (some account) (rewards.record account claimable)
        payments
  | paid {request : Request} {account : Account} {balance claimable payout : Amount}
      (hrequest : request.stake? = some (account, balance))
      (hearned : rewards.earned account balance = .ok claimable) (hclaim : payout ≤ claimable)
      (hunpaid : payout ≤ rewards.unpaid) :
      Movement rewards payments request none (some account)
        { rewards.record account (claimable - payout) with paid := rewards.paid + payout }
        (payments ++ [(account, { asset := .liquidationRewards, amount := payout })])

variable {rewards next : Rewards} {payments nextPayments : Payments} {request : Request}
  {distribution? : Option Distribution} {updated? : Option Account} {supply total : Amount}
  {inflow : Inflow}

theorem received_paid {account other : Account} {payout : Amount} :
    Payments.received (payments ++ [(other, { asset := .liquidationRewards, amount := payout })])
        account .liquidationRewards =
      payments.received account .liquidationRewards + if other = account then payout else 0 :=
  payments.received_append [{ asset := .liquidationRewards, amount := payout }] other account
    .liquidationRewards

theorem distributionOf_distributed (distribution : Distribution) (notified : Amount)
    {total : Amount} (htotal : 0 < total) :
    rewards.distributionOf distribution.supply
        (.ok (.distributed total, { rewards.spread distribution with notified })) =
      some distribution := by
  obtain ⟨amount, rfl⟩ := Nat.exists_eq_succ_of_ne_zero htotal.ne'
  simp [distributionOf, spread]

theorem TakesIn.movement (htakes : rewards.TakesIn supply total inflow next) (htotal : 0 < total) :
    Movement rewards payments request (rewards.distributionOf supply (.ok (inflow, next))) none next
      payments := by
  cases htakes with
  | withheld _ hinflow => exact .withheld hinflow
  | distributed hsupply hinflow =>
      rename_i notified
      have hdistribution :=
        rewards.distributionOf_distributed (rewards.division supply total) notified htotal
      have hmovement : Movement rewards payments request (some (rewards.division supply total)) none
          { rewards.spread (rewards.division supply total) with notified } payments :=
        .distributed hsupply hinflow
      rwa [← hdistribution] at hmovement

namespace Books

variable {books : Books}

theorem movement_settle {account : Account} {balance : Amount} :
    Movement books.rewards books.treasury.payments (.settle account balance) none
      (books.updated? (.settle account balance))
      (books.rewards.settle books.treasury account balance).2.1
      (books.rewards.settle books.treasury account balance).2.2.payments := by
  cases hearned : books.rewards.earned account balance with
  | error fault =>
      have hupdated : books.updated? (.settle account balance) = none := by
        simp [updated?, Request.stake?, update, hearned, bind, Except.bind]
      rw [hupdated, settle_of_earned_error hearned]
      exact .idle
  | ok claimable =>
      have hupdated : books.updated? (.settle account balance) = some account := by
        simp [updated?, Request.stake?, update_eq_ok.mpr ⟨hearned, rfl⟩]
      rw [hupdated]
      rcases settle_of_earned_ok books.treasury hearned with
        ⟨hrewards, hpayments⟩ | ⟨payout, hclaim, hunpaid, hrewards, hpayments⟩ <;>
        rw [hrewards, hpayments]
      · exact .updated rfl hearned
      · exact .paid rfl hearned hclaim hunpaid

theorem movement_update {account : Account} {balance : Amount} :
    Movement books.rewards books.treasury.payments (.update account balance) none
      (books.updated? (.update account balance)) (books.step (.update account balance)).rewards
      (books.step (.update account balance)).treasury.payments := by
  unfold updated? step Request.stake?
  cases hupdate : books.rewards.update account balance with
  | error fault =>
      simp only [Option.bind_some, hupdate]
      exact .idle
  | ok answer =>
      obtain ⟨claimable, updated⟩ := answer
      obtain ⟨hearned, rfl⟩ := update_eq_ok.mp hupdate
      simp only [Option.bind_some, hupdate]
      exact .updated rfl hearned

/-- An operation that takes an inflow in, or has none to take in, moves the stream if it succeeds.
-/
theorem movement_keep {outcome : Except Fault (Inflow × Rewards)}
    (houtcome : ∀ inflow next, outcome = .ok (inflow, next) →
      inflow = .distributed 0 ∧ next = books.rewards ∨
        ∃ total, 0 < total ∧ books.rewards.TakesIn supply total inflow next) :
    Movement books.rewards books.treasury.payments request
      (books.rewards.distributionOf supply outcome) none (books.keep outcome).rewards
      (books.keep outcome).treasury.payments := by
  cases outcome with
  | error fault => exact .idle
  | ok answer =>
      obtain ⟨inflow, next⟩ := answer
      rcases houtcome inflow next rfl with ⟨rfl, rfl⟩ | ⟨total, htotal, htakes⟩
      · exact .idle
      · exact htakes.movement htotal

theorem step_movement (books : Books) (request : Request) :
    Movement books.rewards books.treasury.payments request (books.distribution? request)
      (books.updated? request) (books.step request).rewards
      (books.step request).treasury.payments := by
  cases request with
  | notify supply amount =>
      refine movement_keep fun inflow next hnotify => .inr ?_
      obtain ⟨hamount, htakes⟩ := notify_ok hnotify
      exact ⟨_, Nat.add_pos_right _ hamount, htakes⟩
  | distributePending supply =>
      refine movement_keep fun inflow next hpending => ?_
      rcases distributePending_ok hpending with ⟨_, hinflow, hnext⟩ | ⟨hpositive, htakes⟩
      · exact .inl ⟨hinflow, hnext⟩
      · exact .inr ⟨_, hpositive, htakes⟩
  | update account balance => exact movement_update
  | settle account balance => exact movement_settle
  | refuseNext => exact .idle

end Books

/-! ## Solvency -/

/-- The stream pays no more than was notified and is not held back, its payments are those on
record, and no account is ahead of the ratio. -/
structure Solvent (rewards : Rewards) (payments : Payments) : Prop where
  covered : rewards.paid + rewards.pending ≤ rewards.notified
  recorded : payments.total .liquidationRewards = rewards.paid
  behind : ∀ account, (rewards.checkpoint account).ratio ≤ rewards.ratio

theorem unpaid_eq (hcovered : rewards.paid + rewards.pending ≤ rewards.notified) :
    (rewards.unpaid : Int) = rewards.notified - rewards.pending - rewards.paid := by
  have hpending : rewards.pending ≤ rewards.notified := le_of_add_le_right hcovered
  have hpaid : rewards.paid ≤ rewards.notified - rewards.pending := Nat.le_sub_of_add_le hcovered
  rw [unpaid, Nat.cast_sub hpaid, Nat.cast_sub hpending]

/-- What came in covers what is newly to be distributed. -/
theorem covered_of_inflow {paid pending notified total notifiedNext : Nat}
    (hcovered : paid + pending ≤ notified) (hinflow : total + notified = pending + notifiedNext) :
    paid + total ≤ notifiedNext := by
  omega

theorem behind_record {account : Account} {claimable : Amount}
    (hbehind : ∀ other, (rewards.checkpoint other).ratio ≤ rewards.ratio) (other : Account) :
    ((rewards.record account claimable).checkpoint other).ratio ≤ rewards.ratio := by
  rw [checkpoint_record]
  split
  · exact le_rfl
  · exact hbehind other

theorem Movement.covered
    (hmovement : Movement rewards payments request distribution? updated? next nextPayments)
    (hcovered : rewards.paid + rewards.pending ≤ rewards.notified) :
    next.paid + next.pending ≤ next.notified := by
  cases hmovement with
  | idle | updated => exact hcovered
  | withheld hinflow => exact covered_of_inflow hcovered hinflow
  | distributed hsupply hinflow =>
      rename_i supply total notified
      have hpaid : rewards.paid ≤ notified :=
        le_of_add_le_left (covered_of_inflow hcovered hinflow)
      rwa [pending_spread, paid_spread, Nat.add_zero]
  | paid hrequest hearned hclaim hunpaid =>
      rename_i account balance claimable payout
      -- only the limit of the payment matters, for the claims may come to more than there is
      have hleft : (payout : Int) ≤ rewards.unpaid := Nat.cast_le.mpr hunpaid
      rw [unpaid_eq hcovered] at hleft
      show rewards.paid + payout + rewards.pending ≤ rewards.notified
      zify
      linarith

theorem Movement.recorded
    (hmovement : Movement rewards payments request distribution? updated? next nextPayments)
    (hrecorded : payments.total .liquidationRewards = rewards.paid) :
    nextPayments.total .liquidationRewards = next.paid := by
  cases hmovement with
  | paid =>
      rw [Payments.total_append, hrecorded]
      rfl
  | distributed => rwa [paid_spread]
  | _ => exact hrecorded

theorem Movement.behind
    (hmovement : Movement rewards payments request distribution? updated? next nextPayments)
    (hbehind : ∀ account, (rewards.checkpoint account).ratio ≤ rewards.ratio) (account : Account) :
    (next.checkpoint account).ratio ≤ next.ratio := by
  cases hmovement with
  | idle | withheld => exact hbehind account
  | distributed =>
      rw [checkpoint, ratio_spread, checkpoints_spread]
      exact (hbehind account).trans (Nat.le_add_right _ _)
  | updated | paid => exact behind_record hbehind account

theorem Movement.solvent
    (hmovement : Movement rewards payments request distribution? updated? next nextPayments)
    (hsolvent : rewards.Solvent payments) : next.Solvent nextPayments :=
  ⟨hmovement.covered hsolvent.covered, hmovement.recorded hsolvent.recorded,
    hmovement.behind hsolvent.behind⟩

theorem Movement.supply_pos {distribution : Distribution}
    (hmovement :
      Movement rewards payments request (some distribution) updated? next nextPayments) :
    0 < distribution.supply := by
  cases hmovement
  assumption

theorem Movement.ratio_of_none
    (hmovement : Movement rewards payments request none updated? next nextPayments) :
    next.ratio = rewards.ratio := by
  cases hmovement <;> rfl

theorem Movement.ratio_le
    (hmovement : Movement rewards payments request distribution? updated? next nextPayments) :
    rewards.ratio ≤ next.ratio := by
  cases hmovement with
  | distributed => exact Nat.le_add_right _ _
  | _ => exact le_rfl

namespace Books

variable {books : Books}

theorem solvent_run (hsolvent : books.rewards.Solvent books.treasury.payments)
    (requests : List Request) :
    (books.run requests).rewards.Solvent (books.run requests).treasury.payments := by
  induction requests generalizing books with
  | nil => exact hsolvent
  | cons request requests ih => exact ih ((books.step_movement request).solvent hsolvent)

theorem ratio_le_run (requests : List Request) :
    books.rewards.ratio ≤ (books.run requests).rewards.ratio := by
  induction requests generalizing books with
  | nil => exact le_rfl
  | cons request requests ih => exact (books.step_movement request).ratio_le.trans ih

end Books

/-- The stream and the treasury after a list of requests to an empty stream. -/
def after (requests : List Request) : Books :=
  Books.run {} requests

theorem solvent_empty : Solvent {} [] :=
  ⟨le_rfl, rfl, fun _ => le_rfl⟩

/-- The reward stream is solvent after any requests, at any balances and supplies and whichever
payments are refused, and its ratio never falls. -/
theorem solvent_after (requests : List Request) :
    (after requests).rewards.paid + (after requests).rewards.pending ≤
        (after requests).rewards.notified ∧
      ((after requests).rewards.unpaid : Int) =
        (after requests).rewards.notified - (after requests).rewards.pending -
          (after requests).rewards.paid ∧
      Payments.total (after requests).treasury.payments .liquidationRewards =
        (after requests).rewards.paid ∧
      (∀ account,
        ((after requests).rewards.checkpoint account).ratio ≤ (after requests).rewards.ratio) ∧
      ∀ later, (after requests).rewards.ratio ≤ (after (requests ++ later)).rewards.ratio := by
  have hsolvent : (after requests).rewards.Solvent (after requests).treasury.payments :=
    Books.solvent_run solvent_empty requests
  refine ⟨hsolvent.covered, unpaid_eq hsolvent.covered, hsolvent.recorded, hsolvent.behind, ?_⟩
  intro later
  have hlater : after (requests ++ later) = (after requests).run later := List.foldl_append
  rw [hlater]
  exact Books.ratio_le_run later

/-! ## Exactness of the divisions -/

/-- What these distributions account for, scaled: their growths over the supplies of the moment. -/
def spreadOver (distributions : List Distribution) : Nat :=
  (distributions.map fun distribution => distribution.supply * distribution.growth).sum

/-- What was notified is what these distributions account for, the remainder of the last one, and
what is held back. -/
structure Exact (rewards : Rewards) (distributions : List Distribution) : Prop where
  total : spreadOver distributions + rewards.dust + rewards.pending * rewardPrecision =
    rewards.notified * rewardPrecision
  dust_lt : ∀ distribution ∈ distributions, distribution.dust < distribution.supply
  ratio_le : rewards.ratio ≤ spreadOver distributions

theorem spreadOver_append (first second : List Distribution) :
    spreadOver (first ++ second) = spreadOver first + spreadOver second := by
  simp [spreadOver]

/-- What was notified and is newly distributed or held back, scaled, given what there was before. -/
theorem exact_of_inflow {past dust pending notified total notifiedNext : Nat}
    (htotal : past + dust + pending * rewardPrecision = notified * rewardPrecision)
    (hinflow : total + notified = pending + notifiedNext) :
    past + (total * rewardPrecision + dust) = notifiedNext * rewardPrecision := by
  have hscaled := congrArg (· * rewardPrecision) hinflow
  simp only [Nat.add_mul] at hscaled
  omega

/-- A distribution that divides without loss keeps the account exact. -/
theorem exact_spread {past : List Distribution} {distribution : Distribution} {notified : Amount}
    (hdivision : distribution.supply * distribution.growth + distribution.dust =
      total * rewardPrecision + rewards.dust)
    (hremainder : distribution.dust < distribution.supply)
    (hinflow : total + rewards.notified = rewards.pending + notified)
    (hexact : rewards.Exact past) :
    Exact { rewards.spread distribution with notified } (past ++ [distribution]) := by
  have hspread : spreadOver (past ++ [distribution]) =
      spreadOver past + distribution.supply * distribution.growth :=
    spreadOver_append past [distribution]
  refine ⟨?_, ?_, ?_⟩
  · calc spreadOver (past ++ [distribution]) + distribution.dust + 0 * rewardPrecision
        = spreadOver past + (total * rewardPrecision + rewards.dust) := by
          rw [hspread, Nat.zero_mul, Nat.add_zero, Nat.add_assoc, hdivision]
      _ = notified * rewardPrecision := exact_of_inflow hexact.total hinflow
  · intro other hother
    rcases List.mem_append.mp hother with hpast | hlast
    · exact hexact.dust_lt other hpast
    · rw [List.mem_singleton.mp hlast]
      exact hremainder
  · have hgrowth : distribution.growth ≤ distribution.supply * distribution.growth :=
      Nat.le_mul_of_pos_left _ (Nat.zero_lt_of_lt hremainder)
    -- the supply is positive, so the ratio grows by no more than what is accounted for
    rw [hspread]
    exact Nat.add_le_add hexact.ratio_le hgrowth

theorem Movement.exact {past : List Distribution}
    (hmovement : Movement rewards payments request distribution? updated? next nextPayments)
    (hexact : rewards.Exact past) : next.Exact (past ++ distribution?.toList) := by
  cases hmovement with
  | idle | updated | paid =>
      rw [Option.toList_none, List.append_nil]
      exact ⟨hexact.total, hexact.dust_lt, hexact.ratio_le⟩
  | withheld hinflow =>
      have htotal := exact_of_inflow hexact.total hinflow
      rw [Option.toList_none, List.append_nil]
      refine ⟨?_, hexact.dust_lt, hexact.ratio_le⟩
      rwa [Nat.add_assoc, Nat.add_comm rewards.dust]
  | distributed hsupply hinflow =>
      exact exact_spread rewards.division_exact (rewards.dust_division_lt hsupply) hinflow hexact

theorem Books.exact_run {books : Books} {past : List Distribution}
    (hexact : books.rewards.Exact past) (requests : List Request) :
    (books.run requests).rewards.Exact (past ++ books.distributions requests) := by
  induction requests generalizing books past with
  | nil =>
      rw [distributions, List.append_nil]
      exact hexact
  | cons request requests ih =>
      rw [distributions, ← List.append_assoc]
      exact ih ((books.step_movement request).exact hexact)

theorem exact_empty : Exact {} [] :=
  ⟨rfl, nofun, le_rfl⟩

/-- All that was notified and is not held back is accounted for by the distributions, up to the
remainder of the last one, which is below the supply of its division; nothing is lost or created.
The ratio is bounded by what was notified. -/
theorem divisions_exact_after (requests : List Request) :
    (after requests).rewards.pending ≤ (after requests).rewards.notified ∧
      ((Books.distributions {} requests).map fun distribution =>
          distribution.supply * distribution.growth).sum + (after requests).rewards.dust =
        ((after requests).rewards.notified - (after requests).rewards.pending) * rewardPrecision ∧
      (∀ distribution ∈ Books.distributions {} requests,
        distribution.dust < distribution.supply) ∧
      (after requests).rewards.ratio ≤ (after requests).rewards.notified * rewardPrecision := by
  have hsolvent : (after requests).rewards.Solvent (after requests).treasury.payments :=
    Books.solvent_run solvent_empty requests
  have hexact : (after requests).rewards.Exact ([] ++ Books.distributions {} requests) :=
    Books.exact_run exact_empty requests
  obtain ⟨htotal, hdust, hratio⟩ := hexact
  rw [List.nil_append] at htotal hdust hratio
  refine ⟨le_of_add_le_right hsolvent.covered, ?_, hdust, ?_⟩
  · rw [Nat.sub_mul, ← htotal, Nat.add_sub_cancel]
    rfl
  · calc (after requests).rewards.ratio
        ≤ spreadOver (Books.distributions {} requests) := hratio
      _ ≤ (after requests).rewards.notified * rewardPrecision := by
          rw [← htotal, Nat.add_assoc]
          exact Nat.le_add_right _ _

end FeeDistribution.Rewards
