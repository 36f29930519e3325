import FeeDistribution.Proofs.Queries

/-!
# All that a claim changes

A claim that succeeds takes from every closed period above the watermark of its account exactly what
the account is owed there, raises that watermark, pays the account and records an event.  Everything
else stays as it is, and so it does when a delegate claims (`System.Claimed`).

Another account can feel the claim in one way only: what it is owed is limited by what is left.
Each of its entitlements is cut down to that and is otherwise what it was
(`Ledger.entitlements_commitClaim`), so that it loses something only where what it is due exceeds
what the claim has left.

## Strategy

The places that a claim writes are told apart by `Ledger.ClaimableAt`, a property of the ledger
before it and not of the plan.  For the other accounts nothing needs to be known of what was taken,
but that each period was claimed from: the ids are the same, hence the same periods are claimable
(`Ledger.claimable_of_ids`), and an entitlement depends on what was claimed through the cut alone
(`Ledger.entitlement_claim`).
-/

namespace FeeDistribution

/-! ## Cutting an entitlement down -/

/-- An entitlement as far as a period covers it. -/
def Entitlement.cut (owed : Entitlement) (period : Period) : Entitlement :=
  { owed with
    fees := min owed.fees period.fees.unclaimed
    rewards := min owed.rewards period.rewards.unclaimed }

theorem Entitlement.of_cut {owed : Entitlement} {period : Period} (revenue : Revenue) :
    (owed.cut period).of revenue = min (owed.of revenue) (period.pot revenue).unclaimed := by
  cases revenue <;> rfl

/-- What was claimed from a pot matters to a share of it by what is left. -/
theorem Pot.part_claim {pot : Pot} {share amount : Amount} :
    (pot.claim amount).part share = (pot.part share).map (min · (pot.claim amount).unclaimed) := by
  have hless : (pot.claim amount).unclaimed ≤ pot.unclaimed :=
    Nat.sub_le_sub_left (Nat.le_add_right _ _) _
  show Decimal.multiply share pot.total >>= _ =
    Except.map _ (Decimal.multiply share pot.total >>= _)
  cases Decimal.multiply share pot.total with
  | error fault => rfl
  | ok due =>
      show Except.ok (min due (pot.claim amount).unclaimed) =
        .ok (min (min due pot.unclaimed) (pot.claim amount).unclaimed)
      rw [Nat.min_assoc, Nat.min_eq_right hless]

namespace Ledger

variable {ledger next : Ledger} {account other : Account} {shareOn : PeriodId → Amount}
  {plan : ClaimPlan} {previous : PeriodId} {index : Nat}

theorem entitlement_claim {slot : Nat} {period : Period} {share fees rewards : Amount} :
    entitlement slot (period.claim fees rewards) share =
      (entitlement slot period share).map (·.cut (period.claim fees rewards)) := by
  show ((period.fees.claim fees).part _ >>= fun fees =>
    (period.rewards.claim rewards).part _ >>= fun rewards => _) = _
  rw [Pot.part_claim, Pot.part_claim, entitlement]
  cases period.fees.part (min share unit) with
  | error fault => rfl
  | ok due => cases period.rewards.part (min share unit) <;> rfl

/-! ## What a claim takes -/

section Commit

variable (wf : ledger.window.WellFormed) (hplan : ledger.planClaim account shareOn = .ok plan)
  (hcommit : ledger.commitClaim plan = .ok (previous, next))
include wf hplan hcommit

/-- From a claimable period a claim takes what is owed there. -/
theorem recent_of_claimableAt (hclaimable : ledger.ClaimableAt account index) :
    ∃ owed, entitlement index (ledger.window.recent index)
        (shareOn (ledger.window.recent index).id) = .ok owed ∧
      next.window.recent index = (ledger.window.recent index).claim owed.fees owed.rewards := by
  obtain ⟨owed, howed, hsum⟩ := exists_sumOf_planClaim hplan hclaimable
  refine ⟨owed, howed, ?_⟩
  rw [recent_takeOut wf.toAligned hcommit, hsum, hsum]
  rfl

/-- From any other it takes nothing. -/
theorem recent_of_not_claimableAt (hkept : ¬ ledger.ClaimableAt account index) :
    next.window.recent index = ledger.window.recent index := by
  rw [recent_takeOut wf.toAligned hcommit, sumOf_planClaim_eq_zero hplan hkept,
    sumOf_planClaim_eq_zero hplan hkept, Period.claim_zero]

/-- The entitlements of another account are cut down to what is left. -/
theorem entitlements_commitClaim (hother : other ≠ account) (shares : PeriodId → Amount) :
    next.entitlements other shares =
      (ledger.entitlements other shares).map
        (List.map fun owed => owed.cut (next.window.recent owed.slot)) := by
  have hids := id_recent_commitClaim wf.toAligned hcommit
  have hwatermark : next.watermark other = ledger.watermark other := by
    rw [watermark_commitClaim wf hplan hcommit, if_neg hother.symm]
  rw [entitlements, entitlements,
    claimable_of_ids (length_commitClaim hcommit) (fun index _ => hids index) hwatermark,
    List.mapM_map, ← Fallible.mapM_map_result]
  refine Fallible.mapM_congr fun row hrow => ?_
  obtain ⟨_, _, hread, _⟩ := mem_claimable hrow
  obtain ⟨fees, rewards, hclaimed⟩ :
      ∃ fees rewards, next.window.recent row.1 = row.2.claim fees rewards :=
    ⟨_, _, hread ▸ recent_takeOut wf.toAligned hcommit row.1⟩
  have hcut : entitlement row.1 (next.window.recent row.1)
      (shares (next.window.recent row.1).id) =
        (entitlement row.1 row.2 (shares row.2.id)).map (·.cut (next.window.recent row.1)) := by
    rw [hclaimed, Period.id_claim, entitlement_claim]
  refine hcut.trans ?_
  show Except.map _ (entitlement row.1 row.2 (shares row.2.id)) =
    Except.map _ (entitlement row.1 row.2 (shares row.2.id))
  cases howed : entitlement row.1 row.2 (shares row.2.id) with
  | error fault => rfl
  | ok owed =>
      -- the entitlement stands in the slot of its row
      show Except.ok (owed.cut (next.window.recent row.1)) =
        .ok (owed.cut (next.window.recent owed.slot))
      rw [(entitlement_ok howed).1]

end Commit

/-- Only where what is due exceeds what is left does another account lose anything. -/
theorem lt_due_of_cut (wf : ledger.window.WellFormed)
    (hcommit : ledger.commitClaim plan = .ok (previous, next)) {shares : PeriodId → Amount}
    {entitlements : List Entitlement}
    (hentitlements : ledger.entitlements other shares = .ok entitlements) {owed : Entitlement}
    (howed : owed ∈ entitlements) {revenue : Revenue}
    (hless : (owed.cut (next.window.recent owed.slot)).of revenue < owed.of revenue) :
    ((next.window.recent owed.slot).pot revenue).unclaimed <
      ((next.window.recent owed.slot).pot revenue).due (min (shares owed.id) unit) := by
  obtain ⟨row, hrow, hentitlement⟩ := (Fallible.mem_of_mapM hentitlements).1 owed howed
  obtain ⟨hslot, hid⟩ := entitlement_ok hentitlement
  have hread := (mem_claimable hrow).2.2.1
  -- what is due has not changed, and no more than that was owed before
  have hdue : owed.of revenue ≤
      ((next.window.recent owed.slot).pot revenue).due (min (shares owed.id) unit) := by
    rw [of_entitlement hentitlement, recent_takeOut wf.toAligned hcommit, hslot, hread,
      Period.pot_claim, Pot.due_claim, hid]
    exact Nat.min_le_left _ _
  rw [Entitlement.of_cut] at hless
  exact ((min_lt_iff.mp hless).resolve_left (Nat.lt_irrefl _)).trans_le hdue

end Ledger

namespace System

variable {system next : System} {account : Account} {call : Call} {receipt : Receipt}

/-- How a system differs from one before it in which a claim succeeded. -/
structure Claimed (system : System) (receipt : Receipt) (next : System) : Prop where
  /-- Out of each closed period above the watermark is taken what is owed there. -/
  taken : ∀ index, system.pool.ledger.ClaimableAt receipt.account index →
    ∃ owed, Ledger.entitlement index (system.pool.ledger.window.recent index)
        (system.env.stakes.shareOn receipt.account
          (system.pool.ledger.window.recent index).id) = .ok owed ∧
      next.pool.ledger.window.recent index =
        (system.pool.ledger.window.recent index).claim owed.fees owed.rewards
  /-- Every other period is left alone. -/
  kept : ∀ index, ¬ system.pool.ledger.ClaimableAt receipt.account index →
    next.pool.ledger.window.recent index = system.pool.ledger.window.recent index
  /-- The open period is left alone. -/
  current_eq : next.pool.ledger.window.current = system.pool.ledger.window.current
  /-- No period changes its id, its start or what it distributes. -/
  period_eq : ∀ index,
    (next.pool.ledger.window.recent index).id = (system.pool.ledger.window.recent index).id ∧
      (next.pool.ledger.window.recent index).start =
        (system.pool.ledger.window.recent index).start ∧
      ∀ revenue, ((next.pool.ledger.window.recent index).pot revenue).total =
        ((system.pool.ledger.window.recent index).pot revenue).total
  /-- No period is opened, and none is evicted. -/
  head_eq : next.pool.ledger.window.head = system.pool.ledger.window.head
  length_eq : next.pool.ledger.window.length = system.pool.ledger.window.length
  /-- The receipt names the newest closed period. -/
  through_eq : receipt.through = (system.pool.ledger.window.recent 1).id
  /-- The watermark of the account is raised to that period, and no other watermark changes. -/
  watermark_eq : ∀ other, next.pool.ledger.watermark other =
    if other = receipt.account then receipt.through else system.pool.ledger.watermark other
  /-- The settings, the reward stream and the approvals stay as they are. -/
  pool_eq : next.pool =
    { system.pool with
      ledger := next.pool.ledger
      journal := system.pool.journal.emit
        (.feesClaimed receipt.account receipt.fees receipt.rewards) }
  /-- The shares and all else around the pool stay as they are, but the account is paid. -/
  env_eq : next.env =
    { system.env with
      treasury :=
        { system.env.treasury with
          payments := system.env.treasury.payments ++
            (claimBatch receipt.fees receipt.rewards).map fun leg => (receipt.account, leg) } }
  /-- No other account is paid, a delegate who claims included. -/
  paidTo_eq : ∀ other ≠ receipt.account, ∀ asset,
    next.env.treasury.paidTo other asset = system.env.treasury.paidTo other asset
  /-- What another account is owed is cut down to what is left. -/
  owed_eq : ∀ other ≠ receipt.account, ∀ shareOn,
    next.pool.ledger.entitlements other shareOn =
      (system.pool.ledger.entitlements other shareOn).map
        (List.map fun owed => owed.cut (next.pool.ledger.window.recent owed.slot))
  /-- The cut never adds anything, and it takes something away only if less is left than is due. -/
  owed_le : ∀ other ≠ receipt.account, ∀ shareOn entitlements,
    system.pool.ledger.entitlements other shareOn = .ok entitlements →
    ∀ owed ∈ entitlements, ∀ revenue,
      let left := next.pool.ledger.window.recent owed.slot
      (owed.cut left).of revenue ≤ owed.of revenue ∧
        ((owed.cut left).of revenue < owed.of revenue →
          (left.pot revenue).unclaimed < (left.pot revenue).due (min (shareOn owed.id) unit))

theorem claimed_afterPaid {plan : ClaimPlan} {previous : PeriodId} {ledger : Ledger}
    (wf : system.pool.ledger.window.WellFormed)
    (hplan : system.pool.ledger.planClaim account (system.env.stakes.shareOn account) = .ok plan)
    (hcommit : system.pool.ledger.commitClaim plan = .ok (previous, ledger)) :
    system.Claimed plan.receipt (system.afterPaid account plan ledger) := by
  obtain ⟨_, _, _, _, haccount, hthrough⟩ := Ledger.planClaim_ok hplan
  obtain rfl : plan.account = account := haccount
  have hopen : ¬ system.pool.ledger.ClaimableAt plan.account 0 := fun hclaimable =>
    absurd hclaimable.1 (by decide)
  exact {
    taken := fun index => Ledger.recent_of_claimableAt wf hplan hcommit
    kept := fun index => Ledger.recent_of_not_claimableAt wf hplan hcommit
    current_eq := Ledger.recent_of_not_claimableAt wf hplan hcommit hopen
    period_eq := fun index => by
      show (ledger.window.recent index).id = _ ∧ (ledger.window.recent index).start = _ ∧
        ∀ revenue, ((ledger.window.recent index).pot revenue).total = _
      rw [Ledger.recent_takeOut wf.toAligned hcommit]
      exact ⟨rfl, rfl, fun revenue => by rw [Period.pot_claim]; rfl⟩
    head_eq := Ledger.head_commitClaim hcommit
    length_eq := Ledger.length_commitClaim hcommit
    through_eq := hthrough
    watermark_eq := fun other =>
      (Ledger.watermark_commitClaim wf hplan hcommit other).trans (if_congr eq_comm rfl rfl)
    pool_eq := rfl
    env_eq := rfl
    paidTo_eq := fun other hother asset => by
      have hnone : ¬ plan.account = other := Ne.symm hother
      rw [Treasury.paidTo_eq, Treasury.paidTo_eq, afterPaid, Payments.received_append,
        if_neg hnone, Nat.add_zero]
    owed_eq := fun other => Ledger.entitlements_commitClaim wf hplan hcommit
    owed_le := fun other hother shareOn entitlements hentitlements owed howed revenue =>
      ⟨by rw [Entitlement.of_cut]; exact Nat.min_le_left _ _,
        Ledger.lt_due_of_cut wf hcommit hentitlements howed⟩ }

/-- A claim that succeeds, made by an account itself or on its behalf, changes what `Claimed` lists
and nothing else. -/
theorem Reachable.claim_changes_only (hreach : system.Reachable)
    (hclaim : (system.step call).1 = .ok (.claimed receipt)) :
    call.claimant? = some receipt.account ∧ system.Claimed receipt (system.step call).2 := by
  have hcall := (hreach.claimed_spec hclaim).1
  obtain ⟨plan, previous, ledger, hplan, hcommit, hreply, hnext⟩ := step_claimed hcall hclaim
  cases hreply
  rw [hnext]
  exact ⟨hcall, claimed_afterPaid hreach.wellFormed hplan hcommit⟩

/-- All fees of period one are owed to the null account, and half of them to another one, which is
also its delegate. -/
def owedTwice : System :=
  (twoSlots.run [.fee 10, .around (.share .zero 1 unit), .around (.share other 1 (unit / 2)),
    .closeRelayed .zero 7 0, .around (.rate Defaults.collateralCurrency 0),
    .approve .zero other]).2

/-- The delegate claims.  All is paid to the null account, and of what the delegate was owed itself
nothing is left. -/
theorem claim_changes_only_owedTwice :
    owedTwice.Reachable ∧
      (owedTwice.step (.claimOnBehalf .zero other 0)).1 = .ok (.claimed
        { account := .zero, fees := 10, rewards := 0, through := 1, periods := [1] }) ∧
      owedTwice.pool.ledger.entitlements other (owedTwice.env.stakes.shareOn other) =
        .ok [{ slot := 1, id := 1, fees := 5 }] ∧
      (owedTwice.step (.claimOnBehalf .zero other 0)).2.pool.ledger.entitlements other
        (owedTwice.env.stakes.shareOn other) = .ok [{ slot := 1, id := 1, fees := 0 }] ∧
      (owedTwice.step (.claimOnBehalf .zero other 0)).2.env.treasury.paidTo other .fees = 0 := by
  have hreach : owedTwice.Reachable := reachable_twoSlots.run _
  have hclaim : (owedTwice.step (.claimOnBehalf .zero other 0)).1 = .ok (.claimed
      { account := .zero, fees := 10, rewards := 0, through := 1, periods := [1] }) := by
    decide
  have hother : other ≠ .zero := by decide
  have howed : owedTwice.pool.ledger.entitlements other (owedTwice.env.stakes.shareOn other) =
      .ok [{ slot := 1, id := 1, fees := 5 }] := by
    decide
  obtain ⟨_, hchanges⟩ := hreach.claim_changes_only hclaim
  refine ⟨hreach, hclaim, howed, ?_, ?_⟩
  · rw [hchanges.owed_eq other hother, howed]
    decide
  · rw [hchanges.paidTo_eq other hother]
    decide

end System

end FeeDistribution
