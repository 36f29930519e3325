import FeeDistribution.Proofs.Gates
import FeeDistribution.Proofs.ValidSettings
import FeeDistribution.Proofs.Widths

/-!
# Unchecked arithmetic stays in range

Sums that are kept are checked.  Everything else is computed unchecked, each step for a reason of
its own: the shape of the window, the check of a claim plan right before it is carried out, products
of two amounts in twice their width, a remainder below its divisor, bounds of the settings that every
setter keeps.  `System.Unwrapped` lists what is computed in this way, and `System.unwrapped_after`
shows that all of it is in range, at every moment of a run and whatever is asked.

One counter grows without a check: the head of the ring, which starts at the number of slots less one
and counts the closes (`System.head_after`).  The closes are fewer than the id of the open period
says, so in a window of two slots the head stays a word as long as the ids do.  In a longer window it
is ahead of the ids by the slots that were there from the beginning, and may be full before they are
(`System.head_full_before_ids`).
-/

namespace FeeDistribution

open Quantity

/-! ## Claims -/

namespace Ledger

variable {ledger : Ledger} {account : Account} {shareOn : PeriodId → Amount}

/-- Every entitlement stands for a slot of the window. -/
theorem slot_lt_of_entitlements {entitlements : List Entitlement}
    (hentitlements : ledger.entitlements account shareOn = .ok entitlements) {owed : Entitlement}
    (howed : owed ∈ entitlements) : owed.slot < ledger.window.length := by
  obtain ⟨row, hrow, hentitlement⟩ := (Fallible.mem_of_mapM hentitlements).1 owed howed
  obtain ⟨_, hfilled, hread, _⟩ := mem_claimable hrow
  rw [(entitlement_ok hentitlement).1]
  exact Window.lt_length_of_filled (hread ▸ hfilled)

/-- When the turn of an entitlement comes, its period is as the plan found it, so what is claimed
from the period in all stays below its total. -/
theorem claimed_add_le_total {plan : ClaimPlan} {before after : List Entitlement}
    {owed : Entitlement} (wf : ledger.window.WellFormed)
    (hplan : ledger.planClaim account shareOn = .ok plan)
    (hsplit : plan.entitlements = before ++ owed :: after) (revenue : Revenue) :
    (((before.foldl takeOut ledger.window).recent owed.slot).pot revenue).claimed +
        owed.of revenue ≤
      ((ledger.window.recent owed.slot).pot revenue).total := by
  obtain ⟨_, hentitlements, _⟩ := planClaim_ok hplan
  obtain ⟨next, hcommit⟩ := commitClaim_of_planClaim hplan
  have hchecks := (commitClaim_ok hcommit).1
  rw [hsplit] at hchecks
  have hslots : ∀ other ∈ before, other.slot < ledger.window.length := fun other hother =>
    (checkEntitlement_ok (hchecks other (List.mem_append_left _ hother))).1
  have hothers : ∀ other ∈ before, other.slot ≠ owed.slot := by
    have hnodup := nodup_slots hentitlements
    rw [hsplit, List.map_append, List.map_cons] at hnodup
    intro other hother
    exact (List.nodup_append.mp hnodup).2.2 _ (List.mem_map_of_mem hother) _ List.mem_cons_self
  have huntouched : (before.foldl takeOut ledger.window).recent owed.slot =
      (ledger.window.recent owed.slot).claim 0 0 := by
    have hread := Window.recent_takeOut wf.toAligned hslots owed.slot
    rw [Period.sumOf_filter_eq_zero hothers, Period.sumOf_filter_eq_zero hothers] at hread
    exact hread
  have hfresh := checkEntitlement_ok (hchecks owed (List.mem_append_right _ List.mem_cons_self))
  have hleft : owed.of revenue ≤ ((ledger.window.recent owed.slot).pot revenue).unclaimed := by
    cases revenue
    · exact hfresh.2.2.1
    · exact hfresh.2.2.2
  rw [huntouched, Period.claim_zero]
  exact (wf.covered owed.slot revenue).claim hleft

end Ledger

/-! ## Closes of empty periods -/

namespace Ledger

variable {ledger : Ledger}

theorem totalsLe_zero_receivingRaised (htotals : ledger.window.TotalsLe 0) :
    ledger.receivingRaised.TotalsLe 0 := by
  intro revenue
  have hreceiving := htotals (ledger.window.length - 2) revenue
  have holdest := (Nat.sub_le _ (ledger.oldest.pot revenue).claimed).trans
    (htotals (ledger.window.length - 1) revenue)
  have hsum := Nat.add_le_add hreceiving holdest
  cases revenue <;> exact hsum

/-- A close that has nothing to roll over can be planned, and has nothing to burn. -/
theorem exists_planClose {new : PeriodId} (htotals : ledger.window.TotalsLe 0)
    (hnew : ledger.window.current.id < new) :
    ∃ plan, ledger.planClose new = .ok plan ∧ plan.burned = 0 := by
  have hfits : ∀ revenue, (ledger.receivingRaised.pot revenue).total ≤ maxAmount :=
    fun revenue => (totalsLe_zero_receivingRaised htotals revenue).trans (Nat.zero_le _)
  have hrollover : ledger.RolloverFits := ⟨hfits .fees, hfits .rewards⟩
  exact ⟨ledger.closePlan new, planClose_eq_ok.mpr ⟨hnew, hrollover, rfl⟩,
    Nat.eq_zero_of_le_zero (htotals 0 .fees)⟩

end Ledger

/-! ## Payouts -/

namespace Rewards

variable {rewards : Rewards} {account : Account} {balance claimable : Amount}

/-- Without stake there is no gain to compute. -/
theorem earned_zero_cases (rewards : Rewards) (account : Account) :
    rewards.earned account 0 = .error .overflow ∨
      rewards.earned account 0 = .ok (rewards.checkpoint account).claimable := by
  unfold earned
  dsimp only
  split
  · exact .inl rfl
  · exact .inr (if_pos (.inl rfl))

/-- A settlement divides what is claimable into what is paid and what is kept. -/
theorem settle_exact (treasury : Treasury)
    (hearned : rewards.earned account balance = .ok claimable) :
    ((rewards.settle treasury account balance).2.1.checkpoint account).claimable +
        (rewards.settle treasury account balance).2.1.paid =
      claimable + rewards.paid := by
  have hkept : ∀ kept : Amount, ((rewards.record account kept).checkpoint account).claimable =
      kept := by
    intro kept
    rw [checkpoint_record, if_pos rfl]
  rcases settle_of_earned_ok treasury hearned with ⟨hnext, _⟩ | ⟨payout, hle, _, hnext, _⟩ <;>
    rw [hnext]
  · rw [hkept]
    rfl
  · show ((rewards.record account (claimable - payout)).checkpoint account).claimable +
      (rewards.paid + payout) = _
    have hpaid : claimable - payout + payout = claimable := Nat.sub_add_cancel hle
    rw [hkept, Nat.add_comm rewards.paid, ← Nat.add_assoc, hpaid]

end Rewards

/-! ## The head of the ring -/

theorem Window.head_create {window : Window} {length : Nat} {id : PeriodId} {start : Timestamp}
    (hcreate : create length id start = .ok window) : window.head + 1 = window.length := by
  unfold create at hcreate
  split at hcreate
  · cases hcreate
  · cases hcreate
    rename_i hlength
    rw [head_set, length_set]
    show length - 1 + 1 = (Array.replicate length Period.empty).size
    rw [Array.size_replicate]
    omega

/-- The head moves on with a close, and with nothing else. -/
theorem Posting.head_eq {ledger next : Ledger} {payments nextPayments : Payments} {call : Call}
    {result : Except Fault Reply}
    (hposting : Posting ledger payments call result next nextPayments)
    (hopen : ∀ outcome, result ≠ .ok (.closed outcome)) :
    next.window.head = ledger.window.head := by
  cases hposting with
  | refused | aside | settled | outside | finishImport => rfl
  | fee hrecord =>
      rcases Ledger.recordFee_ok hrecord with ⟨_, _, rfl⟩ | rfl
      · rfl
      · exact Window.head_set
  | reward hrecord =>
      rcases Ledger.recordReward_ok hrecord with ⟨_, _, rfl⟩ | rfl
      · rfl
      · exact Window.head_set
  | closed => exact absurd rfl (hopen _)
  | claimed _ _ hcommit => exact Ledger.head_commitClaim hcommit
  | unpaid _ _ hcommit => rw [Ledger.revertClaim_of_commitClaim hcommit]
  | importPeriod himport =>
      obtain ⟨_, _, _, _, _, rfl⟩ := Ledger.importPeriod_ok himport
      exact Window.head_set
  | importWatermark himport =>
      obtain ⟨_, rfl⟩ := Ledger.importWatermark_ok himport
      rfl

namespace System

variable {start system : System} {call : Call}

theorem head_step (system : System) (call : Call) :
    (system.step call).2.pool.ledger.window.head =
      system.pool.ledger.window.head + (closedBy (system.step call).1).toList.length := by
  cases hclosed : closedBy (system.step call).1 with
  | some closed =>
      obtain ⟨outcome, hanswer, rfl⟩ := closedBy_eq_some.mp hclosed
      obtain ⟨_, _, _, _, _, hnext⟩ := step_closed hanswer
      rw [hnext]
      exact Window.head_push.trans (congrArg (· + 1) Window.head_set)
  | none =>
      refine (step_posting system call).head_eq fun outcome hanswer => ?_
      rw [closedBy_eq_some.mpr ⟨outcome, hanswer, rfl⟩] at hclosed
      cases hclosed

theorem head_run (system : System) (calls : List Call) :
    (system.run calls).2.pool.ledger.window.head =
      system.pool.ledger.window.head + ((system.run calls).1.filterMap closedBy).length := by
  induction calls generalizing system with
  | nil => rfl
  | cons call calls ih =>
      have hstep := system.head_step call
      have hrest := ih (system.step call).2
      cases hclosed : closedBy (system.step call).1 with
      | none =>
          rw [hclosed] at hstep
          simp only [System.run, List.filterMap_cons_none hclosed]
          rw [hrest, hstep]
          rfl
      | some closed =>
          rw [hclosed] at hstep
          simp only [System.run, List.filterMap_cons_some hclosed]
          rw [hrest, hstep]
          simp [Nat.add_assoc, Nat.add_comm]

/-- Once history is complete, each close raises the open id, which was not zero before. -/
theorem Reachable.closes_lt_current (hreach : system.Reachable) (calls : List Call) (count : Nat)
    (hcount : count < system.pool.ledger.window.current.id)
    (hopen : system.pool.ledger.importOpen = true → count = 0) :
    count + ((system.run calls).1.filterMap closedBy).length <
      (system.run calls).2.pool.ledger.window.current.id := by
  induction calls generalizing system count with
  | nil => exact hcount
  | cons call calls ih =>
      cases hclosed : closedBy (system.step call).1 with
      | some closed =>
          obtain ⟨outcome, hanswer, rfl⟩ := closedBy_eq_some.mp hclosed
          have hrises := hreach.current_lt_of_closed hanswer
          have himport := importOpen_of_closed hanswer
          have hrest := ih hreach.step (count + 1) (Nat.lt_of_le_of_lt hcount hrises)
            (by simp [himport])
          simp only [System.run, List.filterMap_cons_some hclosed, List.length_cons]
          rwa [Nat.add_assoc, Nat.add_comm 1] at hrest
      | none =>
          simp only [System.run, List.filterMap_cons_none hclosed]
          cases himport : system.pool.ledger.importOpen with
          | true =>
              -- nothing was closed yet, and a period is open
              obtain rfl := hopen himport
              exact ih hreach.step 0 (Nat.pos_of_ne_zero hreach.step.wellFormed.filled_current)
                fun _ => rfl
          | false =>
              have hnext := (step_posting system call).importOpen_eq himport
              exact ih hreach.step count (hcount.trans_le (hreach.current_le_step himport call))
                (by simp [hnext])

/-- The head of the ring counts the closes, of which there are fewer than the open id says. -/
theorem head_after {settings : Settings} {now : Timestamp}
    (hcreate : Pool.create settings now = .ok start.pool) (calls : List Call) :
    (start.run calls).2.pool.ledger.window.head + 1 =
        (start.run calls).2.pool.ledger.window.length +
          ((start.run calls).1.filterMap closedBy).length ∧
      ((start.run calls).1.filterMap closedBy).length <
        (start.run calls).2.pool.ledger.window.current.id := by
  have hreach : start.Reachable := .created hcreate
  obtain ⟨window, hwindow, hledger⟩ := Fallible.bind_eq_ok.mp (create_ok hcreate).2
  have hstart : start.pool.ledger.window.head + 1 = start.pool.ledger.window.length := by
    rw [← Fallible.pure_eq_ok.mp hledger]
    exact Window.head_create hwindow
  have hlength : (start.run calls).2.pool.ledger.window.length =
      start.pool.ledger.window.length := by
    rw [(hreach.run calls).length_eq, hreach.length_eq]
    exact congrArg Prod.fst (fixedSettings_run calls)
  constructor
  · rw [head_run, hlength, ← hstart]
    exact Nat.add_right_comm _ _ _
  · have hpositive := Nat.pos_of_ne_zero hreach.wellFormed.filled_current
    have hcloses := hreach.closes_lt_current calls 0 hpositive fun _ => rfl
    rwa [Nat.zero_add] at hcloses

/-! ## What is computed unchecked -/

/-- Everything that is computed without a check is in range, whatever is asked of the system. -/
structure Unwrapped (system : System) : Prop where
  /-- No index of the window reaches back beyond the head, and each has a slot of the ring. -/
  place : ∀ index < system.pool.ledger.window.length,
    index ≤ system.pool.ledger.window.head ∧
      system.pool.ledger.window.place index < system.pool.ledger.window.slots.size
  /-- There are two oldest slots, and a first row of a breakdown. -/
  two_le_length : 2 ≤ system.pool.ledger.window.length
  /-- The slot after the oldest has an index. -/
  length_le : system.pool.ledger.window.length ≤ Bounds.maxLength
  /-- The period after the open one has an id. -/
  nextId : system.pool.ledger.window.current.id + 1 ≤ maxWord
  /-- Every entitlement has its row in a breakdown. -/
  row : ∀ account shareOn entitlements,
    system.pool.ledger.entitlements account shareOn = .ok entitlements →
      ∀ owed ∈ entitlements, owed.slot < system.pool.ledger.window.length
  /-- Each entitlement of a plan fits what was claimed from its period when its turn comes. -/
  claimed : ∀ account shareOn plan before owed after,
    system.pool.ledger.planClaim account shareOn = .ok plan →
      plan.entitlements = before ++ owed :: after → ∀ revenue,
        (((before.foldl Ledger.takeOut system.pool.ledger.window).recent owed.slot).pot
          revenue).claimed + owed.of revenue ≤ maxAmount
  /-- A share of a total fits twice the width of an amount. -/
  part : ∀ index revenue share,
    min share unit * ((system.pool.ledger.window.recent index).pot revenue).total ≤ maxRatio
  /-- So does a balance that is divided by the sum of all, live or frozen; the sum is an amount. -/
  share : ∀ balances : Tally,
    balances = system.env.stakes.balances ∨
        (∃ id : PeriodId, system.env.stakes.snapshots[id]? = some balances) →
      balances.total ≤ maxAmount ∧ ∀ account, balances.get account * unit ≤ maxRatio
  /-- So does the raised target ratio. -/
  threshold : system.pool.settings.terms.issuanceRatio *
    (unit + system.pool.settings.terms.targetThreshold) ≤ maxRatio
  /-- So does an amount to be distributed with the last remainder; the next one is an amount. -/
  distribution : system.pool.rewards.pending ≤ maxAmount ∧ ∀ amount ≤ maxAmount,
    amount * rewardPrecision + system.pool.rewards.dust ≤ maxRatio ∧
      (system.env.stakes.supply ≠ 0 →
        (system.pool.rewards.division system.env.stakes.supply amount).dust ≤ maxAmount)
  /-- No gain is computed for a balance of zero. -/
  unstaked : ∀ account, system.pool.rewards.earned account 0 = .error .overflow ∨
    system.pool.rewards.earned account 0 = .ok (system.pool.rewards.checkpoint account).claimable
  /-- What a settlement pays is taken from what is claimable. -/
  payout : ∀ account balance claimable,
    system.pool.rewards.earned account balance = .ok claimable → ∀ treasury,
      ((system.pool.rewards.settle treasury account balance).2.1.checkpoint account).claimable +
          (system.pool.rewards.settle treasury account balance).2.1.paid =
        claimable + system.pool.rewards.paid
  /-- The duration does not become negative. -/
  duration : Timestamp.ofDuration system.pool.settings.duration = system.pool.settings.duration

theorem Narrow.unwrapped (hnarrow : system.Narrow)
    (hsupply : system.env.stakes.supply ≤ maxAmount)
    (hid : system.pool.ledger.window.current.id < maxWord) : system.Unwrapped where
  place := by
    intro index hindex
    have hhead := hnarrow.reachable.wellFormed.length_le_head
    exact ⟨by omega, Window.place_lt hindex⟩
  two_le_length := hnarrow.reachable.wellFormed.two_le_length
  length_le := by
    rw [hnarrow.reachable.length_eq]
    exact (Settings.validate_eq_ok.mp hnarrow.reachable.valid).1.2
  nextId := hid
  row _ _ _ hentitlements _ := Ledger.slot_lt_of_entitlements hentitlements
  claimed _ _ _ _ owed _ hplan hsplit revenue :=
    (Ledger.claimed_add_le_total hnarrow.reachable.wellFormed hplan hsplit revenue).trans
      (hnarrow.window owed.slot revenue)
  part := by
    intro index revenue share
    have hshare : min share unit ≤ maxAmount := (Nat.min_le_right share unit).trans (by decide)
    exact mul_le_maxRatio hshare (hnarrow.window index revenue)
  share := by
    intro balances hbalances
    have htotal : balances.total ≤ maxAmount := by
      rcases hbalances with rfl | ⟨id, hsnapshot⟩
      · exact hsupply
      · exact hnarrow.stakes id balances hsnapshot
    refine ⟨htotal, fun account => mul_le_maxRatio ?_ (by decide)⟩
    exact (Stakes.balance_le_supply { balances } account).trans htotal
  threshold := by
    obtain ⟨hratio, hthreshold⟩ := hnarrow.terms
    calc system.pool.settings.terms.issuanceRatio *
          (unit + system.pool.settings.terms.targetThreshold)
        ≤ maxWord * (unit + maxWord) :=
          Nat.mul_le_mul hratio (Nat.add_le_add_left hthreshold unit)
      _ ≤ maxRatio := by decide
  distribution := by
    refine ⟨hnarrow.rewards.pending_le, fun amount hamount => ⟨?_, fun hpositive => ?_⟩⟩
    · calc amount * rewardPrecision + system.pool.rewards.dust
          ≤ maxAmount * rewardPrecision + maxAmount :=
            Nat.add_le_add (Nat.mul_le_mul_right _ hamount) hnarrow.rewards.dust_le
        _ ≤ maxRatio := by decide
    · have hdust : (system.pool.rewards.division system.env.stakes.supply amount).dust <
          system.env.stakes.supply :=
        Rewards.dust_division_lt (Nat.pos_of_ne_zero hpositive)
      exact hdust.le.trans hsupply
  unstaked := system.pool.rewards.earned_zero_cases
  payout _ _ _ hearned treasury := Rewards.settle_exact treasury hearned
  duration := Timestamp.ofDuration_of_le hnarrow.reachable.duration_le

/-- Nothing that is computed unchecked leaves its range.  Let the terms of a new pool and imported
periods be read from their types, let balances that were frozen before sum to amounts, and let
along a run the live balances sum to an amount and ids stay below the last word.  Then everything
is in range where the run ends, and the head of the ring can move on as long as the slots and the
closes together number no more than a word. -/
theorem unwrapped_after {settings : Settings} {now : Timestamp}
    (hcreate : Pool.create settings now = .ok start.pool) (hterms : settings.terms.Narrow)
    (hstakes : start.env.stakes.Narrow) {calls : List Call}
    (himports : ∀ caller slot period, .importPeriod caller slot period ∈ calls → period.InRange)
    (hbounded : ∀ before, before <+: calls →
      (start.run before).2.env.stakes.supply ≤ maxAmount ∧
        (start.run before).2.pool.ledger.window.current.id < maxWord) :
    (start.run calls).2.Unwrapped ∧
      (start.run calls).2.pool.ledger.window.head + 1 =
        (start.run calls).2.pool.ledger.window.length +
          ((start.run calls).1.filterMap closedBy).length ∧
      ((start.run calls).1.filterMap closedBy).length <
        (start.run calls).2.pool.ledger.window.current.id := by
  have hnarrow : (start.run calls).2.Narrow :=
    (narrow_of_create hcreate hterms hstakes).run himports fun before hbefore =>
      (hbounded before hbefore).1
  obtain ⟨hsupply, hid⟩ := hbounded calls (List.prefix_refl calls)
  exact ⟨hnarrow.unwrapped hsupply hid, head_after hcreate calls⟩

/-- A pool that holds stake and is notified, closed, claimed from and settled. -/
def busyCalls : List Call :=
  [.mint .zero 1, .notify 3, .fee 5, .around (.share .zero 1 unit), .closeRelayed .zero 7 0,
    .around (.rate Defaults.collateralCurrency 0), .claim .zero 0, .settle .zero]

/-- After its one close the head of two slots is two. -/
theorem unwrapped_after_twoSlots :
    Pool.create twoSlots.pool.settings 0 = .ok twoSlots.pool ∧
      twoSlots.pool.settings.terms.Narrow ∧ twoSlots.env.stakes.Narrow ∧
      (∀ caller slot period, .importPeriod caller slot period ∈ busyCalls → period.InRange) ∧
      (∀ before, before <+: busyCalls →
        (twoSlots.run before).2.env.stakes.supply ≤ maxAmount ∧
          (twoSlots.run before).2.pool.ledger.window.current.id < maxWord) ∧
      (twoSlots.run busyCalls).2.Unwrapped ∧
      (twoSlots.run busyCalls).2.pool.ledger.window.head + 1 = 3 := by
  have hcreate : Pool.create twoSlots.pool.settings 0 = .ok twoSlots.pool := rfl
  have hterms : twoSlots.pool.settings.terms.Narrow := by
    constructor <;> decide
  have hstakes : twoSlots.env.stakes.Narrow := by
    intro id balances hsnapshot
    simp [twoSlots] at hsnapshot
  have himports : ∀ caller slot period,
      .importPeriod caller slot period ∈ busyCalls → period.InRange := by
    simp [busyCalls]
  have hinits : ∀ before ∈ busyCalls.inits,
      (twoSlots.run before).2.env.stakes.supply ≤ maxAmount ∧
        (twoSlots.run before).2.pool.ledger.window.current.id < maxWord := by
    decide
  have hbounded := fun before (hbefore : before <+: busyCalls) =>
    hinits before ((List.mem_inits _ _).mpr hbefore)
  obtain ⟨hunwrapped, _, _⟩ := unwrapped_after hcreate hterms hstakes himports hbounded
  exact ⟨hcreate, hterms, hstakes, himports, hbounded, hunwrapped, by decide⟩

/-! ## Closes without end -/

/-- Nothing stands in the way of a relayed close: the caller is the relayer, nothing is suspended,
and there is no stake and no revenue. -/
structure Unhindered (system : System) (caller : Account) : Prop where
  reachable : system.Reachable
  relayer : system.pool.settings.relayer = some caller
  suspensions : system.env.suspensions = {}
  supply : system.env.stakes.supply = 0
  totals : system.pool.ledger.window.TotalsLe 0

/-- Closes by relay, for each id in turn. -/
def closesInTurn (caller : Account) (first count : Nat) : List Call :=
  (List.range' first count).map fun id => .closeRelayed caller id 0

variable {caller : Account} {new : PeriodId}

/-- Such a close passes its gate, so it is carried out if it can be planned and burned. -/
theorem Unhindered.relayed_eq (hfree : system.Unhindered caller) (new : PeriodId)
    (time : Timestamp) :
    Closing.relayed {} system.pool.settings.terms none time system.pool.settings.relayer caller new
        time system.books =
      Closing.apply system.books new time := by
  have hopen : system.books.env.suspensions = {} := hfree.suspensions
  rw [Closing.relayed, if_neg (not_not.mpr hfree.relayer), Gate.run_relayedClose, hopen]
  rfl

theorem Unhindered.step (hfree : system.Unhindered caller)
    (hnew : system.pool.ledger.window.current.id < new) (time : Timestamp) :
    (system.step (.closeRelayed caller new time)).2.Unhindered caller ∧
      (system.step (.closeRelayed caller new time)).2.pool.ledger.window.current.id = new ∧
      closedBy (system.step (.closeRelayed caller new time)).1 =
        some system.pool.ledger.window.current.id := by
  obtain ⟨plan, hplan, hnone⟩ := Ledger.exists_planClose hfree.totals hnew
  have hburned : (Closing.burnPlanned system.env plan).1 = .ok () := by
    rw [Closing.burnPlanned, hnone]
    rfl
  obtain ⟨outcome, hcommit, happly⟩ :=
    Closing.apply_of_burnPlanned time (show system.books.ledger.planClose new = .ok plan from hplan)
      hburned
  have hstep : system.step (.closeRelayed caller new time) =
      (.ok (.closed outcome), system.afterClosed plan time) := by
    show reply .closed (system.afterClose _) = _
    rw [hfree.relayed_eq, happly]
    obtain rfl := (Ledger.commitClose_ok hcommit).2.1
    rfl
  have hopened : plan.opened = new := congrArg (·.opened) (Ledger.planClose_ok hplan).2
  have aligned := hfree.reachable.wellFormed.toAligned
  refine ⟨⟨hfree.reachable.step, ?_, ?_, ?_, ?_⟩, ?_, ?_⟩ <;> rw [hstep]
  · exact hfree.relayer
  · exact hfree.suspensions
  · exact hfree.supply
  · exact Ledger.totalsLe_closedWindow hfree.totals aligned
      (Ledger.totalsLe_zero_receivingRaised hfree.totals)
  · exact (congrArg Period.id (Ledger.current_closedWindow aligned)).trans hopened
  · exact congrArg some (step_closed (congrArg Prod.fst hstep)).1

/-- As many closes succeed as there are ids. -/
theorem Unhindered.run (hfree : system.Unhindered caller) (first count : Nat)
    (hfirst : system.pool.ledger.window.current.id + 1 = first) :
    (system.run (closesInTurn caller first count)).2.Unhindered caller ∧
      (system.run (closesInTurn caller first count)).2.pool.ledger.window.current.id + 1 =
        first + count ∧
      ((system.run (closesInTurn caller first count)).1.filterMap closedBy).length = count := by
  induction count generalizing system first with
  | zero => exact ⟨hfree, hfirst, rfl⟩
  | succ count ih =>
      obtain ⟨hnext, hcurrent, hclosed⟩ := hfree.step (Nat.lt_of_succ_le hfirst.le) 0
      obtain ⟨hlast, hid, hlength⟩ := ih hnext (first + 1) (congrArg (· + 1) hcurrent)
      have hcalls : closesInTurn caller first (count + 1) =
          .closeRelayed caller first 0 :: closesInTurn caller (first + 1) count := rfl
      rw [hcalls]
      simp only [System.run, List.filterMap_cons_some hclosed, List.length_cons]
      exact ⟨hlast, hid.trans (Nat.succ_add_eq_add_succ first count), congrArg (· + 1) hlength⟩

theorem prefix_closesInTurn {first count : Nat} {before : List Call}
    (hbefore : before <+: closesInTurn caller first count) :
    ∃ fewer ≤ count, before = closesInTurn caller first fewer := by
  have hlength : before.length ≤ count := by
    simpa [closesInTurn] using hbefore.length_le
  refine ⟨before.length, hlength, ?_⟩
  have htake := List.prefix_iff_eq_take.mp hbefore
  rw [closesInTurn, ← List.map_take, List.take_range'_of_length_ge hlength] at htake
  exact htake

/-- A new pool of six slots, relayed by the null account. -/
def sixSlots : System where
  pool :=
    { settings := { relayer := some .zero }
      ledger :=
        { window :=
            { slots := #[.empty, .empty, .empty, .empty, .empty, .opened 1 0], head := 5 } }
      journal := .withLimit Defaults.eventBuffer }
  env := {}

theorem unhindered_sixSlots : sixSlots.Unhindered .zero where
  reachable := .created (show Pool.create sixSlots.pool.settings 0 = .ok sixSlots.pool from rfl)
  relayer := rfl
  suspensions := rfl
  supply := by decide
  totals := totalsLe_create (show Pool.create sixSlots.pool.settings 0 = .ok sixSlots.pool from rfl)

theorem head_sixSlots (count : Nat) :
    (sixSlots.run (closesInTurn .zero 2 count)).2.pool.ledger.window.head = count + 5 := by
  obtain ⟨hlast, _, hlength⟩ := unhindered_sixSlots.run 2 count rfl
  have hslots := hlast.reachable.length_eq.trans (congrArg Prod.fst (fixedSettings_run _))
  have hcreate : Pool.create sixSlots.pool.settings 0 = .ok sixSlots.pool := rfl
  have hhead := (head_after hcreate (closesInTurn .zero 2 count)).1
  rw [hlength, hslots, Nat.add_comm _ count] at hhead
  exact Nat.add_right_cancel hhead

/-- Ids alone do not bound the head of a longer window: after as many closes by relay it is a full
word, while no id is near the last. -/
theorem head_full_before_ids :
    Pool.create sixSlots.pool.settings 0 = .ok sixSlots.pool ∧
      (∀ before, before <+: closesInTurn .zero 2 (maxWord - 5) →
        (sixSlots.run before).2.env.stakes.supply ≤ maxAmount ∧
          (sixSlots.run before).2.pool.ledger.window.current.id < maxWord - 3) ∧
      (sixSlots.run (closesInTurn .zero 2 (maxWord - 5))).2.pool.ledger.window.head = maxWord := by
  refine ⟨rfl, fun before hbefore => ?_, (head_sixSlots _).trans (by decide)⟩
  obtain ⟨fewer, hfewer, rfl⟩ := prefix_closesInTurn hbefore
  obtain ⟨hlast, hid, _⟩ := unhindered_sixSlots.run 2 fewer rfl
  have hbound : 2 + (maxWord - 5) < maxWord - 3 + 1 := by decide
  have hids : 2 + fewer < maxWord - 3 + 1 := (Nat.add_le_add_left hfewer 2).trans_lt hbound
  exact ⟨hlast.supply.le.trans (Nat.zero_le _), Nat.lt_of_succ_lt_succ (hid.trans_lt hids)⟩

end System

end FeeDistribution
