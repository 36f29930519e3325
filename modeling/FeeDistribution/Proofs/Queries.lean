import FeeDistribution.Proofs.ClaimOrder
import FeeDistribution.Proofs.SlidingWindow
import FeeDistribution.Proofs.Totals
import FeeDistribution.Proofs.Widths

/-!
# What the queries promise

What an account is owed is computed in three places: in one sum, slot by slot, and in the plan of a
claim.  The three agree, and the promise is kept: a claim that passes the gate and is paid pays what
was shown, and afterwards nothing is owed.

## Strategy

All three start from the same list of entitlements, of which each stands for a closed period above
the watermark, in its slot (`Ledger.slot_of_entitlements`).  The breakdown places them on a list of
empty rows, each in a row of its own, so that no row is lost and the sums are the same
(`Entitlement.sum_placed`).  The plan adds one check, that a period was closed at all, which decides
nothing, since otherwise nothing is owed.
-/

namespace FeeDistribution

open Quantity

/-! ## Placing rows -/

namespace Entitlement

variable {rows written : List Entitlement} {index : Nat}

/-- Puts rows where they belong by their slots, in place of others. -/
def placed (rows written : List Entitlement) : List Entitlement :=
  written.foldl (fun rows row => rows.set row.slot row) rows

theorem placed_cons (row : Entitlement) :
    placed rows (row :: written) = placed (rows.set row.slot row) written :=
  rfl

@[simp] theorem length_placed : (placed rows written).length = rows.length := by
  induction written generalizing rows with
  | nil => rfl
  | cons row written ih => rw [placed_cons, ih, List.length_set]

/-- What holds of every row in its place holds after others were put in theirs. -/
theorem forall_placed {property : Nat → Entitlement → Prop}
    (hrows : ∀ index row, rows[index]? = some row → property index row)
    (hwritten : ∀ row ∈ written, property row.slot row) :
    ∀ index row, (placed rows written)[index]? = some row → property index row := by
  induction written generalizing rows with
  | nil => exact hrows
  | cons row written ih =>
      obtain ⟨hrow, hwritten⟩ := List.forall_mem_cons.mp hwritten
      refine ih (fun index other hother => ?_) hwritten
      rw [List.getElem?_set] at hother
      split at hother
      · split at hother
        · cases hother
          subst index
          exact hrow
        · cases hother
      · exact hrows index other hother

theorem getElem?_placed (hother : ∀ row ∈ written, row.slot ≠ index) :
    (placed rows written)[index]? = rows[index]? := by
  induction written generalizing rows with
  | nil => rfl
  | cons row written ih =>
      obtain ⟨hrow, hwritten⟩ := List.forall_mem_cons.mp hother
      rw [placed_cons, ih hwritten, List.getElem?_set_ne hrow]

/-- Replacing a row that counts for nothing adds what the new one counts for. -/
theorem sum_set {measure : Entitlement → Nat} {old : Entitlement} (row : Entitlement)
    (hold : rows[index]? = some old) (hnothing : measure old = 0) :
    ((rows.set index row).map measure).sum = (rows.map measure).sum + measure row := by
  induction rows generalizing index with
  | nil => cases hold
  | cons first rows ih =>
      cases index with
      | zero =>
          cases hold
          rw [List.set_cons_zero, List.map_cons, List.map_cons, List.sum_cons, List.sum_cons,
            hnothing, Nat.zero_add, Nat.add_comm]
      | succ index =>
          rw [List.set_cons_succ, List.map_cons, List.map_cons, List.sum_cons, List.sum_cons,
            ih hold, Nat.add_assoc]

/-- Rows that are put in different places where nothing was counted before add up. -/
theorem sum_placed {measure : Entitlement → Nat}
    (hdistinct : (written.map Entitlement.slot).Nodup)
    (hblank : ∀ row ∈ written, ∃ old, rows[row.slot]? = some old ∧ measure old = 0) :
    ((placed rows written).map measure).sum =
      (rows.map measure).sum + (written.map measure).sum := by
  induction written generalizing rows with
  | nil => rfl
  | cons row written ih =>
      obtain ⟨hrow, hwritten⟩ := List.forall_mem_cons.mp hblank
      obtain ⟨hfirst, hdistinct⟩ := List.nodup_cons.mp hdistinct
      obtain ⟨old, hold, hnothing⟩ := hrow
      rw [placed_cons, ih hdistinct, sum_set row hold hnothing, List.map_cons, List.sum_cons,
        Nat.add_assoc]
      intro other hother
      have hne : row.slot ≠ other.slot := fun hsame =>
        hfirst (hsame ▸ List.mem_map_of_mem hother)
      rw [List.getElem?_set_ne hne]
      exact hwritten other hother

end Entitlement

/-! ## What is owed -/

namespace Ledger

variable {ledger next : Ledger} {account : Account} {shareOn : PeriodId → Amount}
  {fees rewards : Amount} {plan : ClaimPlan} {previous : PeriodId}

theorem available_eq_ok :
    ledger.available account shareOn = .ok (fees, rewards) ↔
      ∃ entitlements, ledger.entitlements account shareOn = .ok entitlements ∧
        sumEntitlements entitlements = .ok (fees, rewards) :=
  Fallible.bind_eq_ok

/-- Nothing is owed where nothing is claimable. -/
theorem available_of_claimable_eq_nil (hnone : ledger.claimable account = []) :
    ledger.available account shareOn = .ok (0, 0) := by
  rw [available, entitlements, hnone]
  rfl

theorem claimable_eq_nil_of_unfilled (wf : ledger.window.WellFormed)
    (hunfilled : ¬ (ledger.window.recent 1).Filled) : ledger.claimable account = [] := by
  refine List.eq_nil_iff_forall_not_mem.mpr fun row hrow => hunfilled ?_
  obtain ⟨hindex, hfilled, hread, _⟩ := mem_claimable hrow
  exact wf.filled_of_le hindex (hread ▸ hfilled)

theorem claimable_eq_nil_of_watermark (wf : ledger.window.WellFormed)
    (hwatermark : ledger.watermark account = (ledger.window.recent 1).id) :
    ledger.claimable account = [] := by
  refine List.eq_nil_iff_forall_not_mem.mpr fun row hrow => ?_
  have habove := (mem_claimable hrow).2.2.2
  rw [hwatermark] at habove
  exact habove.not_ge (id_le_of_mem_claimable wf hrow)

/-! ## What is planned -/

/-- A claim is planned for what is owed, and not planned if nothing is or it can not be told. -/
theorem planClaim_of_available (wf : ledger.window.WellFormed) (account : Account)
    (shareOn : PeriodId → Amount) :
    (ledger.planClaim account shareOn).map (fun plan => (plan.fees, plan.rewards)) =
      match ledger.available account shareOn with
      | .ok owed => if owed.1 = 0 ∧ owed.2 = 0 then .error .nothingToClaim else .ok owed
      | .error fault => .error fault := by
  unfold planClaim
  dsimp only
  by_cases hfilled : (ledger.window.recent 1).Filled
  · rw [if_neg (not_not.mpr hfilled), available]
    cases ledger.entitlements account shareOn with
    | error fault => rfl
    | ok entitlements =>
        show Except.map _ (sumEntitlements entitlements >>= _) =
          match sumEntitlements entitlements with
          | .ok owed => _
          | .error fault => _
        cases sumEntitlements entitlements with
        | error fault => rfl
        | ok owed =>
            show Except.map _ (if owed.1 = 0 ∧ owed.2 = 0 then _ else _) =
              if owed.1 = 0 ∧ owed.2 = 0 then _ else _
            split <;> rfl
  · rw [if_pos hfilled, available_of_claimable_eq_nil (claimable_eq_nil_of_unfilled wf hfilled)]
    rfl

/-! ## What is shown -/

/-- The rows of a breakdown before anything is put in them. -/
def blankRows (ledger : Ledger) : List Entitlement :=
  (List.range ledger.window.length).map fun slot =>
    { slot, id := (ledger.window.recent slot).id }

theorem breakdown_eq (liveShare : Amount) :
    ledger.breakdown account shareOn liveShare =
      entitlement 0 ledger.window.current liveShare >>= fun preview =>
        (ledger.entitlements account shareOn).map fun entitlements =>
          Entitlement.placed ledger.blankRows (preview :: entitlements) := by
  have hblank : (ledger.window.toList.zipIdx.map fun row =>
      { slot := row.2, id := row.1.id : Entitlement }) = ledger.blankRows := by
    rw [Window.zipIdx_toList, List.map_map]
    rfl
  rw [breakdown, ← hblank]
  cases entitlement 0 ledger.window.current liveShare with
  | error fault => rfl
  | ok preview => cases ledger.entitlements account shareOn <;> rfl

theorem getElem?_blankRows {index : Nat} (hindex : index < ledger.window.length) :
    ledger.blankRows[index]? =
      some { slot := index, id := (ledger.window.recent index).id } := by
  simp [blankRows, hindex]

/-- A row carries the id of its slot, and behind the preview of the open period it is zero for
periods that the account has claimed and for slots that were never filled. -/
structure ShownAt (ledger : Ledger) (account : Account) (index : Nat) (row : Entitlement) :
    Prop where
  slot_eq : row.slot = index
  id_eq : row.id = (ledger.window.recent index).id
  eq_zero : 1 ≤ index →
    ¬ (ledger.window.recent index).Filled ∨
      (ledger.window.recent index).id ≤ ledger.watermark account →
    row.fees = 0 ∧ row.rewards = 0

/-- What an account is shown: a row for each slot, and behind the preview all that is owed. -/
structure Shows (ledger : Ledger) (account : Account) (owed : Amount × Amount)
    (rows : List Entitlement) : Prop where
  length_eq : rows.length = ledger.window.length
  row : ∀ (index : Nat) row, rows[index]? = some row → ledger.ShownAt account index row
  sum_fees : ((rows.drop 1).map Entitlement.fees).sum = owed.1
  sum_rewards : ((rows.drop 1).map Entitlement.rewards).sum = owed.2

theorem shownAt_blankRows (index : Nat) (row : Entitlement)
    (hrow : ledger.blankRows[index]? = some row) : ledger.ShownAt account index row := by
  have hindex : index < ledger.window.length := by
    simpa [blankRows] using (List.getElem?_eq_some_iff.mp hrow).1
  rw [getElem?_blankRows hindex] at hrow
  cases hrow
  exact ⟨rfl, rfl, fun _ _ => ⟨rfl, rfl⟩⟩

/-- An entitlement is shown in its slot, where something may be owed. -/
theorem shownAt_of_entitlements {entitlements : List Entitlement}
    (hentitlements : ledger.entitlements account shareOn = .ok entitlements) {owed : Entitlement}
    (howed : owed ∈ entitlements) : ledger.ShownAt account owed.slot owed := by
  obtain ⟨_, hfilled, hid, habove⟩ := slot_of_entitlements hentitlements howed
  refine ⟨rfl, hid.symm, fun _ hnothing => ?_⟩
  rcases hnothing with hunfilled | hclaimed
  · exact absurd hfilled hunfilled
  · rw [hid] at hclaimed
    exact absurd habove hclaimed.not_gt

/-- Behind the preview the placed rows add up to what is owed. -/
theorem sum_drop_placed {entitlements : List Entitlement} {preview : Entitlement}
    (hentitlements : ledger.entitlements account shareOn = .ok entitlements)
    (hpreview : preview.slot = 0) (hlength : 0 < ledger.window.length) (revenue : Revenue) :
    (((Entitlement.placed ledger.blankRows (preview :: entitlements)).drop 1).map
      (·.of revenue)).sum = (entitlements.map (·.of revenue)).sum := by
  have hslots : ∀ owed ∈ entitlements, 1 ≤ owed.slot ∧ owed.slot < ledger.window.length :=
    fun owed howed =>
      have hslot := slot_of_entitlements hentitlements howed
      ⟨hslot.1, Window.lt_length_of_filled hslot.2.1⟩
  have hblank : (ledger.blankRows.map (·.of revenue)).sum = 0 := by
    refine List.sum_eq_zero fun amount hamount => ?_
    obtain ⟨row, hrow, rfl⟩ := List.mem_map.mp hamount
    obtain ⟨slot, _, rfl⟩ := List.mem_map.mp hrow
    cases revenue <;> rfl
  have hfirst := getElem?_blankRows hlength
  have hpreviewed : ((ledger.blankRows.set 0 preview).map (·.of revenue)).sum =
      preview.of revenue := by
    rw [Entitlement.sum_set preview hfirst (by cases revenue <;> rfl), hblank, Nat.zero_add]
  have hplaced : ((Entitlement.placed (ledger.blankRows.set 0 preview) entitlements).map
      (·.of revenue)).sum = preview.of revenue + (entitlements.map (·.of revenue)).sum := by
    rw [Entitlement.sum_placed (nodup_slots hentitlements), hpreviewed]
    intro owed howed
    obtain ⟨hslot, hinside⟩ := hslots owed howed
    rw [List.getElem?_set_ne (Nat.ne_of_lt hslot), getElem?_blankRows hinside]
    exact ⟨_, rfl, by cases revenue <;> rfl⟩
  -- the preview stays in front, so it can be taken off both sides
  have hfront : (Entitlement.placed (ledger.blankRows.set 0 preview) entitlements)[0]? =
      some preview := by
    rw [Entitlement.getElem?_placed fun owed howed => Nat.ne_of_gt (hslots owed howed).1,
      List.getElem?_set_self (List.getElem?_eq_some_iff.mp hfirst).1]
  rw [Entitlement.placed_cons, hpreview]
  cases hrows : Entitlement.placed (ledger.blankRows.set 0 preview) entitlements with
  | nil =>
      rw [hrows] at hfront
      cases hfront
  | cons first rows =>
      rw [hrows] at hfront hplaced
      cases hfront
      rw [List.map_cons, List.sum_cons] at hplaced
      exact Nat.add_left_cancel hplaced

/-- Whenever what is owed can be told, it can be shown slot by slot. -/
theorem exists_shows {owed : Amount × Amount} (wf : ledger.window.WellFormed)
    (htotals : ledger.window.TotalsLe maxAmount)
    (havailable : ledger.available account shareOn = .ok owed) (liveShare : Amount) :
    ∃ rows, ledger.breakdown account shareOn liveShare = .ok rows ∧
      ledger.Shows account owed rows := by
  obtain ⟨entitlements, hentitlements, hsum⟩ := available_eq_ok.mp havailable
  obtain ⟨preview, hpreview⟩ := exists_entitlement (htotals 0) 0 liveShare
  obtain ⟨hslot, hid⟩ := entitlement_ok hpreview
  have hlength : 0 < ledger.window.length := Nat.zero_lt_of_lt wf.two_le_length
  have hdrop := sum_drop_placed hentitlements hslot hlength
  refine ⟨Entitlement.placed ledger.blankRows (preview :: entitlements), ?_, ?_⟩
  · rw [breakdown_eq, Window.current, hpreview, hentitlements]
    rfl
  · obtain ⟨fees, rewards⟩ := owed
    have hfees := (hdrop .fees).trans (sumEntitlements_ok hsum .fees)
    have hrewards := (hdrop .rewards).trans (sumEntitlements_ok hsum .rewards)
    refine ⟨by simp [blankRows], ?_, hfees, hrewards⟩
    refine Entitlement.forall_placed shownAt_blankRows ?_
    refine List.forall_mem_cons.mpr ⟨?_, fun owed => shownAt_of_entitlements hentitlements⟩
    rw [hslot]
    exact ⟨hslot, hid, fun hclosed => absurd hclosed (by decide)⟩

/-! ## What is claimed -/

theorem available_of_planClaim (hplan : ledger.planClaim account shareOn = .ok plan) :
    ledger.available account shareOn = .ok (plan.fees, plan.rewards) := by
  obtain ⟨_, hentitlements, hsum, _⟩ := planClaim_ok hplan
  exact available_eq_ok.mpr ⟨_, hentitlements, hsum⟩

theorem exists_planClaim (wf : ledger.window.WellFormed)
    (havailable : ledger.available account shareOn = .ok (fees, rewards))
    (hsome : ¬ (fees = 0 ∧ rewards = 0)) : ∃ plan, ledger.planClaim account shareOn = .ok plan := by
  have hplan := planClaim_of_available wf account shareOn
  rw [havailable] at hplan
  dsimp only at hplan
  rw [if_neg hsome] at hplan
  obtain ⟨plan, hplan, _⟩ := Fallible.map_eq_ok.mp hplan
  exact ⟨plan, hplan⟩

theorem planClaim_of_nothing (wf : ledger.window.WellFormed)
    (havailable : ledger.available account shareOn = .ok (0, 0)) :
    ledger.planClaim account shareOn = .error .nothingToClaim := by
  have hplan := planClaim_of_available wf account shareOn
  rw [havailable] at hplan
  exact Fallible.map_eq_error.mp hplan

theorem planClaim_of_fault {fault : Fault} (wf : ledger.window.WellFormed)
    (havailable : ledger.available account shareOn = .error fault) :
    ledger.planClaim account shareOn = .error fault := by
  have hplan := planClaim_of_available wf account shareOn
  rw [havailable] at hplan
  exact Fallible.map_eq_error.mp hplan

/-- Once a claim is carried out, nothing is owed, at whatever shares. -/
theorem available_commitClaim (wf : ledger.window.WellFormed)
    (hplan : ledger.planClaim account shareOn = .ok plan)
    (hcommit : ledger.commitClaim plan = .ok (previous, next)) (shares : PeriodId → Amount) :
    next.available account shares = .ok (0, 0) := by
  have hthrough : next.watermark account = (next.window.recent 1).id := by
    rw [watermark_commitClaim wf hplan hcommit, if_pos rfl, (planClaim_ok hplan).2.2.2.2.2]
    exact (id_recent_commitClaim wf.toAligned hcommit 1).symm
  exact available_of_claimable_eq_nil
    (claimable_eq_nil_of_watermark (wellFormed_commitClaim wf hplan hcommit) hthrough)

end Ledger

/-- The batch in which a claim is paid; a leg of zero is left out. -/
def claimBatch (fees rewards : Amount) : List Payout :=
  [{ asset := .fees, amount := fees }, { asset := .rewards, amount := rewards : Payout }]
    |>.filter fun leg => decide (0 < leg.amount)

theorem ClaimPlan.legs_eq (plan : ClaimPlan) : plan.legs = claimBatch plan.fees plan.rewards :=
  rfl

theorem Environment.pay_eq_ok {env : Environment} {account : Account} {legs : List Payout} :
    (env.pay account legs).1 = .ok () ↔ env.treasury.refusing = false := by
  unfold Environment.pay Treasury.pay
  cases env.treasury.refusing <;> simp

namespace System

variable {start system : System} {account : Account} {now : Timestamp}

theorem gate_of_stageClaim {staged : ClaimPlan × PeriodId × Ledger}
    (hstage : system.stageClaim account now = .ok staged) :
    Gate.claim.run (system.circumstances account now) = .ok () := by
  obtain ⟨_, hgate, _⟩ := Fallible.bind_eq_ok.mp hstage
  exact hgate

/-- A claim succeeds if the gate lets it through, something is owed, and the payment is accepted. -/
theorem exists_claim_iff (wf : system.pool.ledger.window.WellFormed) (account : Account)
    (now : Timestamp) :
    (∃ receipt, (system.claim account now).1 = .ok receipt) ↔
      Gate.claim.run (system.circumstances account now) = .ok () ∧
        ∃ fees rewards, system.available account = .ok (fees, rewards) ∧
          ¬ (fees = 0 ∧ rewards = 0) ∧
          (system.env.pay account (claimBatch fees rewards)).1 = .ok () := by
  simp only [Environment.pay_eq_ok]
  constructor
  · rintro ⟨receipt, hclaim⟩
    rcases system.claim_cases account now with
      ⟨_, _, hresult⟩ | ⟨plan, _, _, hstage, ⟨_, hresult⟩ | ⟨hpaying, hresult⟩⟩ <;>
      rw [hresult] at hclaim
    · cases hclaim
    · cases hclaim
    · obtain ⟨hplan, _⟩ := stageClaim_ok hstage
      exact ⟨gate_of_stageClaim hstage, plan.fees, plan.rewards,
        Ledger.available_of_planClaim hplan, (Ledger.planClaim_ok hplan).2.2.2.1, hpaying⟩
  · rintro ⟨hgate, fees, rewards, havailable, hsome, hpaying⟩
    obtain ⟨plan, hplan⟩ := Ledger.exists_planClaim wf havailable hsome
    obtain ⟨ledger, _, hclaim⟩ := claim_of_passes ⟨hgate, hpaying⟩ hplan
    exact ⟨plan.receipt, by rw [hclaim]⟩

/-- A claim that succeeds pays what is owed, up to the newest closed period, and leaves nothing. -/
theorem claim_pays_available (wf : system.pool.ledger.window.WellFormed) {receipt : Receipt}
    (hclaim : (system.claim account now).1 = .ok receipt) :
    system.available account = .ok (receipt.fees, receipt.rewards) ∧
      (system.claim account now).2.env.treasury.payments =
        system.env.treasury.payments ++
          (claimBatch receipt.fees receipt.rewards).map (fun leg => (account, leg)) ∧
      (system.pool.ledger.window.recent 1).Filled ∧
      receipt.through = (system.pool.ledger.window.recent 1).id ∧
      (system.claim account now).2.pool.ledger.watermark account = receipt.through ∧
      (system.claim account now).2.available account = .ok (0, 0) := by
  obtain ⟨plan, previous, ledger, hplan, hcommit, rfl, hnext⟩ := claim_ok hclaim
  obtain ⟨hfilled, _, _, _, _, hthrough⟩ := Ledger.planClaim_ok hplan
  have hwatermark : ledger.watermark account = plan.through :=
    (Ledger.watermark_commitClaim wf hplan hcommit account).trans (if_pos rfl)
  have hpaid : (system.afterPaid account plan ledger).env.treasury.payments =
      system.env.treasury.payments ++
        (claimBatch plan.fees plan.rewards).map (fun leg => (account, leg)) := by
    rw [← ClaimPlan.legs_eq]
    rfl
  rw [hnext]
  exact ⟨Ledger.available_of_planClaim hplan, hpaid, hfilled, hthrough, hwatermark,
    Ledger.available_commitClaim wf hplan hcommit _⟩

/-! ## Runs -/

theorem totalsLe_run {calls : List Call} (wf : system.pool.ledger.window.WellFormed)
    (htotals : system.pool.ledger.window.TotalsLe maxAmount)
    (himports : ∀ caller slot period, .importPeriod caller slot period ∈ calls → period.InRange) :
    (system.run calls).2.pool.ledger.window.TotalsLe maxAmount := by
  induction calls generalizing system with
  | nil => exact htotals
  | cons call calls ih =>
      have hposting := step_posting system call
      refine ih (hposting.wellFormed wf) (hposting.totalsLe wf.toAligned htotals ?_) ?_
      · rintro caller slot period rfl
        exact himports caller slot period List.mem_cons_self
      · exact fun caller slot period hmem =>
          himports caller slot period (List.mem_cons_of_mem _ hmem)

/-- The queries, the plan and the claim agree, at every moment of a run into which only periods that
can be stored are imported.  What is owed is shown slot by slot.  A claim succeeds if the gate lets
it through, something is owed, and the payment is accepted; it pays what was owed, up to the newest
closed period, after which nothing is owed.  If it is let through where nothing is owed, or where
what is owed does not fit an amount, it fails for that reason. -/
theorem claim_keeps_promise {settings : Settings} {created : Timestamp}
    (hcreate : Pool.create settings created = .ok start.pool) {calls : List Call}
    (himports : ∀ caller slot period, .importPeriod caller slot period ∈ calls → period.InRange)
    (account : Account) (now : Timestamp) :
    let system := (start.run calls).2
    let gate := Gate.claim.run (system.circumstances account now)
    (∀ owed, system.available account = .ok owed →
      ∃ rows, system.breakdown account = .ok rows ∧ system.pool.ledger.Shows account owed rows) ∧
      ((∃ receipt, (system.claim account now).1 = .ok receipt) ↔
        gate = .ok () ∧ ∃ fees rewards, system.available account = .ok (fees, rewards) ∧
          ¬ (fees = 0 ∧ rewards = 0) ∧
          (system.env.pay account (claimBatch fees rewards)).1 = .ok ()) ∧
      (∀ receipt, (system.claim account now).1 = .ok receipt →
        system.available account = .ok (receipt.fees, receipt.rewards) ∧
          (system.claim account now).2.env.treasury.payments =
            system.env.treasury.payments ++
              (claimBatch receipt.fees receipt.rewards).map (fun leg => (account, leg)) ∧
          (system.pool.ledger.window.recent 1).Filled ∧
          receipt.through = (system.pool.ledger.window.recent 1).id ∧
          (system.claim account now).2.pool.ledger.watermark account = receipt.through ∧
          (system.claim account now).2.available account = .ok (0, 0)) ∧
      (gate = .ok () → system.available account = .ok (0, 0) →
        system.claim account now = (.error .nothingToClaim, system)) ∧
      ∀ fault, gate = .ok () → system.available account = .error fault →
        system.claim account now = (.error fault, system) := by
  intro system gate
  have hreach : start.Reachable := .created hcreate
  have wf := (hreach.run calls).wellFormed
  have htotals : system.pool.ledger.window.TotalsLe maxAmount :=
    totalsLe_run hreach.wellFormed (totalsLe_create hcreate) himports
  refine ⟨fun owed howed => Ledger.exists_shows wf htotals howed _, exists_claim_iff wf account now,
    fun receipt => claim_pays_available wf, fun hgate hnothing => ?_, fun fault hgate hfault => ?_⟩
  · exact claim_of_planClaim_error hgate (Ledger.planClaim_of_nothing wf hnothing)
  · exact claim_of_planClaim_error hgate (Ledger.planClaim_of_fault wf hfault)

/-- A new pool of three slots, owned and relayed by the null account. -/
def threeSlots : System where
  pool :=
    { settings := { length := 3, owner := some .zero, relayer := some .zero }
      ledger := { window := { slots := #[.empty, .empty, .opened 1 0], head := 2 } }
      journal := { limit := some Defaults.eventBuffer } }
  env := {}

/-- Two closed periods are imported.  The null account has all of one and, beyond its means, twice
of the other. -/
def twoImported : List Call :=
  [.importPeriod .zero 0 (.opened 5 0),
    .importPeriod .zero 1 { id := 4, fees := { total := 100 } },
    .importPeriod .zero 2 { id := 3, fees := { total := 10 }, rewards := { total := 7 } },
    .around (.share .zero 4 unit), .around (.share .zero 3 (2 * unit)),
    .around (.rate Defaults.collateralCurrency 0)]

/-- It is shown the whole of both, and is paid it. -/
theorem claim_keeps_promise_twoImported :
    Pool.create threeSlots.pool.settings 0 = .ok threeSlots.pool ∧
      (∀ caller slot period, Call.importPeriod caller slot period ∈ twoImported →
        period.InRange) ∧
      (threeSlots.run twoImported).2.available .zero = .ok (110, 7) ∧
      (∃ rows, (threeSlots.run twoImported).2.breakdown .zero = .ok rows ∧
        ((rows.drop 1).map Entitlement.fees).sum = 110) ∧
      ((threeSlots.run twoImported).2.claim .zero 0).1 = .ok
        { account := .zero, fees := 110, rewards := 7, through := 4, periods := [4, 3] } ∧
      ((threeSlots.run twoImported).2.claim .zero 0).2.available .zero = .ok (0, 0) := by
  have hcreate : Pool.create threeSlots.pool.settings 0 = .ok threeSlots.pool := rfl
  have himports : ∀ caller slot period, Call.importPeriod caller slot period ∈ twoImported →
      period.InRange := by
    intro caller slot period hmem
    simp only [twoImported, List.mem_cons, Call.importPeriod.injEq, List.not_mem_nil,
      reduceCtorEq, or_false] at hmem
    rcases hmem with ⟨_, _, rfl⟩ | ⟨_, _, rfl⟩ | ⟨_, _, rfl⟩ <;> constructor <;> decide
  have howed : (threeSlots.run twoImported).2.available .zero = .ok (110, 7) := by decide
  have hclaim : ((threeSlots.run twoImported).2.claim .zero 0).1 = .ok
      { account := .zero, fees := 110, rewards := 7, through := 4, periods := [4, 3] } := by
    decide
  obtain ⟨hshown, _, hpays, _⟩ := claim_keeps_promise hcreate himports .zero 0
  obtain ⟨rows, hrows, hshows⟩ := hshown _ howed
  exact ⟨hcreate, himports, howed, ⟨rows, hrows, hshows.sum_fees⟩, hclaim,
    (hpays _ hclaim).2.2.2.2.2⟩

/-- Two closed periods that are owed to the null account alone each hold as much as an amount can.
No rate is known. -/
def twoFull : List Call :=
  [.importPeriod .zero 0 (.opened 5 0),
    .importPeriod .zero 1 { id := 4, fees := { total := maxAmount } },
    .importPeriod .zero 2 { id := 3, fees := { total := maxAmount } },
    .around (.share .zero 4 unit), .around (.share .zero 3 unit)]

/-- What is owed does not fit an amount, but the claim fails before that is found out. -/
theorem gate_before_overflow :
    Pool.create threeSlots.pool.settings 0 = .ok threeSlots.pool ∧
      (threeSlots.run twoFull).2.available .zero = .error .overflow ∧
      ((threeSlots.run twoFull).2.claim .zero 0).1 =
        .error (.rateUnusable Defaults.collateralCurrency) :=
  ⟨rfl, by decide, by decide⟩

end System

end FeeDistribution
