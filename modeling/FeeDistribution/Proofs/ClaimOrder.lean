import FeeDistribution.Proofs.ClaimProgress
import FeeDistribution.Proofs.Conservation
import FeeDistribution.Proofs.FailedClaims

/-!
# The order of claims

Suppose that history is never imported, that the share of every account on every period is fixed
from the moment the period closes, and that the shares of a period come to at most one.  Then a
claim pays exactly what its account is due, whoever claimed before, and between two closes the
claims of different accounts may be made in any order: each is paid the same, and the window and the
watermarks end the same (`ReachableUnder.pays_what_is_due`).

## Strategy

That a claim pays what is due is `Shares.lean`, once `SharedOut` is carried along the run.  For the
second part no two claims are exchanged.  Instead the ledger after any calls between two closes is
described in terms of the ledger before them, by `Ledger.Progress`, and the description of the end
(`ReachableUnder.progress_run`) is the same for every order.
-/

namespace FeeDistribution

/-! ## Runs under fixed shares -/

/-- Whether a call imports history. -/
def Call.Imports : Call → Prop
  | importPeriod _ _ _ | importWatermark _ _ _ => True
  | _ => False

/-- The receipt in a result, if it is that of a claim. -/
def receipt? : Except Fault Reply → Option Receipt
  | .ok (.claimed receipt) => some receipt
  | _ => none

/-- The amount of a revenue on a receipt. -/
def Receipt.of (receipt : Receipt) (revenue : Revenue) : Amount :=
  revenue.select receipt.fees receipt.rewards

namespace System

variable {system : System} {shares : Shares} {call : Call} {account : Account}

/-- On every closed period in the window the debt shares are these. -/
def Agrees (system : System) (shares : Shares) : Prop :=
  ∀ row ∈ system.pool.ledger.window.closed, ∀ account,
    system.env.stakes.shareOn account row.2.id = shares account row.2.id

/-- The systems that calls other than imports reach from a newly created pool while the shares on
every period stay what they are from the moment the period closes. -/
inductive ReachableUnder (shares : Shares) : System → Prop
  | created {settings : Settings} {now : Timestamp} {pool : Pool} {env : Environment} :
      Pool.create settings now = .ok pool → ReachableUnder shares { pool, env }
  | step {system : System} {call : Call} : ReachableUnder shares system → ¬ call.Imports →
      (system.step call).2.Agrees shares → ReachableUnder shares (system.step call).2

namespace ReachableUnder

theorem reachable (hreach : system.ReachableUnder shares) : system.Reachable := by
  induction hreach with
  | created hcreate => exact .created hcreate
  | step _ _ _ ih => exact ih.step

theorem agrees (hreach : system.ReachableUnder shares) : system.Agrees shares := by
  cases hreach with
  | created hcreate =>
      -- in a new pool no period is closed
      intro row hrow
      obtain ⟨hindex, _, hread, hfilled⟩ := Window.mem_closed.mp hrow
      rw [recent_create hcreate, if_neg (Nat.ne_of_lt hindex)] at hread
      exact absurd rfl (hread ▸ hfilled)
  | step _ _ hagrees => exact hagrees

theorem run {calls : List Call} (hreach : system.ReachableUnder shares)
    (himport : ∀ call ∈ calls, ¬ call.Imports)
    (hagrees : ∀ before ∈ calls.inits, (system.run before).2.Agrees shares) :
    (system.run calls).2.ReachableUnder shares := by
  induction calls generalizing system with
  | nil => exact hreach
  | cons call calls ih =>
      obtain ⟨hcall, himport⟩ := List.forall_mem_cons.mp himport
      have hnext : ∀ before ∈ calls.inits, ((system.step call).2.run before).2.Agrees shares := by
        intro before hbefore
        have hcons : call :: before ∈ (call :: calls).inits :=
          (List.mem_inits _ _).mpr
            (List.cons_prefix_cons.mpr ⟨rfl, (List.mem_inits _ _).mp hbefore⟩)
        exact hagrees (call :: before) hcons
      have hnil : [] ∈ calls.inits := (List.mem_inits _ _).mpr List.nil_prefix
      exact ih (hreach.step hcall (hnext [] hnil)) himport hnext

end ReachableUnder

/-! ## What a claim does -/

theorem claim_ok {now : Timestamp} {receipt : Receipt}
    (hclaim : (system.claim account now).1 = .ok receipt) :
    ∃ plan previous ledger,
      system.pool.ledger.planClaim account (system.env.stakes.shareOn account) = .ok plan ∧
        system.pool.ledger.commitClaim plan = .ok (previous, ledger) ∧ receipt = plan.receipt ∧
        (system.claim account now).2 = system.afterPaid account plan ledger := by
  rcases system.claim_cases account now with
    ⟨_, _, hresult⟩ | ⟨plan, previous, ledger, hstage, ⟨_, hresult⟩ | ⟨_, hresult⟩⟩ <;>
    rw [hresult] at hclaim ⊢
  · cases hclaim
  · cases hclaim
  · obtain ⟨hplan, hcommit⟩ := stageClaim_ok hstage
    exact ⟨plan, previous, ledger, hplan, hcommit, (Except.ok.inj hclaim).symm, rfl⟩

theorem step_claimed (hcall : call.claimant? = some account) {reply : Reply}
    (hresult : (system.step call).1 = .ok reply) :
    ∃ plan previous ledger,
      system.pool.ledger.planClaim account (system.env.stakes.shareOn account) = .ok plan ∧
        system.pool.ledger.commitClaim plan = .ok (previous, ledger) ∧
        reply = .claimed plan.receipt ∧
        (system.step call).2 = system.afterPaid account plan ledger := by
  cases call with
  | claim claimant now =>
      cases hcall
      obtain ⟨receipt, hclaim, rfl⟩ := Fallible.map_eq_ok.mp hresult
      obtain ⟨plan, previous, ledger, hplan, hcommit, rfl, hnext⟩ := claim_ok hclaim
      exact ⟨plan, previous, ledger, hplan, hcommit, rfl, hnext⟩
  | claimOnBehalf claimant delegate now =>
      cases hcall
      have hreply : (system.claimOnBehalf account delegate now).1.map Reply.claimed = .ok reply :=
        hresult
      show ∃ plan previous ledger, _ ∧ _ ∧ _ ∧
        (system.claimOnBehalf account delegate now).2 = system.afterPaid account plan ledger
      obtain ⟨receipt, hclaim, rfl⟩ := Fallible.map_eq_ok.mp hreply
      unfold claimOnBehalf at hclaim ⊢
      split at hclaim
      · rw [if_pos ‹_›]
        obtain ⟨plan, previous, ledger, hplan, hcommit, rfl, hnext⟩ := claim_ok hclaim
        exact ⟨plan, previous, ledger, hplan, hcommit, rfl, hnext⟩
      · cases hclaim
  | _ => cases hcall

/-- A claim that fails leaves the periods and the watermarks alone. -/
theorem step_claim_failed (hcall : call.claimant? = some account) {fault : Fault}
    (hfault : (system.step call).1 = .error fault) :
    (system.step call).2.pool.ledger.window = system.pool.ledger.window ∧
      (system.step call).2.pool.ledger.watermarks = system.pool.ledger.watermarks := by
  rcases step_failed hcall hfault with ⟨_, hnext⟩ | ⟨_, _, hnext⟩ <;> rw [hnext] <;>
    exact ⟨rfl, rfl⟩

/-! ## Shares along a run -/

/-- What was claimed stays shared out, if a call neither claims nor imports. -/
theorem sharedOut_posting {ledger next : Ledger} {payments nextPayments : Payments}
    {result : Except Fault Reply}
    (hposting : Posting ledger payments call result next nextPayments)
    (hshared : ledger.SharedOut shares) (aligned : ledger.window.Aligned)
    (hcall : call.claimant? = none) (himport : ¬ call.Imports) : next.SharedOut shares := by
  cases hposting with
  | refused | aside | settled | outside | finishImport => exact hshared
  | fee hrecord => exact hshared.deposited aligned (Ledger.recordFee_ok hrecord)
  | reward hrecord => exact hshared.deposited aligned (Ledger.recordReward_ok hrecord)
  | closed _ hcommit =>
      obtain ⟨_, _, rfl⟩ := Ledger.commitClose_ok hcommit
      exact hshared.closedWindow aligned
  | claimed hclaimant => cases hclaimant.symm.trans hcall
  | unpaid hclaimant => cases hclaimant.symm.trans hcall
  | importPeriod => exact absurd trivial himport
  | importWatermark => exact absurd trivial himport

theorem Agrees.claimable (hagrees : system.Agrees shares) (account : Account)
    (row : Nat × Period) (hrow : row ∈ system.pool.ledger.claimable account) :
    system.env.stakes.shareOn account row.2.id = shares account row.2.id :=
  hagrees row (List.mem_of_mem_filter hrow) account

theorem ReachableUnder.sharedOut (hreach : system.ReachableUnder shares)
    (hbounded : shares.Bounded) : system.pool.ledger.SharedOut shares := by
  induction hreach with
  | created hcreate => exact Ledger.sharedOut_create (create_ok hcreate).2
  | @step system call hreach himport _ ih =>
      have wf := hreach.reachable.wellFormed
      cases hcall : call.claimant? with
      | none => exact sharedOut_posting (step_posting system call) ih wf.toAligned hcall himport
      | some account =>
          cases hresult : (system.step call).1 with
          | error fault =>
              obtain ⟨hwindow, hwatermarks⟩ := step_claim_failed hcall hresult
              unfold Ledger.SharedOut Ledger.watermark
              rw [hwindow, hwatermarks]
              exact ih
          | ok reply =>
              obtain ⟨plan, previous, ledger, hplan, hcommit, _, hnext⟩ :=
                step_claimed hcall hresult
              rw [hnext]
              exact Ledger.SharedOut.commitClaim wf ih hbounded
                (hreach.agrees.claimable account) hplan hcommit

theorem paidTo_afterPaid {plan : ClaimPlan} {committed : Ledger} (revenue : Revenue) :
    (system.afterPaid account plan committed).env.treasury.paidTo account revenue.asset =
      system.env.treasury.paidTo account revenue.asset + plan.of revenue := by
  rw [Treasury.paidTo_eq, Treasury.paidTo_eq, afterPaid, Payments.received_append, if_pos rfl,
    Payments.total_legs]

/-- A claim that succeeds pays what its account is due. -/
theorem ReachableUnder.claim_pays (hreach : system.ReachableUnder shares)
    (hbounded : shares.Bounded) {receipt : Receipt}
    (hclaim : (system.step call).1 = .ok (.claimed receipt)) :
    call.claimant? = some receipt.account ∧
      (∀ row ∈ system.pool.ledger.claimable receipt.account,
        row.2.Suffices (shares receipt.account row.2.id)) ∧
      (∀ revenue,
        receipt.of revenue = ((system.pool.ledger.claimable receipt.account).map fun row =>
          (row.2.pot revenue).due (shares receipt.account row.2.id)).sum ∧
        (system.step call).2.env.treasury.paidTo receipt.account revenue.asset =
          system.env.treasury.paidTo receipt.account revenue.asset + receipt.of revenue) ∧
      ∀ index, (system.step call).2.pool.ledger.window.recent index =
        (system.pool.ledger.window.recent index).claim
          (system.pool.ledger.owed shares receipt.account index .fees)
          (system.pool.ledger.owed shares receipt.account index .rewards) := by
  have wf := hreach.reachable.wellFormed
  have hshared := hreach.sharedOut hbounded
  have hshares := hreach.agrees.claimable receipt.account
  have hcall := (hreach.reachable.claimed_spec hclaim).1
  obtain ⟨plan, previous, ledger, hplan, hcommit, hreply, hnext⟩ := step_claimed hcall hclaim
  obtain rfl : receipt = plan.receipt := by
    cases hreply
    rfl
  have hof : ∀ revenue, plan.receipt.of revenue = plan.of revenue := fun _ => rfl
  rw [hnext]
  refine ⟨hcall, fun row => hshared.suffices hbounded, fun revenue => ⟨?_, ?_⟩, fun index => ?_⟩
  · rw [hof]
    exact Ledger.of_planClaim hshared hbounded hshares hplan revenue
  · exact paidTo_afterPaid revenue
  · exact Ledger.recent_commitClaim wf hshared hbounded hshares hplan hcommit index

/-! ## Between two closes -/

/-- The gate lets a claim of this account through, and the treasury will pay. -/
def Passes (system : System) (account : Account) (now : Timestamp) : Prop :=
  Gate.claim.run (system.circumstances account now) = .ok () ∧
    system.env.treasury.refusing = false

/-- A claim is let through and will be paid; a delegate is approved. -/
def Admits (system : System) : Call → Prop
  | .claim account now => system.Passes account now
  | .claimOnBehalf account delegate now =>
    system.pool.delegation.allows account delegate = true ∧ system.Passes account now
  | _ => True

/-- No call of this list closes a period or imports history, every claim in it is let through, and
the shares on closed periods stay what they are. -/
def Between (shares : Shares) (system : System) : List Call → Prop
  | [] => True
  | call :: calls =>
    ¬ call.Imports ∧ system.Admits call ∧
      (∀ outcome, (system.step call).1 ≠ .ok (.closed outcome)) ∧
      (system.step call).2.Agrees shares ∧ (system.step call).2.Between shares calls

/-- The receipts of a list of calls. -/
def receipts (system : System) (calls : List Call) : List Receipt :=
  (system.run calls).1.filterMap receipt?

theorem claim_of_passes {now : Timestamp} {plan : ClaimPlan} (hpasses : system.Passes account now)
    (hplan : system.pool.ledger.planClaim account (system.env.stakes.shareOn account) = .ok plan) :
    ∃ ledger, system.pool.ledger.commitClaim plan =
        .ok (system.pool.ledger.watermark account, ledger) ∧
      system.claim account now = (.ok plan.receipt, system.afterPaid account plan ledger) := by
  obtain ⟨hgate, hpaying⟩ := hpasses
  obtain ⟨ledger, hcommit⟩ := Ledger.commitClaim_of_planClaim hplan
  have hstage : system.stageClaim account now =
      .ok (plan, system.pool.ledger.watermark account, ledger) := by
    rw [stageClaim, hgate, hplan]
    show (system.pool.ledger.commitClaim plan >>= fun committed =>
      pure (plan, committed.1, committed.2)) = _
    rw [hcommit]
    rfl
  refine ⟨ledger, hcommit, ?_⟩
  rcases system.claim_cases account now with
    ⟨_, hfailed, _⟩ | ⟨_, _, _, hstaged, ⟨hrefusing, _⟩ | ⟨_, hresult⟩⟩
  · cases hfailed.symm.trans hstage
  · cases hrefusing.symm.trans hpaying
  · cases hstaged.symm.trans hstage
    exact hresult

theorem claim_of_planClaim_error {now : Timestamp} {fault : Fault}
    (hgate : Gate.claim.run (system.circumstances account now) = .ok ())
    (hplan : system.pool.ledger.planClaim account (system.env.stakes.shareOn account) =
      .error fault) :
    system.claim account now = (.error fault, system) := by
  have hstage : system.stageClaim account now = .error fault := by
    rw [stageClaim, hgate, hplan]
    rfl
  rw [claim, hstage]

/-- A claim that is let through is carried out if it can be planned, and otherwise fails without a
trace. -/
theorem step_of_admits (hcall : call.claimant? = some account) (hadmits : system.Admits call) :
    ∃ now, system.Passes account now ∧
      system.step call = reply .claimed (system.claim account now) := by
  cases call with
  | claim claimant now =>
      cases hcall
      exact ⟨now, hadmits, rfl⟩
  | claimOnBehalf claimant delegate now =>
      cases hcall
      obtain ⟨happroved, hpasses⟩ := hadmits
      refine ⟨now, hpasses, ?_⟩
      show reply .claimed (system.claimOnBehalf account delegate now) = _
      rw [claimOnBehalf, if_pos happroved]
  | _ => cases hcall

/-- A call that neither claims, imports nor closes leaves all but the deposits as it was. -/
theorem progress_posting {start ledger next : Ledger} {claimants : List Account}
    {deposits : Revenue → Amount} {payments nextPayments : Payments} {result : Except Fault Reply}
    (hposting : Posting ledger payments call result next nextPayments)
    (progress : start.Progress shares claimants deposits ledger) (aligned : ledger.window.Aligned)
    (hcall : call.claimant? = none) (himport : ¬ call.Imports)
    (hopen : ∀ outcome, result ≠ .ok (.closed outcome)) :
    ∃ more : Revenue → Amount,
      (∀ revenue, (more revenue : Int) = deposits revenue + ledger.inflow revenue call result) ∧
        start.Progress shares claimants more next := by
  have hsame : (∀ revenue, ledger.inflow revenue call result = 0) →
      ∀ revenue,
        (deposits revenue : Int) = deposits revenue + ledger.inflow revenue call result := by
    intro hnothing revenue
    rw [hnothing, add_zero]
  cases hposting with
  | refused => exact ⟨deposits, hsame fun _ => rfl, progress⟩
  | aside hneutral =>
      exact ⟨deposits, hsame fun _ => Ledger.inflow_of_neutral hneutral, progress⟩
  | settled | outside => exact ⟨deposits, hsame fun _ => rfl, progress⟩
  | fee hrecord =>
      refine ⟨_, fun revenue => ?_, progress.deposited aligned (Ledger.recordFee_ok hrecord)⟩
      exact Nat.cast_add _ _
  | reward hrecord =>
      refine ⟨_, fun revenue => ?_, progress.deposited aligned (Ledger.recordReward_ok hrecord)⟩
      exact Nat.cast_add _ _
  | closed => exact absurd rfl (hopen _)
  | claimed hclaimant => cases hclaimant.symm.trans hcall
  | unpaid hclaimant => cases hclaimant.symm.trans hcall
  | importPeriod => exact absurd trivial himport
  | importWatermark => exact absurd trivial himport
  | finishImport =>
      exact ⟨deposits, hsame fun _ => rfl, progress.head_eq, progress.length_eq,
        progress.current, progress.closed, progress.watermark_eq⟩

/-- The claim of an account that was not yet paid ends as it would have ended at the start. -/
theorem ReachableUnder.progress_claim {start : Ledger} {claimants : List Account}
    {deposits : Revenue → Amount} (hreach : system.ReachableUnder shares)
    (hbounded : shares.Bounded) (hstart : start.SharedOut shares)
    (progress : start.Progress shares claimants deposits system.pool.ledger)
    (hcall : call.claimant? = some account) (haccount : account ∉ claimants)
    (hadmits : system.Admits call) :
    receipt? (system.step call).1 = (start.planned? shares account).map ClaimPlan.receipt ∧
      start.Progress shares
        (claimants ++ [account].filter fun account => (start.planned? shares account).isSome)
        deposits (system.step call).2.pool.ledger := by
  have wf := hreach.reachable.wellFormed
  have hshared := hreach.sharedOut hbounded
  have hshares := hreach.agrees.claimable account
  have hplanned := progress.planClaim_eq haccount hstart hshared hbounded hshares
  obtain ⟨now, hpasses, hstep⟩ := step_of_admits hcall hadmits
  rw [hstep]
  cases hplan : system.pool.ledger.planClaim account (system.env.stakes.shareOn account) with
  | error fault =>
      have hnone : start.planned? shares account = none := by
        rw [Ledger.planned?, ← hplanned, hplan]
        rfl
      -- no other order could have paid this account
      rw [claim_of_planClaim_error hpasses.1 hplan, hnone,
        List.filter_cons_of_neg (by simp [hnone]), List.filter_nil, List.append_nil]
      exact ⟨rfl, progress⟩
  | ok plan =>
      obtain ⟨ledger, hcommit, hclaim⟩ := claim_of_passes hpasses hplan
      have hsome : start.planned? shares account = some plan := by
        rw [Ledger.planned?, ← hplanned, hplan]
        rfl
      rw [hclaim, hsome, List.filter_cons_of_pos (by simp [hsome]), List.filter_nil]
      exact ⟨rfl, progress.claim wf haccount hshared hbounded hshares hplan hcommit⟩

theorem receipts_cons (system : System) (call : Call) (calls : List Call) :
    system.receipts (call :: calls) =
      (receipt? (system.step call).1).toList ++ (system.step call).2.receipts calls := by
  show ((system.step call).1 :: ((system.step call).2.run calls).1).filterMap receipt? = _
  rw [List.filterMap_cons]
  cases receipt? (system.step call).1 <;> rfl

theorem receipt?_of_no_claimant (hcall : call.claimant? = none) :
    receipt? (system.step call).1 = none := by
  have hposting := step_posting system call
  cases hresult : (system.step call).1 with
  | error fault => rfl
  | ok reply =>
      cases reply with
      | claimed receipt =>
          rw [hresult] at hposting
          obtain ⟨_, _, _, _, hclaimant, _⟩ := hposting.of_claimed
          cases hclaimant.symm.trans hcall
      | _ => rfl

/-- What calls between two closes pay, and where they end, in terms of the ledger at the start. -/
theorem ReachableUnder.progress_run {start : Ledger} (hbounded : shares.Bounded)
    (hstart : start.SharedOut shares) {calls : List Call} {claimants : List Account}
    {deposits : Revenue → Amount} (hreach : system.ReachableUnder shares)
    (hbetween : system.Between shares calls) (hdistinct : (calls.filterMap Call.claimant?).Nodup)
    (hnew : ∀ account ∈ calls.filterMap Call.claimant?, account ∉ claimants)
    (progress : start.Progress shares claimants deposits system.pool.ledger) :
    system.receipts calls =
        (calls.filterMap Call.claimant?).filterMap (fun account =>
          (start.planned? shares account).map ClaimPlan.receipt) ∧
      ∃ more : Revenue → Amount,
        (∀ revenue, (more revenue : Int) = deposits revenue + system.inflow revenue calls) ∧
          start.Progress shares
            (claimants ++ (calls.filterMap Call.claimant?).filter fun account =>
              (start.planned? shares account).isSome)
            more (system.run calls).2.pool.ledger := by
  -- the start stays fixed while the accounts that were paid and the deposits grow along the calls
  induction calls generalizing system claimants deposits with
  | nil =>
      refine ⟨rfl, deposits, fun revenue => (add_zero _).symm, ?_⟩
      rw [List.filterMap_nil, List.filter_nil, List.append_nil]
      exact progress
  | cons call calls ih =>
      obtain ⟨himport, hadmits, hopen, hagrees, hbetween⟩ := hbetween
      have hnext := hreach.step himport hagrees
      have hinflow : ∀ revenue, system.inflow revenue (call :: calls) =
          system.pool.ledger.inflow revenue call (system.step call).1 +
            (system.step call).2.inflow revenue calls := fun _ => rfl
      rw [receipts_cons]
      cases hcall : call.claimant? with
      | none =>
          rw [List.filterMap_cons_none hcall] at hdistinct hnew ⊢
          obtain ⟨more, hmore, hprogress⟩ := progress_posting (step_posting system call) progress
            hreach.reachable.wellFormed.toAligned hcall himport hopen
          obtain ⟨hpaid, last, hlast, hend⟩ := ih hnext hbetween hdistinct hnew hprogress
          rw [receipt?_of_no_claimant hcall]
          refine ⟨hpaid, last, fun revenue => ?_, hend⟩
          rw [hlast, hmore, hinflow, add_assoc]
      | some account =>
          rw [List.filterMap_cons_some hcall] at hdistinct hnew ⊢
          obtain ⟨hother, hdistinct⟩ := List.nodup_cons.mp hdistinct
          obtain ⟨haccount, hnew⟩ := List.forall_mem_cons.mp hnew
          obtain ⟨hreceipt, hprogress⟩ :=
            hreach.progress_claim hbounded hstart progress hcall haccount hadmits
          have hstill : ∀ later ∈ calls.filterMap Call.claimant?, later ∉ claimants ++
              [account].filter fun account => (start.planned? shares account).isSome := by
            intro later hlater hmem
            rcases List.mem_append.mp hmem with hold | hnow
            · exact hnew later hlater hold
            · exact hother (List.mem_singleton.mp (List.mem_of_mem_filter hnow) ▸ hlater)
          obtain ⟨hpaid, last, hlast, hend⟩ := ih hnext hbetween hdistinct hstill hprogress
          rw [← List.singleton_append, List.filter_append, ← List.append_assoc, hreceipt, hpaid]
          refine ⟨?_, last, fun revenue => ?_, hend⟩
          · rw [List.filterMap_append]
            cases hplanned : start.planned? shares account <;> simp [hplanned]
          · have hneutral := Call.neutral_of_claimant hcall
            rw [hlast, hinflow, Ledger.inflow_of_neutral hneutral, zero_add]

/-- Claims do not depend on who claimed first.  A claim that succeeds pays, from each closed period
above the watermark of its account, exactly the share of what the period has collected, rounded
down, and what is left always covers it.  So two ways to make the claims of different accounts
between two closes, with the same deposits, pay each account the same and end in the same window
and watermarks. -/
theorem ReachableUnder.pays_what_is_due (hreach : system.ReachableUnder shares)
    (hbounded : shares.Bounded) :
    (∀ call receipt, (system.step call).1 = .ok (.claimed receipt) →
      call.claimant? = some receipt.account ∧
        (∀ row ∈ system.pool.ledger.claimable receipt.account, ∀ revenue,
          (row.2.pot revenue).due (shares receipt.account row.2.id) ≤
            (row.2.pot revenue).unclaimed) ∧
        (∀ revenue,
          receipt.of revenue = ((system.pool.ledger.claimable receipt.account).map fun row =>
            (row.2.pot revenue).due (shares receipt.account row.2.id)).sum ∧
          (system.step call).2.env.treasury.paidTo receipt.account revenue.asset =
            system.env.treasury.paidTo receipt.account revenue.asset + receipt.of revenue) ∧
        ∀ index, (system.step call).2.pool.ledger.window.recent index =
          (system.pool.ledger.window.recent index).claim
            (system.pool.ledger.owed shares receipt.account index .fees)
            (system.pool.ledger.owed shares receipt.account index .rewards)) ∧
      ∀ first second, system.Between shares first → system.Between shares second →
        (first.filterMap Call.claimant?).Nodup →
        (first.filterMap Call.claimant?).Perm (second.filterMap Call.claimant?) →
        (∀ revenue, system.inflow revenue first = system.inflow revenue second) →
        (system.receipts first).Perm (system.receipts second) ∧
          (system.run first).2.pool.ledger.window = (system.run second).2.pool.ledger.window ∧
          (system.run first).2.pool.ledger.watermarks =
            (system.run second).2.pool.ledger.watermarks := by
  refine ⟨fun call receipt hclaim => hreach.claim_pays hbounded hclaim, ?_⟩
  intro first second hfirst hsecond hdistinct hperm hinflow
  have hshared := hreach.sharedOut hbounded
  have hnone : ∀ accounts : List Account, ∀ account ∈ accounts, account ∉ ([] : List Account) :=
    fun _ _ _ => List.not_mem_nil
  obtain ⟨hpaid, deposits, hdeposits, hend⟩ := hreach.progress_run hbounded hshared hfirst hdistinct
    (hnone _) (.refl system.pool.ledger)
  obtain ⟨hpaid', deposits', hdeposits', hend'⟩ := hreach.progress_run hbounded hshared hsecond
    (hperm.nodup_iff.mp hdistinct) (hnone _) (.refl system.pool.ledger)
  -- what was paid does not tell the orders apart, but what was put in must be the same
  have hsame : deposits = deposits' := by
    funext revenue
    have hequal : (deposits revenue : Int) = deposits' revenue := by
      rw [hdeposits, hdeposits', hinflow]
    exact Int.ofNat_inj.mp hequal
  rw [← hsame] at hend'
  have aligned := (hreach.reachable.run first).wellFormed.toAligned
  rw [hpaid, hpaid']
  exact ⟨hperm.filterMap _, hend.unique aligned hend' (hperm.filter _)⟩

/-- Two accounts, of which one holds a third. -/
def thirdAndRest : Tally :=
  (Tally.empty.set .zero 1).set other 2

def thirds : Shares :=
  fun account _ => Stakes.partOf thirdAndRest account

theorem bounded_thirds : thirds.Bounded :=
  fun _ accounts => Stakes.sum_partOf_le thirdAndRest accounts

theorem agrees_thirds
    (htaken : ∀ row ∈ system.pool.ledger.window.closed,
      system.env.stakes.pinned[row.2.id]? = none ∧
        system.env.stakes.snapshots[row.2.id]? = some thirdAndRest) :
    system.Agrees thirds := by
  intro row hrow account
  obtain ⟨hpinned, hsnapshot⟩ := htaken row hrow
  simp [Stakes.shareOn, Stakes.pinnedShare?, hpinned, hsnapshot, thirds]

/-- Stakes are taken, and a period that has collected ten closes. -/
def callsToTwoOwed : List Call :=
  [.mint .zero 1, .mint other 2, .fee 10, .closeRelayed .zero 7 0,
    .around (.rate Defaults.collateralCurrency 0)]

/-- A pool in which two accounts can claim from one closed period. -/
def twoOwed : System :=
  (twoSlots.run callsToTwoOwed).2

theorem reachableUnder_twoOwed : twoOwed.ReachableUnder thirds := by
  have hcreated : twoSlots.ReachableUnder thirds :=
    .created (show Pool.create twoSlots.pool.settings 0 = .ok twoSlots.pool from rfl)
  have hcalls : ∀ call ∈ callsToTwoOwed, ¬ call.Imports := by simp [callsToTwoOwed, Call.Imports]
  have htaken : ∀ before ∈ callsToTwoOwed.inits,
      ∀ row ∈ (twoSlots.run before).2.pool.ledger.window.closed,
        (twoSlots.run before).2.env.stakes.pinned[row.2.id]? = none ∧
          (twoSlots.run before).2.env.stakes.snapshots[row.2.id]? = some thirdAndRest := by
    decide
  exact hcreated.run hcalls fun before hbefore => agrees_thirds (htaken before hbefore)

def smallerFirst : List Call :=
  [.claim .zero 0, .fee 3, .claim other 0]

def largerFirst : List Call :=
  [.fee 3, .claim other 0, .claim .zero 0]

theorem between_smallerFirst : twoOwed.Between thirds smallerFirst :=
  ⟨id, ⟨rfl, rfl⟩, nofun, agrees_thirds (by decide),
    id, trivial, nofun, agrees_thirds (by decide),
    id, ⟨rfl, rfl⟩, nofun, agrees_thirds (by decide), trivial⟩

theorem between_largerFirst : twoOwed.Between thirds largerFirst :=
  ⟨id, trivial, nofun, agrees_thirds (by decide),
    id, ⟨rfl, rfl⟩, nofun, agrees_thirds (by decide),
    id, ⟨rfl, rfl⟩, nofun, agrees_thirds (by decide), trivial⟩

/-- Two accounts claim in either order.  In one of them a fee comes in between. -/
theorem pays_what_is_due_twoOwed :
    twoOwed.ReachableUnder thirds ∧ thirds.Bounded ∧
      twoOwed.Between thirds smallerFirst ∧ twoOwed.Between thirds largerFirst ∧
      (twoOwed.step (.claim .zero 0)).2.env.treasury.paidTo .zero Revenue.fees.asset =
        twoOwed.env.treasury.paidTo .zero Revenue.fees.asset + 3 ∧
      (twoOwed.receipts smallerFirst).map Receipt.fees = [3, 6] ∧
      (twoOwed.receipts smallerFirst).Perm (twoOwed.receipts largerFirst) ∧
      (twoOwed.run smallerFirst).2.pool.ledger.window =
        (twoOwed.run largerFirst).2.pool.ledger.window ∧
      (twoOwed.run smallerFirst).2.pool.ledger.watermarks =
        (twoOwed.run largerFirst).2.pool.ledger.watermarks := by
  obtain ⟨hpays, horder⟩ := reachableUnder_twoOwed.pays_what_is_due bounded_thirds
  have hclaim : (twoOwed.step (.claim .zero 0)).1 = .ok (.claimed
      { account := .zero, fees := 3, rewards := 0, through := 1, periods := [1] }) := rfl
  obtain ⟨_, _, hpaid, _⟩ := hpays _ _ hclaim
  refine ⟨reachableUnder_twoOwed, bounded_thirds, between_smallerFirst, between_largerFirst,
    (hpaid .fees).2, by decide, ?_⟩
  have hclaimants : (smallerFirst.filterMap Call.claimant?).Perm
      (largerFirst.filterMap Call.claimant?) :=
    .swap other .zero []
  have hinflow : ∀ revenue,
      twoOwed.inflow revenue smallerFirst = twoOwed.inflow revenue largerFirst := by
    intro revenue
    cases revenue <;> decide
  exact horder smallerFirst largerFirst between_smallerFirst between_largerFirst (by decide)
    hclaimants hinflow

end System

end FeeDistribution
