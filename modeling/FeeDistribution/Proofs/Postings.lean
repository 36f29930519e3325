import FeeDistribution.Proofs.Closes

/-!
# What a call does to the books

Of the many calls of a pool only a few touch its ledger or the record of payments.  `Posting` lists
what may happen to the two, and `step_posting` shows that a call does nothing else.  The entry
points are opened here once; statements about a step are then proved by the cases of `Posting`.

An entry point that fails leaves the ledger as it was, with one exception: a claim that was refused
by the treasury has been carried out and undone (`Posting.unpaid`).
-/

namespace FeeDistribution

/-- The payments on record, oldest first. -/
abbrev Payments := List (Account × Payout)

namespace Call

/-- The account for which a call claims. -/
def claimant? : Call → Option Account
  | claim account _ => some account
  | claimOnBehalf account _ _ => some account
  | _ => none

/-- Whether a call brings no revenue into the window. -/
def Neutral : Call → Prop
  | fee _ | reward _ | importPeriod _ _ _ => False
  | _ => True

theorem neutral_of_claimant {call : Call} {account : Account}
    (hcall : call.claimant? = some account) : call.Neutral := by
  cases call <;> trivial

theorem neutral_of_closes {call : Call} (hcall : call.Closes) : call.Neutral := by
  cases call <;> trivial

end Call

/-- What a call does to a ledger and to the payments on record, and with what result. -/
inductive Posting (ledger : Ledger) (payments : Payments) :
    Call → Except Fault Reply → Ledger → Payments → Prop where
  | refused {call : Call} {fault : Fault} :
      Posting ledger payments call (.error fault) ledger payments
  /-- The call succeeds elsewhere in the pool or around it. -/
  | aside {call : Call} {reply : Reply} (hcall : call.Neutral)
      (hreply : ∀ receipt, reply ≠ .claimed receipt) :
      Posting ledger payments call (.ok reply) ledger payments
  /-- The reward stream pays. -/
  | settled {account : Account} {amount : Amount} :
      Posting ledger payments (.settle account) (.ok (.paid amount)) ledger
        (payments ++ [(account, { asset := .liquidationRewards, amount })])
  /-- Somebody else pays. -/
  | outside {account : Account} {legs : List Payout} :
      Posting ledger payments (.around (.pay account legs)) (.ok .done) ledger
        (payments ++ legs.map fun leg => (account, leg))
  | fee {amount : Amount} {next : Ledger} (hrecord : ledger.recordFee amount = .ok next) :
      Posting ledger payments (.fee amount) (.ok .done) next payments
  | reward {amount : Amount} {next : Ledger} (hrecord : ledger.recordReward amount = .ok next) :
      Posting ledger payments (.reward amount) (.ok .done) next payments
  | closed {call : Call} {plan : ClosePlan} {start : Timestamp} {outcome : CloseOutcome}
      {next : Ledger} (hcall : call.Neutral)
      (hcommit : ledger.commitClose plan start = .ok (outcome, next)) :
      Posting ledger payments call (.ok (.closed outcome)) next payments
  | claimed {call : Call} {account : Account} {shareOn : PeriodId → Amount} {plan : ClaimPlan}
      {previous : PeriodId} {next : Ledger} (hcall : call.claimant? = some account)
      (hplan : ledger.planClaim account shareOn = .ok plan)
      (hcommit : ledger.commitClaim plan = .ok (previous, next)) :
      Posting ledger payments call (.ok (.claimed plan.receipt)) next
        (payments ++ plan.legs.map fun leg => (account, leg))
  /-- A claim is carried out, can not be paid, and is undone. -/
  | unpaid {call : Call} {account : Account} {shareOn : PeriodId → Amount} {plan : ClaimPlan}
      {previous : PeriodId} {next : Ledger} (hcall : call.claimant? = some account)
      (hplan : ledger.planClaim account shareOn = .ok plan)
      (hcommit : ledger.commitClaim plan = .ok (previous, next)) :
      Posting ledger payments call (.error Treasury.refusal) (next.revertClaim plan previous)
        payments
  | importPeriod {caller : Account} {slot : Nat} {period : Period} {next : Ledger}
      (himport : ledger.importPeriod slot period = .ok next) :
      Posting ledger payments (.importPeriod caller slot period) (.ok .done) next payments
  | importWatermark {caller account : Account} {id : PeriodId} {next : Ledger}
      (himport : ledger.importWatermark account id = .ok next) :
      Posting ledger payments (.importWatermark caller account id) (.ok .done) next payments
  | finishImport {caller : Account} :
      Posting ledger payments (.finishImport caller) (.ok .done) ledger.finishImport payments

/-! ## The reward stream -/

/-- A payout of the reward stream is on record if it was made. -/
theorem Rewards.settle_cases (rewards : Rewards) (treasury : Treasury) (account : Account)
    (balance : Amount) :
    (rewards.settle treasury account balance).2.2.payments = treasury.payments ∨
      ∃ paid, (rewards.settle treasury account balance).1 = .ok paid ∧
        (rewards.settle treasury account balance).2.2.payments =
          treasury.payments ++ [(account, { asset := .liquidationRewards, amount := paid })] := by
  unfold settle Treasury.pay
  split
  · exact .inl rfl
  · dsimp only
    split
    · exact .inl rfl
    · split
      · exact .inl rfl
      · split <;> rename_i hpay <;> split at hpay <;> cases hpay
        · exact .inl rfl
        · exact .inr ⟨_, rfl, rfl⟩

namespace System

variable {α : Type} {system : System} {call : Call}

/-! ## Claims -/

theorem stageClaim_ok {account : Account} {now : Timestamp} {plan : ClaimPlan}
    {previous : PeriodId} {ledger : Ledger}
    (hstage : system.stageClaim account now = .ok (plan, previous, ledger)) :
    system.pool.ledger.planClaim account (system.env.stakes.shareOn account) = .ok plan ∧
      system.pool.ledger.commitClaim plan = .ok (previous, ledger) := by
  simp only [stageClaim, Fallible.bind_eq_ok, Fallible.pure_eq_ok] at hstage
  obtain ⟨_, _, _, hplan, ⟨_, _⟩, hcommit, heq⟩ := hstage
  cases heq
  exact ⟨hplan, hcommit⟩

/-- The system with the refusal of the next payment switched on or off. -/
def withRefusing (system : System) (refusing : Bool) : System :=
  { system with env := { system.env with treasury := { system.env.treasury with refusing } } }

/-- The system after a claim was carried out, refused by the treasury and undone. -/
def afterUnpaid (system : System) (plan : ClaimPlan) (previous : PeriodId) (committed : Ledger) :
    System :=
  { system with pool := { system.pool with ledger := committed.revertClaim plan previous } }
    |>.withRefusing false

/-- The system after a claim was carried out and paid. -/
def afterPaid (system : System) (account : Account) (plan : ClaimPlan) (committed : Ledger) :
    System where
  pool :=
    { system.pool with ledger := committed }.emit (.feesClaimed account plan.fees plan.rewards)
  env :=
    { system.env with
      treasury :=
        { system.env.treasury with
          payments :=
            system.env.treasury.payments ++ plan.legs.map fun leg => (account, leg) } }

/-- The three ways in which a claim can end. -/
theorem claim_cases (system : System) (account : Account) (now : Timestamp) :
    (∃ fault, system.stageClaim account now = .error fault ∧
      system.claim account now = (.error fault, system)) ∨
    ∃ plan previous ledger, system.stageClaim account now = .ok (plan, previous, ledger) ∧
      (system.env.treasury.refusing = true ∧
          system.claim account now =
            (.error Treasury.refusal, system.afterUnpaid plan previous ledger) ∨
        system.env.treasury.refusing = false ∧
          system.claim account now = (.ok plan.receipt, system.afterPaid account plan ledger)) := by
  unfold claim
  cases hstage : system.stageClaim account now with
  | error fault => exact .inl ⟨fault, rfl, rfl⟩
  | ok staged =>
      obtain ⟨plan, previous, ledger⟩ := staged
      refine .inr ⟨plan, previous, ledger, rfl, ?_⟩
      cases hrefusing : system.env.treasury.refusing with
      | true =>
          refine .inl ⟨rfl, ?_⟩
          simp [Environment.pay, Treasury.pay, hrefusing, afterUnpaid, withRefusing]
      | false =>
          refine .inr ⟨rfl, ?_⟩
          simp [Environment.pay, Treasury.pay, hrefusing, afterPaid]

/-! ## All calls -/

/-- What a call with this outcome did to the books is listed. -/
def Posts (system : System) (call : Call) (outcome : Except Fault Reply × System) : Prop :=
  Posting system.pool.ledger system.env.treasury.payments call outcome.1 outcome.2.pool.ledger
    outcome.2.env.treasury.payments

/-- A change of the pool does what is listed if it does so when it succeeds. -/
theorem posts_onPool {change : Pool → Except Fault (α × Pool)} {wrap : α → Reply}
    (hchange : ∀ answer pool, change system.pool = .ok (answer, pool) →
      system.Posts call (.ok (wrap answer), system.withPool pool)) :
    system.Posts call (reply wrap (system.onPool change)) := by
  unfold onPool
  cases hresult : change system.pool with
  | error fault => exact .refused
  | ok changed => exact hchange changed.1 changed.2 hresult

/-- A change of the pool that leaves the ledger alone. -/
theorem posts_onPool_aside {change : Pool → Except Fault (α × Pool)} {wrap : α → Reply}
    (hcall : call.Neutral) (hreply : ∀ answer receipt, wrap answer ≠ .claimed receipt)
    (hledger : ∀ answer pool, change system.pool = .ok (answer, pool) →
      pool.ledger = system.pool.ledger) :
    system.Posts call (reply wrap (system.onPool change)) := by
  refine posts_onPool fun answer pool hresult => ?_
  unfold Posts
  rw [withPool, hledger answer pool hresult]
  exact .aside hcall (hreply answer)

theorem posts_configure {caller : Account} {check : Except Fault Unit}
    {change : Settings → Settings} (hcall : call.Neutral) :
    system.Posts call (reply .ofUnit (system.configure caller check change)) := by
  refine posts_onPool_aside hcall (fun _ _ => nofun) fun answer pool hresult => ?_
  simp only [Fallible.bind_eq_ok, Fallible.pure_eq_ok] at hresult
  obtain ⟨_, _, _, _, heq⟩ := hresult
  cases heq
  rfl

theorem posts_close (hcall : call.Closes) : system.Posts call (system.step call) := by
  rcases close_cases hcall with
    ⟨fault, hstep⟩ | ⟨_, hstep⟩ | ⟨plan, start, outcome, _, hcommit, hstep⟩ <;> rw [hstep]
  · exact .refused
  · exact .refused
  · exact .closed (Call.neutral_of_closes hcall) hcommit

theorem posts_claim {account : Account} {now : Timestamp}
    (hcall : call.claimant? = some account) :
    system.Posts call (reply .claimed (system.claim account now)) := by
  rcases system.claim_cases account now with
    ⟨fault, _, hclaim⟩ | ⟨plan, previous, ledger, hstage, ⟨_, hclaim⟩ | ⟨_, hclaim⟩⟩ <;>
    rw [hclaim]
  · exact .refused
  · obtain ⟨hplan, hcommit⟩ := stageClaim_ok hstage
    exact .unpaid hcall hplan hcommit
  · obtain ⟨hplan, hcommit⟩ := stageClaim_ok hstage
    exact .claimed hcall hplan hcommit

theorem posts_settle {account : Account} :
    system.Posts (.settle account) (reply .paid (system.settle account)) := by
  have hcases := system.pool.rewards.settle_cases system.env.treasury account
    (system.env.stakes.balance account)
  unfold settle
  generalize system.pool.rewards.settle system.env.treasury account
    (system.env.stakes.balance account) = settled at hcases ⊢
  obtain ⟨result, rewards, treasury⟩ := settled
  unfold Posts
  cases result with
  | error fault =>
      show Posting _ _ _ _ _ treasury.payments
      rcases hcases with hpayments | ⟨_, hresult, _⟩
      · rw [hpayments]
        exact .refused
      · cases hresult
  | ok paid =>
      show Posting _ _ _ (.ok (.paid paid)) _ treasury.payments
      have hledger : ∀ pool : Pool, (if 0 < paid then pool.emit (.rewardPaid account paid)
          else pool).ledger = pool.ledger := by
        intro pool
        split <;> rfl
      rw [reply, hledger]
      rcases hcases with hpayments | ⟨_, hresult, hpayments⟩ <;> rw [hpayments]
      · exact .aside trivial nofun
      · cases hresult
        exact .settled

theorem posts_around {change : Change} :
    system.Posts (.around change) (system.step (.around change)) := by
  cases change with
  | pay account legs =>
      unfold Posts step Environment.apply Environment.pay Treasury.pay
      cases system.env.treasury.refusing with
      | true => exact .refused
      | false => exact .outside
  | burn amount =>
      show Posting _ _ _ ((system.env.treasury.burn amount).1.map Reply.ofUnit) _
        (system.env.treasury.burn amount).2.payments
      rcases system.env.treasury.burn_cases amount with
        ⟨fault, hburn⟩ | ⟨_, hburn⟩ | hburn <;> rw [hburn]
      · exact .refused
      · exact .refused
      · exact .aside trivial nofun
  | _ => exact .aside trivial nofun

/-- A change of stakes leaves the books alone. -/
theorem posts_stakes {result : Except Fault Unit} {rewards : Rewards} {stakes : Stakes}
    (hcall : call.Neutral) :
    system.Posts call
      (reply .ofUnit
        (result, { pool := { system.pool with rewards }, env := { system.env with stakes } })) := by
  cases result with
  | error fault => exact .refused
  | ok _ => exact .aside hcall nofun

/-- A change of approvals leaves the books alone. -/
theorem posts_delegation {changed : Bool} {delegation : Delegation} {event : Event}
    (hcall : call.Neutral) :
    system.Posts call
      (.ok .done,
        system.withPool
          (if changed then { system.pool with delegation }.emit event
          else { system.pool with delegation })) := by
  cases changed <;> exact .aside hcall nofun

theorem step_posting (system : System) (call : Call) :
    Posting system.pool.ledger system.env.treasury.payments call (system.step call).1
      (system.step call).2.pool.ledger (system.step call).2.env.treasury.payments := by
  change system.Posts call (system.step call)
  cases call with
  | fee amount =>
      refine posts_onPool fun answer pool hresult => ?_
      obtain ⟨ledger, hrecord, heq⟩ := Fallible.bind_eq_ok.mp hresult
      cases heq
      exact .fee hrecord
  | reward amount =>
      refine posts_onPool fun answer pool hresult => ?_
      obtain ⟨ledger, hrecord, heq⟩ := Fallible.bind_eq_ok.mp hresult
      cases heq
      exact .reward hrecord
  | closeTimed now => exact posts_close trivial
  | closeRelayed caller new start => exact posts_close trivial
  | claim account now => exact posts_claim rfl
  | claimOnBehalf account delegate now =>
      change system.Posts _ (reply .claimed (system.claimOnBehalf account delegate now))
      unfold claimOnBehalf
      split
      · exact posts_claim rfl
      · exact .refused
  | approve owner delegate => exact posts_delegation trivial
  | removeDelegate owner delegate => exact posts_delegation trivial
  | importPeriod caller slot period =>
      refine posts_onPool fun answer pool hresult => ?_
      simp only [Fallible.bind_eq_ok] at hresult
      obtain ⟨_, _, ledger, himport, heq⟩ := hresult
      cases heq
      exact .importPeriod himport
  | importWatermark caller account id =>
      refine posts_onPool fun answer pool hresult => ?_
      simp only [Fallible.bind_eq_ok] at hresult
      obtain ⟨_, _, ledger, himport, heq⟩ := hresult
      cases heq
      exact .importWatermark himport
  | finishImport caller =>
      refine posts_onPool fun answer pool hresult => ?_
      obtain ⟨_, _, heq⟩ := Fallible.bind_eq_ok.mp hresult
      cases heq
      exact .finishImport
  | notify amount =>
      refine posts_onPool_aside trivial (fun _ _ => nofun) fun answer pool hresult => ?_
      obtain ⟨_, _, heq⟩ := Fallible.bind_eq_ok.mp hresult
      cases heq
      rfl
  | distributePending =>
      refine posts_onPool_aside trivial (fun _ _ => nofun) fun answer pool hresult => ?_
      obtain ⟨_, _, heq⟩ := Fallible.bind_eq_ok.mp hresult
      cases heq
      rfl
  | checkpoint account =>
      refine posts_onPool_aside trivial (fun _ _ => nofun) fun answer pool hresult => ?_
      obtain ⟨_, _, heq⟩ := Fallible.bind_eq_ok.mp hresult
      cases heq
      rfl
  | settle account => exact posts_settle
  | mint account amount => exact posts_stakes trivial
  | burn account amount => exact posts_stakes trivial
  | setDuration caller seconds => exact posts_configure trivial
  | setIssuanceRatio caller ratio => exact posts_configure trivial
  | setTargetThreshold caller threshold => exact posts_configure trivial
  | setStalePeriod caller seconds => exact posts_configure trivial
  | setRelayer caller relayer => exact posts_configure trivial
  | drain => exact .aside trivial nofun
  | around change => exact posts_around

end System

end FeeDistribution
