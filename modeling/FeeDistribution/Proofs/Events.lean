import FeeDistribution.Proofs.Approvals
import FeeDistribution.Proofs.RewardCalls
import FeeDistribution.Proofs.FailedClaims
import FeeDistribution.Proofs.FailedCalls
import FeeDistribution.Proofs.NewestEvents

/-!
# What an event tells

An event says of a step what was paid, closed, taken in, approved or removed by it.  Each of these is
a function of the event alone (`Event.payments`, `Event.closed?`, `Event.notified`, `Event.mark?`),
and `Tells` says that a list of events and a stretch of a run agree in all of them.  The relation
composes, and every call of the pool is told by the events it records (`System.step_told`).

The journal is bounded, so an agreement is only claimed for what it could hold: the field
`Tells.journal` speaks of stretches in which no event was dropped.
-/

namespace FeeDistribution

namespace Event

/-- The payments that an event tells of; a leg of zero was not paid. -/
def payments : Event → Payments
  | feesClaimed account fees rewards =>
    (if 0 < fees then [(account, { asset := .fees, amount := fees })] else []) ++
      if 0 < rewards then [(account, { asset := .rewards, amount := rewards })] else []
  | rewardPaid account amount => [(account, { asset := .liquidationRewards, amount })]
  | _ => []

/-- The period whose close an event tells of. -/
def closed? : Event → Option PeriodId
  | periodClosed id => some id
  | _ => none

/-- The inflow of the reward stream that an event tells of. -/
def notified : Event → Amount
  | rewardsNotified amount _ => amount
  | _ => 0

/-- What an event tells about the approval of a delegate by an owner: that it was given, or that it
was taken away. -/
def mark? (owner delegate : Account) : Event → Option Bool
  | delegateApproved giver receiver =>
    if giver = owner ∧ receiver = delegate then some true else none
  | delegateRemoved giver receiver =>
    if giver = owner ∧ receiver = delegate then some false else none
  | _ => none

end Event

theorem ClaimPlan.payments_legs (plan : ClaimPlan) (account : Account) :
    (plan.legs.map fun leg => (account, leg)) =
      (Event.feesClaimed account plan.fees plan.rewards).payments := by
  unfold legs Event.payments
  by_cases hfees : 0 < plan.fees <;> by_cases hrewards : 0 < plan.rewards <;>
    simp [hfees, hrewards]

/-! ## The answers of a run -/

/-- The period that a call has closed, read off its answer. -/
def closedBy : Except Fault Reply → Option PeriodId
  | .ok (.closed outcome) => some outcome.closed
  | _ => none

/-- The events that a call has drained, read off its answer. -/
def drainedBy : Except Fault Reply → List Event
  | .ok (.events events) => events
  | _ => []

/-! ## The journal -/

namespace Journal

variable {journal : Journal} {event : Event}

/-- An event for which no other was dropped comes last. -/
theorem events_emit (hkept : (journal.emit event).dropped = journal.dropped) :
    (journal.emit event).events = journal.events ++ [event] := by
  unfold emit at hkept ⊢
  split
  · rename_i hfull
    rw [if_pos hfull] at hkept
    exact absurd hkept (Nat.succ_ne_self _)
  · rfl

end Journal

/-! ## Stretches of a run -/

/-- The events tell what happened between two systems, while calls gave these results. -/
structure Tells (system : System) (results : List (Except Fault Reply)) (events : List Event)
    (next : System) : Prop where
  payments : next.env.treasury.payments =
    system.env.treasury.payments ++ events.flatMap Event.payments
  closed : events.filterMap Event.closed? = results.filterMap closedBy
  notified : next.pool.rewards.notified =
    system.pool.rewards.notified + (events.map Event.notified).sum
  /-- An approval is only given where there is none, and only taken away where there is one. -/
  marks : ∀ owner delegate,
    (system.pool.delegation.allows owner delegate ::
      events.filterMap (Event.mark? owner delegate)).IsChain (· ≠ ·)
  allows : ∀ owner delegate, next.pool.delegation.allows owner delegate =
    (events.filterMap (Event.mark? owner delegate)).getLast?.getD
      (system.pool.delegation.allows owner delegate)
  dropped_le : system.pool.journal.dropped ≤ next.pool.journal.dropped
  journal : next.pool.journal.dropped = system.pool.journal.dropped →
    system.pool.journal.events ++ events = results.flatMap drainedBy ++ next.pool.journal.events

namespace Tells

variable {system middle next : System} {results others : List (Except Fault Reply)}
  {events more : List Event} {result : Except Fault Reply} {event : Event}

theorem refl : Tells system [] [] system where
  payments := (List.append_nil _).symm
  closed := rfl
  notified := rfl
  marks _ _ := .singleton _
  allows _ _ := rfl
  dropped_le := Nat.le_refl _
  journal _ := List.append_nil _

theorem append (hfirst : Tells system results events middle)
    (hsecond : Tells middle others more next) :
    Tells system (results ++ others) (events ++ more) next where
  payments := by
    rw [hsecond.payments, hfirst.payments, List.flatMap_append, List.append_assoc]
  closed := by
    rw [List.filterMap_append, List.filterMap_append, hfirst.closed, hsecond.closed]
  notified := by
    rw [hsecond.notified, hfirst.notified, List.map_append, List.sum_append, Nat.add_assoc]
  marks owner delegate := by
    have hmarks := hfirst.marks owner delegate
    have hmore := hsecond.marks owner delegate
    rw [hfirst.allows] at hmore
    rw [List.filterMap_append, ← List.cons_append]
    refine hmarks.append hmore.tail fun last hlast head hhead => ?_
    rw [List.getLast?_cons, Option.mem_some_iff] at hlast
    exact hlast ▸ hmore.rel_head? hhead
  allows owner delegate := by
    rw [hsecond.allows, hfirst.allows, List.filterMap_append, List.getLast?_append]
    cases (more.filterMap (Event.mark? owner delegate)).getLast? <;> rfl
  dropped_le := hfirst.dropped_le.trans hsecond.dropped_le
  journal := by
    intro hkept
    have hle := hfirst.dropped_le
    have hle' := hsecond.dropped_le
    have hfirstKept := hfirst.journal (by omega)
    have hsecondKept := hsecond.journal (by omega)
    rw [← List.append_assoc, hfirstKept, List.append_assoc, hsecondKept, List.flatMap_append,
      List.append_assoc]

/-- A call that no event tells of. -/
theorem silent (hclosed : closedBy result = none)
    (hpayments : next.env.treasury.payments = system.env.treasury.payments)
    (hnotified : next.pool.rewards.notified = system.pool.rewards.notified)
    (hallows : ∀ owner delegate, next.pool.delegation.allows owner delegate =
      system.pool.delegation.allows owner delegate)
    (hdropped : next.pool.journal.dropped = system.pool.journal.dropped)
    (hjournal : system.pool.journal.events = drainedBy result ++ next.pool.journal.events) :
    Tells system [result] [] next where
  payments := by rw [hpayments]; exact (List.append_nil _).symm
  closed := by simp [hclosed]
  notified := hnotified
  marks _ _ := .singleton _
  allows := hallows
  dropped_le := hdropped.ge
  journal _ := by simpa using hjournal

/-- A call that records one event. -/
theorem recorded (hdrained : drainedBy result = []) (hclosed : closedBy result = event.closed?)
    (hpayments : next.env.treasury.payments =
      system.env.treasury.payments ++ event.payments)
    (hnotified : next.pool.rewards.notified = system.pool.rewards.notified + event.notified)
    (hallows : ∀ owner delegate, next.pool.delegation.allows owner delegate =
      (event.mark? owner delegate).getD (system.pool.delegation.allows owner delegate))
    (hmark : ∀ owner delegate, ∀ mark ∈ event.mark? owner delegate,
      system.pool.delegation.allows owner delegate ≠ mark)
    (hjournal : next.pool.journal = system.pool.journal.emit event) :
    Tells system [result] [event] next where
  payments := by simpa using hpayments
  closed := by cases hevent : event.closed? <;> simp [hclosed, hevent]
  notified := by simpa using hnotified
  marks owner delegate := by
    have hother := hmark owner delegate
    cases hevent : event.mark? owner delegate with
    | none => simp [hevent]
    | some mark => simpa [hevent] using hother mark hevent
  allows owner delegate := by
    rw [hallows]
    cases hevent : event.mark? owner delegate <;> simp [hevent]
  dropped_le := hjournal ▸ Journal.dropped_le_emit
  journal := by
    intro hkept
    rw [hjournal] at hkept ⊢
    rw [Journal.events_emit hkept]
    simp [hdrained]

end Tells

/-! ## The reward stream -/

namespace Rewards

variable {rewards next : Rewards} {supply amount : Amount} {inflow : Inflow}

theorem notified_notify (hnotify : rewards.notify supply amount = .ok (inflow, next)) :
    next.notified = rewards.notified + amount := by
  have hinflow := (notify_ok hnotify).2.notified_eq
  rw [Nat.add_assoc] at hinflow
  rw [Nat.add_comm, Nat.add_left_cancel hinflow]

theorem notified_distributePending
    (hpending : rewards.distributePending supply = .ok (inflow, next)) :
    next.notified = rewards.notified := by
  rcases distributePending_ok hpending with ⟨_, _, rfl⟩ | ⟨_, htakes⟩
  · rfl
  · exact (Nat.add_left_cancel htakes.notified_eq).symm

theorem notified_beforeChange {stakes : Stakes} {account : Account}
    (hupdate : rewards.beforeChange stakes account = .ok next) :
    next.notified = rewards.notified := by
  simp only [beforeChange, update, Fallible.bind_eq_ok, Fallible.pure_eq_ok] at hupdate
  obtain ⟨_, ⟨_, _, rfl⟩, rfl⟩ := hupdate
  rfl

theorem notified_mint (rewards : Rewards) (stakes : Stakes) (account : Account) (amount : Amount) :
    (rewards.mint stakes account amount).2.1.notified = rewards.notified := by
  unfold mint
  split
  · rfl
  · rename_i hupdate
    split <;> exact notified_beforeChange hupdate

theorem notified_burn (rewards : Rewards) (stakes : Stakes) (account : Account) (amount : Amount) :
    (rewards.burn stakes account amount).2.1.notified = rewards.notified := by
  unfold burn
  split
  · rfl
  · split
    · rfl
    · rename_i hupdate
      exact notified_beforeChange hupdate

/-- A settlement pays what it answers, and a settlement of zero pays nothing. -/
theorem settle_pays (rewards : Rewards) (treasury : Treasury) (account : Account)
    (balance : Amount) :
    (rewards.settle treasury account balance).2.1.notified = rewards.notified ∧
      (rewards.settle treasury account balance).2.2.payments =
        treasury.payments ++
          match (rewards.settle treasury account balance).1 with
          | .ok paid => if 0 < paid then (Event.rewardPaid account paid).payments else []
          | .error _ => [] := by
  cases hearned : rewards.earned account balance with
  | error fault =>
      rw [settle_of_earned_error hearned]
      exact ⟨rfl, (List.append_nil _).symm⟩
  | ok claimable =>
      have hupdate := update_eq_ok.mpr ⟨hearned, rfl⟩
      simp only [settle, hupdate]
      split
      · exact ⟨rfl, (List.append_nil _).symm⟩
      · rename_i hpayout
        split
        · exact ⟨rfl, (List.append_nil _).symm⟩
        · unfold Treasury.pay
          cases treasury.refusing with
          | true => exact ⟨rfl, (List.append_nil _).symm⟩
          | false =>
              simp only [Bool.false_eq_true, if_false, if_pos (Nat.pos_of_ne_zero hpayout)]
              exact ⟨rfl, rfl⟩

end Rewards

/-! ## Calls -/

namespace System

variable {α : Type} {system : System} {call : Call} {fault : Fault}

/-- Some events tell of a call with this outcome. -/
def Told (system : System) (outcome : Except Fault Reply × System) : Prop :=
  ∃ events, Tells system [outcome.1] events outcome.2

/-- A call that touches nothing of which an event could tell. -/
theorem told_of_same {outcome : Except Fault Reply × System} (hclosed : closedBy outcome.1 = none)
    (hdrained : drainedBy outcome.1 = [])
    (hpayments : outcome.2.env.treasury.payments = system.env.treasury.payments)
    (hnotified : outcome.2.pool.rewards.notified = system.pool.rewards.notified)
    (hdelegation : outcome.2.pool.delegation = system.pool.delegation)
    (hjournal : outcome.2.pool.journal = system.pool.journal) : system.Told outcome :=
  ⟨[], .silent hclosed hpayments hnotified (fun _ _ => by rw [hdelegation]) (congrArg _ hjournal)
    (by rw [hdrained, hjournal]; rfl)⟩

theorem told_onPool {change : Pool → Except Fault (α × Pool)} {wrap : α → Reply}
    (hchange : ∀ answer pool, change system.pool = .ok (answer, pool) →
      system.Told (.ok (wrap answer), system.withPool pool)) :
    system.Told (reply wrap (system.onPool change)) := by
  unfold onPool
  cases hresult : change system.pool with
  | error fault => exact told_of_same rfl rfl rfl rfl rfl rfl
  | ok changed => exact hchange changed.1 changed.2 hresult

theorem told_configure {caller : Account} {check : Except Fault Unit}
    {change : Settings → Settings} :
    system.Told (reply .ofUnit (system.configure caller check change)) := by
  refine told_onPool fun answer pool hresult => ?_
  simp only [Fallible.bind_eq_ok, Fallible.pure_eq_ok] at hresult
  obtain ⟨_, _, _, _, heq⟩ := hresult
  cases heq
  exact told_of_same rfl rfl rfl rfl rfl rfl

theorem told_close (hcall : call.Closes) : system.Told (system.step call) := by
  rcases close_cases hcall with
    ⟨_, hstep⟩ | ⟨_, hstep⟩ | ⟨plan, start, outcome, _, hcommit, hstep⟩ <;> rw [hstep]
  · exact told_of_same rfl rfl rfl rfl rfl rfl
  · exact told_of_same rfl rfl rfl rfl rfl rfl
  · obtain rfl := (Ledger.commitClose_ok hcommit).2.1
    exact ⟨[.periodClosed outcome.closed], .recorded rfl rfl (List.append_nil _).symm rfl
      (fun _ _ => rfl) nofun rfl⟩

theorem told_claim {account : Account} {now : Timestamp} :
    system.Told (reply .claimed (system.claim account now)) := by
  rcases system.claim_cases account now with
    ⟨_, _, hclaim⟩ | ⟨plan, _, _, _, ⟨_, hclaim⟩ | ⟨_, hclaim⟩⟩ <;> rw [hclaim]
  · exact told_of_same rfl rfl rfl rfl rfl rfl
  · exact told_of_same rfl rfl rfl rfl rfl rfl
  · exact ⟨[.feesClaimed account plan.fees plan.rewards], .recorded rfl rfl
      (congrArg (system.env.treasury.payments ++ ·) (plan.payments_legs account)) rfl
      (fun _ _ => rfl) nofun rfl⟩

/-- A change of an approval that stood otherwise before is recorded. -/
theorem told_delegation (owner delegate : Account) (standing : Bool) {delegation : Delegation}
    {event : Event} {changed : Bool}
    (hchanged : changed = true ↔ system.pool.delegation.allows owner delegate ≠ standing)
    (hclosed : event.closed? = none) (hpayments : event.payments = [])
    (hnotified : event.notified = 0)
    (hmark : ∀ giver receiver, event.mark? giver receiver =
      if owner = giver ∧ delegate = receiver then some standing else none)
    (hallows : ∀ giver receiver, delegation.allows giver receiver =
      if owner = giver ∧ delegate = receiver then standing
      else system.pool.delegation.allows giver receiver) :
    system.Told (.ok .done, system.withPool
      (if changed then { system.pool with delegation }.emit event
        else { system.pool with delegation })) := by
  cases changed with
  | true =>
      refine ⟨[event], .recorded rfl hclosed.symm ?_ ?_ ?_ ?_ rfl⟩
      · rw [hpayments]
        exact (List.append_nil _).symm
      · rw [hnotified]
        rfl
      · intro giver receiver
        rw [hmark]
        refine (hallows giver receiver).trans ?_
        split <;> rfl
      · intro giver receiver mark hmarked
        rw [hmark, Option.mem_def, Option.ite_none_right_eq_some] at hmarked
        obtain ⟨⟨rfl, rfl⟩, hstanding⟩ := hmarked
        cases hstanding
        exact hchanged.mp rfl
  | false =>
      have hstood : system.pool.delegation.allows owner delegate = standing := by
        by_contra hother
        exact Bool.false_ne_true (hchanged.mpr hother)
      have hsame : ∀ giver receiver, delegation.allows giver receiver =
          system.pool.delegation.allows giver receiver := by
        intro giver receiver
        rw [hallows]
        split
        · rename_i hpair
          rw [← hpair.1, ← hpair.2, hstood]
        · rfl
      exact ⟨[], .silent rfl rfl rfl hsame rfl rfl⟩

theorem told_approve (owner delegate : Account) :
    system.Told (system.step (.approve owner delegate)) :=
  told_delegation owner delegate true (by simp) rfl rfl rfl
    (fun _ _ => rfl) fun _ _ => Delegation.allows_approve

theorem told_removeDelegate (owner delegate : Account) :
    system.Told (system.step (.removeDelegate owner delegate)) :=
  told_delegation owner delegate false (by simp) rfl rfl rfl
    (fun _ _ => rfl) fun _ _ => Delegation.allows_remove

theorem told_settle {account : Account} :
    system.Told (reply .paid (system.settle account)) := by
  obtain ⟨hnotified, hpayments⟩ := system.pool.rewards.settle_pays system.env.treasury account
    (system.env.stakes.balance account)
  unfold settle
  generalize system.pool.rewards.settle system.env.treasury account
    (system.env.stakes.balance account) = settled at hnotified hpayments ⊢
  obtain ⟨result, rewards, treasury⟩ := settled
  cases result with
  | error fault =>
      exact told_of_same rfl rfl (hpayments.trans (List.append_nil _)) hnotified rfl rfl
  | ok paid =>
      dsimp only at hpayments ⊢
      split at hpayments
      · rename_i hpaid
        rw [if_pos hpaid]
        exact ⟨[.rewardPaid account paid], .recorded rfl rfl hpayments hnotified
          (fun _ _ => rfl) nofun rfl⟩
      · rename_i hpaid
        rw [if_neg hpaid]
        exact told_of_same rfl rfl (hpayments.trans (List.append_nil _)) hnotified rfl rfl

theorem told_around {change : Change} (hcall : ¬ (Call.around change).Foreign) :
    system.Told (system.step (.around change)) := by
  cases change with
  | pay account legs => exact absurd ⟨account, legs, rfl⟩ hcall
  | burn amount =>
      rcases system.env.treasury.burn_cases amount with
        ⟨fault, hburn⟩ | ⟨_, hburn⟩ | hburn <;>
        simp only [step, Environment.apply, Environment.burn, hburn] <;>
        exact told_of_same rfl rfl rfl rfl rfl rfl
  | _ => exact told_of_same rfl rfl rfl rfl rfl rfl

end System

end FeeDistribution
