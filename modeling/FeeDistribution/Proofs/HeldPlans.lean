import FeeDistribution.Proofs.SlidingWindow

/-!
# Plans that are held

A ledger plans a claim and commits it in two steps, and anything may happen in between: the plan may
be held while other accounts claim, while fees come in and periods close, and while the account
itself claims by another plan.  This file asks which held plans can still be committed, and whether
an account can spend a period twice in this way.

The commit compares each entitlement with the period in its slot.  A close moves every period to
another slot, so no plan survives a close, and without one a plan can be committed as long as enough
is left (`Session.held_plans`).  The commit does not look at the watermark: a plan that was
*overtaken*, since its account has claimed up to the same period in the meantime, is committed like
any other, and `plan_spent_twice` is a session that commits one plan twice.  Plans that were not
overtaken spend no period that their account has spent before.

## Strategy

`Ledger.Holds` says what a ledger knows of a plan that was made on it earlier: either no period was
closed since and every entitlement still stands in its slot, or one was and every slot of the plan
has a newer period in it; and either the plan lies above the watermark of its account altogether or
it was overtaken.  Each request keeps this for all plans that are held.
-/

namespace FeeDistribution

/-- Whether an entitlement is worth anything. -/
def Entitlement.Nonzero (owed : Entitlement) : Prop :=
  0 < owed.fees ∨ 0 < owed.rewards

/-- The periods from which a plan takes. -/
def ClaimPlan.ids (plan : ClaimPlan) : List PeriodId :=
  plan.entitlements.map Entitlement.id

namespace Ledger

/-! ## Sessions -/

/-- A use of a ledger by itself.  A close is planned and committed at once, or some plan of a close
is committed; a claim is planned at the shares of the moment, and later its plan is committed, if at
all, by its place among the plans held. -/
inductive Request where
  | fee (amount : Amount)
  | reward (amount : Amount)
  | close (new : PeriodId) (start : Timestamp)
  | commitClose (plan : ClosePlan) (start : Timestamp)
  | plan (account : Account) (shareOn : PeriodId → Amount)
  | commit (index : Nat)

/-- A ledger, the plans made on it, all of which are held, and those that were committed, as often
as they were; the newest come first. -/
structure Session where
  ledger : Ledger
  plans : List ClaimPlan := []
  commits : List ClaimPlan := []

namespace Session

/-- Takes over what a request did to the ledger, which is nothing if it failed. -/
def onLedger (session : Session) : Except Fault Ledger → Session
  | .ok ledger => { session with ledger }
  | .error _ => session

/-- Carries out a request. -/
def step (session : Session) : Request → Session
  | .fee amount => session.onLedger (session.ledger.recordFee amount)
  | .reward amount => session.onLedger (session.ledger.recordReward amount)
  | .close new start => session.onLedger ((session.ledger.close new start).map Prod.snd)
  | .commitClose plan start =>
    session.onLedger ((session.ledger.commitClose plan start).map Prod.snd)
  | .plan account shareOn =>
    match session.ledger.planClaim account shareOn with
    | .ok plan => { session with plans := plan :: session.plans }
    | .error _ => session
  | .commit index =>
    match session.plans[index]? with
    | none => session
    | some plan =>
      match session.ledger.commitClaim plan with
      | .ok (_, ledger) => { session with ledger, commits := plan :: session.commits }
      | .error _ => session

/-- Carries out a list of requests, one after the other. -/
def run (session : Session) (requests : List Request) : Session :=
  requests.foldl step session

end Session

/-! ## What is known of a held plan -/

variable {ledger next : Ledger} {account : Account} {shareOn : PeriodId → Amount}
  {plan : ClaimPlan} {previous : PeriodId}

/-- What holds of a plan that was made on a ledger, whatever happened since. -/
structure Holds (ledger : Ledger) (plan : ClaimPlan) : Prop where
  nodup : (plan.entitlements.map Entitlement.slot).Nodup
  nonzero : ∃ owed ∈ plan.entitlements, owed.Nonzero
  slot : ∀ owed ∈ plan.entitlements, 1 ≤ owed.slot ∧ owed.slot < ledger.window.length
  id_ne_zero : ∀ owed ∈ plan.entitlements, owed.id ≠ 0
  id_le : ∀ owed ∈ plan.entitlements, owed.id ≤ plan.through
  through_le : plan.through ≤ (ledger.window.recent 1).id
  /-- Without a close since then the entitlements stand in their slots. -/
  stands : plan.through = (ledger.window.recent 1).id →
    ∀ owed ∈ plan.entitlements, (ledger.window.recent owed.slot).id = owed.id
  /-- After a close they do not. -/
  moved : plan.through ≠ (ledger.window.recent 1).id →
    ∀ owed ∈ plan.entitlements, owed.id < (ledger.window.recent owed.slot).id
  /-- The plan lies above the watermark of its account, or was overtaken. -/
  above : (∀ owed ∈ plan.entitlements, ledger.watermark plan.account < owed.id) ∨
    plan.through ≤ ledger.watermark plan.account

theorem exists_nonzero_of_planClaim (hplan : ledger.planClaim account shareOn = .ok plan) :
    ∃ owed ∈ plan.entitlements, owed.Nonzero := by
  obtain ⟨_, _, hsum, hpositive, _⟩ := planClaim_ok hplan
  by_contra hnone
  simp only [not_exists, not_and, Entitlement.Nonzero, not_or, Nat.not_lt, Nat.le_zero] at hnone
  have hzero : ∀ revenue : Revenue, revenue.select plan.fees plan.rewards = 0 := by
    intro revenue
    rw [← sumEntitlements_ok hsum revenue]
    refine List.sum_eq_zero fun amount hamount => ?_
    obtain ⟨owed, howed, rfl⟩ := List.mem_map.mp hamount
    obtain ⟨hfees, hrewards⟩ := hnone owed howed
    cases revenue <;> assumption
  exact hpositive ⟨hzero .fees, hzero .rewards⟩

theorem holds_of_planClaim (wf : ledger.window.WellFormed)
    (hplan : ledger.planClaim account shareOn = .ok plan) : ledger.Holds plan := by
  obtain ⟨_, hentitlements, _, _, rfl, hthrough⟩ := planClaim_ok hplan
  have hslot : ∀ owed ∈ plan.entitlements, _ := fun owed howed => slot_of_planClaim hplan howed
  exact {
    nodup := nodup_slots hentitlements
    nonzero := exists_nonzero_of_planClaim hplan
    slot := fun owed howed =>
      ⟨(hslot owed howed).1, Window.lt_length_of_filled (hslot owed howed).2.1⟩
    id_ne_zero := fun owed howed => (hslot owed howed).2.2.1 ▸ (hslot owed howed).2.1
    id_le := fun owed howed => (id_of_planClaim wf hplan (List.mem_map_of_mem howed)).2
    through_le := hthrough.le
    stands := fun _ owed howed => (hslot owed howed).2.2.1
    moved := fun hclosed => absurd hthrough hclosed
    above := .inl fun owed howed => (hslot owed howed).2.2.2 }

/-- A plan can be committed if no period was closed since it was made and enough is left. -/
theorem Holds.exists_commitClaim (hholds : ledger.Holds plan) :
    (∃ answer, ledger.commitClaim plan = .ok answer) ↔
      plan.through = (ledger.window.recent 1).id ∧ ∀ owed ∈ plan.entitlements,
        owed.fees ≤ (ledger.window.recent owed.slot).fees.unclaimed ∧
          owed.rewards ≤ (ledger.window.recent owed.slot).rewards.unclaimed := by
  simp only [Ledger.exists_commitClaim, checkEntitlement_eq_ok]
  constructor
  · intro hchecks
    refine ⟨?_, fun owed howed => (hchecks owed howed).2.2⟩
    by_contra hclosed
    obtain ⟨owed, howed, _⟩ := hholds.nonzero
    exact (hholds.moved hclosed owed howed).ne' (hchecks owed howed).2.1
  · rintro ⟨hopen, hleft⟩ owed howed
    exact ⟨(hholds.slot owed howed).2, hholds.stands hopen owed howed, hleft owed howed⟩

/-- A plan names a period that its account has claimed exactly if the watermark has reached its
end. -/
theorem Holds.overtaken_iff (hholds : ledger.Holds plan) :
    (∃ owed ∈ plan.entitlements, owed.Nonzero ∧ owed.id ≤ ledger.watermark plan.account) ↔
      plan.through ≤ ledger.watermark plan.account := by
  constructor
  · rintro ⟨owed, howed, _, hspent⟩
    exact hholds.above.resolve_left fun habove => (habove owed howed).not_ge hspent
  · intro hovertaken
    obtain ⟨owed, howed, hnonzero⟩ := hholds.nonzero
    exact ⟨owed, howed, hnonzero, (hholds.id_le owed howed).trans hovertaken⟩

/-! ## What happens to a held plan -/

/-- A change that moves no period keeps what is known of a plan, if the watermark of its account
stays where it is or reaches the end of the plan. -/
theorem Holds.mono (hholds : ledger.Holds plan)
    (hlength : next.window.length = ledger.window.length)
    (hids : ∀ index, (next.window.recent index).id = (ledger.window.recent index).id)
    (hmark : next.watermark plan.account = ledger.watermark plan.account ∨
      plan.through ≤ next.watermark plan.account) : next.Holds plan where
  nodup := hholds.nodup
  nonzero := hholds.nonzero
  slot := hlength ▸ hholds.slot
  id_ne_zero := hholds.id_ne_zero
  id_le := hholds.id_le
  through_le := by
    rw [hids]
    exact hholds.through_le
  stands := by
    simp only [hids]
    exact hholds.stands
  moved := by
    simp only [hids]
    exact hholds.moved
  above := by
    rcases hmark with hsame | hovertaken
    · rw [hsame]
      exact hholds.above
    · exact .inr hovertaken

theorem Holds.deposited {fees rewards : Amount} (hholds : ledger.Holds plan)
    (aligned : ledger.window.Aligned) (hdeposited : ledger.Deposited fees rewards next) :
    next.Holds plan := by
  refine hholds.mono hdeposited.length_eq (id_recent_deposited aligned hdeposited) (.inl ?_)
  rw [watermark, hdeposited.watermarks_eq.1]
  rfl

/-- Whether a period was closed since or not, each slot of a plan holds its period or a newer one. -/
theorem Holds.id_le_recent (hholds : ledger.Holds plan) {owed : Entitlement}
    (howed : owed ∈ plan.entitlements) : owed.id ≤ (ledger.window.recent owed.slot).id := by
  by_cases hopen : plan.through = (ledger.window.recent 1).id
  · exact (hholds.stands hopen owed howed).ge
  · exact (hholds.moved hopen owed howed).le

theorem Holds.through_lt_current (hholds : ledger.Holds plan) (wf : ledger.window.WellFormed) :
    plan.through < ledger.window.current.id := by
  obtain ⟨owed, howed, _⟩ := hholds.nonzero
  have hpos : 0 < (ledger.window.recent 1).id :=
    calc 0 < owed.id := Nat.pos_of_ne_zero (hholds.id_ne_zero owed howed)
      _ ≤ plan.through := hholds.id_le owed howed
      _ ≤ (ledger.window.recent 1).id := hholds.through_le
  exact hholds.through_le.trans_lt (wf.id_lt Nat.zero_lt_one hpos.ne')

/-- A close puts a newer period into every slot of a plan. -/
theorem Holds.closed {close : ClosePlan} {start : Timestamp} {outcome : CloseOutcome}
    (hholds : ledger.Holds plan) (wf : ledger.window.WellFormed)
    (hcommit : ledger.commitClose close start = .ok (outcome, next)) : next.Holds plan := by
  obtain ⟨_, _, rfl⟩ := commitClose_ok hcommit
  have htwo := wf.two_le_length
  have hlength : (ledger.closedWindow close.opened start).length = ledger.window.length :=
    length_closedWindow
  have hnewest : ((ledger.closedWindow close.opened start).recent 1).id =
      ledger.window.current.id := id_recent_closedWindow wf.toAligned (by omega)
  have hthrough := hholds.through_lt_current wf
  have hmoved : ∀ owed ∈ plan.entitlements,
      owed.id < ((ledger.closedWindow close.opened start).recent owed.slot).id := by
    intro owed howed
    obtain ⟨_, hslot⟩ := hholds.slot owed howed
    obtain ⟨before, hbefore⟩ : ∃ before, owed.slot = before + 1 := ⟨owed.slot - 1, by omega⟩
    have hle := hholds.id_le_recent howed
    have hfilled : (ledger.window.recent owed.slot).Filled :=
      Nat.ne_zero_of_lt ((Nat.pos_of_ne_zero (hholds.id_ne_zero owed howed)).trans_le hle)
    calc owed.id ≤ (ledger.window.recent owed.slot).id := hle
      _ < (ledger.window.recent before).id := wf.id_lt (by omega) hfilled
      _ = ((ledger.closedWindow close.opened start).recent owed.slot).id := by
          rw [hbefore, id_recent_closedWindow wf.toAligned (by omega)]
  exact {
    nodup := hholds.nodup
    nonzero := hholds.nonzero
    slot := fun owed howed => hlength ▸ hholds.slot owed howed
    id_ne_zero := hholds.id_ne_zero
    id_le := hholds.id_le
    through_le := hnewest ▸ hthrough.le
    stands := fun hopen => absurd (hopen.trans hnewest) hthrough.ne
    moved := fun _ => hmoved
    above := hholds.above }

/-- A commit overtakes all plans of its account and no other. -/
theorem Holds.committed {other : ClaimPlan} (hholds : ledger.Holds plan)
    (hother : ledger.Holds other) (aligned : ledger.window.Aligned)
    (hcommit : ledger.commitClaim other = .ok (previous, next)) : next.Holds plan := by
  refine hholds.mono (length_commitClaim hcommit) (id_recent_commitClaim aligned hcommit) ?_
  rw [watermark_of_commitClaim hcommit]
  split
  · -- a plan that can be committed reaches as far as any plan that is held
    have hnewest := (hother.exists_commitClaim.mp ⟨_, hcommit⟩).1
    exact .inr (le_max_of_le_right (hnewest ▸ hholds.through_le))
  · exact .inl rfl

namespace Session

variable {session : Session}

/-- What holds of a session at all times. -/
structure Sound (session : Session) : Prop where
  wellFormed : session.ledger.window.WellFormed
  holds : ∀ plan ∈ session.plans, session.ledger.Holds plan
  held : ∀ spent ∈ session.commits, spent ∈ session.plans
  reached : ∀ spent ∈ session.commits, spent.through ≤ session.ledger.watermark spent.account
  /-- A plan that reaches further than one committed before takes nothing that it took. -/
  beyond : ∀ plan ∈ session.plans, ∀ spent ∈ session.commits, plan.account = spent.account →
    spent.through < plan.through → ∀ id ∈ plan.ids, spent.through < id
  once : session.commits.Pairwise fun later earlier =>
    later.account = earlier.account → later.through ≠ earlier.through →
      later.ids.Disjoint earlier.ids

/-- A request that leaves all watermarks and all held plans alone. -/
theorem Sound.onLedger {result : Except Fault Ledger} (hsound : session.Sound)
    (hresult : ∀ next, result = .ok next → next.window.WellFormed ∧
      (∀ account, next.watermark account = session.ledger.watermark account) ∧
      ∀ plan, session.ledger.Holds plan → next.Holds plan) : (session.onLedger result).Sound := by
  cases result with
  | error fault => exact hsound
  | ok next =>
      obtain ⟨wf, hmarks, hholds⟩ := hresult next rfl
      exact {
        wellFormed := wf
        holds := fun plan hplan => hholds plan (hsound.holds plan hplan)
        held := hsound.held
        reached := fun spent hspent => (hsound.reached spent hspent).trans (hmarks _).ge
        beyond := hsound.beyond
        once := hsound.once }

theorem Sound.deposit {result : Except Fault Ledger} {fees rewards : Amount}
    (hsound : session.Sound)
    (hresult : ∀ next, result = .ok next → session.ledger.Deposited fees rewards next) :
    (session.onLedger result).Sound := by
  have wf := hsound.wellFormed
  refine hsound.onLedger fun next hok => ?_
  have hdeposited := hresult next hok
  refine ⟨wellFormed_deposited wf hdeposited, fun account => ?_, fun plan hholds =>
    hholds.deposited wf.toAligned hdeposited⟩
  rw [watermark, hdeposited.watermarks_eq.1]
  rfl

theorem Sound.close {plan : ClosePlan} {start : Timestamp} (hsound : session.Sound) :
    (session.onLedger ((session.ledger.commitClose plan start).map Prod.snd)).Sound := by
  have wf := hsound.wellFormed
  refine hsound.onLedger fun next hok => ?_
  obtain ⟨⟨outcome, _⟩, hcommit, rfl⟩ := Fallible.map_eq_ok.mp hok
  refine ⟨?_, fun _ => ?_, fun held hholds => hholds.closed wf hcommit⟩ <;>
    obtain ⟨hplan, _, rfl⟩ := commitClose_ok hcommit
  · exact wellFormed_closedWindow wf (planClose_ok hplan).1
  · rfl

theorem Sound.of_planClaim {account : Account} {shareOn : PeriodId → Amount} {plan : ClaimPlan}
    (hsound : session.Sound) (hplan : session.ledger.planClaim account shareOn = .ok plan) :
    Session.Sound { session with plans := plan :: session.plans } where
  wellFormed := hsound.wellFormed
  holds := List.forall_mem_cons.mpr
    ⟨holds_of_planClaim hsound.wellFormed hplan, hsound.holds⟩
  held := fun spent hspent => List.mem_cons_of_mem _ (hsound.held spent hspent)
  reached := hsound.reached
  beyond := by
    refine List.forall_mem_cons.mpr ⟨fun spent hspent haccount _ id hid => ?_, hsound.beyond⟩
    -- the plan takes what lies above the watermark, and what was committed is below
    obtain ⟨owed, howed, rfl⟩ := List.mem_map.mp hid
    have habove := (slot_of_planClaim hplan howed).2.2.2
    rw [← (planClaim_ok hplan).2.2.2.2.1, haccount] at habove
    exact (hsound.reached spent hspent).trans_lt habove
  once := hsound.once

theorem Sound.of_commitClaim {plan : ClaimPlan} {previous : PeriodId} {next : Ledger}
    (hsound : session.Sound) (hplan : plan ∈ session.plans)
    (hcommit : session.ledger.commitClaim plan = .ok (previous, next)) :
    Session.Sound { session with ledger := next, commits := plan :: session.commits } := by
  have wf := hsound.wellFormed
  have hholds := hsound.holds plan hplan
  -- no plan reaches further than this one
  have hnewest : ∀ other ∈ session.plans, other.through ≤ plan.through := fun other hother =>
    (hholds.exists_commitClaim.mp ⟨_, hcommit⟩).1 ▸ (hsound.holds other hother).through_le
  exact {
    wellFormed := wellFormed_commitClaim_of_nodup wf hholds.nodup hcommit
    holds := fun other hother =>
      (hsound.holds other hother).committed hholds wf.toAligned hcommit
    held := List.forall_mem_cons.mpr ⟨hplan, hsound.held⟩
    reached := by
      refine List.forall_mem_cons.mpr ⟨?_, fun spent hspent => ?_⟩
      · rw [watermark_of_commitClaim hcommit, if_pos rfl]
        exact le_max_right _ _
      · exact (hsound.reached spent hspent).trans (watermark_le_commitClaim hcommit _)
    beyond := fun other hother => List.forall_mem_cons.mpr
      ⟨fun _ hless => absurd hless (hnewest other hother).not_gt, hsound.beyond other hother⟩
    once := by
      refine List.pairwise_cons.mpr ⟨fun spent hspent haccount hthrough id hid htwice => ?_,
        hsound.once⟩
      obtain ⟨owed, howed, rfl⟩ := List.mem_map.mp htwice
      have hheld := hsound.held spent hspent
      have hless := lt_of_le_of_ne (hnewest spent hheld) hthrough.symm
      have habove := hsound.beyond plan hplan spent hspent haccount hless owed.id hid
      exact habove.not_ge ((hsound.holds spent hheld).id_le owed howed) }

theorem Sound.step (hsound : session.Sound) (request : Request) : (session.step request).Sound := by
  cases request with
  | fee => exact hsound.deposit fun _ => recordFee_ok
  | reward => exact hsound.deposit fun _ => recordReward_ok
  | close new start =>
      rw [Session.step, Ledger.close]
      cases session.ledger.planClose new with
      | error => exact hsound
      | ok plan => exact hsound.close
  | commitClose => exact hsound.close
  | plan account shareOn =>
      rw [Session.step]
      split
      · exact hsound.of_planClaim ‹_›
      · exact hsound
  | commit index =>
      rw [Session.step]
      split
      · exact hsound
      · rename_i plan hplan
        split
        · rename_i hcommit
          exact hsound.of_commitClaim (List.mem_of_getElem? hplan) hcommit
        · exact hsound

theorem Sound.run (hsound : session.Sound) (requests : List Request) :
    (session.run requests).Sound := by
  unfold Session.run
  induction requests generalizing session with
  | nil => exact hsound
  | cons request requests ih => exact ih (hsound.step request)

theorem sound_create {length : Nat} {start : Timestamp} {ledger : Ledger}
    (hcreate : Ledger.create length start = .ok ledger) : Session.Sound { ledger } where
  wellFormed := (wellFormed_create hcreate).1
  holds := fun _ hnone => absurd hnone List.not_mem_nil
  held := fun _ hnone => absurd hnone List.not_mem_nil
  reached := fun _ hnone => absurd hnone List.not_mem_nil
  beyond := fun _ hnone => absurd hnone List.not_mem_nil
  once := .nil

/-- In every session of a new ledger, a held plan can be committed exactly if no period was closed
since it was made and enough is left; the watermark of its account plays no part.  The plan names a
period that the account has claimed exactly if the watermark has reached its end.  And two commits
for one account have a period in common only if their plans end at the same one. -/
theorem held_plans {length : Nat} {start : Timestamp} {ledger : Ledger}
    (hcreate : Ledger.create length start = .ok ledger) (requests : List Request)
    {session : Session} (hrun : Session.run { ledger } requests = session) :
    (∀ plan ∈ session.plans,
      ((∃ answer, session.ledger.commitClaim plan = .ok answer) ↔
        plan.through = (session.ledger.window.recent 1).id ∧ ∀ owed ∈ plan.entitlements,
          owed.fees ≤ (session.ledger.window.recent owed.slot).fees.unclaimed ∧
            owed.rewards ≤ (session.ledger.window.recent owed.slot).rewards.unclaimed) ∧
      ((∃ owed ∈ plan.entitlements, owed.Nonzero ∧
          owed.id ≤ session.ledger.watermark plan.account) ↔
        plan.through ≤ session.ledger.watermark plan.account)) ∧
      session.commits.Pairwise fun later earlier =>
        later.account = earlier.account → later.through ≠ earlier.through →
          later.ids.Disjoint earlier.ids := by
  obtain rfl := hrun
  have hsound := (sound_create hcreate).run requests
  refine ⟨fun plan hplan => ?_, hsound.once⟩
  have hholds := hsound.holds plan hplan
  exact ⟨hholds.exists_commitClaim, hholds.overtaken_iff⟩

/-- A new ledger of two slots has collected a hundred, and the claim of an account to one half of
them is planned. -/
def planned : Session :=
  Session.run { ledger := System.twoSlots.pool.ledger }
    [.fee 100, .close 2 0, .plan .zero fun _ => unit / 2]

/-- The plan of that claim. -/
def half : ClaimPlan where
  account := .zero
  entitlements := [{ slot := 1, id := 1, fees := 50, rewards := 0 }]
  fees := 50
  rewards := 0
  through := 1

/-- It can be committed at once, and no longer when another period was closed. -/
theorem held_plans_half :
    Ledger.create 2 0 = .ok System.twoSlots.pool.ledger ∧
      (∃ answer, planned.ledger.commitClaim half = .ok answer) ∧
      ¬ ∃ answer, (planned.run [.close 3 0]).ledger.commitClaim half = .ok answer := by
  have hcreate : Ledger.create 2 0 = .ok System.twoSlots.pool.ledger := rfl
  have hplanned : Session.run { ledger := System.twoSlots.pool.ledger }
      [.fee 100, .close 2 0, .plan .zero fun _ => unit / 2] = planned := rfl
  obtain ⟨hopen, _⟩ := held_plans hcreate _ hplanned
  obtain ⟨hclosed, _⟩ := held_plans hcreate
    [.fee 100, .close 2 0, .plan .zero fun _ => unit / 2, .close 3 0] rfl
  refine ⟨hcreate, (hopen half (by decide)).1.mpr (by decide), fun hcommit => ?_⟩
  have hthrough := ((hclosed half (by decide)).1.mp hcommit).1
  exact absurd hthrough (by decide)

/-- The same plan can be committed twice, although its account has spent all of it when it is
committed for the second time: all hundred are gone. -/
theorem plan_spent_twice :
    (planned.run [.commit 0]).ledger.watermark half.account = half.through ∧
      (planned.run [.commit 0, .commit 0]).commits = [half, half] ∧
      ((planned.run [.commit 0, .commit 0]).ledger.window.recent 1).fees.unclaimed = 0 := by
  refine ⟨by decide, by decide, by decide⟩

end Session

end Ledger

end FeeDistribution
