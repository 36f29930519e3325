import FeeDistribution.Pool.Call
import FeeDistribution.Proofs.LedgerOperations

/-!
# How a close ends

A close plans, burns, commits and freezes the debt shares, and it can fail in between.  Only the
first two of these steps do fail.  A plan that the ledger has just made can be committed
(`Ledger.commitClose_of_planClose`), since the commit makes the same plan again and the sums of the
rollover were checked when it was made; and the burn that stands between the two touches the
treasury alone.  So a close ends in one of three ways (`System.close_cases`): it is refused and
nothing happens, the treasury refuses the burn and only its refusal is used up, or everything is
done.
-/

namespace FeeDistribution

/-! ## The treasury -/

/-- The three ways in which a burn can end. -/
theorem Treasury.burn_cases (treasury : Treasury) (amount : Amount) :
    (∃ fault, treasury.burn amount = (.error fault, treasury)) ∨
      treasury.refusing = true ∧
        treasury.burn amount = (.error refusal, { treasury with refusing := false }) ∨
      treasury.burn amount = (.ok (), { treasury with burned := treasury.burned + amount }) := by
  unfold burn
  cases hrefusing : treasury.refusing with
  | true => exact .inr (.inl ⟨rfl, rfl⟩)
  | false =>
      cases hburned : Decimal.add treasury.burned amount with
      | error fault => exact .inl ⟨fault, rfl⟩
      | ok burned =>
          rw [(Fallible.eq_of_add_eq_ok hburned).1]
          exact .inr (.inr rfl)

namespace Environment

/-- The environment with the refusal of the next payment or burn switched on or off. -/
def withRefusing (env : Environment) (refusing : Bool) : Environment :=
  { env with treasury := { env.treasury with refusing } }

/-- The environment after a close: fees are burned and the debt shares frozen. -/
def afterClose (env : Environment) (plan : ClosePlan) : Environment where
  stakes := env.stakes.takeSnapshot plan.opened
  suspensions := env.suspensions
  rates := env.rates
  treasury := { env.treasury with burned := env.treasury.burned + plan.burned }

end Environment

/-! ## The ledger -/

/-- The ledger after a close. -/
def Ledger.afterClose (ledger : Ledger) (plan : ClosePlan) (start : Timestamp) : Ledger :=
  { ledger with window := ledger.closedWindow plan.opened start, importOpen := false }

/-- A plan that the ledger has just made can be committed. -/
theorem Ledger.commitClose_of_planClose {ledger : Ledger} {new : PeriodId} {plan : ClosePlan}
    (hplan : ledger.planClose new = .ok plan) (start : Timestamp) :
    ∃ outcome, ledger.commitClose plan start = .ok (outcome, ledger.afterClose plan start) := by
  obtain ⟨_, hfits, rfl⟩ := planClose_eq_ok.mp hplan
  have hcommit : ∃ outcome next, ledger.commitClose (ledger.closePlan new) start =
      .ok (outcome, next) := by
    simp only [commitClose, Fallible.guard_eq_ok, Fallible.bind_eq_ok, Fallible.pure_eq_ok]
    exact ⟨_, _, _, hplan, not_not.mpr rfl, _, deposit_closePlan hfits new, rfl⟩
  obtain ⟨outcome, next, hcommit⟩ := hcommit
  obtain rfl : next = ledger.afterClose (ledger.closePlan new) start := (commitClose_ok hcommit).2.2
  exact ⟨outcome, hcommit⟩

/-! ## The books -/

namespace Closing

variable {gates : Gates} {terms : Terms} {claimant : Option Account} {now start : Timestamp}
  {new : PeriodId} {books : Books}

theorem burnPlanned_cases (env : Environment) (plan : ClosePlan) :
    (∃ fault, burnPlanned env plan = (.error fault, env)) ∨
      env.treasury.refusing = true ∧
        burnPlanned env plan = (.error Treasury.refusal, env.withRefusing false) ∨
      burnPlanned env plan =
        (.ok (), { env with
          treasury := { env.treasury with burned := env.treasury.burned + plan.burned } }) := by
  unfold burnPlanned
  split
  · unfold Environment.burn
    rcases env.treasury.burn_cases plan.burned with
      ⟨fault, hburn⟩ | ⟨hrefusing, hburn⟩ | hburn <;> rw [hburn]
    · exact .inl ⟨fault, rfl⟩
    · exact .inr (.inl ⟨hrefusing, rfl⟩)
    · exact .inr (.inr rfl)
  · rename_i hnone
    -- nothing is to be burned, and nothing is added to what was burned
    rw [Nat.eq_zero_of_not_pos hnone]
    exact .inr (.inr rfl)

/-- How a close of these books can end if the new period is to open at `start`. -/
inductive Books.Ends (books : Books) (start : Timestamp) :
    Except Fault CloseOutcome × Books → Prop where
  | refused {fault : Fault} : books.Ends start (.error fault, books)
  /-- The treasury refuses the burn. -/
  | unburned (hrefusing : books.env.treasury.refusing = true) :
      books.Ends start
        (.error Treasury.refusal, { books with env := books.env.withRefusing false })
  | closed {plan : ClosePlan} {outcome : CloseOutcome}
      (hcommit : books.ledger.commitClose plan start =
        .ok (outcome, books.ledger.afterClose plan start)) :
      books.Ends start
        (.ok outcome,
          { ledger := books.ledger.afterClose plan start, env := books.env.afterClose plan })

/-- Once the planned fees are burned, the close succeeds. -/
theorem apply_of_burnPlanned {plan : ClosePlan} (start : Timestamp)
    (hplan : books.ledger.planClose new = .ok plan)
    (hburn : (burnPlanned books.env plan).1 = .ok ()) :
    ∃ outcome,
      books.ledger.commitClose plan start = .ok (outcome, books.ledger.afterClose plan start) ∧
      apply books new start =
        (.ok outcome,
          { ledger := books.ledger.afterClose plan start, env := books.env.afterClose plan }) := by
  obtain ⟨outcome, hcommit⟩ := Ledger.commitClose_of_planClose hplan start
  obtain rfl : plan.opened = new := congrArg (·.opened) (Ledger.planClose_ok hplan).2
  refine ⟨outcome, hcommit, ?_⟩
  rcases burnPlanned_cases books.env plan with
    ⟨fault, hfailed⟩ | ⟨_, hfailed⟩ | hburned
  · rw [hfailed] at hburn
    cases hburn
  · rw [hfailed] at hburn
    cases hburn
  · unfold apply
    rw [hplan]
    dsimp only
    rw [hburned]
    dsimp only
    rw [hcommit]
    rfl

/-- A close succeeds or fails as its plan and the burn do. -/
theorem map_apply :
    (apply books new start).1.map (fun _ => ()) =
      books.ledger.planClose new >>= fun plan => (burnPlanned books.env plan).1 := by
  cases hplan : books.ledger.planClose new with
  | error fault =>
      rw [apply, hplan]
      rfl
  | ok plan =>
      show _ = (burnPlanned books.env plan).1
      rcases burnPlanned_cases books.env plan with
        ⟨fault, hburn⟩ | ⟨_, hburn⟩ | hburn
      · simp only [apply, hplan, hburn]
        rfl
      · simp only [apply, hplan, hburn]
        rfl
      · have hburned : (burnPlanned books.env plan).1 = .ok () := by rw [hburn]
        obtain ⟨outcome, _, happly⟩ := apply_of_burnPlanned start hplan hburned
        rw [happly, hburned]
        rfl

/-- A close fails where it is planned or where it burns. -/
theorem apply_failed {fault : Fault} (hfault : (apply books new start).1 = .error fault) :
    books.ledger.planClose new = .error fault ∨
      ∃ plan, books.ledger.planClose new = .ok plan ∧
        (burnPlanned books.env plan).1 = .error fault :=
  Fallible.bind_eq_error.mp (map_apply.symm.trans (Fallible.map_eq_error.mpr hfault))

theorem ends_apply : books.Ends start (apply books new start) := by
  cases hplan : books.ledger.planClose new with
  | error fault =>
      rw [apply, hplan]
      exact .refused
  | ok plan =>
      rcases burnPlanned_cases books.env plan with
        ⟨fault, hburn⟩ | ⟨hrefusing, hburn⟩ | hburn
      · simp only [apply, hplan, hburn]
        exact .refused
      · simp only [apply, hplan, hburn]
        exact .unburned hrefusing
      · have hburned : (burnPlanned books.env plan).1 = .ok () := by rw [hburn]
        obtain ⟨outcome, hcommit, happly⟩ := apply_of_burnPlanned start hplan hburned
        rw [happly]
        exact .closed hcommit

theorem ends_timed {duration : Nat} :
    books.Ends now (timed gates terms claimant duration now books) := by
  unfold timed
  dsimp only
  split
  · exact .refused
  · split
    · exact .refused
    · split
      · exact .refused
      · exact ends_apply

theorem ends_relayed {relayer : Option Account} {caller : Account} :
    books.Ends start (relayed gates terms claimant now relayer caller new start books) := by
  unfold relayed
  split
  · exact .refused
  · split
    · exact .refused
    · exact ends_apply

end Closing

/-! ## The system -/

/-- Whether a call closes the open period. -/
def Call.Closes : Call → Prop
  | closeTimed _ | closeRelayed _ _ _ => True
  | _ => False

/-- When the period that a call opens would begin, if the call closes at all. -/
def Call.opensAt? : Call → Option Timestamp
  | closeTimed now => some now
  | closeRelayed _ _ start => some start
  | _ => none

namespace System

variable {system : System} {call : Call}

theorem fst_afterClose (system : System) (ending : Except Fault CloseOutcome × Closing.Books) :
    (system.afterClose ending).1 = ending.1 := by
  obtain ⟨result, books⟩ := ending
  cases result <;> rfl

/-- The system after a close that was carried out. -/
def afterClosed (system : System) (plan : ClosePlan) (start : Timestamp) : System where
  pool :=
    { system.pool with ledger := system.pool.ledger.afterClose plan start }.emit
      (.periodClosed plan.closed)
  env := system.env.afterClose plan

/-- A close is a close of the books, by which the new period opens when the call says. -/
theorem close_ends (system : System) (hcall : call.Closes) :
    ∃ start ending, call.opensAt? = some start ∧ system.books.Ends start ending ∧
      system.step call = reply .closed (system.afterClose ending) := by
  cases call with
  | closeTimed now => exact ⟨now, _, rfl, Closing.ends_timed, rfl⟩
  | closeRelayed caller new start => exact ⟨start, _, rfl, Closing.ends_relayed, rfl⟩
  | _ => exact hcall.elim

/-- The three ways in which a close can end. -/
theorem close_cases (hcall : call.Closes) :
    (∃ fault, system.step call = (.error fault, system)) ∨
      system.env.treasury.refusing = true ∧
        system.step call =
          (.error Treasury.refusal, { system with env := system.env.withRefusing false }) ∨
      ∃ plan start outcome, call.opensAt? = some start ∧
        system.pool.ledger.commitClose plan start =
            .ok (outcome, system.pool.ledger.afterClose plan start) ∧
          system.step call = (.ok (.closed outcome), system.afterClosed plan start) := by
  obtain ⟨start, ending, hopens, hending, hstep⟩ := system.close_ends hcall
  rw [hstep]
  cases hending with
  | refused => exact .inl ⟨_, rfl⟩
  | unburned hrefusing => exact .inr (.inl ⟨hrefusing, rfl⟩)
  | @closed plan outcome hcommit =>
      refine .inr (.inr ⟨plan, start, outcome, hopens, hcommit, ?_⟩)
      obtain rfl := (Ledger.commitClose_ok hcommit).2.1
      rfl

/-- Only a close answers what a close did. -/
theorem closes_of_closed {outcome : CloseOutcome}
    (hclosed : (system.step call).1 = .ok (.closed outcome)) : call.Closes := by
  cases call with
  | closeTimed | closeRelayed => trivial
  | approve | removeDelegate | drain => cases hclosed
  | _ =>
      obtain ⟨_, _, hreply⟩ := Fallible.map_eq_ok.mp hclosed
      cases hreply

/-- A call that answers what a close did has closed the open period, burned its fees and frozen the
debt shares. -/
theorem step_closed {outcome : CloseOutcome}
    (hclosed : (system.step call).1 = .ok (.closed outcome)) :
    outcome.closed = system.pool.ledger.window.current.id ∧ outcome.closed < outcome.opened ∧
      outcome.burned = system.pool.ledger.window.current.fees.total ∧
      ∃ start, call.opensAt? = some start ∧
        (system.step call).2 = system.afterClosed outcome.toClosePlan start := by
  rcases close_cases (closes_of_closed hclosed) with
    ⟨_, hstep⟩ | ⟨_, hstep⟩ | ⟨plan, start, other, hopens, hcommit, hstep⟩ <;>
    rw [hstep] at hclosed
  · cases hclosed
  · cases hclosed
  · cases hclosed
    obtain ⟨hplan, rfl, _⟩ := Ledger.commitClose_ok hcommit
    obtain ⟨hnew, heq⟩ := Ledger.planClose_ok hplan
    have hid : outcome.closed = system.pool.ledger.window.current.id := congrArg (·.closed) heq
    exact ⟨hid, hid ▸ hnew, congrArg (·.burned) heq, start, hopens,
      congrArg Prod.snd hstep⟩

end System

end FeeDistribution
