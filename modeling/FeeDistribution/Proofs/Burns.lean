import FeeDistribution.Proofs.Conservation
import FeeDistribution.Proofs.OpenPeriod
import FeeDistribution.Proofs.Surroundings

/-!
# Every fee is burned once

Fees are burned when the period that collected them closes.  Suppose that no period is imported and
that nobody but the pool pays or burns.  Then all that was ever burned is what was deposited, less
what the open period has collected, and it is also what was paid out and what is left in the closed
periods together.

## Strategy

The remainder of the oldest period rolls over into another that is closed already, whose fees were
burned and must not be burned again.  In a window of two slots it rolls over into the period being
closed, which then holds more than is burned for it.  The invariant `System.Accounted` does not
have to tell these apart: it speaks of the open period alone, and what rolls over never reaches the
period that opens.  The second half is then conservation of value.
-/

namespace FeeDistribution

namespace Call

/-- Whether a call imports no period, and is no payment or burn that the pool does not make. -/
def Regular : Call → Prop
  | importPeriod _ _ _ | around (.pay _ _) | around (.burn _) => False
  | _ => True

variable {call : Call}

theorem Regular.not_foreign (hcall : call.Regular) : ¬ call.Foreign := by
  rintro ⟨_, _, rfl⟩
  exact hcall

theorem Regular.ne_burn (hcall : call.Regular) (amount : Amount) :
    call ≠ .around (.burn amount) := by
  rintro rfl
  exact hcall

theorem Regular.ne_importPeriod (hcall : call.Regular) (caller : Account) (slot : Nat)
    (period : Period) : call ≠ .importPeriod caller slot period := by
  rintro rfl
  exact hcall

end Call

/-! ## The closed periods -/

namespace Window

variable {window : Window}

/-- Slots that were never filled hold nothing and may be left out. -/
theorem WellFormed.sum_left (wf : window.WellFormed) (revenue : Revenue) (indices : List Nat) :
    (indices.map fun index => ((window.recent index).pot revenue).left).sum =
      ((((indices.map fun index => (index, window.recent index)).filter fun row =>
        decide row.2.Filled).map fun row => (row.2.pot revenue).unclaimed).sum : Nat) := by
  induction indices with
  | nil => rfl
  | cons index indices ih =>
      rw [List.map_cons, List.map_cons, List.sum_cons, ih]
      by_cases hfilled : (window.recent index).Filled
      · rw [List.filter_cons_of_pos (by simpa using hfilled), List.map_cons, List.sum_cons,
          ← Pot.unclaimed_eq_left (wf.covered index revenue), Nat.cast_add]
      · have hleft : ((window.recent index).pot revenue).left = 0 := by
          rw [wf.eq_empty hfilled]
          cases revenue <;> rfl
        rw [List.filter_cons_of_neg (by simpa using hfilled), hleft, zero_add]

/-- A window holds what is left in the open period and in the closed ones. -/
theorem WellFormed.held_eq (wf : window.WellFormed) (revenue : Revenue) :
    window.held revenue = (window.current.pot revenue).left +
      (window.closed.map fun row => (row.2.pot revenue).unclaimed).sum := by
  obtain ⟨count, hcount⟩ : ∃ count, window.length = count + 1 :=
    ⟨window.length - 1, by have := wf.two_le_length; omega⟩
  rw [held, toList, List.map_map, hcount, List.range_eq_range', List.range'_succ, List.map_cons,
    List.sum_cons]
  refine congrArg _ ((wf.sum_left revenue _).trans ?_)
  rw [closed, hcount]
  rfl

end Window

namespace System

variable {start system : System} {call : Call} {collected : Amount}

/-- The fees that were deposited are burned or in the open period, which owes all of its own. -/
structure Accounted (system : System) (collected : Amount) : Prop where
  burned : system.env.treasury.burned + system.pool.ledger.window.current.fees.total = collected
  unclaimed : system.pool.ledger.window.current.fees.claimed = 0

theorem Accounted.step (haccounted : system.Accounted collected) (hreach : system.Reachable)
    (himport : ∀ caller slot period, call ≠ .importPeriod caller slot period)
    (hburn : ∀ amount, call ≠ .around (.burn amount)) :
    (system.step call).2.Accounted (collected + call.deposited .fees (system.step call).1) := by
  by_cases hclosed : ∃ outcome, (system.step call).1 = .ok (.closed outcome)
  · -- all that the period collected is burned, and an empty one opens
    obtain ⟨outcome, hclosed⟩ := hclosed
    obtain ⟨_, _, hburned, _, _, hnext⟩ := step_closed hclosed
    obtain ⟨_, hcurrent⟩ := hreach.current_of_closed hclosed
    rw [Call.deposited_of_neutral (Call.neutral_of_closes (closes_of_closed hclosed))]
    constructor <;> rw [hcurrent]
    · rw [hnext, ← haccounted.burned, ← hburned]
      rfl
    · rfl
  · push Not at hclosed
    have hcurrent := (step_posting system call).current_eq hreach.wellFormed.toAligned hclosed
      fun _ => himport
    constructor <;> rw [hcurrent]
    · rw [burned_step hclosed hburn, ← haccounted.burned]
      exact (Nat.add_assoc _ _ _).symm
    · exact haccounted.unclaimed

/-- The fees that a list of calls deposits, where a call that fails deposits none. -/
def deposits (system : System) : List Call → Amount
  | [] => 0
  | call :: calls =>
    call.deposited .fees (system.step call).1 + (system.step call).2.deposits calls

theorem Accounted.run (haccounted : system.Accounted collected) (hreach : system.Reachable)
    {calls : List Call} (hcalls : ∀ call ∈ calls, call.Regular) :
    (system.run calls).2.Accounted (collected + system.deposits calls) := by
  induction calls generalizing system collected with
  | nil => exact haccounted
  | cons call calls ih =>
      obtain ⟨hcall, hcalls⟩ := List.forall_mem_cons.mp hcalls
      have hnext := haccounted.step hreach hcall.ne_importPeriod hcall.ne_burn
      rw [System.deposits, ← Nat.add_assoc]
      exact ih hnext hreach.step hcalls

/-- What such calls bring into the window of fees is what they deposit. -/
theorem inflow_eq_deposits {calls : List Call} (hcalls : ∀ call ∈ calls, call.Regular) :
    system.inflow .fees calls = system.deposits calls := by
  induction calls generalizing system with
  | nil => rfl
  | cons call calls ih =>
      obtain ⟨hcall, hcalls⟩ := List.forall_mem_cons.mp hcalls
      have hinflow : ∀ result : Except Fault Reply,
          system.pool.ledger.inflow .fees call result = call.deposited .fees result := by
        intro result
        cases result <;> cases call <;> first | rfl | exact hcall.elim
      rw [inflow, System.deposits, hinflow, ih hcalls]
      exact (Nat.cast_add _ _).symm

theorem held_create {settings : Settings} {now : Timestamp}
    (hcreate : Pool.create settings now = .ok start.pool) (revenue : Revenue) :
    start.pool.ledger.window.held revenue = 0 := by
  apply List.sum_eq_zero
  intro left hleft
  obtain ⟨period, hperiod, rfl⟩ := List.mem_map.mp hleft
  obtain ⟨index, _, rfl⟩ := Window.mem_toList.mp hperiod
  rw [recent_create hcreate]
  split <;> cases revenue <;> rfl

theorem accounted_create {settings : Settings} {now : Timestamp}
    (hcreate : Pool.create settings now = .ok start.pool)
    (hburned : start.env.treasury.burned = 0) : start.Accounted 0 := by
  have hcurrent : start.pool.ledger.window.current = .opened 1 now := recent_create hcreate 0
  constructor <;> rw [hcurrent]
  · rw [hburned]
    rfl
  · rfl

/-- Every fee is burned once, and what is paid out was burned before.  In a run from a new pool, all
that was burned is what was deposited less what the open period collected, and what was paid and
what the closed periods still owe come to what was burned. -/
theorem burned_once {settings : Settings} {now : Timestamp}
    (hcreate : Pool.create settings now = .ok start.pool)
    (hpayments : start.env.treasury.payments = []) (hburned : start.env.treasury.burned = 0)
    {calls : List Call} (hcalls : ∀ call ∈ calls, call.Regular) :
    (start.run calls).2.env.treasury.burned +
        (start.run calls).2.pool.ledger.window.current.fees.total = start.deposits calls ∧
      ∀ owed, (start.run calls).2.pool.ledger.totalFees = .ok owed →
        Payments.total (start.run calls).2.env.treasury.payments .fees + owed =
          (start.run calls).2.env.treasury.burned := by
  have hreach : start.Reachable := .created hcreate
  have haccounted := (accounted_create hcreate hburned).run hreach hcalls
  rw [Nat.zero_add] at haccounted
  refine ⟨haccounted.burned, fun owed howed => ?_⟩
  have hvalue : (start.run calls).2.value .fees = start.deposits calls := by
    rw [hreach.value_run (fun call hcall => (hcalls call hcall).not_foreign), value, hpayments,
      held_create hcreate, inflow_eq_deposits hcalls]
    simp [Payments.total]
  have hopen : (start.run calls).2.pool.ledger.window.current.fees.left =
      (start.run calls).2.pool.ledger.window.current.fees.total := by
    rw [Pot.left, haccounted.unclaimed]
    exact Int.sub_zero _
  have hheld : (start.run calls).2.pool.ledger.window.held .fees =
      (start.run calls).2.pool.ledger.window.current.fees.total + owed := by
    rw [(hreach.run calls).wellFormed.held_eq, Fallible.eq_of_sum_eq_ok howed, ← hopen]
    rfl
  -- what the open period collected is on both sides
  rw [value, hheld, ← haccounted.burned, Revenue.asset, Nat.cast_add] at hvalue
  have hbacked : (Payments.total (start.run calls).2.env.treasury.payments .fees + owed : Int) =
      (start.run calls).2.env.treasury.burned := by
    omega
  exact_mod_cast hbacked

/-- In a window of two slots the remainder rolls over into the period being closed, and is not
burned with it: seven are burned, the five of the first period and the two of the second. -/
theorem burned_once_twoSlots :
    Pool.create twoSlots.pool.settings 0 = .ok twoSlots.pool ∧
      (twoSlots.run [.fee 5, .closeRelayed .zero 7 0, .fee 2, .closeRelayed .zero 9 0,
        .fee 1]).2.env.treasury.burned = 7 ∧
      (twoSlots.run [.fee 5, .closeRelayed .zero 7 0, .fee 2, .closeRelayed .zero 9 0,
        .fee 1]).2.pool.ledger.totalFees = .ok 7 := by
  have hcreate : Pool.create twoSlots.pool.settings 0 = .ok twoSlots.pool := rfl
  have hcalls : ∀ call ∈ [.fee 5, .closeRelayed .zero 7 0, .fee 2, .closeRelayed .zero 9 0,
      .fee 1], Call.Regular call := by
    simp [Call.Regular]
  obtain ⟨hburned, _⟩ := burned_once hcreate rfl rfl hcalls
  have hdeposits : twoSlots.deposits [.fee 5, .closeRelayed .zero 7 0, .fee 2,
      .closeRelayed .zero 9 0, .fee 1] = 8 := by decide
  refine ⟨hcreate, Nat.add_right_cancel (hburned.trans hdeposits), by decide⟩

end System

end FeeDistribution
