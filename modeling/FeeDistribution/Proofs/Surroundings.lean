import FeeDistribution.Proofs.Reachable

/-!
# What a call does to its surroundings

The pool only ever reads debt shares and pays through the treasury, with two exceptions, which
belong together: a close burns the fees of the period and freezes the debt shares for it.  No other
entry point burns or freezes anything, also none that fails halfway (`System.keeps_step`).
-/

namespace FeeDistribution

/-- Nothing was burned and no debt shares were frozen. -/
structure Environment.Keeps (env next : Environment) : Prop where
  burned : next.treasury.burned = env.treasury.burned
  snapshots : next.stakes.snapshots = env.stakes.snapshots
  period : next.stakes.period = env.stakes.period

theorem Environment.Keeps.of_eq {env next : Environment} (hsame : next = env) :
    env.Keeps next :=
  hsame ▸ ⟨rfl, rfl, rfl⟩

/-- Whether a call is a burn or a freezing of debt shares that the pool does not make. -/
def Call.Usurps : Call → Prop
  | around (.burn _) | around (.snapshot _) => True
  | _ => False

namespace Rewards

/-- The reward stream burns nothing. -/
theorem burned_settle (rewards : Rewards) (treasury : Treasury) (account : Account)
    (balance : Amount) :
    (rewards.settle treasury account balance).2.2.burned = treasury.burned := by
  unfold settle Treasury.pay
  split
  · rfl
  · dsimp only
    split
    · rfl
    · split
      · rfl
      · split <;> rename_i hpay <;> split at hpay <;> cases hpay <;> rfl

/-- Issuing debt shares freezes none. -/
theorem frozen_mint (rewards : Rewards) (stakes : Stakes) (account : Account) (amount : Amount) :
    (rewards.mint stakes account amount).2.2.snapshots = stakes.snapshots ∧
      (rewards.mint stakes account amount).2.2.period = stakes.period := by
  unfold mint
  split
  · exact ⟨rfl, rfl⟩
  · split <;> exact ⟨rfl, rfl⟩

/-- Burning debt shares freezes none. -/
theorem frozen_burn (rewards : Rewards) (stakes : Stakes) (account : Account) (amount : Amount) :
    (rewards.burn stakes account amount).2.2.snapshots = stakes.snapshots ∧
      (rewards.burn stakes account amount).2.2.period = stakes.period := by
  unfold burn
  split
  · exact ⟨rfl, rfl⟩
  · split <;> exact ⟨rfl, rfl⟩

end Rewards

namespace System

variable {α : Type} {system : System} {call : Call}

theorem env_onPool {change : Pool → Except Fault (α × Pool)} {wrap : α → Reply} :
    (reply wrap (system.onPool change)).2.env = system.env := by
  unfold onPool
  cases change system.pool <;> rfl

theorem env_configure {caller : Account} {check : Except Fault Unit}
    {change : Settings → Settings} :
    (reply .ofUnit (system.configure caller check change)).2.env = system.env :=
  env_onPool

/-- A close changes no balance. -/
theorem balances_close (hcall : call.Closes) :
    (system.step call).2.env.stakes.balances = system.env.stakes.balances := by
  rcases close_cases hcall with ⟨_, hstep⟩ | ⟨_, hstep⟩ | ⟨_, _, _, _, _, hstep⟩ <;>
    exact congrArg (·.2.env.stakes.balances) hstep

/-- A close that is not carried out burns and freezes nothing. -/
theorem keeps_close (hcall : call.Closes)
    (hopen : ∀ outcome, (system.step call).1 ≠ .ok (.closed outcome)) :
    system.env.Keeps (system.step call).2.env := by
  rcases close_cases hcall with
    ⟨_, hstep⟩ | ⟨_, hstep⟩ | ⟨_, _, outcome, _, _, hstep⟩ <;> rw [hstep] at hopen ⊢
  · exact .of_eq rfl
  · exact ⟨rfl, rfl, rfl⟩
  · exact absurd rfl (hopen outcome)

/-- A claim changes no debt shares and burns nothing. -/
theorem env_claim {account : Account} {now : Timestamp} :
    (reply .claimed (system.claim account now)).2.env.stakes = system.env.stakes ∧
      (reply .claimed (system.claim account now)).2.env.treasury.burned =
        system.env.treasury.burned := by
  rcases system.claim_cases account now with
    ⟨_, _, hclaim⟩ | ⟨_, _, _, _, ⟨_, hclaim⟩ | ⟨_, hclaim⟩⟩ <;>
    (rw [hclaim]; exact ⟨rfl, rfl⟩)

theorem env_claimOnBehalf {account delegate : Account} {now : Timestamp} :
    (reply .claimed (system.claimOnBehalf account delegate now)).2.env.stakes =
        system.env.stakes ∧
      (reply .claimed (system.claimOnBehalf account delegate now)).2.env.treasury.burned =
        system.env.treasury.burned := by
  unfold claimOnBehalf
  split
  · exact env_claim
  · exact ⟨rfl, rfl⟩

/-- Nothing but a close that is carried out burns fees or freezes debt shares. -/
theorem keeps_step (hopen : ∀ outcome, (system.step call).1 ≠ .ok (.closed outcome))
    (hcall : ¬ call.Usurps) : system.env.Keeps (system.step call).2.env := by
  cases call with
  | closeTimed | closeRelayed => exact keeps_close trivial hopen
  | fee | reward | importPeriod | importWatermark | finishImport | notify | distributePending
  | checkpoint =>
      exact .of_eq env_onPool
  | setDuration | setIssuanceRatio | setTargetThreshold | setStalePeriod | setRelayer =>
      exact .of_eq env_configure
  | claim =>
      obtain ⟨hstakes, hburned⟩ := env_claim
      exact ⟨hburned, congrArg Stakes.snapshots hstakes, congrArg Stakes.period hstakes⟩
  | claimOnBehalf =>
      obtain ⟨hstakes, hburned⟩ := env_claimOnBehalf
      exact ⟨hburned, congrArg Stakes.snapshots hstakes, congrArg Stakes.period hstakes⟩
  | approve | removeDelegate | drain => exact .of_eq rfl
  | settle account =>
      exact ⟨system.pool.rewards.burned_settle system.env.treasury account _, rfl, rfl⟩
  | mint account amount =>
      obtain ⟨hsnapshots, hperiod⟩ :=
        system.pool.rewards.frozen_mint system.env.stakes account amount
      exact ⟨rfl, hsnapshots, hperiod⟩
  | burn account amount =>
      obtain ⟨hsnapshots, hperiod⟩ :=
        system.pool.rewards.frozen_burn system.env.stakes account amount
      exact ⟨rfl, hsnapshots, hperiod⟩
  | around change =>
      cases change with
      | burn | snapshot => exact absurd trivial hcall
      | pay account legs =>
          unfold step Environment.apply Environment.pay Treasury.pay
          cases system.env.treasury.refusing <;> exact ⟨rfl, rfl, rfl⟩
      | _ => exact ⟨rfl, rfl, rfl⟩

theorem burned_step (hopen : ∀ outcome, (system.step call).1 ≠ .ok (.closed outcome))
    (hcall : ∀ amount, call ≠ .around (.burn amount)) :
    (system.step call).2.env.treasury.burned = system.env.treasury.burned := by
  by_cases husurps : call.Usurps
  · match call, husurps with
    | .around (.burn amount), _ => exact absurd rfl (hcall amount)
    | .around (.snapshot _), _ => rfl
  · exact (keeps_step hopen husurps).burned

theorem frozen_step (hopen : ∀ outcome, (system.step call).1 ≠ .ok (.closed outcome))
    (hcall : ∀ id, call ≠ .around (.snapshot id)) :
    (system.step call).2.env.stakes.snapshots = system.env.stakes.snapshots ∧
      (system.step call).2.env.stakes.period = system.env.stakes.period := by
  by_cases husurps : call.Usurps
  · match call, husurps with
    | .around (.burn _), _ => exact ⟨rfl, rfl⟩
    | .around (.snapshot id), _ => exact absurd rfl (hcall id)
  · have hkeeps := keeps_step hopen husurps
    exact ⟨hkeeps.snapshots, hkeeps.period⟩

end System

end FeeDistribution
