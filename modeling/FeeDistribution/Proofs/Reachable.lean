import FeeDistribution.Proofs.Postings
import FeeDistribution.Proofs.WellFormed

/-!
# Reachable systems

A pool is created and then called any number of times, while everything around it changes as it
likes.  In every system that is reached in this way the window is well-formed and has as many slots
as the settings ask for: it holds at the beginning, and no posting breaks it.
-/

namespace FeeDistribution

/-! ## Postings keep the window well-formed -/

namespace Posting

variable {ledger next : Ledger} {payments nextPayments : Payments} {call : Call}
  {result : Except Fault Reply}

theorem wellFormed (hposting : Posting ledger payments call result next nextPayments)
    (wf : ledger.window.WellFormed) : next.window.WellFormed := by
  cases hposting with
  | refused | aside | settled | outside | finishImport => exact wf
  | fee hrecord => exact Ledger.wellFormed_deposited wf (Ledger.recordFee_ok hrecord)
  | reward hrecord => exact Ledger.wellFormed_deposited wf (Ledger.recordReward_ok hrecord)
  | closed _ hcommit =>
      obtain ⟨hplan, _, rfl⟩ := Ledger.commitClose_ok hcommit
      exact Ledger.wellFormed_closedWindow wf (Ledger.planClose_ok hplan).1
  | claimed _ hplan hcommit => exact Ledger.wellFormed_commitClaim wf hplan hcommit
  | unpaid _ _ hcommit =>
      rw [Ledger.revertClaim_of_commitClaim hcommit]
      exact wf
  | importPeriod himport => exact Ledger.wellFormed_importPeriod wf himport
  | importWatermark himport =>
      obtain ⟨_, rfl⟩ := Ledger.importWatermark_ok himport
      exact wf

theorem length_eq (hposting : Posting ledger payments call result next nextPayments) :
    next.window.length = ledger.window.length := by
  cases hposting with
  | refused | aside | settled | outside | finishImport => rfl
  | fee hrecord => exact (Ledger.recordFee_ok hrecord).length_eq
  | reward hrecord => exact (Ledger.recordReward_ok hrecord).length_eq
  | closed _ hcommit =>
      obtain ⟨_, _, rfl⟩ := Ledger.commitClose_ok hcommit
      exact Ledger.length_closedWindow
  | claimed _ _ hcommit => exact Ledger.length_commitClaim hcommit
  | unpaid _ _ hcommit => rw [Ledger.revertClaim_of_commitClaim hcommit]
  | importPeriod himport =>
      obtain ⟨_, _, _, _, _, rfl⟩ := Ledger.importPeriod_ok himport
      exact Window.length_set
  | importWatermark himport =>
      obtain ⟨_, rfl⟩ := Ledger.importWatermark_ok himport
      rfl

end Posting

/-- Whether a call is a change of the settings. -/
def Call.Configures : Call → Prop
  | setDuration _ _ | setIssuanceRatio _ _ | setTargetThreshold _ _ | setStalePeriod _ _
  | setRelayer _ _ => True
  | _ => False

namespace System

variable {α β : Type} {system : System} {wrap : α → Reply}

/-! ## The rest of the pool -/

/-- A change of the pool leaves a part of it alone if it does so when it succeeds. -/
theorem view_onPool (view : Pool → β) {change : Pool → Except Fault (α × Pool)}
    (hchange : ∀ answer pool, change system.pool = .ok (answer, pool) →
      view pool = view system.pool) :
    view (reply wrap (system.onPool change)).2.pool = view system.pool := by
  unfold onPool
  cases hresult : change system.pool with
  | error fault => rfl
  | ok changed => exact hchange changed.1 changed.2 hresult

theorem view_configure (view : Pool → β) {caller : Account} {check : Except Fault Unit}
    {change : Settings → Settings}
    (hchange : ∀ pool : Pool, view { pool with settings := change pool.settings } = view pool) :
    view (reply .ofUnit (system.configure caller check change)).2.pool = view system.pool := by
  refine view_onPool view fun answer pool hresult => ?_
  simp only [Fallible.bind_eq_ok, Fallible.pure_eq_ok] at hresult
  obtain ⟨_, _, _, _, heq⟩ := hresult
  cases heq
  exact hchange _

/-- A close touches no part of the pool but the ledger and the journal. -/
theorem pool_afterClose (outcome : Except Fault CloseOutcome × Closing.Books) :
    ∃ ledger journal, (reply .closed (system.afterClose outcome)).2.pool =
      { system.pool with ledger, journal } := by
  obtain ⟨result, books⟩ := outcome
  cases result <;> exact ⟨_, _, rfl⟩

/-- A claim touches no part of the pool but the ledger and the journal. -/
theorem pool_claim (account : Account) (now : Timestamp) :
    ∃ ledger journal, (reply .claimed (system.claim account now)).2.pool =
      { system.pool with ledger, journal } := by
  rcases system.claim_cases account now with
    ⟨_, _, hclaim⟩ | ⟨_, _, _, _, ⟨_, hclaim⟩ | ⟨_, hclaim⟩⟩ <;>
    (rw [hclaim]; exact ⟨_, _, rfl⟩)

theorem pool_claimOnBehalf (account delegate : Account) (now : Timestamp) :
    ∃ ledger journal, (reply .claimed (system.claimOnBehalf account delegate now)).2.pool =
      { system.pool with ledger, journal } := by
  unfold claimOnBehalf
  split
  · exact pool_claim account now
  · exact ⟨_, _, rfl⟩

/-- A change of approvals touches no part of the pool but these and the journal. -/
theorem pool_delegation (changed : Bool) (delegation : Delegation) (event : Event) :
    ∃ journal,
      (system.withPool
        (if changed then { system.pool with delegation }.emit event
        else { system.pool with delegation })).pool = { system.pool with delegation, journal } := by
  cases changed <;> exact ⟨_, rfl⟩

theorem settings_settle {account : Account} :
    (reply .paid (system.settle account)).2.pool.settings = system.pool.settings := by
  unfold settle
  generalize system.pool.rewards.settle _ _ _ = settled
  obtain ⟨result, rewards, treasury⟩ := settled
  cases result with
  | error fault => rfl
  | ok paid =>
      dsimp only
      split <;> rfl

/-- No other call changes the settings. -/
theorem settings_eq_step {call : Call} (system : System) (hcall : ¬ call.Configures) :
    (system.step call).2.pool.settings = system.pool.settings := by
  cases call with
  | fee | reward | finishImport | notify | distributePending | checkpoint =>
      refine view_onPool (·.settings) fun answer pool hresult => ?_
      obtain ⟨_, _, heq⟩ := Fallible.bind_eq_ok.mp hresult
      cases heq
      rfl
  | importPeriod | importWatermark =>
      refine view_onPool (·.settings) fun answer pool hresult => ?_
      simp only [Fallible.bind_eq_ok] at hresult
      obtain ⟨_, _, _, _, heq⟩ := hresult
      cases heq
      rfl
  | setDuration | setIssuanceRatio | setTargetThreshold | setStalePeriod | setRelayer =>
      exact absurd trivial hcall
  | closeTimed | closeRelayed =>
      obtain ⟨_, _, hpool⟩ := system.pool_afterClose _
      exact congrArg (·.settings) hpool
  | claim account now =>
      obtain ⟨_, _, hpool⟩ := system.pool_claim account now
      exact congrArg (·.settings) hpool
  | claimOnBehalf account delegate now =>
      obtain ⟨_, _, hpool⟩ := system.pool_claimOnBehalf account delegate now
      exact congrArg (·.settings) hpool
  | approve | removeDelegate =>
      obtain ⟨_, hpool⟩ := system.pool_delegation _ _ _
      exact congrArg (·.settings) hpool
  | settle => exact settings_settle
  | mint | burn | drain | around => rfl

/-- No call changes the number of slots that the settings ask for. -/
theorem settings_step (system : System) (call : Call) :
    (system.step call).2.pool.settings.length = system.pool.settings.length := by
  by_cases hcall : call.Configures
  · cases call with
    | setDuration | setIssuanceRatio | setTargetThreshold | setStalePeriod | setRelayer =>
        exact view_configure (·.settings.length) fun _ => rfl
    | _ => exact hcall.elim
  · rw [settings_eq_step system hcall]

/-! ## Reachable systems -/

theorem run_append (system : System) (first second : List Call) :
    (system.run (first ++ second)).2 = ((system.run first).2.run second).2 := by
  induction first generalizing system with
  | nil => rfl
  | cons call first ih => exact ih (system.step call).2

/-- The systems that calls reach from a newly created pool, whatever surrounds it. -/
inductive Reachable : System → Prop
  | created {settings : Settings} {now : Timestamp} {pool : Pool} {env : Environment} :
      Pool.create settings now = .ok pool → Reachable { pool, env }
  | step {system : System} {call : Call} : Reachable system → Reachable (system.step call).2

theorem Reachable.run (hreach : system.Reachable) (calls : List Call) :
    (system.run calls).2.Reachable := by
  induction calls generalizing system with
  | nil => exact hreach
  | cons call calls ih => exact ih hreach.step

/-- An account other than the null account. -/
def other : Account :=
  ⟨List.replicate 32 1, by simp⟩

/-- A new pool of two slots, owned and relayed by the null account. -/
def twoSlots : System where
  pool :=
    { settings := { length := 2, owner := some .zero, relayer := some .zero }
      ledger := { window := { slots := #[.empty, .opened 1 0], head := 1 } }
      journal := { limit := some Defaults.eventBuffer } }
  env := {}

theorem reachable_twoSlots : twoSlots.Reachable :=
  .created (show Pool.create twoSlots.pool.settings 0 = .ok twoSlots.pool from rfl)

/-- The same pool once its first period is closed; all fees of it are owed to the null account. -/
def oneOwed : System :=
  (twoSlots.run [.fee 5, .around (.share .zero 1 unit), .closeRelayed .zero 7 0,
    .around (.rate Defaults.collateralCurrency 0)]).2

theorem reachable_oneOwed : oneOwed.Reachable :=
  reachable_twoSlots.run _

theorem create_ok {settings : Settings} {now : Timestamp} {pool : Pool}
    (hcreate : Pool.create settings now = .ok pool) :
    pool.settings = settings ∧ Ledger.create settings.length now = .ok pool.ledger := by
  simp only [Pool.create, Fallible.bind_eq_ok, Fallible.pure_eq_ok] at hcreate
  obtain ⟨_, _, ledger, hledger, rfl⟩ := hcreate
  exact ⟨rfl, hledger⟩

/-- In a new pool there is nothing but the open period, which is empty. -/
theorem recent_create {settings : Settings} {now : Timestamp} {pool : Pool}
    (hcreate : Pool.create settings now = .ok pool) (index : Nat) :
    pool.ledger.window.recent index = if 0 = index then .opened 1 now else .empty := by
  obtain ⟨window, hwindow, hledger⟩ := Fallible.bind_eq_ok.mp (create_ok hcreate).2
  rw [← Fallible.pure_eq_ok.mp hledger]
  exact (Window.create_ok hwindow).2.2 index

theorem Reachable.wellFormed (hreach : system.Reachable) :
    system.pool.ledger.window.WellFormed := by
  induction hreach with
  | created hcreate =>
      obtain ⟨_, hledger⟩ := create_ok hcreate
      exact (Ledger.wellFormed_create hledger).1
  | step _ ih => exact (step_posting _ _).wellFormed ih

theorem Reachable.length_eq (hreach : system.Reachable) :
    system.pool.ledger.window.length = system.pool.settings.length := by
  induction hreach with
  | created hcreate =>
      obtain ⟨hsettings, hledger⟩ := create_ok hcreate
      rw [hsettings]
      exact (Ledger.wellFormed_create hledger).2
  | step _ ih => rw [(step_posting _ _).length_eq, settings_step, ih]

/-- The window of a reachable system: it has the slots asked for, a period is open, the filled slots
are the first few, their ids fall, the others are empty, and in every slot what is left is exactly
what was put in less what was claimed. -/
theorem Reachable.window_sound (hreach : system.Reachable) :
    system.pool.ledger.window.length = system.pool.settings.length ∧
      system.pool.ledger.window.current.Filled ∧
      (∃ count ≤ system.pool.ledger.window.length, ∀ index,
        (system.pool.ledger.window.recent index).Filled ↔ index < count) ∧
      (∀ newer older, newer < older → (system.pool.ledger.window.recent older).Filled →
        (system.pool.ledger.window.recent older).id <
          (system.pool.ledger.window.recent newer).id) ∧
      (∀ period ∈ system.pool.ledger.window.slots, ¬ period.Filled → period = .empty) ∧
      (∀ period ∈ system.pool.ledger.window.slots, ∀ revenue,
        (period.pot revenue).claimed ≤ (period.pot revenue).total ∧
          ((period.pot revenue).unclaimed : Int) = (period.pot revenue).left) ∧
      system.pool.ledger.checkCovered = .ok () := by
  have wf := hreach.wellFormed
  refine ⟨hreach.length_eq, wf.filled_current, wf.exists_filled_iff_lt, fun _ _ => wf.id_lt, ?_, ?_,
    Ledger.checkCovered_eq_ok wf⟩
  · intro period hperiod
    obtain ⟨index, _, rfl⟩ := (Window.mem_slots wf.toAligned).mp hperiod
    exact wf.eq_empty
  · intro period hperiod revenue
    have hcovered := wf.covered_of_mem hperiod revenue
    exact ⟨hcovered, Pot.unclaimed_eq_left hcovered⟩

/-- In a window of two slots the period that receives a remainder is the one just closed. -/
theorem window_sound_twoSlots :
    (twoSlots.run [.fee 5, .closeRelayed .zero 7 0, .fee 1, .closeRelayed .zero 9 0]).2.Reachable ∧
      (twoSlots.run [.fee 5, .closeRelayed .zero 7 0, .fee 1,
        .closeRelayed .zero 9 0]).2.pool.ledger.checkCovered = .ok () ∧
      ((twoSlots.run [.fee 5, .closeRelayed .zero 7 0, .fee 1,
        .closeRelayed .zero 9 0]).2.pool.ledger.window.recent 1).fees.unclaimed = 6 := by
  have hreach := reachable_twoSlots.run
    [.fee 5, .closeRelayed .zero 7 0, .fee 1, .closeRelayed .zero 9 0]
  obtain ⟨_, _, _, _, _, _, hcovered⟩ := hreach.window_sound
  exact ⟨hreach, hcovered, by decide⟩

end System

end FeeDistribution
