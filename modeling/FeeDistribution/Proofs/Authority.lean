import FeeDistribution.Proofs.ValidSettings

/-!
# Callers without authority have no influence

Some calls are reserved: the import of history and the settings for the owner, the relayed close for
the relayer, a claim on behalf of an account for the delegates of that account.  Who that is changes
during a run, so whether a call is refused depends on the moment (`System.denial?`).

A call that is denied leaves every part of the system as it was.  A run from which the denied calls
are left out therefore goes through the same systems, and the induction over the calls needs nothing
else: what is left out is decided along the run with all calls, but at each call both runs have
arrived at the same system.
-/

namespace FeeDistribution

/-- The account that makes a call as the owner. -/
def Call.asOwner? : Call → Option Account
  | importPeriod caller _ _ | importWatermark caller _ _ | finishImport caller
  | setDuration caller _ | setIssuanceRatio caller _ | setTargetThreshold caller _
  | setStalePeriod caller _ | setRelayer caller _ => some caller
  | _ => none

namespace System

/-- Which right the caller of a call lacks at this moment, if any. -/
def denial? (system : System) : Call → Option Denial
  | .closeRelayed caller _ _ =>
    if system.pool.settings.relayer = some caller then none else some (.notRelayer caller)
  | .claimOnBehalf account delegate _ =>
    if system.pool.delegation.allows account delegate then none
    else some (.notDelegate delegate account)
  | call =>
    call.asOwner?.bind fun caller =>
      if system.pool.settings.owner = some caller then none else some (.notOwner caller)

/-- The calls of a run that are not denied when their turn comes, with their results. -/
def heeded (system : System) : List Call → List (Call × Except Fault Reply)
  | [] => []
  | call :: calls =>
    match system.denial? call with
    | some _ => heeded (system.step call).2 calls
    | none => (call, (system.step call).1) :: heeded (system.step call).2 calls

variable {α : Type} {system : System} {call : Call} {denial : Denial} {caller : Account}

/-! ## A denied call -/

theorem onPool_of_error {change : Pool → Except Fault (α × Pool)} {wrap : α → Reply}
    {fault : Fault} (hchange : change system.pool = .error fault) :
    reply wrap (system.onPool change) = (.error fault, system) := by
  unfold onPool
  rw [hchange]
  rfl

/-- Who is not the owner gets no further than the check of the caller. -/
theorem checkOwner_bind_of_ne {pool : Pool} (howner : pool.settings.owner ≠ some caller)
    (rest : Unit → Except Fault α) :
    (pool.checkOwner caller >>= rest) = .error (.unauthorized (.notOwner caller)) := by
  rw [Pool.checkOwner, if_neg howner]
  rfl

theorem configure_of_notOwner {check : Except Fault Unit} {change : Settings → Settings}
    (howner : system.pool.settings.owner ≠ some caller) :
    reply .ofUnit (system.configure caller check change) =
      (.error (.unauthorized (.notOwner caller)), system) :=
  onPool_of_error (checkOwner_bind_of_ne howner _)

theorem step_of_notOwner (hcall : call.asOwner? = some caller)
    (howner : system.pool.settings.owner ≠ some caller) :
    system.step call = (.error (.unauthorized (.notOwner caller)), system) := by
  cases call with
  | importPeriod | importWatermark | finishImport =>
      cases hcall
      rw [step]
      exact onPool_of_error (checkOwner_bind_of_ne howner _)
  | setDuration | setIssuanceRatio | setTargetThreshold | setStalePeriod | setRelayer =>
      cases hcall
      rw [step]
      exact configure_of_notOwner howner
  | _ => cases hcall

theorem step_of_notRelayer {new : PeriodId} {start : Timestamp}
    (hrelayer : system.pool.settings.relayer ≠ some caller) :
    system.step (.closeRelayed caller new start) =
      (.error (.unauthorized (.notRelayer caller)), system) := by
  simp only [step, closeRelayed, Closing.relayed, if_pos hrelayer]
  rfl

theorem step_of_notDelegate {account delegate : Account} {now : Timestamp}
    (hdelegate : ¬ system.pool.delegation.allows account delegate) :
    system.step (.claimOnBehalf account delegate now) =
      (.error (.unauthorized (.notDelegate delegate account)), system) := by
  simp only [step, claimOnBehalf, if_neg hdelegate]
  rfl

theorem denial?_of_asOwner (hcall : call.asOwner? = some caller) :
    system.denial? call =
      if system.pool.settings.owner = some caller then none else some (.notOwner caller) := by
  cases call with
  | importPeriod | importWatermark | finishImport | setDuration | setIssuanceRatio
  | setTargetThreshold | setStalePeriod | setRelayer =>
      cases hcall
      rfl
  | _ => cases hcall

theorem step_of_denial (hdenial : system.denial? call = some denial) :
    system.step call = (.error (.unauthorized denial), system) := by
  cases howner : call.asOwner? with
  | some caller =>
      rw [denial?_of_asOwner howner] at hdenial
      split at hdenial
      · cases hdenial
      · rename_i hother
        cases hdenial
        exact step_of_notOwner howner hother
  | none =>
      cases call with
      | closeRelayed caller new start =>
          simp only [denial?, Option.ite_none_left_eq_some, Option.some.injEq] at hdenial
          obtain ⟨hother, rfl⟩ := hdenial
          exact step_of_notRelayer hother
      | claimOnBehalf account delegate now =>
          simp only [denial?, Option.ite_none_left_eq_some, Option.some.injEq] at hdenial
          obtain ⟨hother, rfl⟩ := hdenial
          exact step_of_notDelegate hother
      | _ => simp [denial?, howner] at hdenial

/-! ## Runs without the denied calls -/

/-- The run of the calls that are not denied gives each of them the same result and ends in the same
system. -/
theorem run_heeded (system : System) (calls : List Call) :
    system.run ((system.heeded calls).map Prod.fst) =
      ((system.heeded calls).map Prod.snd, (system.run calls).2) := by
  induction calls generalizing system with
  | nil => rfl
  | cons call calls ih =>
      cases hdenial : system.denial? call with
      | some denial =>
          simp only [heeded, hdenial, run, step_of_denial hdenial]
          exact ih system
      | none =>
          simp only [heeded, hdenial, List.map_cons, run]
          rw [ih]

/-- Callers without authority have no influence: without their calls every other call of a run has
the same result, and the run ends in the same system.  A call without authority is denied and changes
nothing.  Without an owner every call reserved for the owner is denied, and without a relayer every
relayed close.  All along the settings stay valid, and no call changes the owner, the number of slots
or the size of the journal. -/
theorem denied_calls_without_influence {settings : Settings} {now : Timestamp} {start : System}
    (hcreate : Pool.create settings now = .ok start.pool) (calls : List Call) :
    start.run ((start.heeded calls).map Prod.fst) =
        ((start.heeded calls).map Prod.snd, (start.run calls).2) ∧
      (∀ call denial, (start.run calls).2.denial? call = some denial →
        (start.run calls).2.step call = (.error (.unauthorized denial), (start.run calls).2)) ∧
      (settings.owner = none → ∀ call caller, call.asOwner? = some caller →
        ((start.run calls).2.step call).1 = .error (.unauthorized (.notOwner caller))) ∧
      ((start.run calls).2.pool.settings.relayer = none → ∀ caller new opening,
        ((start.run calls).2.step (.closeRelayed caller new opening)).1 =
          .error (.unauthorized (.notRelayer caller))) ∧
      (start.run calls).2.pool.settings.validate = .ok () ∧
      (start.run calls).2.pool.settings.owner = settings.owner ∧
      (start.run calls).2.pool.settings.length = settings.length ∧
      (start.run calls).2.pool.settings.eventBuffer = settings.eventBuffer := by
  obtain ⟨hsettings, _⟩ := create_ok hcreate
  have hfixed : (start.run calls).2.fixedSettings = start.fixedSettings := fixedSettings_run calls
  simp only [fixedSettings, hsettings, Prod.mk.injEq] at hfixed
  obtain ⟨hlength, howner, hbuffer⟩ := hfixed
  refine ⟨run_heeded start calls, fun _ _ => step_of_denial, ?_, ?_,
    valid_run (validate_of_create hcreate) calls, howner, hlength, hbuffer⟩
  · intro hnone call caller hcall
    have hother : (start.run calls).2.pool.settings.owner ≠ some caller := by
      rw [howner, hnone]
      nofun
    rw [step_of_notOwner hcall hother]
  · intro hnone caller new opening
    have hother : (start.run calls).2.pool.settings.relayer ≠ some caller := by
      rw [hnone]
      nofun
    rw [step_of_notRelayer hother]

/-- Relayed closes and a claim that are denied, among calls that are not. -/
def relayedCalls : List Call :=
  [.fee 5, .around .refuseNext, .closeRelayed other 7 0, .closeRelayed .zero 7 0,
    .setRelayer other none, .claimOnBehalf .zero other 0, .setRelayer .zero (some other),
    .closeRelayed other 7 0]

/-- The close that is denied does not use up the refusal; once its caller is the relayer, the same
call closes the period. -/
theorem denied_calls_without_influence_twoSlots :
    Pool.create twoSlots.pool.settings 0 = .ok twoSlots.pool ∧
      (twoSlots.heeded relayedCalls).map Prod.fst =
        [.fee 5, .around .refuseNext, .closeRelayed .zero 7 0, .setRelayer .zero (some other),
          .closeRelayed other 7 0] ∧
      (twoSlots.run relayedCalls).2 =
        (twoSlots.run [.fee 5, .around .refuseNext, .closeRelayed .zero 7 0,
          .setRelayer .zero (some other), .closeRelayed other 7 0]).2 ∧
      (twoSlots.run relayedCalls).2.pool.ledger.window.current.id = 7 := by
  have hcreate : Pool.create twoSlots.pool.settings 0 = .ok twoSlots.pool := rfl
  have hheeded : (twoSlots.heeded relayedCalls).map Prod.fst =
      [.fee 5, .around .refuseNext, .closeRelayed .zero 7 0, .setRelayer .zero (some other),
        .closeRelayed other 7 0] := by
    decide
  obtain ⟨hrun, _⟩ := denied_calls_without_influence hcreate relayedCalls
  rw [hheeded] at hrun
  exact ⟨hcreate, hheeded, (congrArg Prod.snd hrun).symm, by decide⟩

end System

end FeeDistribution
