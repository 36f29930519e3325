import FeeDistribution.Proofs.Reachable

/-!
# The settings stay valid

A pool is only created under settings that pass `Settings.validate`, and every setter checks what it
puts in place.  The two checks are not the same: a setter asks for more than the validation does,
which accepts a duration of zero and puts no upper bound on the ratios.  So valid settings stay valid
along every run, and what no setter names never changes.
-/

namespace FeeDistribution

namespace Settings

variable {settings : Settings}

theorem validate_eq_ok :
    settings.validate = .ok () ↔
      (2 ≤ settings.length ∧ settings.length ≤ Bounds.maxLength) ∧
        (settings.duration ≠ 0 → FitDuration settings.duration) ∧
        settings.terms.issuanceRatio ≠ 0 ∧
        FitStalePeriod settings.terms.stalePeriod ∧ settings.eventBuffer ≠ 0 := by
  unfold validate
  split_ifs with hlength hduration hratio hstale hbuffer
  · simp
    omega
  · simp only [false_iff]
    intro hvalid
    exact hduration.2 (hvalid.2.1 hduration.1)
  · simp [hratio]
  · simp [hbuffer]
  · simp only [true_iff]
    refine ⟨by omega, ?_, hratio, hstale, hbuffer⟩
    intro hset
    by_contra hfit
    exact hduration ⟨hset, hfit⟩
  · simp [hstale]

theorem checkDuration_eq_ok {seconds : Nat} :
    checkDuration seconds = .ok () ↔ FitDuration seconds := by
  simp [checkDuration]

theorem checkStalePeriod_eq_ok {seconds : Nat} :
    checkStalePeriod seconds = .ok () ↔ FitStalePeriod seconds := by
  simp [checkStalePeriod]

theorem checkIssuanceRatio_eq_ok {ratio : Nat} :
    checkIssuanceRatio ratio = .ok () ↔ ratio ≠ 0 ∧ ratio ≤ Bounds.maxIssuanceRatio := by
  simp [checkIssuanceRatio]

theorem checkTargetThreshold_eq_ok {threshold : Nat} :
    checkTargetThreshold threshold = .ok () ↔ threshold ≤ Bounds.maxTargetThreshold := by
  simp [checkTargetThreshold]

end Settings

namespace System

variable {system : System} {call : Call}

/-- A setter keeps what holds of the settings, if its change does so once the check has passed. -/
theorem settings_configure {caller : Account} {check : Except Fault Unit}
    {change : Settings → Settings} (holds : Settings → Prop) (hholds : holds system.pool.settings)
    (hchange : system.pool.settings.owner = some caller → check = .ok () →
      holds (change system.pool.settings)) :
    holds (reply .ofUnit (system.configure caller check change)).2.pool.settings := by
  unfold configure onPool
  split
  · rename_i answer pool hresult
    simp only [Fallible.bind_eq_ok, Fallible.pure_eq_ok] at hresult
    obtain ⟨_, howner, _, hcheck, heq⟩ := hresult
    cases heq
    refine hchange ?_ hcheck
    by_contra hother
    simp [Pool.checkOwner, hother] at howner
  · exact hholds

theorem valid_step (hvalid : system.pool.settings.validate = .ok ()) :
    (system.step call).2.pool.settings.validate = .ok () := by
  by_cases hcall : call.Configures
  · have hsound := Settings.validate_eq_ok.mp hvalid
    obtain ⟨hlength, hduration, hratio, hstale, hbuffer⟩ := hsound
    cases call with
    | setDuration caller seconds =>
        refine settings_configure (·.validate = .ok ()) hvalid fun _ hcheck => ?_
        have hfit := Settings.checkDuration_eq_ok.mp hcheck
        exact Settings.validate_eq_ok.mpr ⟨hlength, fun _ => hfit, hratio, hstale, hbuffer⟩
    | setIssuanceRatio caller ratio =>
        refine settings_configure (·.validate = .ok ()) hvalid fun _ hcheck => ?_
        obtain ⟨hpositive, _⟩ := Settings.checkIssuanceRatio_eq_ok.mp hcheck
        exact Settings.validate_eq_ok.mpr ⟨hlength, hduration, hpositive, hstale, hbuffer⟩
    | setStalePeriod caller seconds =>
        refine settings_configure (·.validate = .ok ()) hvalid fun _ hcheck => ?_
        have hfit := Settings.checkStalePeriod_eq_ok.mp hcheck
        exact Settings.validate_eq_ok.mpr ⟨hlength, hduration, hratio, hfit, hbuffer⟩
    | setTargetThreshold | setRelayer =>
        refine settings_configure (·.validate = .ok ()) hvalid fun _ _ => ?_
        exact Settings.validate_eq_ok.mpr ⟨hlength, hduration, hratio, hstale, hbuffer⟩
    | _ => exact hcall.elim
  · rw [settings_eq_step system hcall]
    exact hvalid

theorem valid_run (hvalid : system.pool.settings.validate = .ok ()) (calls : List Call) :
    (system.run calls).2.pool.settings.validate = .ok () := by
  induction calls generalizing system with
  | nil => exact hvalid
  | cons call calls ih => exact ih (valid_step hvalid)

theorem validate_of_create {settings : Settings} {now : Timestamp} {pool : Pool}
    (hcreate : Pool.create settings now = .ok pool) :
    pool.settings.validate = .ok () := by
  obtain ⟨hsettings, _⟩ := create_ok hcreate
  simp only [Pool.create, Fallible.bind_eq_ok] at hcreate
  obtain ⟨_, hvalid, _⟩ := hcreate
  rw [hsettings]
  cases hvalidate : settings.validate with
  | ok _ => rfl
  | error misfit =>
      rw [hvalidate] at hvalid
      cases hvalid

theorem Reachable.valid (hreach : system.Reachable) :
    system.pool.settings.validate = .ok () := by
  induction hreach with
  | created hcreate => exact validate_of_create hcreate
  | step _ ih => exact valid_step ih

/-- The duration of a reachable system is the same with a sign. -/
theorem Reachable.duration_le (hreach : system.Reachable) :
    (system.pool.settings.duration : Int) ≤ Quantity.latest := by
  obtain ⟨_, hfit, _⟩ := Settings.validate_eq_ok.mp hreach.valid
  by_cases hset : system.pool.settings.duration = 0
  · rw [hset]
    decide
  · exact (Int.ofNat_le.mpr (hfit hset).2).trans (by decide)

/-! ## What no setter names -/

/-- Everything of the settings that no setter changes. -/
def fixedSettings (system : System) : Nat × Option Account × Nat :=
  (system.pool.settings.length, system.pool.settings.owner, system.pool.settings.eventBuffer)

theorem fixedSettings_step : (system.step call).2.fixedSettings = system.fixedSettings := by
  by_cases hcall : call.Configures
  · cases call with
    | setDuration | setIssuanceRatio | setTargetThreshold | setStalePeriod | setRelayer =>
        exact settings_configure
          (fun settings => (settings.length, settings.owner, settings.eventBuffer) =
            system.fixedSettings) rfl fun _ _ => rfl
    | _ => exact hcall.elim
  · unfold fixedSettings
    rw [settings_eq_step system hcall]

theorem fixedSettings_run (calls : List Call) :
    (system.run calls).2.fixedSettings = system.fixedSettings := by
  induction calls generalizing system with
  | nil => rfl
  | cons call calls ih => exact ih.trans fixedSettings_step

end System

end FeeDistribution
