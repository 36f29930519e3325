import FeeDistribution.Proofs.Authority
import FeeDistribution.Proofs.FailedClaims

/-!
# What can be imported

While history is imported, slots are overwritten in any order and as often as the owner likes.  What
has to come out of it is a property of the whole window: the filled slots are a run from the open
period, their ids fall with the index, and from no period more was claimed than it collected
(`Window.Ordered`).  The import looks at the imported period and its two neighbours only, of which
the first slot lacks the newer one and the last slot the older one, and either may not be filled.

That is enough, and it is not too much (`Ledger.import_exact`).  If the window was in order before,
a period that fits between its neighbours fits between all others, since these are ordered
themselves; and in a window that is in order the neighbours of every filled slot pass the check.
-/

namespace FeeDistribution

namespace Window

variable {window : Window} {index : Nat} {period : Period}

/-- The filled slots are a run from the open period, ids fall with the index, and every period is
covered. -/
structure Ordered (window : Window) : Prop where
  filled_of_le : ∀ {newer older : Nat}, newer ≤ older → (window.recent older).Filled →
    (window.recent newer).Filled
  id_lt : ∀ {newer older : Nat}, newer < older → (window.recent older).Filled →
    (window.recent older).id < (window.recent newer).id
  covered : ∀ index, (window.recent index).Covered

theorem WellFormed.ordered (wf : window.WellFormed) : window.Ordered :=
  ⟨wf.filled_of_le, wf.id_lt, wf.covered⟩

/-- Nothing bad is accepted: a period that fits between its neighbours leaves the window in
order. -/
theorem Ordered.set (ordered : window.Ordered) (aligned : window.Aligned)
    (hindex : index < window.length) (hcovered : period.Covered)
    (hnewer : index ≠ 0 → (window.recent (index - 1)).Filled ∧
      period.id < (window.recent (index - 1)).id)
    (holder : (window.recent (index + 1)).Filled → (window.recent (index + 1)).id < period.id) :
    (window.set index period).Ordered := by
  have hfalling : ∀ {newer older : Nat}, newer < older →
      ((window.set index period).recent older).Filled →
        ((window.set index period).recent older).id <
          ((window.set index period).recent newer).id :=
    id_lt_set_of_neighbours aligned ordered.id_lt hindex (fun hne => (hnewer hne).2) holder
  refine ⟨fun hle hfilled => ?_, hfalling, fun other => ?_⟩
  · rcases hle.eq_or_lt with rfl | hlt
    · exact hfilled
    · exact Nat.ne_zero_of_lt (hfalling hlt hfilled)
  · rw [recent_set aligned hindex]
    split
    · exact hcovered
    · exact ordered.covered other

/-- Nothing good is refused: in a window that is in order every filled slot fits between its
neighbours, which are those that the slot had before. -/
theorem Ordered.neighbours_of_set (ordered : (window.set index period).Ordered)
    (aligned : window.Aligned) (hindex : index < window.length) (hfilled : period.Filled) :
    (index ≠ 0 → (window.recent (index - 1)).Filled ∧
      period.id < (window.recent (index - 1)).id) ∧
      ((window.recent (index + 1)).Filled → (window.recent (index + 1)).id < period.id) := by
  have hself : (window.set index period).recent index = period := recent_set_self aligned hindex
  have hstored : ((window.set index period).recent index).Filled := by rwa [hself]
  constructor
  · intro hne
    have hbefore : (window.set index period).recent (index - 1) = window.recent (index - 1) :=
      recent_set_ne aligned hindex (by omega)
    have hlt : index - 1 < index := by omega
    have hnewer := ordered.filled_of_le hlt.le hstored
    have hfalls := ordered.id_lt hlt hstored
    rw [hbefore] at hnewer
    rw [hbefore, hself] at hfalls
    exact ⟨hnewer, hfalls⟩
  · intro holder
    have hafter : (window.set index period).recent (index + 1) = window.recent (index + 1) :=
      recent_set_ne aligned hindex (by omega)
    rw [← hafter] at holder ⊢
    have hfalls := ordered.id_lt (Nat.lt_succ_self index) holder
    rwa [hself] at hfalls

end Window

theorem Period.validate_ne_error {period : Period} {fault : Fault}
    (hfault : ∀ why, Fault.invalid why ≠ fault) : period.validate ≠ .error fault := by
  unfold validate
  split
  · exact mt Except.error.inj (hfault _)
  · split
    · exact mt Except.error.inj (hfault _)
    · nofun

namespace Ledger

variable {ledger next : Ledger} {slot : Nat} {period : Period} {fault : Fault}

theorem checkNeighbours_ne_error (hfault : ∀ why, Fault.invalid why ≠ fault) :
    ledger.checkNeighbours slot period ≠ .error fault := by
  unfold checkNeighbours
  dsimp only
  split
  · refine Fallible.guard_ne_error (hfault _) (Fallible.guard_ne_error (hfault _) ?_)
    exact Fallible.guard_ne_error_unit (hfault _)
  · exact Fallible.guard_ne_error_unit (hfault _)

/-- A period is imported if it leaves the window in order, and then only its slot changes. -/
theorem importPeriod_eq_ok_iff (aligned : ledger.window.Aligned) (ordered : ledger.window.Ordered) :
    ledger.importPeriod slot period = .ok next ↔
      (ledger.importOpen = true ∧ slot < ledger.window.length ∧ period.Filled ∧
        (ledger.window.set slot period).Ordered) ∧
        next = { ledger with window := ledger.window.set slot period } := by
  rw [importPeriod_eq_ok, checkNeighbours_eq_ok]
  constructor
  · rintro ⟨hopen, hslot, hfilled, hcovered, ⟨hnewer, holder⟩, hnext⟩
    exact ⟨⟨hopen, hslot, hfilled, ordered.set aligned hslot hcovered hnewer holder⟩, hnext.symm⟩
  · rintro ⟨⟨hopen, hslot, hfilled, hset⟩, hnext⟩
    have hcovered := hset.covered slot
    rw [Window.recent_set_self aligned hslot] at hcovered
    exact ⟨hopen, hslot, hfilled, hcovered, hset.neighbours_of_set aligned hslot hfilled,
      hnext.symm⟩

/-- Why a period is not imported: the import has ended, or the slot is outside the window, or the
period itself is at fault. -/
theorem fault_of_importPeriod (himport : ledger.importPeriod slot period = .error fault) :
    if ledger.importOpen = false then fault = .importClosed
    else if ledger.window.length ≤ slot then fault = .outsideWindow period.id
    else ∃ why, fault = .invalid why := by
  unfold importPeriod at himport
  split
  · rename_i hclosed
    rw [if_pos (by simp [hclosed])] at himport
    exact (Except.error.inj himport).symm
  · rename_i hopen
    rw [if_neg (by simpa using hopen)] at himport
    split
    · rename_i houtside
      rw [if_pos houtside] at himport
      exact (Except.error.inj himport).symm
    · rename_i hslot
      rw [if_neg hslot] at himport
      by_contra hnot
      have hfault : ∀ why, Fault.invalid why ≠ fault := fun why hwhy => hnot ⟨why, hwhy.symm⟩
      refine Fallible.guard_ne_error (hfault _) ?_ himport
      refine Fallible.bind_ne_error (Period.validate_ne_error hfault) fun _ => ?_
      exact Fallible.bind_ne_error (checkNeighbours_ne_error hfault) fun _ => Fallible.pure_ne_error

/-- An import that the ledger refuses changes nothing, whoever calls for it. -/
theorem step_of_importPeriod_error {system : System} (caller : Account)
    (himport : system.pool.ledger.importPeriod slot period = .error fault) :
    (system.step (.importPeriod caller slot period)).2 = system := by
  by_cases howner : system.pool.settings.owner = some caller
  · have hstep : system.step (.importPeriod caller slot period) = (.error fault, system) := by
      rw [System.step]
      refine System.onPool_of_error ?_
      rw [Pool.checkOwner, if_pos howner, himport]
      rfl
    rw [hstep]
  · rw [System.step_of_notOwner rfl howner]

/-- The import accepts exactly what leaves the window in order.  While the import is open, a period
with an id is accepted for a slot of the window if and only if the window with this period in that
slot is in order, and then nothing but the slot changes.  Otherwise nothing changes, and the fault
tells whether the import has ended, the slot is outside the window, or the period is to blame. -/
theorem import_exact (aligned : ledger.window.Aligned) (ordered : ledger.window.Ordered)
    (slot : Nat) (period : Period) :
    ((∃ next, ledger.importPeriod slot period = .ok next) ↔
      ledger.importOpen = true ∧ slot < ledger.window.length ∧ period.id ≠ 0 ∧
        (ledger.window.set slot period).Ordered) ∧
      (∀ next, ledger.importPeriod slot period = .ok next →
        next = { ledger with window := ledger.window.set slot period } ∧
          ∀ index, next.window.recent index =
            if index = slot then period else ledger.window.recent index) ∧
      ∀ fault, ledger.importPeriod slot period = .error fault →
        (if ledger.importOpen = false then fault = .importClosed
          else if ledger.window.length ≤ slot then fault = .outsideWindow period.id
          else ∃ why, fault = .invalid why) ∧
        ∀ system : System, system.pool.ledger = ledger → ∀ caller,
          (system.step (.importPeriod caller slot period)).2 = system := by
  refine ⟨⟨?_, ?_⟩, ?_, ?_⟩
  · rintro ⟨next, himport⟩
    exact ((importPeriod_eq_ok_iff aligned ordered).mp himport).1
  · intro haccepted
    exact ⟨_, (importPeriod_eq_ok_iff aligned ordered).mpr ⟨haccepted, rfl⟩⟩
  · intro next himport
    obtain ⟨⟨_, hslot, _⟩, rfl⟩ := (importPeriod_eq_ok_iff aligned ordered).mp himport
    refine ⟨rfl, fun index => ?_⟩
    rw [Window.recent_set aligned hslot]
    exact if_congr eq_comm rfl rfl
  · intro fault himport
    refine ⟨fault_of_importPeriod himport, ?_⟩
    rintro system rfl caller
    exact step_of_importPeriod_error caller himport

/-- Where periods 5 and 4 were imported, the older one can be replaced by period 3.  The newer one
can not be replaced by another period 4. -/
theorem import_exact_importing :
    System.importing.pool.ledger.window.Aligned ∧ System.importing.pool.ledger.window.Ordered ∧
      (∃ next, System.importing.pool.ledger.importPeriod 1 { id := 3 } = .ok next) ∧
      ∃ why, System.importing.pool.ledger.importPeriod 0 { id := 4 } = .error (.invalid why) := by
  have hreach : System.importing.Reachable := System.reachable_twoSlots.run _
  have aligned := hreach.wellFormed.toAligned
  have ordered := hreach.wellFormed.ordered
  have holder : (System.importing.pool.ledger.window.set 1 { id := 3 }).Ordered :=
    (hreach.run [.importPeriod .zero 1 { id := 3 }]).wellFormed.ordered
  have hsame : ¬ (System.importing.pool.ledger.window.set 0 { id := 4 }).Ordered := fun hset =>
    absurd (hset.id_lt Nat.zero_lt_one (by decide)) (by decide)
  refine ⟨aligned, ordered, ?_, ?_⟩
  · exact (import_exact aligned ordered 1 { id := 3 }).1.mpr ⟨rfl, by decide, by decide, holder⟩
  · obtain ⟨haccepted, _, hrefused⟩ := import_exact aligned ordered 0 { id := 4 }
    cases himport : System.importing.pool.ledger.importPeriod 0 { id := 4 } with
    | ok next => exact absurd (haccepted.mp ⟨next, himport⟩).2.2.2 hsame
    | error fault =>
        obtain ⟨why, rfl⟩ : ∃ why, fault = .invalid why := (hrefused fault himport).1
        exact ⟨why, rfl⟩

end Ledger

end FeeDistribution
