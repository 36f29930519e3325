import FeeDistribution.Proofs.Totals
import FeeDistribution.Proofs.ValidSettings

/-!
# The ledger never overflows

A sum that does not fit an amount is refused.  Such a refusal would be fatal where it concerns a
rollover: the period could never be closed again.  Suppose that no period is imported, that nobody
but the pool burns, and that all fees ever offered to the pool fit an amount together, and all
rewards.  Then nothing is ever refused for this reason, neither by a call that changes the ledger
nor by a query (`System.never_overflows`).

## Strategy

`System.Within` bounds by what was offered all that is ever added up: the sum of all totals, of
which the operations of the ledger form parts (`Ledger.Fits`), and what the treasury has burned,
which are deposits of closed periods (`System.Accounted`).
-/

namespace FeeDistribution

/-! ## The gate -/

namespace Terms

variable {terms : Terms}

/-- The target ratio and its threshold are words, as they are kept. -/
def Narrow (terms : Terms) : Prop :=
  terms.issuanceRatio ≤ Quantity.maxWord ∧ terms.targetThreshold ≤ Quantity.maxWord

/-- The penalty threshold as a number: the target ratio raised by the threshold, rounded down. -/
def highestRatio (terms : Terms) : Nat :=
  terms.issuanceRatio * (unit + terms.targetThreshold) / unit

theorem Narrow.penaltyThreshold_eq (hnarrow : terms.Narrow) :
    terms.penaltyThreshold = .ok terms.highestRatio := by
  obtain ⟨hratio, hthreshold⟩ := hnarrow
  have hbuffer : unit + terms.targetThreshold ≤ unit + Quantity.maxWord :=
    Nat.add_le_add_left hthreshold _
  have hadd : Decimal.add unit terms.targetThreshold = .ok (unit + terms.targetThreshold) :=
    Fallible.add_eq_ok (hbuffer.trans (by decide))
  have hproduct : terms.highestRatio ≤ Quantity.maxAmount := by
    refine Nat.div_le_of_le_mul ?_
    calc terms.issuanceRatio * (unit + terms.targetThreshold)
        ≤ Quantity.maxWord * (unit + Quantity.maxWord) := Nat.mul_le_mul hratio hbuffer
      _ ≤ unit * Quantity.maxAmount := by decide
  have hunit : unit ≠ 0 := by decide
  rw [penaltyThreshold, hadd]
  show Decimal.multiply _ _ = _
  rw [Decimal.multiply, Decimal.mulDiv, if_neg hunit]
  exact Fallible.narrow_eq_ok hproduct

theorem Narrow.exists_allows (hnarrow : terms.Narrow) (ratio : Amount) :
    ∃ allowed, terms.allows ratio = .ok allowed := by
  unfold allows
  split
  · exact ⟨true, rfl⟩
  · rw [hnarrow.penaltyThreshold_eq]
    exact ⟨_, rfl⟩

end Terms

theorem Gate.run_ne_overflow (gate : Gate) (circumstances : Circumstances)
    (hnarrow : circumstances.terms.Narrow) : gate.run circumstances ≠ .error .overflow := by
  refine Fallible.forM_ne_error fun check => ?_
  cases check with
  | active part =>
      rw [Check.run]
      split <;> nofun
  | ratesFresh =>
      rw [Check.run]
      split
      · nofun
      · split <;> nofun
  | penaltyThreshold =>
      rw [Check.run]
      split
      · nofun
      · rw [hnarrow.penaltyThreshold_eq]
        show (if _ then _ else _) ≠ _
        split <;> nofun

/-! ## Closes -/

theorem Treasury.burn_ne_overflow {treasury : Treasury} {amount : Amount}
    (hfits : treasury.burned + amount ≤ Quantity.maxAmount) :
    (treasury.burn amount).1 ≠ .error .overflow := by
  unfold burn
  split
  · nofun
  · rw [Fallible.add_eq_ok hfits]
    nofun

namespace Closing

variable {books : Books} {terms : Terms} {now start : Timestamp} {new : PeriodId}

/-- The totals in the window fit, and so do the fees that were burned with those still to be
burned. -/
structure Books.Fits (books : Books) : Prop where
  ledger : books.ledger.Fits
  burned_le : books.env.treasury.burned + books.ledger.window.current.fees.total ≤
    Quantity.maxAmount

theorem apply_ne_overflow (hfits : books.Fits) :
    (apply books new start).1 ≠ .error .overflow := by
  intro hfault
  rcases apply_failed hfault with hplan | ⟨plan, hplan, hburn⟩
  · exact hfits.ledger.planClose_ne_overflow new hplan
  · unfold burnPlanned at hburn
    split at hburn
    · -- what is burned are the fees that the closing period collected
      refine Treasury.burn_ne_overflow ?_ hburn
      rw [(Ledger.planClose_ok hplan).2]
      exact hfits.burned_le
    · cases hburn

theorem timed_ne_overflow (hfits : books.Fits) (hnarrow : terms.Narrow) {gates : Gates}
    {claimant : Option Account} {duration : Nat} :
    (timed gates terms claimant duration now books).1 ≠ .error .overflow := by
  unfold timed
  dsimp only
  split
  · nofun
  · split
    · nofun
    · split
      · rename_i fault hgate
        intro hfault
        cases hfault
        exact gates.timed.run_ne_overflow _ hnarrow hgate
      · exact apply_ne_overflow hfits

theorem relayed_ne_overflow (hfits : books.Fits) (hnarrow : terms.Narrow) {gates : Gates}
    {claimant relayer : Option Account} {caller : Account} :
    (relayed gates terms claimant now relayer caller new start books).1 ≠ .error .overflow := by
  unfold relayed
  split
  · nofun
  · split
    · rename_i fault hgate
      intro hfault
      cases hfault
      exact gates.relayed.run_ne_overflow _ hnarrow hgate
    · exact apply_ne_overflow hfits

end Closing

/-! ## Runs -/

namespace Call

/-- Whether a call imports no period and is no burn that the pool does not make. -/
def Ordinary : Call → Prop
  | importPeriod _ _ _ | around (.burn _) => False
  | _ => True

/-- Whether a call is a deposit, a close or a claim. -/
def OnLedger : Call → Prop
  | fee _ | reward _ | closeTimed _ | closeRelayed _ _ _ | claim _ _ | claimOnBehalf _ _ _ => True
  | _ => False

variable {call : Call}

theorem Ordinary.ne_importPeriod (hcall : call.Ordinary) (caller : Account) (slot : Nat)
    (period : Period) : call ≠ .importPeriod caller slot period := by
  rintro rfl
  exact hcall

theorem Ordinary.ne_burn (hcall : call.Ordinary) (amount : Amount) :
    call ≠ .around (.burn amount) := by
  rintro rfl
  exact hcall

end Call

namespace System

variable {α : Type} {start system : System} {call : Call} {offered : Revenue → Amount}
  {account : Account} {now : Timestamp}

/-- The terms stay narrow, since new ones are checked. -/
theorem narrow_step (hnarrow : system.pool.settings.terms.Narrow) :
    (system.step call).2.pool.settings.terms.Narrow := by
  by_cases hcall : call.Configures
  · cases call with
    | setDuration | setStalePeriod | setRelayer =>
        exact settings_configure (·.terms.Narrow) hnarrow fun _ _ => hnarrow
    | setIssuanceRatio caller ratio =>
        refine settings_configure (·.terms.Narrow) hnarrow fun _ hcheck => ⟨?_, hnarrow.2⟩
        have hratio := (Settings.checkIssuanceRatio_eq_ok.mp hcheck).2
        exact hratio.trans (by decide)
    | setTargetThreshold caller threshold =>
        refine settings_configure (·.terms.Narrow) hnarrow fun _ hcheck => ⟨hnarrow.1, ?_⟩
        exact (Settings.checkTargetThreshold_eq_ok.mp hcheck).trans (by decide)
    | _ => exact hcall.elim
  · rw [settings_eq_step system hcall]
    exact hnarrow

/-- What a system can hold and burn is bounded by what was offered to it. -/
structure Within (system : System) (offered : Revenue → Amount) : Prop where
  reachable : system.Reachable
  narrow : system.pool.settings.terms.Narrow
  gross_le : ∀ revenue, system.pool.ledger.window.gross revenue ≤ offered revenue
  accounted : ∃ collected ≤ offered .fees, system.Accounted collected

namespace Within

theorem step (hwithin : system.Within offered) (hcall : call.Ordinary) :
    (system.step call).2.Within fun revenue => offered revenue + call.offered revenue where
  reachable := hwithin.reachable.step
  narrow := narrow_step hwithin.narrow
  gross_le := by
    intro revenue
    have haligned := hwithin.reachable.wellFormed.toAligned
    have hoffers : (call.deposited revenue (system.step call).1 : Int) ≤ call.offered revenue :=
      Int.ofNat_le.mpr Call.deposited_le_offered
    calc (system.step call).2.pool.ledger.window.gross revenue
        ≤ system.pool.ledger.window.gross revenue +
            call.deposited revenue (system.step call).1 :=
          (step_posting system call).gross_le haligned hcall.ne_importPeriod
      _ ≤ offered revenue + call.offered revenue := add_le_add (hwithin.gross_le revenue) hoffers
      _ = (offered revenue + call.offered revenue : Amount) := (Nat.cast_add _ _).symm
  accounted := by
    obtain ⟨collected, hcollected, haccounted⟩ := hwithin.accounted
    exact ⟨_, Nat.add_le_add hcollected Call.deposited_le_offered,
      haccounted.step hwithin.reachable hcall.ne_importPeriod hcall.ne_burn⟩

theorem run (hwithin : system.Within offered) {calls : List Call}
    (hcalls : ∀ call ∈ calls, call.Ordinary) :
    (system.run calls).2.Within fun revenue =>
      offered revenue + (calls.map (Call.offered revenue)).sum := by
  induction calls generalizing system offered with
  | nil => exact hwithin
  | cons call calls ih =>
      obtain ⟨hcall, hcalls⟩ := List.forall_mem_cons.mp hcalls
      simp only [List.map_cons, List.sum_cons, ← Nat.add_assoc]
      exact ih (hwithin.step hcall) hcalls

theorem of_create {settings : Settings} (hcreate : Pool.create settings now = .ok start.pool)
    (hnarrow : settings.terms.Narrow) (hburned : start.env.treasury.burned = 0) :
    start.Within fun _ => 0 where
  reachable := .created hcreate
  narrow := by
    rw [(create_ok hcreate).1]
    exact hnarrow
  gross_le := by
    intro revenue
    apply le_of_eq
    apply List.sum_eq_zero
    intro total htotal
    obtain ⟨period, hperiod, rfl⟩ := List.mem_map.mp htotal
    obtain ⟨index, _, rfl⟩ := Window.mem_toList.mp hperiod
    rw [recent_create hcreate]
    split <;> cases revenue <;> rfl
  accounted := ⟨0, Nat.le_refl 0, accounted_create hcreate hburned⟩

theorem fits (hwithin : system.Within offered)
    (hoffered : ∀ revenue, offered revenue ≤ Quantity.maxAmount) : system.pool.ledger.Fits where
  wellFormed := hwithin.reachable.wellFormed
  gross_le revenue := (hwithin.gross_le revenue).trans (Int.ofNat_le.mpr (hoffered revenue))

theorem fits_books (hwithin : system.Within offered)
    (hoffered : ∀ revenue, offered revenue ≤ Quantity.maxAmount) : system.books.Fits where
  ledger := hwithin.fits hoffered
  burned_le := by
    obtain ⟨collected, hcollected, haccounted⟩ := hwithin.accounted
    exact haccounted.burned.le.trans (hcollected.trans (hoffered .fees))

/-- What the open period has collected and what is offered now fit together. -/
theorem current_le (hwithin : system.Within offered) {revenue : Revenue} {amount : Amount}
    (hfits : offered revenue + amount ≤ Quantity.maxAmount) :
    (system.pool.ledger.window.current.pot revenue).total + amount ≤ Quantity.maxAmount := by
  have htotal : (system.pool.ledger.window.current.pot revenue).total ≤ offered revenue := by
    exact_mod_cast (Window.total_le_gross 0).trans (hwithin.gross_le revenue)
  exact (Nat.add_le_add_right htotal amount).trans hfits

end Within

theorem onPool_ne_error {change : Pool → Except Fault (α × Pool)} {wrap : α → Reply}
    {fault : Fault} (hchange : change system.pool ≠ .error fault) :
    (reply wrap (system.onPool change)).1 ≠ .error fault := by
  unfold onPool
  split
  · nofun
  · rename_i other hfailed
    intro hfault
    cases hfault
    exact hchange hfailed

theorem afterClose_ne_error {ending : Except Fault CloseOutcome × Closing.Books} {fault : Fault}
    (hending : ending.1 ≠ .error fault) :
    (reply .closed (system.afterClose ending)).1 ≠ .error fault := by
  intro hfault
  have hfailed : (system.afterClose ending).1 = .error fault := Fallible.map_eq_error.mp hfault
  exact hending ((system.fst_afterClose ending).symm.trans hfailed)

theorem claim_ne_overflow (hfits : system.pool.ledger.Fits)
    (hnarrow : system.pool.settings.terms.Narrow) :
    (system.claim account now).1 ≠ .error .overflow := by
  rcases system.claim_cases account now with
    ⟨fault, hstage, hclaim⟩ | ⟨_, _, _, _, ⟨_, hclaim⟩ | ⟨_, hclaim⟩⟩ <;> rw [hclaim]
  · intro hfault
    cases hfault
    refine absurd hstage ?_
    refine Fallible.bind_ne_error (Gate.run_ne_overflow _ _ hnarrow) fun _ => ?_
    cases hplan : system.pool.ledger.planClaim account (system.env.stakes.shareOn account) with
    | error fault =>
        intro hfault
        cases hfault
        exact hfits.planClaim_ne_overflow _ _ hplan
    | ok plan =>
        -- a plan that was just made is accepted
        obtain ⟨next, hcommit⟩ := Ledger.commitClaim_of_planClaim hplan
        show system.pool.ledger.commitClaim plan >>= _ ≠ _
        rw [hcommit]
        nofun
  · nofun
  · nofun

/-- As long as what is offered fits, no deposit, close or claim overflows. -/
theorem Within.step_ne_overflow (hwithin : system.Within offered) (hcall : call.OnLedger)
    (hoffered : ∀ revenue, offered revenue + call.offered revenue ≤ Quantity.maxAmount) :
    (system.step call).1 ≠ .error .overflow := by
  have hbefore : ∀ revenue, offered revenue ≤ Quantity.maxAmount := fun revenue =>
    (Nat.le_add_right _ _).trans (hoffered revenue)
  have hfits := hwithin.fits hbefore
  cases call with
  | fee amount =>
      have hfee := hwithin.current_le (hoffered .fees)
      exact onPool_ne_error (Fallible.bind_ne_error (Ledger.Fits.recordFee_ne_overflow hfee)
        fun _ => Fallible.pure_ne_error)
  | reward amount =>
      have hreward := hwithin.current_le (hoffered .rewards)
      exact onPool_ne_error (Fallible.bind_ne_error
        (Ledger.Fits.recordReward_ne_overflow hreward) fun _ => Fallible.pure_ne_error)
  | closeTimed now =>
      exact afterClose_ne_error
        (Closing.timed_ne_overflow (hwithin.fits_books hbefore) hwithin.narrow)
  | closeRelayed caller new start =>
      exact afterClose_ne_error
        (Closing.relayed_ne_overflow (hwithin.fits_books hbefore) hwithin.narrow)
  | claim account now =>
      exact fun hfault => claim_ne_overflow hfits hwithin.narrow (Fallible.map_eq_error.mp hfault)
  | claimOnBehalf account delegate now =>
      intro hfault
      have hclaim : (system.claimOnBehalf account delegate now).1 = .error .overflow :=
        Fallible.map_eq_error.mp hfault
      unfold claimOnBehalf at hclaim
      split at hclaim
      · exact claim_ne_overflow hfits hwithin.narrow hclaim
      · cases hclaim
  | _ => exact hcall.elim

theorem exists_isClaimable (hnarrow : system.pool.settings.terms.Narrow) (account : Account) :
    ∃ claimable, system.isClaimable account = .ok claimable := by
  unfold isClaimable
  split
  · exact ⟨false, rfl⟩
  · exact hnarrow.exists_allows _

/-- Nothing overflows.  In a run from a new pool in which no period is imported and only the pool
burns, let all fees that are offered fit an amount together, whether they were accepted or not, and
all rewards.  Then no deposit, close or claim fails for an overflow, and every query of what is owed
or claimable has an answer at any time. -/
theorem never_overflows {settings : Settings} (hcreate : Pool.create settings now = .ok start.pool)
    (hnarrow : settings.terms.Narrow) (hburned : start.env.treasury.burned = 0)
    {calls : List Call} (hcalls : ∀ call ∈ calls, call.Ordinary)
    (hoffered : ∀ revenue, (calls.map (Call.offered revenue)).sum ≤ Quantity.maxAmount) :
    (∀ before call, before ++ [call] <+: calls → call.OnLedger →
      ((start.run before).2.step call).1 ≠ .error .overflow) ∧
    ∀ before, before <+: calls →
      (∃ fees, (start.run before).2.pool.ledger.totalFees = .ok fees) ∧
      (∃ rewards, (start.run before).2.pool.ledger.totalRewards = .ok rewards) ∧
      ∀ account, (∃ owed, (start.run before).2.available account = .ok owed) ∧
        (∃ rows, (start.run before).2.breakdown account = .ok rows) ∧
        ∃ claimable, (start.run before).2.isClaimable account = .ok claimable := by
  have hsum : ∀ {first : List Call}, first <+: calls → ∀ revenue,
      (first.map (Call.offered revenue)).sum ≤ Quantity.maxAmount := fun hbefore revenue =>
    ((hbefore.sublist.map _).sum_le_sum fun _ _ => Nat.zero_le _).trans (hoffered revenue)
  have hwithin : ∀ {before : List Call}, before <+: calls →
      (start.run before).2.Within fun revenue =>
        0 + (before.map (Call.offered revenue)).sum := fun hbefore =>
    (Within.of_create hcreate hnarrow hburned).run fun call hcall =>
      hcalls call (hbefore.subset hcall)
  constructor
  · intro before call hbefore hcall
    refine (hwithin ((List.prefix_append _ _).trans hbefore)).step_ne_overflow hcall
      fun revenue => ?_
    have htogether := hsum hbefore revenue
    rw [List.map_append, List.sum_append, List.map_singleton, List.sum_singleton] at htogether
    rwa [Nat.zero_add]
  · intro before hbefore
    have hfits := (hwithin hbefore).fits fun revenue => by
      rw [Nat.zero_add]
      exact hsum hbefore revenue
    exact ⟨⟨_, Fallible.sum_eq_ok (hfits.sum_unclaimed_le .fees)⟩,
      ⟨_, Fallible.sum_eq_ok (hfits.sum_unclaimed_le .rewards)⟩, fun account =>
      ⟨hfits.exists_available _ _, hfits.exists_breakdown _ _ _,
        exists_isClaimable (hwithin hbefore).narrow account⟩⟩

/-- A pool that is offered all the fees an amount can hold: after two closes the whole of them
stands in one period, where a pinned share of twice the whole counts as the whole, and a third close
still goes through. -/
theorem never_overflows_twoSlots :
    Pool.create twoSlots.pool.settings 0 = .ok twoSlots.pool ∧
      twoSlots.pool.settings.terms.Narrow ∧
      ((twoSlots.run [.fee (Quantity.maxAmount - 2), .closeRelayed .zero 7 0, .fee 2,
        .around (.share .zero 7 (2 * unit)), .closeRelayed .zero 9 0]).2.step
          (.closeRelayed .zero 11 0)).1 ≠ .error .overflow ∧
      (∃ rows, (twoSlots.run [.fee (Quantity.maxAmount - 2), .closeRelayed .zero 7 0, .fee 2,
        .around (.share .zero 7 (2 * unit)), .closeRelayed .zero 9 0]).2.breakdown .zero =
          .ok rows) ∧
      (twoSlots.run [.fee (Quantity.maxAmount - 2), .closeRelayed .zero 7 0, .fee 2,
        .around (.share .zero 7 (2 * unit)), .closeRelayed .zero 9 0]).2.available .zero =
          .ok (Quantity.maxAmount, 0) := by
  have hcreate : Pool.create twoSlots.pool.settings 0 = .ok twoSlots.pool := rfl
  have hnarrow : twoSlots.pool.settings.terms.Narrow := ⟨by decide, by decide⟩
  have hcalls : ∀ call ∈ [.fee (Quantity.maxAmount - 2), .closeRelayed .zero 7 0, .fee 2,
      .around (.share .zero 7 (2 * unit)), .closeRelayed .zero 9 0, .closeRelayed .zero 11 0],
      Call.Ordinary call := by
    simp [Call.Ordinary]
  obtain ⟨hledger, hqueries⟩ := never_overflows hcreate hnarrow rfl hcalls fun revenue => by
    cases revenue <;> decide
  refine ⟨hcreate, hnarrow, hledger _ _ ?_ trivial, ?_, by decide⟩
  · exact List.prefix_rfl
  · exact ((hqueries _ (List.prefix_append _ [_])).2.2 .zero).2.1

end System

end FeeDistribution
