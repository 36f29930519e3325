import FeeDistribution.Proofs.Reachable

/-!
# Calls that fail

An entry point of the pool that pays nobody either succeeds or leaves the whole system as it was:
window, watermarks, reward stream, settings, journal, treasury and debt shares.  The one trace that
it can leave is outside, where a treasury that was made to refuse once has now refused.

Most of these entry points compute a changed pool and put it in place at the end, so there is
nothing to undo.  A close is different, for between its plan and its commit fees are burned, which
can not be taken back.  What saves it is that nothing fails after the burn
(`Closing.apply_of_burnPlanned`): fees are burned if the close succeeds, and only then.
-/

namespace FeeDistribution

namespace Call

/-- Whether a call is an entry point of the pool that pays nobody.  To issue or burn debt shares is
none: that is a change around the pool, which is only asked to bring an account up to date. -/
def PaysNobody : Call → Prop
  | claim _ _ | claimOnBehalf _ _ _ | settle _ | mint _ _ | burn _ _ | around _ => False
  | _ => True

end Call

namespace System

variable {α : Type} {system : System} {call : Call} {fault : Fault}

/-- A change of the pool that fails changes nothing. -/
theorem onPool_failed {change : Pool → Except Fault (α × Pool)} {wrap : α → Reply}
    (hfault : (reply wrap (system.onPool change)).1 = .error fault) :
    (reply wrap (system.onPool change)).2 = system := by
  unfold onPool at hfault ⊢
  cases hresult : change system.pool with
  | error _ => rfl
  | ok changed =>
      rw [hresult] at hfault
      cases hfault

theorem configure_failed {caller : Account} {check : Except Fault Unit}
    {change : Settings → Settings}
    (hfault : (reply .ofUnit (system.configure caller check change)).1 = .error fault) :
    (reply .ofUnit (system.configure caller check change)).2 = system :=
  onPool_failed hfault

theorem close_failed (hcall : call.Closes) (hfault : (system.step call).1 = .error fault) :
    (system.step call).2 = system ∨
      fault = Treasury.refusal ∧ system.env.treasury.refusing = true ∧
        (system.step call).2 = system.withRefusing false := by
  rcases close_cases hcall with
    ⟨_, hstep⟩ | ⟨hrefusing, hstep⟩ | ⟨_, _, _, _, _, hstep⟩ <;> rw [hstep] at hfault ⊢
  · exact .inl rfl
  · exact .inr ⟨(Except.error.inj hfault).symm, hrefusing, rfl⟩
  · cases hfault

/-- A call that pays nobody leaves everything as it was when it fails, but that the refusal of a
burn is used up. -/
theorem step_of_failed (hcall : call.PaysNobody) (hfault : (system.step call).1 = .error fault) :
    (system.step call).2 = system ∨
      call.Closes ∧ fault = Treasury.refusal ∧ system.env.treasury.refusing = true ∧
        (system.step call).2 = system.withRefusing false := by
  cases call with
  | closeTimed | closeRelayed =>
      refine (close_failed ?_ hfault).imp_right fun hrefused => ⟨trivial, hrefused⟩
      trivial
  | fee | reward | importPeriod | importWatermark | finishImport | notify | distributePending
  | checkpoint =>
      exact .inl (onPool_failed hfault)
  | setDuration | setIssuanceRatio | setTargetThreshold | setStalePeriod | setRelayer =>
      exact .inl (configure_failed hfault)
  | approve | removeDelegate | drain => cases hfault
  | claim | claimOnBehalf | settle | mint | burn | around => exact hcall.elim

/-- A close burns the fees of the open period if it succeeds, and nothing if it fails. -/
theorem burned_close (hcall : call.Closes) :
    (system.step call).2.env.treasury.burned = system.env.treasury.burned +
      match (system.step call).1 with
      | .ok _ => system.pool.ledger.window.current.fees.total
      | .error _ => 0 := by
  rcases close_cases hcall with
    ⟨_, hstep⟩ | ⟨_, hstep⟩ | ⟨plan, _, _, _, hcommit, hstep⟩ <;> rw [hstep]
  · rfl
  · rfl
  · have hburned : plan.burned = system.pool.ledger.window.current.fees.total :=
      congrArg (·.burned) (Ledger.planClose_ok (Ledger.commitClose_ok hcommit).1).2
    exact congrArg (system.env.treasury.burned + ·) hburned

/-- Every entry point that pays nobody is all or nothing.  If it fails, everything is as it was, but
that the refusal of a burn is used up.  A close burns the fees of the period it closes if it
succeeds and none if it fails; once they are burned it succeeds. -/
theorem failed_call_restores (system : System) {call : Call} (hcall : call.PaysNobody) :
    (∀ fault, (system.step call).1 = .error fault →
      (system.step call).2.withRefusing system.env.treasury.refusing = system ∧
        ((system.step call).2 ≠ system →
          call.Closes ∧ fault = Treasury.refusal ∧ system.env.treasury.refusing = true)) ∧
      (call.Closes →
        (system.step call).2.env.treasury.burned = system.env.treasury.burned +
          match (system.step call).1 with
          | .ok _ => system.pool.ledger.window.current.fees.total
          | .error _ => 0) ∧
      ∀ new start plan, system.pool.ledger.planClose new = .ok plan →
        (Closing.burnPlanned system.env plan).1 = .ok () →
        ∃ outcome : CloseOutcome, outcome.toClosePlan = plan ∧
          (Closing.apply system.books new start).1 = .ok outcome := by
  refine ⟨fun fault hfault => ?_, burned_close, fun new start plan hplan hburn => ?_⟩
  · rcases step_of_failed hcall hfault with hsame | ⟨hcloses, hrefused, hrefusing, hnext⟩
    · rw [hsame]
      exact ⟨rfl, fun hother => absurd rfl hother⟩
    · rw [hnext]
      exact ⟨rfl, fun _ => ⟨hcloses, hrefused, hrefusing⟩⟩
  · have hbooks : system.books.ledger.planClose new = .ok plan := hplan
    obtain ⟨outcome, hcommit, happly⟩ := Closing.apply_of_burnPlanned start hbooks hburn
    exact ⟨outcome, (Ledger.commitClose_ok hcommit).2.1, congrArg Prod.fst happly⟩

/-- A pool of two slots that has collected five, whose next burn will be refused. -/
def unburnable : System :=
  (twoSlots.run [.fee 5, .around .refuseNext]).2

/-- The first close fails at the burn and the second goes through. -/
theorem failed_call_restores_unburnable :
    (Call.closeRelayed .zero 7 0).PaysNobody ∧
      (unburnable.step (.closeRelayed .zero 7 0)).1 = .error Treasury.refusal ∧
      (unburnable.step (.closeRelayed .zero 7 0)).2.withRefusing true = unburnable ∧
      ((unburnable.step (.closeRelayed .zero 7 0)).2.step
        (.closeRelayed .zero 7 0)).2.env.treasury.burned = 5 := by
  have hcall : (Call.closeRelayed .zero 7 0).PaysNobody := trivial
  have hfault : (unburnable.step (.closeRelayed .zero 7 0)).1 = .error Treasury.refusal := rfl
  obtain ⟨hrestores, _⟩ := failed_call_restores unburnable hcall
  obtain ⟨_, hburns, _⟩ :=
    failed_call_restores (unburnable.step (.closeRelayed .zero 7 0)).2 hcall
  exact ⟨hcall, hfault, (hrestores _ hfault).1, hburns trivial⟩

end System

end FeeDistribution
