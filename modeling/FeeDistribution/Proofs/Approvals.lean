import FeeDistribution.Delegation.Basic
import Mathlib.Data.List.Induction

/-!
# Approvals are a set of ordered pairs

Delegates are kept by owner: every owner has an entry with a set of delegates, made with the first
delegate and deleted with the last one.  None of this can be told from outside.  A delegate may claim
for an owner exactly if the last edit of this ordered pair was an approval, whatever became of all
other pairs, and the delegates of an owner are listed in bytewise order (`Delegation.pairs_kept`).

## Strategy

`Delegation.delegates` is blind to the difference between no entry and an empty one, so what an edit
does to it is said in two equations, `allows_approve` and `allows_remove`, in which entries are not
mentioned any more.  A history is a list of edits that grows at its end: its last edit of a pair is
the new one, or the one before (`lastOf_concat`), and the same two equations say that the approval
of the pair is as this edit leaves it (`allows_run`).  That entries are never empty is a separate
invariant, `Tidy`.
-/

namespace FeeDistribution

namespace Delegation

variable {delegation : Delegation} {owner delegate giver receiver : Account}

/-! ## One edit -/

theorem delegates_insert {delegates : Std.ExtTreeSet Account} :
    ({ approvals := delegation.approvals.insert giver delegates } : Delegation).delegates owner =
      if giver = owner then delegates else delegation.delegates owner := by
  simp only [Delegation.delegates, Std.ExtTreeMap.getElem?_insert,
    Std.LawfulEqOrd.compare_eq_iff_eq]
  split <;> rfl

theorem delegates_erase :
    ({ approvals := delegation.approvals.erase giver } : Delegation).delegates owner =
      if giver = owner then ∅ else delegation.delegates owner := by
  simp only [Delegation.delegates, Std.ExtTreeMap.getElem?_erase,
    Std.LawfulEqOrd.compare_eq_iff_eq]
  split <;> rfl

theorem allows_approve :
    (delegation.approve giver receiver).2.allows owner delegate =
      if giver = owner ∧ receiver = delegate then true else delegation.allows owner delegate := by
  simp only [approve, allows, delegates_insert]
  by_cases howner : giver = owner
  · subst howner
    by_cases hdelegate : receiver = delegate <;>
      simp [hdelegate, Std.ExtTreeSet.contains_insert]
  · simp [howner]

/-- An owner whose last delegate goes loses the entry, which no query can tell. -/
theorem delegates_remove :
    (delegation.remove giver receiver).2.delegates owner =
      if giver = owner then (delegation.delegates giver).erase receiver
      else delegation.delegates owner := by
  simp only [remove]
  split
  · rename_i hempty
    rw [delegates_erase, Std.ExtTreeSet.isEmpty_iff.mp hempty]
  · exact delegates_insert

theorem allows_remove :
    (delegation.remove giver receiver).2.allows owner delegate =
      if giver = owner ∧ receiver = delegate then false else delegation.allows owner delegate := by
  simp only [allows, delegates_remove]
  by_cases howner : giver = owner
  · subst howner
    by_cases hdelegate : receiver = delegate <;> simp [hdelegate, Std.ExtTreeSet.contains_erase]
  · simp [howner]

/-! ## Edits of the approvals -/

/-- An edit of the approvals. -/
inductive Edit where
  /-- An owner approves a delegate. -/
  | approve (owner delegate : Account)
  /-- An owner removes a delegate. -/
  | remove (owner delegate : Account)
deriving DecidableEq

/-- The owner and the delegate that an edit is about, in this order. -/
def Edit.pair : Edit → Account × Account
  | approve owner delegate => (owner, delegate)
  | remove owner delegate => (owner, delegate)

/-- Whether the approval stands after an edit. -/
def Edit.approves : Edit → Bool
  | approve _ _ => true
  | remove _ _ => false

/-- Carries out an edit, which answers whether anything changed. -/
def step (delegation : Delegation) : Edit → Bool × Delegation
  | .approve owner delegate => delegation.approve owner delegate
  | .remove owner delegate => delegation.remove owner delegate

/-- Carries out a list of edits, one after the other. -/
def run (delegation : Delegation) (edits : List Edit) : Delegation :=
  edits.foldl (fun reached edit => (reached.step edit).2) delegation

/-- The last edit of exactly this pair, if there was one. -/
def lastOf (owner delegate : Account) (edits : List Edit) : Option Edit :=
  (edits.filter fun edit => edit.pair = (owner, delegate)).getLast?

variable {edits : List Edit} {edit : Edit}

theorem run_concat : delegation.run (edits ++ [edit]) = ((delegation.run edits).step edit).2 := by
  simp [run]

theorem lastOf_concat :
    lastOf owner delegate (edits ++ [edit]) =
      if edit.pair = (owner, delegate) then some edit else lastOf owner delegate edits := by
  by_cases hpair : edit.pair = (owner, delegate) <;> simp [lastOf, hpair]

theorem pair_of_lastOf (hlast : lastOf owner delegate edits = some edit) :
    edit.pair = (owner, delegate) := by
  have hmem := List.mem_of_getLast? hlast
  simpa using (List.mem_filter.mp hmem).2

/-- An edit decides about its own pair and leaves every other as it was. -/
theorem allows_step :
    (delegation.step edit).2.allows owner delegate =
      if edit.pair = (owner, delegate) then edit.approves
      else delegation.allows owner delegate := by
  cases edit with
  | approve giver receiver =>
      simp only [Edit.pair, Prod.mk.injEq]
      exact allows_approve
  | remove giver receiver =>
      simp only [Edit.pair, Prod.mk.injEq]
      exact allows_remove

/-- The last edit of a pair decides; without one the pair is as it was. -/
theorem allows_run (edits : List Edit) :
    (delegation.run edits).allows owner delegate =
      ((lastOf owner delegate edits).map Edit.approves).getD
        (delegation.allows owner delegate) := by
  induction edits using List.reverseRecOn with
  | nil => rfl
  | append_singleton edits edit ih =>
      rw [run_concat, allows_step, lastOf_concat]
      split
      · rfl
      · exact ih

/-- In a new register an approval stands exactly if the last edit of the pair gave it. -/
theorem allows_run_new :
    (({} : Delegation).run edits).allows owner delegate = true ↔
      lastOf owner delegate edits = some (.approve owner delegate) := by
  rw [allows_run]
  cases hlast : lastOf owner delegate edits with
  | none => simp [allows, delegates]
  | some edit =>
      have hpair := pair_of_lastOf hlast
      cases edit with
      | approve giver receiver => simpa [Edit.approves, Edit.pair] using hpair
      | remove giver receiver => simp [Edit.approves]

/-! ## Entries -/

/-- No owner has an entry without delegates. -/
def Tidy (delegation : Delegation) : Prop :=
  ∀ owner : Account, delegation.approvals[owner]? ≠ some ∅

theorem Tidy.step (htidy : delegation.Tidy) : (delegation.step edit).2.Tidy := by
  intro owner
  cases edit with
  | approve giver receiver =>
      simp only [Delegation.step, Delegation.approve, Std.ExtTreeMap.getElem?_insert,
        Std.LawfulEqOrd.compare_eq_iff_eq]
      split
      · simp
      · exact htidy owner
  | remove giver receiver =>
      simp only [Delegation.step, Delegation.remove]
      split
      · rw [Std.ExtTreeMap.getElem?_erase]
        split
        · simp
        · exact htidy owner
      · rename_i hsome
        rw [Std.ExtTreeMap.getElem?_insert]
        split
        · simpa using hsome
        · exact htidy owner

theorem Tidy.run (htidy : delegation.Tidy) (edits : List Edit) : (delegation.run edits).Tidy := by
  induction edits using List.reverseRecOn with
  | nil => exact htidy
  | append_singleton edits edit ih =>
      rw [run_concat]
      exact ih.step

/-- An owner has an entry exactly if somebody may claim for them. -/
theorem Tidy.isSome_iff (htidy : delegation.Tidy) :
    delegation.approvals[owner]?.isSome ↔ ∃ delegate, delegation.allows owner delegate = true := by
  have hentry := htidy owner
  simp only [allows, delegates]
  cases hread : delegation.approvals[owner]? with
  | none => simp
  | some members =>
      have hmembers : members ≠ ∅ := fun hempty => hentry (hread.trans (congrArg some hempty))
      rw [Ne, Std.ExtTreeSet.eq_empty_iff_forall_contains, not_forall] at hmembers
      simpa using hmembers

/-! ## The list of delegates -/

theorem mem_delegatesOf :
    delegate ∈ delegation.delegatesOf owner ↔ delegation.allows owner delegate = true := by
  rw [delegatesOf, allows, Std.ExtTreeSet.mem_toList, Std.ExtTreeSet.contains_iff_mem]

theorem pairwise_delegatesOf :
    (delegation.delegatesOf owner).Pairwise fun first second => first.bytes < second.bytes :=
  Std.ExtTreeSet.ordered_toList.imp Account.compare_eq_lt.mp

/-! ## Any history -/

/-- Whatever approvals were given and taken away, in any order: a delegate may claim for an owner
exactly if the last edit of this ordered pair approved it; approving answers whether the pair was
missing, and removing whether it was there; an edit changes no pair but its own.  The delegates of an
owner are listed in strictly increasing bytewise order, and an owner has an entry exactly as long as
there is one. -/
theorem pairs_kept (edits : List Edit) (owner delegate : Account) :
    let reached := ({} : Delegation).run edits
    (reached.allows owner delegate = true ↔
        lastOf owner delegate edits = some (.approve owner delegate)) ∧
      ((reached.approve owner delegate).1 = true ↔
        lastOf owner delegate edits ≠ some (.approve owner delegate)) ∧
      ((reached.remove owner delegate).1 = true ↔
        lastOf owner delegate edits = some (.approve owner delegate)) ∧
      (∀ edit : Edit, (reached.step edit).2.allows owner delegate =
        if edit.pair = (owner, delegate) then edit.approves
        else reached.allows owner delegate) ∧
      (reached.delegatesOf owner).Pairwise (fun first second => first.bytes < second.bytes) ∧
      (delegate ∈ reached.delegatesOf owner ↔ reached.allows owner delegate = true) ∧
      (reached.approvals[owner]?.isSome ↔ ∃ other, reached.allows owner other = true) := by
  intro reached
  have hstands : reached.allows owner delegate = true ↔
      lastOf owner delegate edits = some (.approve owner delegate) := allows_run_new
  have htidy : reached.Tidy := Tidy.run (by simp [Tidy]) edits
  refine ⟨hstands, ?_, hstands, fun edit => allows_step, pairwise_delegatesOf, mem_delegatesOf,
    htidy.isSome_iff⟩
  rw [Ne, ← hstands]
  show (!reached.allows owner delegate) = true ↔ _
  simp

end Delegation

end FeeDistribution
