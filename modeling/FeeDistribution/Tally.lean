import FeeDistribution.Account.Basic

/-!
# Tallies

A number for every account, zero unless it was set.  Zeros are never stored, so two tallies that
agree on every account are equal.
-/

namespace FeeDistribution

/-- A number for every account, all but finitely many of them zero. -/
structure Tally where
  /-- The numbers that are not zero. -/
  entries : Std.ExtTreeMap Account Nat
  /-- No stored number is zero. -/
  entries_ne_zero : ∀ account : Account, entries[account]? ≠ some 0
deriving DecidableEq

namespace Tally

/-- The tally that is zero everywhere. -/
def empty : Tally :=
  ⟨∅, by simp⟩

instance : EmptyCollection Tally := ⟨empty⟩

instance : Inhabited Tally := ⟨empty⟩

/-- The number of an account. -/
def get (tally : Tally) (account : Account) : Nat :=
  tally.entries[account]?.getD 0

/-- The tally in which `account` has the number `value`. -/
def set (tally : Tally) (account : Account) (value : Nat) : Tally :=
  if hvalue : value = 0 then
    { entries := tally.entries.erase account
      entries_ne_zero := by
        intro other
        rw [Std.ExtTreeMap.getElem?_erase]
        split
        · simp
        · exact tally.entries_ne_zero other }
  else
    { entries := tally.entries.insert account value
      entries_ne_zero := by
        intro other
        rw [Std.ExtTreeMap.getElem?_insert]
        split
        · simpa using hvalue
        · exact tally.entries_ne_zero other }

/-- The sum over all accounts.  It is exact: balances are added up without a check, and their sum is
taken to be an amount. -/
def total (tally : Tally) : Nat :=
  (tally.entries.toList.map Prod.snd).foldr (· + ·) 0

theorem get_set (tally : Tally) (account other : Account) (value : Nat) :
    (tally.set account value).get other = if account = other then value else tally.get other := by
  unfold set get
  by_cases hvalue : value = 0
  · simp only [hvalue, dite_true, Std.ExtTreeMap.getElem?_erase, Std.LawfulEqOrd.compare_eq_iff_eq]
    split <;> simp_all
  · simp only [hvalue, dite_false, Std.ExtTreeMap.getElem?_insert,
      Std.LawfulEqOrd.compare_eq_iff_eq]
    split <;> simp_all

/-- Tallies that agree on every account are equal. -/
theorem ext_get {first second : Tally} (h : ∀ account, first.get account = second.get account) :
    first = second := by
  have hentries : first.entries = second.entries := by
    apply Std.ExtTreeMap.ext_getElem?
    intro account
    have hget := h account
    have hfirst := first.entries_ne_zero account
    have hsecond := second.entries_ne_zero account
    unfold get at hget
    cases h₁ : first.entries[account]? <;> cases h₂ : second.entries[account]? <;>
      simp_all
  cases first
  cases second
  simp_all

end Tally

end FeeDistribution
