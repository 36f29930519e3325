import FeeDistribution.Proofs.ClaimOrder
import FeeDistribution.Proofs.Lifecycle

/-!
# Rollover in closed form

Each close moves what is left of the oldest period into the next one, so what a period distributes
may come from far back, and claims make it less on the way.  Yet there is a closed form.  As long as
no period is imported, every period but the oldest distributes what was deposited while it was open.
The oldest distributes all that was deposited up to its close, less all that was ever claimed from
periods that have left the window (`System.rolled_over`).

## Strategy

Deposits and claims are kept as lists of amounts, each with the period that it concerns.
`Window.RolledOver` is the closed form together with what carries it through a close: the amount
claimed from each period of the window is known, and every entry concerns a period that stands in
the window or has left it.  When the oldest period leaves, its entries join those of the periods
before it, and the next period takes their place with its own on top.
-/

namespace FeeDistribution

/-! ## Entries -/

/-- Amounts and the periods that they concern. -/
abbrev Entries := List (PeriodId × Amount)

namespace Entries

variable {entries : Entries} {first second both : PeriodId → Prop} [DecidablePred first]
  [DecidablePred second] [DecidablePred both]

/-- The sum of the amounts that concern certain periods. -/
def sumOver (entries : Entries) (concerns : PeriodId → Prop) [DecidablePred concerns] : Amount :=
  (entries.map fun entry => if concerns entry.1 then entry.2 else 0).sum

theorem sumOver_append (entries others : Entries) :
    (entries ++ others).sumOver first = entries.sumOver first + others.sumOver first := by
  simp [sumOver]

theorem sumOver_concat (entries : Entries) (id : PeriodId) (amount : Amount) :
    sumOver (entries ++ [(id, amount)]) first =
      entries.sumOver first + if first id then amount else 0 := by
  simp [sumOver]

theorem sumOver_congr (hsame : ∀ entry ∈ entries, first entry.1 ↔ second entry.1) :
    entries.sumOver first = entries.sumOver second := by
  unfold sumOver
  rw [List.map_congr_left fun entry hentry => if_congr (hsame entry hentry) rfl rfl]

theorem sumOver_eq_zero (hnone : ∀ entry ∈ entries, ¬ first entry.1) :
    entries.sumOver first = 0 := by
  refine List.sum_eq_zero fun amount hamount => ?_
  obtain ⟨entry, hentry, rfl⟩ := List.mem_map.mp hamount
  exact if_neg (hnone entry hentry)

/-- Periods of two kinds are counted apart. -/
theorem sumOver_eq_add (hboth : ∀ entry ∈ entries, both entry.1 ↔ first entry.1 ∨ second entry.1)
    (hapart : ∀ id, first id → ¬ second id) :
    entries.sumOver both = entries.sumOver first + entries.sumOver second := by
  unfold sumOver
  rw [← List.sum_map_add]
  refine congrArg List.sum (List.map_congr_left fun entry hentry => ?_)
  rw [if_congr (hboth entry hentry) rfl rfl]
  by_cases hfirst : first entry.1
  · rw [if_pos (.inl hfirst), if_pos hfirst, if_neg (hapart _ hfirst), Nat.add_zero]
  · rw [if_neg hfirst, Nat.zero_add, if_congr (or_iff_right hfirst) rfl rfl]

end Entries

/-! ## The closed form -/

namespace Window

variable {window : Window} {revenue : Revenue} {deposits claims : Entries} {id : PeriodId}
  {index : Nat}

/-- The period at the last index. -/
def oldest (window : Window) : Period :=
  window.recent (window.length - 1)

/-- Whether a period stands in the window or has left it. -/
def Reached (window : Window) (id : PeriodId) : Prop :=
  id ≠ 0 ∧ ((∃ index, (window.recent index).id = id) ∨ window.oldest.Filled ∧ id < window.oldest.id)

/-- What a window holds of a revenue, in terms of all that was deposited and claimed. -/
structure RolledOver (window : Window) (revenue : Revenue) (deposits claims : Entries) : Prop where
  /-- A period that is not the oldest distributes what was deposited while it was open. -/
  own : ∀ index, index + 1 < window.length → (window.recent index).Filled →
    ((window.recent index).pot revenue).total = deposits.sumOver (· = (window.recent index).id)
  /-- The oldest distributes all deposits up to its close that no evicted period paid out. -/
  oldest : window.oldest.Filled →
    (window.oldest.pot revenue).total + claims.sumOver (· < window.oldest.id) =
      deposits.sumOver (· ≤ window.oldest.id)
  claimed : ∀ index, (window.recent index).Filled →
    ((window.recent index).pot revenue).claimed = claims.sumOver (· = (window.recent index).id)
  reached : ∀ entry ∈ deposits ++ claims, window.Reached entry.1

theorem Reached.of_ids {changed : Window} (hreached : window.Reached id)
    (hlength : changed.length = window.length)
    (hids : ∀ index, (changed.recent index).id = (window.recent index).id) :
    changed.Reached id := by
  obtain ⟨hzero, hstands⟩ := hreached
  unfold Reached oldest Period.Filled at *
  rw [hlength, hids]
  simp only [hids]
  exact ⟨hzero, hstands⟩

/-- A period that was reached is not newer than the open one. -/
theorem Reached.le_current (hreached : window.Reached id) (wf : window.WellFormed) :
    id ≤ window.current.id := by
  obtain ⟨hzero, ⟨index, rfl⟩ | ⟨hfilled, hlt⟩⟩ := hreached
  · exact wf.id_le_current hzero
  · exact hlt.le.trans (wf.id_le_current hfilled)

/-- No period in the window is older than the oldest one. -/
theorem WellFormed.oldest_id_le (wf : window.WellFormed) (holdest : window.oldest.Filled)
    (hfilled : (window.recent index).Filled) : window.oldest.id ≤ (window.recent index).id :=
  wf.id_le (Nat.le_sub_one_of_lt (lt_length_of_filled hfilled)) holdest

/-- A period stands in one place. -/
theorem WellFormed.index_eq {other : Nat} (wf : window.WellFormed)
    (hfilled : (window.recent index).Filled)
    (hid : (window.recent index).id = (window.recent other).id) : index = other := by
  have hother : (window.recent other).Filled := by rwa [Period.Filled, ← hid]
  rcases Nat.lt_trichotomy index other with hlt | heq | hlt
  · exact absurd hid (wf.id_lt hlt hother).ne'
  · exact heq
  · exact absurd hid (wf.id_lt hlt hfilled).ne

/-- The last two periods of a window are in order, once both are there. -/
theorem WellFormed.oldest_lt_receiving {ledger : Ledger} (wf : ledger.window.WellFormed)
    (hfilled : ledger.oldest.Filled) : ledger.oldest.id < ledger.receiving.id :=
  have htwo := wf.two_le_length
  wf.id_lt (show ledger.window.length - 2 < ledger.window.length - 1 by omega) hfilled

/-- Between the last two periods of a window no other was ever open. -/
theorem Reached.le_oldest (hreached : window.Reached id) (wf : window.WellFormed)
    (hlt : id < (window.recent (window.length - 2)).id) :
    window.oldest.Filled ∧ id ≤ window.oldest.id := by
  have hnext : (window.recent (window.length - 2)).Filled := Nat.ne_zero_of_lt hlt
  obtain ⟨hzero, ⟨index, rfl⟩ | ⟨hfilled, hless⟩⟩ := hreached
  · have hinside := lt_length_of_filled hzero
    have hbehind : window.length - 2 < index := by
      by_contra hbefore
      exact hlt.not_ge (wf.id_le (Nat.not_lt.mp hbefore) hnext)
    obtain rfl : index = window.length - 1 := by omega
    exact ⟨hzero, Nat.le_refl _⟩
  · exact ⟨hfilled, hless.le⟩

/-- A period that was reached was evicted if it is older than all that stand in the window. -/
theorem Reached.evicted_iff (hreached : window.Reached id) (wf : window.WellFormed)
    (holdest : window.oldest.Filled) :
    window.status? id = some .evicted ↔ id < window.oldest.id := by
  constructor
  · intro hevicted
    obtain ⟨hzero, ⟨index, rfl⟩ | ⟨_, hlt⟩⟩ := hreached
    · rw [wf.status?_recent hzero] at hevicted
      split_ifs at hevicted <;> cases hevicted
    · exact hlt
  · intro hlt
    refine wf.status?_of_absent hreached.1 (hreached.le_current wf) ?_
    rintro index rfl
    exact hlt.not_ge (wf.oldest_id_le holdest hreached.1)

end Window

/-- What a plan takes out, with the periods out of which it is taken. -/
def ClaimPlan.takings (plan : ClaimPlan) (revenue : Revenue) : Entries :=
  plan.entitlements.map fun owed => (owed.id, owed.of revenue)

theorem ClaimPlan.sumOver_takings {plan : ClaimPlan} {revenue : Revenue}
    {concerns : PeriodId → Prop} [DecidablePred concerns] :
    (plan.takings revenue).sumOver concerns =
      Period.sumOf (plan.entitlements.filter fun owed => decide (concerns owed.id)) revenue := by
  rw [Entries.sumOver, takings, List.map_map, Period.sumOf]
  show (plan.entitlements.map fun owed =>
    if concerns owed.id then owed.of revenue else 0).sum = _
  rw [List.sum_map_ite]
  simp

/-! ## The operations of the ledger -/

namespace Ledger

variable {ledger next : Ledger} {revenue : Revenue} {deposits claims : Entries}

/-- A deposit is one more entry of the open period. -/
theorem rolledOver_deposited {fees rewards : Amount}
    (hrolled : ledger.window.RolledOver revenue deposits claims) (wf : ledger.window.WellFormed)
    (hdeposited : ledger.Deposited fees rewards next) :
    next.window.RolledOver revenue
      (deposits ++ [(ledger.window.current.id, revenue.select fees rewards)]) claims := by
  have hread := recent_deposited wf.toAligned hdeposited
  have hlength := hdeposited.length_eq
  have htwo := wf.two_le_length
  have hids := id_recent_deposited wf.toAligned hdeposited
  have hlast : ledger.window.length - 1 ≠ 0 := by omega
  have holdest : next.window.oldest = ledger.window.oldest := by
    rw [Window.oldest, hlength, hread, if_neg hlast]
    rfl
  refine ⟨fun index hindex hfilled => ?own, ?oldest, fun index hfilled => ?claimed,
    fun entry hentry => ?reached⟩
  case own =>
    rw [hlength] at hindex
    rw [Period.Filled, hids] at hfilled
    rw [hids, Entries.sumOver_concat, ← hrolled.own index hindex hfilled, hread]
    by_cases hzero : index = 0
    · subst index
      have hsame : ledger.window.current.id = (ledger.window.recent 0).id := rfl
      rw [if_pos rfl, if_pos hsame, Period.pot_raise]
      rfl
    · have hother : ledger.window.current.id ≠ (ledger.window.recent index).id :=
        (wf.id_lt (Nat.pos_of_ne_zero hzero) hfilled).ne'
      rw [if_neg hzero, if_neg hother, Nat.add_zero]
  case oldest =>
    rw [holdest]
    intro hfilled
    have hnewer : ledger.window.oldest.id < ledger.window.current.id :=
      wf.id_lt (Nat.pos_of_ne_zero hlast) hfilled
    rw [Entries.sumOver_concat, if_neg (Nat.not_le.mpr hnewer), hrolled.oldest hfilled,
      Nat.add_zero]
  case claimed =>
    rw [Period.Filled, hids] at hfilled
    rw [hids, ← hrolled.claimed index hfilled, hread]
    split
    · subst index
      rw [Period.pot_raise]
      rfl
    · rfl
  case reached =>
    have hreached : ledger.window.Reached entry.1 := by
      rw [List.mem_append, List.mem_append, List.mem_singleton] at hentry
      rcases hentry with (hentry | rfl) | hentry
      · exact hrolled.reached entry (List.mem_append_left _ hentry)
      · exact ⟨wf.filled_current, .inl ⟨0, rfl⟩⟩
      · exact hrolled.reached entry (List.mem_append_right _ hentry)
    exact hreached.of_ids hlength hids

/-- A new ledger has seen neither deposits nor claims. -/
theorem rolledOver_create {length : Nat} {now : Timestamp}
    (hcreate : Ledger.create length now = .ok ledger) (revenue : Revenue) :
    ledger.window.RolledOver revenue [] [] := by
  obtain ⟨window, hwindow, hledger⟩ := Fallible.bind_eq_ok.mp hcreate
  obtain rfl : { window := window : Ledger } = ledger := Fallible.pure_eq_ok.mp hledger
  obtain ⟨aligned, _, hread⟩ := Window.create_ok hwindow
  have htwo := aligned.two_le_length
  have hpot : ∀ index, (window.recent index).pot revenue = {} := by
    intro index
    rw [hread]
    split <;> cases revenue <;> rfl
  constructor
  · intro index _ _
    exact congrArg Pot.total (hpot index)
  · have hunfilled : ¬ window.oldest.Filled := by
      rw [Window.oldest, hread, if_neg (by omega)]
      exact not_not.mpr rfl
    exact fun hfilled => absurd hfilled hunfilled
  · intro index _
    exact congrArg Pot.claimed (hpot index)
  · nofun

/-- A deposit of nothing may be entered at any time. -/
theorem rolledOver_idle (hrolled : ledger.window.RolledOver revenue deposits claims)
    (wf : ledger.window.WellFormed) :
    ledger.window.RolledOver revenue (deposits ++ [(ledger.window.current.id, 0)]) claims := by
  have hnothing : revenue.select 0 0 = 0 := by cases revenue <;> rfl
  have hidle := rolledOver_deposited hrolled wf (.inl ⟨rfl, rfl, rfl⟩)
  rwa [hnothing] at hidle

/-- A claim is entered under each period out of which it takes. -/
theorem rolledOver_commitClaim {account : Account} {shareOn : PeriodId → Amount} {plan : ClaimPlan}
    {previous : PeriodId} (hrolled : ledger.window.RolledOver revenue deposits claims)
    (wf : ledger.window.WellFormed) (hplan : ledger.planClaim account shareOn = .ok plan)
    (hcommit : ledger.commitClaim plan = .ok (previous, next)) :
    next.window.RolledOver revenue deposits (claims ++ plan.takings revenue) := by
  have hstands : ∀ owed ∈ plan.entitlements, (ledger.window.recent owed.slot).Filled ∧
      (ledger.window.recent owed.slot).id = owed.id := fun owed howed =>
    have hslot := slot_of_planClaim hplan howed
    ⟨hslot.2.1, hslot.2.2.1⟩
  have hlength := length_commitClaim hcommit
  have hread := recent_takeOut wf.toAligned hcommit
  have hids := id_recent_commitClaim wf.toAligned hcommit
  have htotal : ∀ index, ((next.window.recent index).pot revenue).total =
      ((ledger.window.recent index).pot revenue).total := fun index => by
    rw [hread, Period.pot_claim]
    rfl
  refine ⟨fun index hindex hfilled => ?own, ?oldest, fun index hfilled => ?claimed,
    fun entry hentry => ?reached⟩
  case own =>
    rw [hlength] at hindex
    rw [Period.Filled, hids] at hfilled
    rw [htotal, hids]
    exact hrolled.own index hindex hfilled
  case oldest =>
    have hid : next.window.oldest.id = ledger.window.oldest.id := by
      rw [Window.oldest, hlength, hids]
      rfl
    have hsame : (next.window.oldest.pot revenue).total =
        (ledger.window.oldest.pot revenue).total := by
      rw [Window.oldest, hlength, htotal]
      rfl
    rw [Period.Filled, hid, hsame]
    intro hfilled
    -- nothing is taken out of a period that has left the window
    have hnone : (plan.entitlements.filter fun owed =>
        decide (owed.id < ledger.window.oldest.id)) = [] := by
      refine List.filter_eq_nil_iff.mpr fun owed howed => ?_
      obtain ⟨hstanding, hslot⟩ := hstands owed howed
      have hnewer := wf.oldest_id_le hfilled hstanding
      rw [hslot] at hnewer
      simpa using hnewer
    rw [Entries.sumOver_append, ClaimPlan.sumOver_takings, hnone]
    exact hrolled.oldest hfilled
  case claimed =>
    rw [Period.Filled, hids] at hfilled
    have hconcern : (plan.entitlements.filter fun owed => decide (index = owed.slot)) =
        plan.entitlements.filter fun owed =>
          decide (owed.id = (ledger.window.recent index).id) := by
      refine List.filter_congr fun owed howed => ?_
      rw [← (hstands owed howed).2]
      refine decide_eq_decide.mpr ⟨fun heq => by rw [heq], fun hid => ?_⟩
      exact wf.index_eq hfilled hid.symm
    rw [hids, Entries.sumOver_append, ClaimPlan.sumOver_takings, ← hconcern,
      ← hrolled.claimed index hfilled, hread, Period.pot_claim]
    cases revenue <;> rfl
  case reached =>
    have hreached : ledger.window.Reached entry.1 := by
      rw [List.mem_append, List.mem_append] at hentry
      rcases hentry with hentry | hentry | hentry
      · exact hrolled.reached entry (List.mem_append_left _ hentry)
      · exact hrolled.reached entry (List.mem_append_right _ hentry)
      · obtain ⟨owed, howed, rfl⟩ := List.mem_map.mp hentry
        obtain ⟨hstanding, hslot⟩ := hstands owed howed
        exact ⟨hslot ▸ hstanding, .inl ⟨owed.slot, hslot⟩⟩
    exact hreached.of_ids hlength hids

/-- What lies up to the receiving period lies up to the oldest one or is its own. -/
theorem sumOver_le_receiving {entries : Entries} (wf : ledger.window.WellFormed)
    (hreached : ∀ entry ∈ entries, ledger.window.Reached entry.1) (holdest : ledger.oldest.Filled) :
    entries.sumOver (· ≤ ledger.receiving.id) =
      entries.sumOver (· ≤ ledger.oldest.id) + entries.sumOver (· = ledger.receiving.id) := by
  have hnewer := wf.oldest_lt_receiving holdest
  refine Entries.sumOver_eq_add (fun entry hentry => ⟨fun hle => ?_, ?_⟩) fun id => ?_
  · rcases hle.lt_or_eq with hlt | heq
    · exact .inl ((hreached entry hentry).le_oldest wf hlt).2
    · exact .inr heq
  · rintro (hle | heq)
    · exact hle.trans hnewer.le
    · exact heq.le
  · rintro hle rfl
    exact hle.not_gt hnewer

/-- What lies before the receiving period lies before the oldest one or is that one's. -/
theorem sumOver_lt_receiving {entries : Entries} (wf : ledger.window.WellFormed)
    (hreached : ∀ entry ∈ entries, ledger.window.Reached entry.1) (holdest : ledger.oldest.Filled) :
    entries.sumOver (· < ledger.receiving.id) =
      entries.sumOver (· < ledger.oldest.id) + entries.sumOver (· = ledger.oldest.id) := by
  have hnewer := wf.oldest_lt_receiving holdest
  refine Entries.sumOver_eq_add (fun entry hentry => ⟨fun hlt => ?_, ?_⟩) fun id => ?_
  · exact ((hreached entry hentry).le_oldest wf hlt).2.lt_or_eq
  · rintro (hlt | heq)
    · exact hlt.trans hnewer
    · exact heq ▸ hnewer
  · exact fun hlt heq => hlt.ne heq

/-- When the oldest period leaves, what it held back or paid out is counted with the next one. -/
theorem total_receivingRaised (hrolled : ledger.window.RolledOver revenue deposits claims)
    (wf : ledger.window.WellFormed) (hfilled : ledger.receiving.Filled) :
    (ledger.receivingRaised.pot revenue).total + claims.sumOver (· < ledger.receiving.id) =
      deposits.sumOver (· ≤ ledger.receiving.id) := by
  have htwo := wf.two_le_length
  have hdeposited : ∀ entry ∈ deposits, ledger.window.Reached entry.1 := fun entry hentry =>
    hrolled.reached entry (List.mem_append_left _ hentry)
  have hclaimed : ∀ entry ∈ claims, ledger.window.Reached entry.1 := fun entry hentry =>
    hrolled.reached entry (List.mem_append_right _ hentry)
  have hown : (ledger.receiving.pot revenue).total = deposits.sumOver (· = ledger.receiving.id) :=
    hrolled.own (ledger.window.length - 2) (by omega) hfilled
  have hraised : (ledger.receivingRaised.pot revenue).total =
      (ledger.receiving.pot revenue).total + (ledger.oldest.pot revenue).unclaimed := by
    rw [receivingRaised, Period.pot_raise]
    cases revenue <;> rfl
  by_cases holdest : ledger.oldest.Filled
  · have hclosed : (ledger.oldest.pot revenue).total + claims.sumOver (· < ledger.oldest.id) =
      deposits.sumOver (· ≤ ledger.oldest.id) := hrolled.oldest holdest
    have hpaid : (ledger.oldest.pot revenue).claimed = claims.sumOver (· = ledger.oldest.id) :=
      hrolled.claimed (ledger.window.length - 1) holdest
    have hcovered : (ledger.oldest.pot revenue).claimed + (ledger.oldest.pot revenue).unclaimed =
      (ledger.oldest.pot revenue).total := Nat.add_sub_cancel' (wf.covered _ revenue)
    rw [hraised, sumOver_lt_receiving wf hclaimed holdest,
      sumOver_le_receiving wf hdeposited holdest, hown, ← hclosed, ← hcovered, hpaid]
    ring
  · -- before the window is full, nothing is older than the receiving period
    have hunclaimed : (ledger.oldest.pot revenue).unclaimed = 0 := by
      rw [show ledger.oldest = .empty from wf.eq_empty holdest]
      cases revenue <;> rfl
    have hdeposits : deposits.sumOver (· ≤ ledger.receiving.id) =
        deposits.sumOver (· = ledger.receiving.id) := by
      refine Entries.sumOver_congr fun entry hentry => ⟨fun hle => ?_, fun heq => heq.le⟩
      by_contra hne
      exact holdest ((hdeposited entry hentry).le_oldest wf (lt_of_le_of_ne hle hne)).1
    have hclaims : claims.sumOver (· < ledger.receiving.id) = 0 :=
      Entries.sumOver_eq_zero fun entry hentry hlt =>
        holdest ((hclaimed entry hentry).le_oldest wf hlt).1
    rw [hraised, hclaims, hdeposits, hown, hunclaimed, Nat.add_zero]

theorem oldest_closedWindow {new : PeriodId} {start : Timestamp}
    (aligned : ledger.window.Aligned) :
    (ledger.closedWindow new start).oldest = ledger.receivingRaised := by
  have htwo := aligned.two_le_length
  have hlast : ledger.window.length - 1 = ledger.window.length - 2 + 1 := by omega
  rw [Window.oldest, length_closedWindow, hlast, recent_closedWindow_succ aligned (by omega),
    if_pos rfl]

/-- A period that stands in the window is put back by a close, or has left it afterwards. -/
theorem reached_closedWindow {new id : PeriodId} {start : Timestamp}
    (wf : ledger.window.WellFormed) (hreached : ledger.window.Reached id) :
    (ledger.closedWindow new start).Reached id := by
  have hleft : ledger.window.oldest.Filled → id ≤ ledger.window.oldest.id →
      (ledger.closedWindow new start).oldest.Filled ∧
        id < (ledger.closedWindow new start).oldest.id := by
    intro hfilled hle
    have hnewer : ledger.window.oldest.id < ledger.receiving.id := wf.oldest_lt_receiving hfilled
    rw [oldest_closedWindow wf.toAligned]
    exact ⟨Nat.ne_zero_of_lt hnewer, hle.trans_lt hnewer⟩
  obtain ⟨hzero, ⟨index, rfl⟩ | ⟨hfilled, hlt⟩⟩ := hreached
  · refine ⟨hzero, ?_⟩
    have hinside : index < ledger.window.length := Window.lt_length_of_filled hzero
    by_cases hindex : index + 1 < ledger.window.length
    · exact .inl ⟨index + 1, id_recent_closedWindow wf.toAligned hindex⟩
    · obtain rfl : index = ledger.window.length - 1 := by omega
      exact .inr (hleft hzero le_rfl)
  · exact ⟨hzero, .inr (hleft hfilled hlt.le)⟩

/-- A close keeps the closed form, with the same entries. -/
theorem rolledOver_closedWindow {new : PeriodId} {start : Timestamp}
    (hrolled : ledger.window.RolledOver revenue deposits claims) (wf : ledger.window.WellFormed)
    (hnew : ledger.window.current.id < new) :
    (ledger.closedWindow new start).RolledOver revenue deposits claims := by
  have htwo := wf.two_le_length
  have hopened : (ledger.closedWindow new start).recent 0 = .opened new start :=
    current_closedWindow wf.toAligned
  have hnone : ∀ entry ∈ deposits ++ claims, ¬ entry.1 = new := by
    rintro entry hentry rfl
    exact hnew.not_ge ((hrolled.reached entry hentry).le_current wf)
  refine ⟨fun index hindex hfilled => ?own, ?oldest, fun index hfilled => ?claimed,
    fun entry hentry => reached_closedWindow wf (hrolled.reached entry hentry)⟩
  case own =>
    rw [length_closedWindow] at hindex
    cases index with
    | zero =>
        have hnothing : deposits.sumOver (· = new) = 0 :=
          Entries.sumOver_eq_zero fun entry hentry =>
            hnone entry (List.mem_append_left _ hentry)
        rw [hopened]
        exact (congrArg Pot.total Period.pot_opened).trans hnothing.symm
    | succ index =>
        have hother : ledger.window.length - 2 ≠ index := by omega
        rw [recent_closedWindow_succ wf.toAligned (by omega), if_neg hother] at hfilled ⊢
        exact hrolled.own index (by omega) hfilled
  case oldest =>
    rw [oldest_closedWindow wf.toAligned]
    exact total_receivingRaised hrolled wf
  case claimed =>
    cases index with
    | zero =>
        have hnothing : claims.sumOver (· = new) = 0 :=
          Entries.sumOver_eq_zero fun entry hentry =>
            hnone entry (List.mem_append_right _ hentry)
        rw [hopened]
        exact (congrArg Pot.claimed Period.pot_opened).trans hnothing.symm
    | succ index =>
        have hindex : index + 1 < ledger.window.length :=
          length_closedWindow ▸ Window.lt_length_of_filled hfilled
        rw [Period.Filled, id_recent_closedWindow wf.toAligned hindex] at hfilled
        rw [id_recent_closedWindow wf.toAligned hindex, ← hrolled.claimed index hfilled,
          recent_closedWindow_succ wf.toAligned hindex]
        split
        · subst index
          rw [receivingRaised, Period.pot_raise]
          rfl
        · rfl

end Ledger

/-- A call that neither claims nor imports a period enters what it deposits. -/
theorem Posting.rolledOver {ledger next : Ledger} {payments nextPayments : Payments} {call : Call}
    {result : Except Fault Reply} {revenue : Revenue} {deposits claims : Entries}
    (hposting : Posting ledger payments call result next nextPayments)
    (hrolled : ledger.window.RolledOver revenue deposits claims) (wf : ledger.window.WellFormed)
    (hcall : call.claimant? = none)
    (himport : ∀ caller slot period, call ≠ .importPeriod caller slot period) :
    next.window.RolledOver revenue
      (deposits ++ [(ledger.window.current.id, call.deposited revenue result)]) claims := by
  have hidle := Ledger.rolledOver_idle hrolled wf
  cases hposting with
  | refused =>
      rw [Call.deposited_error]
      exact hidle
  | aside hneutral =>
      rw [Call.deposited_of_neutral hneutral]
      exact hidle
  | settled | outside | finishImport => exact hidle
  | fee hrecord => exact Ledger.rolledOver_deposited hrolled wf (Ledger.recordFee_ok hrecord)
  | reward hrecord => exact Ledger.rolledOver_deposited hrolled wf (Ledger.recordReward_ok hrecord)
  | closed hneutral hcommit =>
      obtain ⟨hplan, _, rfl⟩ := Ledger.commitClose_ok hcommit
      rw [Call.deposited_of_neutral hneutral]
      exact Ledger.rolledOver_closedWindow hidle wf (Ledger.planClose_ok hplan).1
  | claimed hclaimant => cases hclaimant.symm.trans hcall
  | unpaid hclaimant => cases hclaimant.symm.trans hcall
  | importPeriod => exact absurd rfl (himport _ _ _)
  | importWatermark himported =>
      obtain ⟨_, rfl⟩ := Ledger.importWatermark_ok himported
      exact hidle

namespace System

variable {start system : System} {call : Call} {calls : List Call} {revenue : Revenue}
  {deposits claims : Entries}

/-! ## Runs -/

/-- What a call takes out of the periods, if it is a claim and succeeds. -/
def takings (system : System) (revenue : Revenue) (call : Call) : Entries :=
  match call.claimant?, (system.step call).1 with
  | some account, .ok _ =>
    match system.pool.ledger.planClaim account (system.env.stakes.shareOn account) with
    | .ok plan => plan.takings revenue
    | .error _ => []
  | _, _ => []

/-- The deposits of a list of calls, each with the period that was open. -/
def depositsMade (system : System) (revenue : Revenue) : List Call → Entries
  | [] => []
  | call :: calls =>
    (system.pool.ledger.window.current.id, call.deposited revenue (system.step call).1) ::
      (system.step call).2.depositsMade revenue calls

/-- The claims of a list of calls, each with the period out of which it was paid. -/
def claimsMade (system : System) (revenue : Revenue) : List Call → Entries
  | [] => []
  | call :: calls =>
    system.takings revenue call ++ (system.step call).2.claimsMade revenue calls

theorem takings_of_no_claimant (hcall : call.claimant? = none) :
    system.takings revenue call = [] := by
  rw [takings, hcall]

theorem takings_of_error {fault : Fault} (hfault : (system.step call).1 = .error fault) :
    system.takings revenue call = [] := by
  rw [takings, hfault]
  cases call.claimant? <;> rfl

theorem takings_of_planClaim {account : Account} {reply : Reply} {plan : ClaimPlan}
    (hcall : call.claimant? = some account) (hresult : (system.step call).1 = .ok reply)
    (hplan : system.pool.ledger.planClaim account (system.env.stakes.shareOn account) =
      .ok plan) : system.takings revenue call = plan.takings revenue := by
  rw [takings, hcall, hresult]
  dsimp only
  rw [hplan]

/-- A claim takes what it pays. -/
theorem sumOver_takings (system : System) (revenue : Revenue) (call : Call) :
    (system.takings revenue call).sumOver (fun _ => True) =
      ((receipt? (system.step call).1).toList.map (·.of revenue)).sum := by
  cases hcall : call.claimant? with
  | none =>
      rw [takings_of_no_claimant hcall, receipt?_of_no_claimant hcall]
      rfl
  | some account =>
      cases hresult : (system.step call).1 with
      | error fault =>
          rw [takings_of_error hresult]
          rfl
      | ok reply =>
          obtain ⟨plan, _, _, hplan, _, rfl, _⟩ := step_claimed hcall hresult
          have hsum := Ledger.sumEntitlements_ok (Ledger.planClaim_ok hplan).2.2.1 revenue
          have hreceipt : plan.receipt.of revenue = revenue.select plan.fees plan.rewards := rfl
          rw [takings_of_planClaim hcall hresult hplan, ClaimPlan.sumOver_takings]
          simpa [Period.sumOf, receipt?, hreceipt] using hsum

theorem rolledOver_step (hrolled : system.pool.ledger.window.RolledOver revenue deposits claims)
    (wf : system.pool.ledger.window.WellFormed)
    (himport : ∀ caller slot period, call ≠ .importPeriod caller slot period) :
    (system.step call).2.pool.ledger.window.RolledOver revenue
      (deposits ++ [(system.pool.ledger.window.current.id,
        call.deposited revenue (system.step call).1)])
      (claims ++ system.takings revenue call) := by
  cases hcall : call.claimant? with
  | none =>
      rw [takings_of_no_claimant hcall, List.append_nil]
      exact (step_posting system call).rolledOver hrolled wf hcall himport
  | some account =>
      have hidle := Ledger.rolledOver_idle hrolled wf
      rw [Call.deposited_of_neutral (Call.neutral_of_claimant hcall)]
      cases hresult : (system.step call).1 with
      | error fault =>
          rw [takings_of_error hresult, (step_claim_failed hcall hresult).1, List.append_nil]
          exact hidle
      | ok reply =>
          obtain ⟨plan, previous, ledger, hplan, hcommit, _, hnext⟩ := step_claimed hcall hresult
          rw [takings_of_planClaim hcall hresult hplan, hnext]
          exact Ledger.rolledOver_commitClaim hidle wf hplan hcommit

theorem rolledOver_run (hrolled : system.pool.ledger.window.RolledOver revenue deposits claims)
    (wf : system.pool.ledger.window.WellFormed)
    (himport : ∀ call ∈ calls, ∀ caller slot period, call ≠ .importPeriod caller slot period) :
    (system.run calls).2.pool.ledger.window.WellFormed ∧
      (system.run calls).2.pool.ledger.window.RolledOver revenue
        (deposits ++ system.depositsMade revenue calls)
        (claims ++ system.claimsMade revenue calls) := by
  induction calls generalizing system deposits claims with
  | nil =>
      rw [depositsMade, claimsMade, List.append_nil, List.append_nil]
      exact ⟨wf, hrolled⟩
  | cons call calls ih =>
      obtain ⟨hcall, hcalls⟩ := List.forall_mem_cons.mp himport
      have hlast := ih (rolledOver_step hrolled wf hcall)
        ((step_posting system call).wellFormed wf) hcalls
      rw [List.append_assoc, List.append_assoc] at hlast
      exact hlast

/-- The claims that were entered are those that were paid. -/
theorem sumOver_claimsMade (system : System) (revenue : Revenue) (calls : List Call) :
    (system.claimsMade revenue calls).sumOver (fun _ => True) =
      ((system.receipts calls).map (·.of revenue)).sum := by
  induction calls generalizing system with
  | nil => rfl
  | cons call calls ih =>
      rw [claimsMade, Entries.sumOver_append, ih, sumOver_takings, receipts_cons, List.map_append,
        List.sum_append]

theorem claimsMade_of_no_claimant (hcalls : ∀ call ∈ calls, call.claimant? = none) :
    system.claimsMade revenue calls = [] := by
  induction calls generalizing system with
  | nil => rfl
  | cons call calls ih =>
      obtain ⟨hcall, hcalls⟩ := List.forall_mem_cons.mp hcalls
      rw [claimsMade, takings_of_no_claimant hcall, ih hcalls]
      rfl

/-- Rollover in closed form, in a window of any length, for fees and rewards alike.  Every period
but the oldest distributes what was deposited while it was open.  The oldest distributes all that
was deposited up to its close, less all that was claimed from evicted periods; without claims it
distributes all of it. -/
theorem rolled_over {length : Nat} {now : Timestamp}
    (hcreate : Ledger.create length now = .ok start.pool.ledger)
    (himport : ∀ call ∈ calls, ∀ caller slot period, call ≠ .importPeriod caller slot period)
    (revenue : Revenue) :
    let window := (start.run calls).2.pool.ledger.window
    let deposits := start.depositsMade revenue calls
    let claims := start.claimsMade revenue calls
    (∀ index, index + 1 < window.length → (window.recent index).Filled →
      ((window.recent index).pot revenue).total =
        deposits.sumOver (· = (window.recent index).id)) ∧
      (window.oldest.Filled →
        (window.oldest.pot revenue).total +
            claims.sumOver (fun id => window.status? id = some .evicted) =
          deposits.sumOver (· ≤ window.oldest.id)) ∧
      claims.sumOver (fun _ => True) = ((start.receipts calls).map (·.of revenue)).sum ∧
      ((∀ call ∈ calls, call.claimant? = none) → window.oldest.Filled →
        (window.oldest.pot revenue).total = deposits.sumOver (· ≤ window.oldest.id)) := by
  intro window deposits claims
  obtain ⟨wf, hrolled⟩ := rolledOver_run (Ledger.rolledOver_create hcreate revenue)
    (Ledger.wellFormed_create hcreate).1 himport
  rw [List.nil_append, List.nil_append] at hrolled
  have hevicted : window.oldest.Filled →
      claims.sumOver (fun id => window.status? id = some .evicted) =
        claims.sumOver (· < window.oldest.id) := fun hfilled =>
    Entries.sumOver_congr fun entry hentry =>
      (hrolled.reached entry (List.mem_append_right _ hentry)).evicted_iff wf hfilled
  refine ⟨hrolled.own, fun hfilled => ?_, sumOver_claimsMade start revenue calls, ?_⟩
  · rw [hevicted hfilled]
    exact hrolled.oldest hfilled
  · intro hcalls hfilled
    have hnone : claims = [] := claimsMade_of_no_claimant hcalls
    have holdest := hrolled.oldest hfilled
    rwa [show start.claimsMade revenue calls = [] from hnone] at holdest

/-- Half of the fees of the first period, rounded down, are claimed before it leaves the window. -/
def halfClaimed : List Call :=
  [.fee 5, .around (.share .zero 1 (unit / 2)), .closeRelayed .zero 7 0,
    .around (.rate Defaults.collateralCurrency 0), .claim .zero 0, .fee 4,
    .closeRelayed .zero 9 0, .fee 1]

/-- Of the nine fees that came in up to its close, the oldest period distributes the seven that were
not claimed from the first. -/
theorem rolled_over_halfClaimed :
    Ledger.create 2 0 = .ok twoSlots.pool.ledger ∧
      (∀ call ∈ halfClaimed, ∀ caller slot period, call ≠ .importPeriod caller slot period) ∧
      (twoSlots.run halfClaimed).2.pool.ledger.window.oldest.id = 7 ∧
      (twoSlots.run halfClaimed).2.pool.ledger.window.oldest.fees.total = 7 ∧
      (twoSlots.run halfClaimed).2.pool.ledger.window.current.fees.total = 1 := by
  have hcreate : Ledger.create 2 0 = .ok twoSlots.pool.ledger := rfl
  have himport : ∀ call ∈ halfClaimed, ∀ caller slot period,
      call ≠ .importPeriod caller slot period := by
    simp [halfClaimed]
  obtain ⟨hown, holdest, _⟩ := rolled_over hcreate himport .fees
  have hid : (twoSlots.run halfClaimed).2.pool.ledger.window.oldest.id = 7 := by decide
  have hclaims : twoSlots.claimsMade .fees halfClaimed = [(1, 2)] := by decide
  have hdeposits : (twoSlots.depositsMade .fees halfClaimed).sumOver (· ≤ 7) = 9 := by decide
  have hevicted : (twoSlots.run halfClaimed).2.pool.ledger.window.status? 1 = some .evicted := by
    decide
  refine ⟨hcreate, himport, hid, ?_, (hown 0 (by decide) (by decide)).trans (by decide)⟩
  have hsum := holdest (by decide)
  rw [hid, hclaims, hdeposits] at hsum
  simp only [Entries.sumOver, List.map_cons, List.map_nil, hevicted, if_true] at hsum
  exact Nat.add_right_cancel hsum

end System

end FeeDistribution
