import FeeDistribution.Environment.Stakes
import FeeDistribution.Proofs.Fallible
import Mathlib.Algebra.BigOperators.Fin
import Mathlib.Algebra.BigOperators.Ring.Finset
import Mathlib.Algebra.Order.BigOperators.Group.Finset

/-!
# Parts of a whole

When a whole is divided in proportion, every part is rounded down, so that the parts together never
exceed it (`sum_mul_div_le`).  Each part loses less than one in this way, and if the whole was given
away nothing else is lost: as many parts as there are, less one, bound what is missing
(`sub_le_sum_mul_div`).

Both the split of an amount by a list of shares and the split of one by the balances of a snapshot
are divisions of this kind.  `splits_within_whole` says so of what the program computes, with the
checks that it makes and the width in which it multiplies.
-/

namespace FeeDistribution

/-! ## Rounded parts -/

section Parts

variable {ι : Type} {parts : ι → Nat} {members : Finset ι} {whole amount : Nat}

/-- Parts that are rounded down never exceed the amount that is divided. -/
theorem sum_mul_div_le (parts : ι → Nat) (members : Finset ι)
    (hparts : ∑ member ∈ members, parts member ≤ whole) :
    ∑ member ∈ members, parts member * amount / whole ≤ amount := by
  rcases Nat.eq_zero_or_pos whole with rfl | hwhole
  · simp
  · refine Nat.le_of_mul_le_mul_left ?_ hwhole
    calc whole * ∑ member ∈ members, parts member * amount / whole
        = ∑ member ∈ members, whole * (parts member * amount / whole) := Finset.mul_sum _ _ _
      _ ≤ ∑ member ∈ members, parts member * amount :=
          Finset.sum_le_sum fun member _ => Nat.mul_div_le _ _
      _ = (∑ member ∈ members, parts member) * amount := (Finset.sum_mul _ _ _).symm
      _ ≤ whole * amount := Nat.mul_le_mul_right _ hparts

/-- Parts of all of it miss the amount by less than there are parts. -/
theorem sub_le_sum_mul_div (hwhole : 0 < whole)
    (hparts : ∑ member ∈ members, parts member = whole) :
    amount - (members.card - 1) ≤ ∑ member ∈ members, parts member * amount / whole := by
  have hsome : members.Nonempty := by
    rw [Finset.nonempty_iff_ne_empty]
    rintro rfl
    exact hwhole.ne hparts
  have hscaled : whole * amount <
      whole * (∑ member ∈ members, parts member * amount / whole + members.card) :=
    calc whole * amount
        = ∑ member ∈ members, parts member * amount := by rw [← hparts, Finset.sum_mul]
      _ < ∑ member ∈ members, whole * (parts member * amount / whole + 1) :=
          Finset.sum_lt_sum_of_nonempty hsome fun member _ => Nat.lt_mul_div_succ _ hwhole
      _ = whole * (∑ member ∈ members, parts member * amount / whole + members.card) := by
          rw [← Finset.mul_sum, Finset.sum_add_distrib, Finset.card_eq_sum_ones]
  have hmissed := Nat.lt_of_mul_lt_mul_left hscaled
  omega

end Parts

/-- The product of two amounts fits twice their width. -/
theorem mul_le_maxRatio {first second : Nat} (hfirst : first ≤ Quantity.maxAmount)
    (hsecond : second ≤ Quantity.maxAmount) : first * second ≤ Quantity.maxRatio :=
  (Nat.mul_le_mul hfirst hsecond).trans (by decide)

/-! ## Shares of an amount -/

namespace Decimal

variable {amount share : Amount} {shares : List Amount}

theorem eq_of_mulDiv_eq_ok {first second divisor answer : Amount}
    (hanswer : mulDiv first second divisor = .ok answer) :
    answer = first * second / divisor := by
  unfold mulDiv at hanswer
  split at hanswer
  · cases hanswer
  · exact Fallible.eq_of_narrow_eq_ok hanswer

theorem multiply_eq_ok (hshare : share ≤ unit) (hamount : amount ≤ Quantity.maxAmount) :
    multiply share amount = .ok (share * amount / unit) := by
  have hunit : unit ≠ 0 := by decide
  rw [multiply, mulDiv, if_neg hunit]
  refine Fallible.narrow_eq_ok (le_trans ?_ hamount)
  exact Nat.div_le_of_le_mul (Nat.mul_le_mul_right amount hshare)

/-- What the shares of a list come to, each rounded down. -/
def portions (shares : List Amount) (amount : Amount) : List Amount :=
  shares.map fun share => share * amount / unit

theorem mapM_multiply (hamount : amount ≤ Quantity.maxAmount)
    (hshares : ∀ share ∈ shares, share ≤ unit) :
    shares.mapM (multiply · amount) = .ok (portions shares amount) := by
  rw [Fallible.mapM_congr fun share hshare => multiply_eq_ok (hshares share hshare) hamount]
  exact List.mapM_pure

theorem sum_portions (shares : List Amount) (amount : Amount) :
    (portions shares amount).sum = ∑ place : Fin shares.length, shares[place.1] * amount / unit :=
  (Fin.sum_univ_fun_getElem shares fun share => share * amount / unit).symm

theorem sum_portions_le (hshares : shares.sum ≤ unit) : (portions shares amount).sum ≤ amount := by
  rw [sum_portions]
  refine sum_mul_div_le (fun place : Fin shares.length => shares[place.1]) _ ?_
  exact (Fin.sum_univ_getElem shares).trans_le hshares

/-- Shares that come to one miss the amount by less than there are shares. -/
theorem sub_le_sum_portions (hshares : shares.sum = unit) :
    amount - (shares.length - 1) ≤ (portions shares amount).sum := by
  have hplaces : ∑ place : Fin shares.length, shares[place.1] = unit :=
    (Fin.sum_univ_getElem shares).trans hshares
  have hmissed : amount - ((Finset.univ : Finset (Fin shares.length)).card - 1) ≤
      ∑ place : Fin shares.length, shares[place.1] * amount / unit :=
    sub_le_sum_mul_div (by decide) hplaces
  rwa [Finset.card_fin, ← sum_portions] at hmissed

end Decimal

/-! ## Tallies -/

namespace Tally

/-- The accounts whose number is not zero. -/
def holders (tally : Tally) : Finset Account :=
  (tally.entries.toList.map Prod.fst).toFinset

theorem mem_holders {tally : Tally} {account : Account} :
    account ∈ tally.holders ↔ tally.get account ≠ 0 := by
  have hnonzero := tally.entries_ne_zero account
  rw [holders, List.mem_toFinset, List.mem_map, get]
  constructor
  · rintro ⟨entry, hentry, rfl⟩
    rw [Std.ExtTreeMap.mem_toList_iff_getElem?_eq_some] at hentry
    rw [hentry] at hnonzero ⊢
    simpa using hnonzero
  · intro hheld
    cases hread : tally.entries[account]? with
    | none => simp [hread] at hheld
    | some value =>
        exact ⟨(account, value), Std.ExtTreeMap.mem_toList_iff_getElem?_eq_some.mpr hread, rfl⟩

/-- Of accounts that include all holders, those with anything are the holders. -/
theorem filter_eq_holders {tally : Tally} {accounts : Finset Account}
    (hall : ∀ account, tally.get account ≠ 0 → account ∈ accounts) :
    (accounts.filter fun account => tally.get account ≠ 0) = tally.holders := by
  ext account
  rw [Finset.mem_filter, mem_holders]
  exact ⟨And.right, fun hheld => ⟨hall account hheld, hheld⟩⟩

theorem get_of_notMem_holders {tally : Tally} {account : Account}
    (hnone : account ∉ tally.holders) : tally.get account = 0 :=
  not_not.mp (mt mem_holders.mpr hnone)

/-- The total is the sum over the accounts that hold anything. -/
theorem sum_holders (tally : Tally) :
    ∑ account ∈ tally.holders, tally.get account = tally.total := by
  have hget : ∀ entry ∈ tally.entries.toList, tally.get entry.1 = entry.2 := by
    intro entry hentry
    rw [get, Std.ExtTreeMap.mem_toList_iff_getElem?_eq_some.mp hentry]
    rfl
  have hdistinct : (tally.entries.toList.map Prod.fst).Nodup := by
    refine List.pairwise_map.mpr (tally.entries.distinct_keys_toList.imp fun hkeys heq => hkeys ?_)
    rw [heq]
    exact Std.ReflCmp.compare_self
  calc ∑ account ∈ tally.holders, tally.get account
      = ((tally.entries.toList.map Prod.fst).map tally.get).sum := List.sum_toFinset _ hdistinct
    _ = (tally.entries.toList.map Prod.snd).sum := by
        rw [List.map_map]
        exact congrArg List.sum (List.map_congr_left hget)
    _ = tally.total := rfl

/-- Whichever accounts are added up, their numbers come to no more than the total. -/
theorem sum_get_le_total (tally : Tally) (accounts : Finset Account) :
    ∑ account ∈ accounts, tally.get account ≤ tally.total := by
  calc ∑ account ∈ accounts, tally.get account
      ≤ ∑ account ∈ accounts ∪ tally.holders, tally.get account :=
        Finset.sum_le_sum_of_subset Finset.subset_union_left
    _ = ∑ account ∈ tally.holders, tally.get account :=
        (Finset.sum_subset Finset.subset_union_right fun _ _ => get_of_notMem_holders).symm
    _ = tally.total := tally.sum_holders

/-- If all others have nothing, the numbers of some accounts come to the total. -/
theorem sum_get_eq_total (tally : Tally) {accounts : Finset Account}
    (hothers : ∀ account ∉ accounts, tally.get account = 0) :
    ∑ account ∈ accounts, tally.get account = tally.total := by
  refine le_antisymm (tally.sum_get_le_total accounts) ?_
  calc tally.total
      = ∑ account ∈ tally.holders, tally.get account := tally.sum_holders.symm
    _ ≤ ∑ account ∈ tally.holders ∪ accounts, tally.get account :=
        Finset.sum_le_sum_of_subset Finset.subset_union_left
    _ = ∑ account ∈ accounts, tally.get account :=
        (Finset.sum_subset Finset.subset_union_right fun account _ => hothers account).symm

end Tally

namespace Stakes

theorem balance_le_supply (stakes : Stakes) (account : Account) :
    stakes.balance account ≤ stakes.supply := by
  have hsum := stakes.balances.sum_get_le_total {account}
  rwa [Finset.sum_singleton] at hsum

/-- The balances of some accounts come to the supply if nobody else holds any. -/
theorem sum_balance_eq_supply {stakes : Stakes} {holders : List Account}
    (hdistinct : holders.Nodup) (hothers : ∀ other ∉ holders, stakes.balance other = 0) :
    (holders.map stakes.balance).sum = stakes.supply := by
  rw [← List.sum_toFinset stakes.balance hdistinct]
  exact stakes.balances.sum_get_eq_total fun other hother =>
    hothers other (mt List.mem_toFinset.mpr hother)

/-- An account has its part of the balances, rounded down; the division does not fail. -/
theorem partOf_eq {balances : Tally} (htotal : 0 < balances.total) (account : Account) :
    Decimal.divide (balances.get account) balances.total = .ok (partOf balances account) ∧
      partOf balances account = balances.get account * unit / balances.total := by
  have hpart : balances.get account ≤ balances.total := balance_le_supply { balances } account
  have hfits : balances.get account * unit / balances.total ≤ Quantity.maxAmount :=
    (Nat.div_le_of_le_mul (Nat.mul_le_mul_right unit hpart)).trans (by decide)
  have hdivide : Decimal.divide (balances.get account) balances.total =
      .ok (balances.get account * unit / balances.total) := by
    rw [Decimal.divide, Decimal.mulDiv, if_neg htotal.ne']
    exact Fallible.narrow_eq_ok hfits
  have hshare : partOf balances account = balances.get account * unit / balances.total := by
    rw [partOf, if_neg htotal.ne', hdivide]
    rfl
  exact ⟨hshare ▸ hdivide, hshare⟩

/-- The shares of a snapshot come to at most one. -/
theorem sum_partOf_le (balances : Tally) (accounts : Finset Account) :
    ∑ account ∈ accounts, partOf balances account ≤ unit := by
  rcases Nat.eq_zero_or_pos balances.total with hnone | htotal
  · simp [partOf, hnone]
  · calc ∑ account ∈ accounts, partOf balances account
        = ∑ account ∈ accounts, balances.get account * unit / balances.total :=
          Finset.sum_congr rfl fun account _ => (partOf_eq htotal account).2
      _ ≤ unit := sum_mul_div_le _ accounts (balances.sum_get_le_total accounts)

/-- If all holders are counted, one is missed by less than there are of them. -/
theorem sub_le_sum_partOf {balances : Tally} (htotal : 0 < balances.total)
    {accounts : Finset Account} (hholders : balances.holders ⊆ accounts) :
    unit - (balances.holders.card - 1) ≤ ∑ account ∈ accounts, partOf balances account :=
  calc unit - (balances.holders.card - 1)
      ≤ ∑ account ∈ balances.holders, balances.get account * unit / balances.total :=
        sub_le_sum_mul_div htotal balances.sum_holders
    _ = ∑ account ∈ balances.holders, partOf balances account :=
        Finset.sum_congr rfl fun account _ => (partOf_eq htotal account).2.symm
    _ ≤ ∑ account ∈ accounts, partOf balances account := Finset.sum_le_sum_of_subset hholders

end Stakes

/-! ## What the program computes -/

/-- Shares of at most one split any amount without a fault into portions that do not exceed it, and
if they come to one exactly, into portions that miss it by less than there are shares.  The shares
that balances give come to at most one, whichever accounts are counted; if all accounts that hold
anything are counted, one is missed by less than there are of these.  All products stay within twice
the width of an amount. -/
theorem splits_within_whole :
    (∀ (amount : Amount) (shares : List Amount), amount ≤ Quantity.maxAmount →
      shares.sum ≤ unit →
      (∀ share ∈ shares, share * amount ≤ Quantity.maxRatio) ∧
        ∃ portions, shares.mapM (Decimal.multiply · amount) = .ok portions ∧
          portions.sum ≤ amount ∧
          (shares.sum = unit → amount - (shares.length - 1) ≤ portions.sum)) ∧
      ∀ balances : Tally, 0 < balances.total → balances.total ≤ Quantity.maxAmount →
        (∀ account, balances.get account * unit ≤ Quantity.maxRatio ∧
          Decimal.divide (balances.get account) balances.total =
            .ok (Stakes.partOf balances account)) ∧
          ∀ accounts : Finset Account,
            ∑ account ∈ accounts, Stakes.partOf balances account ≤ unit ∧
              ((∀ account, balances.get account ≠ 0 → account ∈ accounts) →
                unit - ((accounts.filter fun account => balances.get account ≠ 0).card - 1) ≤
                  ∑ account ∈ accounts, Stakes.partOf balances account) := by
  refine ⟨fun amount shares hamount hshares => ?_, fun balances htotal hfits => ?_⟩
  · have hle : ∀ share ∈ shares, share ≤ unit :=
      fun share hshare => (List.le_sum_of_mem hshare).trans hshares
    exact ⟨fun share hshare => mul_le_maxRatio ((hle share hshare).trans (by decide)) hamount,
      Decimal.portions shares amount, Decimal.mapM_multiply hamount hle,
      Decimal.sum_portions_le hshares, Decimal.sub_le_sum_portions⟩
  · refine ⟨fun account => ⟨mul_le_maxRatio ?_ (by decide), (Stakes.partOf_eq htotal account).1⟩,
      fun accounts => ⟨Stakes.sum_partOf_le balances accounts, fun hholders => ?_⟩⟩
    · exact (Stakes.balance_le_supply { balances } account).trans hfits
    · rw [Tally.filter_eq_holders hholders]
      exact Stakes.sub_le_sum_partOf htotal
        fun account hheld => hholders account (Tally.mem_holders.mp hheld)

/-- Three accounts of the same balance. -/
def equalThirds : Tally :=
  ((Tally.empty.set .zero 1).set ⟨List.replicate 32 1, rfl⟩ 1).set ⟨List.replicate 32 2, rfl⟩ 1

/-- Thirds of the largest amount, and the shares of three equal balances. -/
theorem splits_within_whole_thirds :
    [unit / 3, unit / 3, unit / 3 + 1].sum = unit ∧
      (∃ portions,
        [unit / 3, unit / 3, unit / 3 + 1].mapM (Decimal.multiply · Quantity.maxAmount) =
            .ok portions ∧
          portions.sum ≤ Quantity.maxAmount ∧ Quantity.maxAmount - 2 ≤ portions.sum) ∧
      equalThirds.total = 3 ∧
      ∑ account ∈ equalThirds.holders, Stakes.partOf equalThirds account ≤ unit ∧
      unit - 2 ≤ ∑ account ∈ equalThirds.holders, Stakes.partOf equalThirds account := by
  have hone : [unit / 3, unit / 3, unit / 3 + 1].sum = unit := by decide
  have htotal : equalThirds.total = 3 := by decide
  obtain ⟨_, portions, hsplit, hle, hmissed⟩ :=
    splits_within_whole.1 Quantity.maxAmount _ (Nat.le_refl _) hone.le
  obtain ⟨_, hshares⟩ := splits_within_whole.2 equalThirds (by decide) (by decide)
  obtain ⟨hwhole, hall⟩ := hshares equalThirds.holders
  have hholders :
      (equalThirds.holders.filter fun account => equalThirds.get account ≠ 0).card = 3 := by
    decide
  have hrest := hall fun account hheld => Tally.mem_holders.mpr hheld
  rw [hholders] at hrest
  exact ⟨hone, ⟨portions, hsplit, hle, hmissed hone⟩, htotal, hwhole, hrest⟩

end FeeDistribution
