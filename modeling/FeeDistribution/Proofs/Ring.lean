import FeeDistribution.Period.Window
import Mathlib.Data.List.Nodup
import Mathlib.Data.List.Perm.Subperm

/-!
# The ring as a list

A window is stored in a ring, but all that is ever said about it concerns the periods seen from the
present, newest first.  This file shows that the ring behaves as that list: overwriting an index
changes that element of the list and no other (`toList_set`), and opening a period puts it in front
and drops the last element (`toList_push`, `push_fst`).

## Strategy

Everything rests on `place_inj`: indices below the number of slots stand in different places.  It
needs that the head has not yet been counted below the number of slots, less one, for otherwise
`head - index` would stop at zero.  `Aligned` says so, and every operation keeps it.
-/

namespace FeeDistribution.Window

variable {window : Window} {index other : Nat} {period : Period}

/-- A window has at least two slots, and its head reaches back to the oldest of them. -/
structure Aligned (window : Window) : Prop where
  two_le_length : 2 ≤ window.length
  length_le_head : window.length ≤ window.head + 1

/-! ## Places -/

theorem place_lt (hindex : index < window.length) : window.place index < window.slots.size :=
  Nat.mod_lt _ (Nat.zero_lt_of_lt hindex)

/-- Different indices stand in different places. -/
theorem place_inj (aligned : window.Aligned) (hindex : index < window.length)
    (hother : other < window.length) (hplace : window.place index = window.place other) :
    index = other := by
  -- the distance of two indices is below the number of slots, and divisible by it
  have key : ∀ low high, low ≤ high → high < window.length →
      window.place low = window.place high → low = high := by
    intro low high hle hhigh heq
    have hdvd : window.length ∣ (window.head - low) - (window.head - high) :=
      Nat.dvd_of_mod_eq_zero (Nat.sub_mod_eq_zero_of_mod_eq heq)
    have hhead := aligned.length_le_head
    have hdistance : (window.head - low) - (window.head - high) = high - low := by omega
    rw [hdistance] at hdvd
    have := Nat.eq_zero_of_dvd_of_lt hdvd (by omega)
    omega
  rcases Nat.le_total index other with hle | hle
  · exact key index other hle hother hplace
  · exact (key other index hle hindex hplace.symm).symm

/-! ## Reading -/

theorem recent_eq (hindex : index < window.length) :
    window.slots[window.place index]? = some (window.recent index) := by
  have hplace := place_lt hindex
  simp [recent, recent?, hindex, hplace]

theorem recent?_eq (hindex : index < window.length) :
    window.recent? index = some (window.recent index) := by
  rw [← recent_eq hindex, recent?, if_pos hindex]

/-- Outside the window every period reads as the empty one. -/
theorem recent_of_length_le (hindex : window.length ≤ index) : window.recent index = .empty := by
  simp [recent, recent?, Nat.not_lt.mpr hindex]

/-- An index that holds a period lies in the window. -/
theorem lt_length_of_filled (hfilled : (window.recent index).Filled) : index < window.length := by
  by_contra hindex
  rw [recent_of_length_le (Nat.not_lt.mp hindex)] at hfilled
  exact hfilled rfl

/-! ## Overwriting -/

@[simp] theorem length_set : (window.set index period).length = window.length := by
  unfold set setPlace length
  split <;> simp

@[simp] theorem head_set : (window.set index period).head = window.head := by
  unfold set setPlace
  split <;> rfl

@[simp] theorem place_set : (window.set index period).place = window.place := by
  funext other
  simp [place]

theorem Aligned.set (aligned : window.Aligned) : (window.set index period).Aligned :=
  ⟨by simpa using aligned.two_le_length, by simpa using aligned.length_le_head⟩

theorem slots_set (hindex : index < window.length) :
    (window.set index period).slots = window.slots.setIfInBounds (window.place index) period := by
  rw [Window.set, if_pos hindex]
  rfl

/-- Overwriting an index changes what is read there and nowhere else. -/
theorem recent_set (aligned : window.Aligned) (hindex : index < window.length) (period : Period)
    (other : Nat) :
    (window.set index period).recent other =
      if index = other then period else window.recent other := by
  by_cases hother : other < window.length
  · have hread : (window.set index period).slots[(window.set index period).place other]? =
        some ((window.set index period).recent other) := recent_eq (by simpa)
    rw [place_set, slots_set hindex, Array.getElem?_setIfInBounds] at hread
    by_cases heq : index = other
    · subst heq
      simpa [place_lt hindex] using hread.symm
    · have hplace : window.place index ≠ window.place other :=
        fun hplace => heq (place_inj aligned hindex hother hplace)
      rw [if_neg hplace, recent_eq hother] at hread
      simpa [heq] using hread.symm
  · have hne : index ≠ other := by omega
    rw [recent_of_length_le (by simpa using hother), recent_of_length_le (by omega), if_neg hne]

theorem recent_set_self (aligned : window.Aligned) (hindex : index < window.length) :
    (window.set index period).recent index = period := by
  simp [recent_set aligned hindex]

theorem recent_set_ne (aligned : window.Aligned) (hindex : index < window.length)
    (hne : index ≠ other) : (window.set index period).recent other = window.recent other := by
  simp [recent_set aligned hindex, hne]

/-- Changing the period in an index changes one place of storage. -/
theorem getElem?_slots_modify {change : Period → Period} (hindex : index < window.length)
    (place : Nat) :
    (window.modify index change).slots[place]? =
      (window.slots[place]?).map fun period =>
        if place = window.place index then change period else period := by
  rw [modify, slots_set hindex, Array.getElem?_setIfInBounds]
  by_cases hplace : place = window.place index
  · subst hplace
    rw [recent_eq hindex]
    simp [place_lt hindex]
  · simp [hplace, Ne.symm hplace]

@[simp] theorem length_modify {change : Period → Period} :
    (window.modify index change).length = window.length :=
  length_set

@[simp] theorem head_modify {change : Period → Period} :
    (window.modify index change).head = window.head :=
  head_set

theorem Aligned.modify {change : Period → Period} (aligned : window.Aligned) :
    (window.modify index change).Aligned :=
  aligned.set

theorem eq_of_slots_eq {first second : Window} (hslots : first.slots = second.slots)
    (hhead : first.head = second.head) : first = second := by
  cases first
  cases second
  simp_all

/-! ## Opening -/

/-- The window with its head moved on, so that index zero stands in the place of the oldest
period. -/
private def advance (window : Window) : Window :=
  { window with head := window.head + 1 }

private theorem push_eq (window : Window) (period : Period) :
    window.push period = (window.advance.current, window.advance.set 0 period) :=
  rfl

private theorem length_advance : window.advance.length = window.length :=
  rfl

private theorem Aligned.advance (aligned : window.Aligned) : window.advance.Aligned :=
  ⟨aligned.two_le_length, Nat.le_succ_of_le aligned.length_le_head⟩

private theorem place_advance_succ (index : Nat) :
    window.advance.place (index + 1) = window.place index := by
  simp [place, Window.advance, length]

private theorem place_advance_zero (aligned : window.Aligned) :
    window.advance.place 0 = window.place (window.length - 1) := by
  have hhead := aligned.length_le_head
  have hdistance : window.head + 1 - window.length = window.head - (window.length - 1) := by
    have := aligned.two_le_length
    omega
  calc window.advance.place 0
      = (window.head + 1) % window.length := rfl
    _ = (window.head + 1 - window.length) % window.length := Nat.mod_eq_sub_mod hhead
    _ = window.place (window.length - 1) := by rw [hdistance, place]

private theorem recent_advance {index other : Nat} (hindex : index < window.length)
    (hother : other < window.length) (hplace : window.advance.place index = window.place other) :
    window.advance.recent index = window.recent other := by
  have hread : window.advance.slots[window.advance.place index]? =
      some (window.advance.recent index) := recent_eq hindex
  rw [hplace] at hread
  exact Option.some.inj (hread.symm.trans (recent_eq hother))

@[simp] theorem length_push : (window.push period).2.length = window.length :=
  length_set

@[simp] theorem head_push : (window.push period).2.head = window.head + 1 :=
  head_set

theorem Aligned.push (aligned : window.Aligned) : (window.push period).2.Aligned :=
  aligned.advance.set

/-- Opening a period drops the oldest one. -/
theorem push_fst (aligned : window.Aligned) :
    (window.push period).1 = window.recent (window.length - 1) := by
  have htwo := aligned.two_le_length
  rw [push_eq]
  exact recent_advance (by omega) (by omega) (place_advance_zero aligned)

/-- Opening a period puts it in front. -/
theorem recent_push_zero (aligned : window.Aligned) (period : Period) :
    (window.push period).2.recent 0 = period :=
  recent_set_self aligned.advance (Nat.zero_lt_of_lt aligned.two_le_length)

/-- Opening a period puts all others back by one index. -/
theorem recent_push_succ (aligned : window.Aligned) (hindex : index + 1 < window.length) :
    (window.push period).2.recent (index + 1) = window.recent index := by
  rw [push_eq, recent_set_ne aligned.advance (by rw [length_advance]; omega) (by omega)]
  exact recent_advance hindex (by omega) (place_advance_succ index)

/-! ## The list of all periods -/

@[simp] theorem length_toList : window.toList.length = window.length := by
  simp [toList]

@[simp] theorem getElem_toList (hindex : index < window.toList.length) :
    window.toList[index] = window.recent index := by
  simp [toList]

theorem mem_toList :
    period ∈ window.toList ↔ ∃ index < window.length, window.recent index = period := by
  simp [toList]

/-- Overwriting an index overwrites that element of the list. -/
theorem toList_set (aligned : window.Aligned) (hindex : index < window.length) :
    (window.set index period).toList = window.toList.set index period := by
  apply List.ext_getElem (by simp)
  intro other _ _
  simp [recent_set aligned hindex, List.getElem_set]

/-- Opening a period puts it in front of the list, whose last element is dropped. -/
theorem toList_push (aligned : window.Aligned) :
    (window.push period).2.toList = period :: window.toList.dropLast := by
  have htwo := aligned.two_le_length
  apply List.ext_getElem
  · simp
    omega
  · intro index hleft hright
    rw [getElem_toList]
    cases index with
    | zero => exact recent_push_zero aligned period
    | succ older =>
        rw [recent_push_succ aligned (by simpa using hleft)]
        simp

/-- The indices below the number of slots stand in all places. -/
theorem places_perm (aligned : window.Aligned) :
    ((List.range window.length).map window.place).Perm (List.range window.length) := by
  have hnodup : ((List.range window.length).map window.place).Nodup :=
    List.Nodup.map_on (fun _ hindex _ hother hplace =>
      place_inj aligned (List.mem_range.mp hindex) (List.mem_range.mp hother) hplace)
      List.nodup_range
  have hsubset : (List.range window.length).map window.place ⊆ List.range window.length := by
    intro place hplace
    obtain ⟨index, hindex, rfl⟩ := List.mem_map.mp hplace
    exact List.mem_range.mpr (place_lt (List.mem_range.mp hindex))
  exact (List.Nodup.subperm hnodup hsubset).perm_of_length_le (by simp)

/-- The list holds every slot of the ring once. -/
theorem toList_perm (aligned : window.Aligned) : window.toList.Perm window.slots.toList := by
  have hread : window.toList =
      ((List.range window.length).map window.place).map fun place =>
        window.slots[place]?.getD .empty := by
    rw [toList, List.map_map]
    refine List.map_congr_left fun index hindex => ?_
    rw [Function.comp_apply, recent_eq (List.mem_range.mp hindex)]
    rfl
  have hstored : (List.range window.length).map (fun place => window.slots[place]?.getD .empty) =
      window.slots.toList := by
    apply List.ext_getElem
    · simp [length]
    · intro place hleft _
      have hplace : place < window.slots.size := by simpa [length] using hleft
      simp [hplace]
  rw [hread, ← hstored]
  exact (places_perm aligned).map _

/-- A ring is known from its head and what is read in it. -/
theorem eq_of_recent_eq {first second : Window} (aligned : first.Aligned)
    (hhead : first.head = second.head) (hlength : first.length = second.length)
    (hrecent : ∀ index, first.recent index = second.recent index) : first = second := by
  have hplaces : first.place = second.place := by
    funext index
    rw [place, place, hhead, hlength]
  refine eq_of_slots_eq (Array.ext_getElem? fun place => ?_) hhead
  by_cases hplace : place < first.length
  · have hmem := (places_perm aligned).mem_iff.mpr (List.mem_range.mpr hplace)
    obtain ⟨index, hindex, rfl⟩ := List.mem_map.mp hmem
    have hlow : index < first.length := List.mem_range.mp hindex
    rw [recent_eq hlow, hplaces, recent_eq (hlength ▸ hlow), hrecent]
  · have hfirst : first.slots.size ≤ place := Nat.not_lt.mp hplace
    rw [hlength] at hplace
    have hsecond : second.slots.size ≤ place := Nat.not_lt.mp hplace
    rw [Array.getElem?_eq_none hfirst, Array.getElem?_eq_none hsecond]

theorem mem_slots (aligned : window.Aligned) :
    period ∈ window.slots ↔ ∃ index < window.length, window.recent index = period := by
  rw [← mem_toList, (toList_perm aligned).mem_iff, Array.mem_toList_iff]

/-! ## The closed periods -/

theorem mem_closed {row : Nat × Period} :
    row ∈ window.closed ↔
      1 ≤ row.1 ∧ row.1 < window.length ∧ window.recent row.1 = row.2 ∧ row.2.Filled := by
  obtain ⟨index, period⟩ := row
  simp only [closed, List.mem_filter, List.mem_map, List.mem_range'_1, Prod.mk.injEq,
    decide_eq_true_eq]
  constructor
  · rintro ⟨⟨other, ⟨hlow, hhigh⟩, rfl, rfl⟩, hfilled⟩
    exact ⟨hlow, by omega, rfl, hfilled⟩
  · rintro ⟨hlow, hhigh, rfl, hfilled⟩
    exact ⟨⟨index, ⟨hlow, by omega⟩, rfl, rfl⟩, hfilled⟩

/-- The closed periods are listed in the order of their indices. -/
theorem pairwise_closed : window.closed.Pairwise fun newer older => newer.1 < older.1 := by
  unfold closed
  apply List.Pairwise.filter
  rw [List.pairwise_map]
  exact List.pairwise_lt_range'

end FeeDistribution.Window
