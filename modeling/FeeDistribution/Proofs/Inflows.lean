import FeeDistribution.Proofs.RewardOperations
import Mathlib.Algebra.Order.BigOperators.Group.List

/-!
# Inflow is additive

The reward stream divides every inflow by the supply and keeps the remainder for the next one.  How
an inflow is cut into parts therefore makes no difference in the end: the ratio, the remainder and
all else come out as if the sum had been notified at once (`intake_intake`).  What is held back
while nobody holds stake, and is distributed later, counts as if it had been notified then.

The parts need not be accepted where their sum is not, and the other way round, since what is held
back and the inflow must fit an amount together.  As long as no more is held back than was notified,
as in every run from an empty stream, they are accepted in the same cases (`notifyAll_eq_ok_iff`).
-/

namespace FeeDistribution.Rewards

variable {rewards next last other : Rewards} {supply amount : Amount} {amounts : List Amount}
  {inflow : Inflow}

/-- Takes inflows in one after another, at one supply; the first that is refused ends it. -/
def notifyAll (rewards : Rewards) (supply : Amount) (amounts : List Amount) :
    Except Fault Rewards :=
  amounts.foldlM (fun rewards amount => (rewards.notify supply amount).map Prod.snd) rewards

theorem notifyAll_nil_eq_ok : rewards.notifyAll supply [] = .ok last ↔ rewards = last :=
  Fallible.pure_eq_ok

theorem notifyAll_cons_eq_ok :
    rewards.notifyAll supply (amount :: amounts) = .ok last ↔
      ∃ inflow next, rewards.notify supply amount = .ok (inflow, next) ∧
        next.notifyAll supply amounts = .ok last := by
  simp only [notifyAll, List.foldlM_cons, Fallible.bind_eq_ok, Fallible.map_eq_ok]
  constructor
  · rintro ⟨_, ⟨⟨inflow, next⟩, hnotify, rfl⟩, hrest⟩
    exact ⟨inflow, next, hnotify, hrest⟩
  · rintro ⟨inflow, next, hnotify, hrest⟩
    exact ⟨next, ⟨_, hnotify, rfl⟩, hrest⟩

/-! ## One inflow -/

/-- The stream after an inflow, were there no limits to its numbers. -/
def intake (rewards : Rewards) (supply amount : Amount) : Rewards :=
  if supply = 0 then
    { rewards with
      pending := rewards.pending + amount
      notified := rewards.notified + amount }
  else
    { rewards.spread (rewards.division supply (rewards.pending + amount)) with
      notified := rewards.notified + amount }

theorem TakesIn.eq_intake
    (htakes : rewards.TakesIn supply (rewards.pending + amount) inflow next) :
    next = rewards.intake supply amount := by
  have hnotified := htakes.notified_eq_add
  cases htakes with
  | withheld hsupply =>
      obtain rfl := hnotified
      rw [intake, if_pos hsupply]
  | distributed hsupply =>
      obtain rfl := hnotified
      rw [intake, if_neg hsupply.ne']

@[simp] theorem notified_intake (rewards : Rewards) (supply amount : Amount) :
    (rewards.intake supply amount).notified = rewards.notified + amount := by
  unfold intake
  split <;> rfl

theorem pending_intake_le (rewards : Rewards) (supply amount : Amount) :
    (rewards.intake supply amount).pending ≤ rewards.pending + amount := by
  unfold intake
  split
  · exact le_rfl
  · exact Nat.zero_le _

theorem ratio_le_intake (rewards : Rewards) (supply amount : Amount) :
    rewards.ratio ≤ (rewards.intake supply amount).ratio := by
  unfold intake
  split
  · exact le_rfl
  · exact Nat.le_add_right _ _

/-- The remainder of a division, carried into the next one, makes it go on where the first ended. -/
theorem div_carry {supply dividend further : Nat} (hsupply : 0 < supply) :
    dividend / supply + (further + dividend % supply) / supply = (dividend + further) / supply := by
  have hdivision := Nat.div_add_mod dividend supply
  calc dividend / supply + (further + dividend % supply) / supply
      = (supply * (dividend / supply) + (further + dividend % supply)) / supply :=
        (Nat.mul_add_div hsupply _ _).symm
    _ = (dividend + further) / supply := by
        congr 1
        omega

/-- A division that starts with the remainder of another one goes on where that one ended. -/
theorem division_add (rewards : Rewards) (hsupply : 0 < supply) (first second : Amount)
    (hdust : next.dust = (rewards.division supply first).dust) :
    rewards.division supply (first + second) =
      { next.division supply second with
        growth := (rewards.division supply first).growth +
          (next.division supply second).growth } := by
  unfold division at hdust ⊢
  dsimp only at hdust ⊢
  generalize rewardPrecision = precision at hdust ⊢
  have hdividend : (first + second) * precision + rewards.dust =
      first * precision + rewards.dust + second * precision := by
    ring
  rw [hdividend, hdust, div_carry hsupply, Nat.add_mod_mod, Nat.add_comm (second * precision)]

theorem intake_of_pos (rewards : Rewards) (hsupply : 0 < supply) (amount : Amount) :
    rewards.intake supply amount =
      { rewards.spread (rewards.division supply (rewards.pending + amount)) with
        notified := rewards.notified + amount } :=
  if_neg hsupply.ne'

theorem spread_spread (rewards : Rewards) (first second : Distribution)
    (notified nextNotified : Amount) :
    { spread { rewards.spread first with notified } second with notified := nextNotified } =
      { rewards.spread { second with growth := first.growth + second.growth } with
        notified := nextNotified } := by
  simp only [spread, Nat.add_assoc]

/-- Two inflows one after another leave the stream as their sum does. -/
theorem intake_intake (rewards : Rewards) (supply first second : Amount) :
    (rewards.intake supply first).intake supply second =
      rewards.intake supply (first + second) := by
  rcases Nat.eq_zero_or_pos supply with rfl | hsupply
  · simp [intake, Nat.add_assoc]
  · have hfirst := rewards.intake_of_pos hsupply first
    have hdust : (rewards.intake supply first).dust =
        (rewards.division supply (rewards.pending + first)).dust := by
      rw [hfirst]
      rfl
    have hsum := division_add rewards hsupply (rewards.pending + first) second hdust
    have hpending : (rewards.intake supply first).pending = 0 := by
      rw [hfirst]
      rfl
    rw [Nat.add_assoc] at hsum
    rw [intake_of_pos _ hsupply second, intake_of_pos _ hsupply (first + second), notified_intake,
      hpending, Nat.zero_add, hsum, Nat.add_assoc]
    generalize (rewards.intake supply first).division supply second = last
    rw [hfirst]
    exact spread_spread ..

theorem ratio_intake_of_pos (rewards : Rewards) (hsupply : 0 < supply) (amount : Amount) :
    (rewards.intake supply amount).ratio =
      rewards.ratio + (rewards.division supply (rewards.pending + amount)).growth := by
  rw [rewards.intake_of_pos hsupply]
  rfl

/-- An inflow is taken in if it is not zero and no number leaves its range. -/
theorem notify_eq_ok_iff :
    (∃ inflow, rewards.notify supply amount = .ok (inflow, next)) ↔
      0 < amount ∧ rewards.pending + amount ≤ Quantity.maxAmount ∧
        rewards.notified + amount ≤ Quantity.maxAmount ∧
        (0 < supply → (rewards.intake supply amount).ratio ≤ Quantity.maxRatio) ∧
        next = rewards.intake supply amount := by
  constructor
  · rintro ⟨inflow, hnotify⟩
    obtain ⟨hamount, hpending, hnotified, hdistribute⟩ := exists_notify_iff.mp ⟨_, hnotify⟩
    refine ⟨hamount, hpending, hnotified, fun hsupply => ?_, (notify_ok hnotify).2.eq_intake⟩
    rw [rewards.ratio_intake_of_pos hsupply]
    exact exists_distribute_iff.mp hdistribute hsupply
  · rintro ⟨hamount, hpending, hnotified, hratio, rfl⟩
    have hdistribute : ∃ answer,
        rewards.distribute supply (rewards.pending + amount) = .ok answer := by
      refine exists_distribute_iff.mpr fun hsupply => ?_
      rw [← rewards.ratio_intake_of_pos hsupply]
      exact hratio hsupply
    obtain ⟨⟨inflow, next⟩, hnotify⟩ :=
      exists_notify_iff.mpr ⟨hamount, hpending, hnotified, hdistribute⟩
    rw [(notify_ok hnotify).2.eq_intake] at hnotify
    exact ⟨inflow, hnotify⟩

/-- To distribute what was held back is to take in nothing more. -/
theorem distributePending_ok_intake (hpending : 0 < rewards.pending)
    (hdistribute : rewards.distributePending supply = .ok (inflow, next)) :
    next = rewards.intake supply 0 := by
  rcases distributePending_ok hdistribute with ⟨hzero, _⟩ | ⟨_, htakes⟩
  · exact absurd hzero hpending.ne'
  · exact htakes.eq_intake

/-- What was held back counts as if it came in with the next inflow. -/
theorem intake_withheld (rewards : Rewards) (supply held amount : Amount) :
    (rewards.intake 0 held).intake supply amount = rewards.intake supply (held + amount) := by
  rcases Nat.eq_zero_or_pos supply with rfl | hsupply
  · exact rewards.intake_intake 0 held amount
  · rw [intake_of_pos _ hsupply, intake_of_pos _ hsupply]
    have hheld : rewards.intake 0 held =
        { rewards with
          pending := rewards.pending + held
          notified := rewards.notified + held } := if_pos rfl
    rw [hheld, ← Nat.add_assoc, ← Nat.add_assoc]
    rfl

theorem ratio_le_of_distributePending (hsupply : 0 < supply) (hpending : 0 < rewards.pending)
    (hdistribute : rewards.distributePending supply = .ok (inflow, next)) :
    next.ratio ≤ Quantity.maxRatio := by
  unfold distributePending at hdistribute
  rw [if_neg hpending.ne'] at hdistribute
  have hfits := exists_distribute_iff.mp ⟨_, hdistribute⟩ hsupply
  rcases distribute_ok hdistribute with ⟨hzero, _⟩ | ⟨_, _, rfl⟩
  · exact absurd hzero hsupply.ne'
  · exact hfits

/-! ## Lists of inflows -/

/-- Once an inflow was taken in, a list of further ones counts as its sum. -/
theorem notifyAll_intake
    (hnotify : (rewards.intake supply amount).notifyAll supply amounts = .ok last) :
    last = rewards.intake supply (amount + amounts.sum) := by
  induction amounts generalizing amount with
  | nil =>
      rw [← notifyAll_nil_eq_ok.mp hnotify]
      rfl
  | cons next amounts ih =>
      obtain ⟨inflow, middle, hnext, hrest⟩ := notifyAll_cons_eq_ok.mp hnotify
      obtain ⟨-, -, -, -, rfl⟩ := notify_eq_ok_iff.mp ⟨inflow, hnext⟩
      rw [intake_intake] at hrest
      rw [ih hrest, List.sum_cons, Nat.add_assoc]

theorem notifyAll_ok (hsome : amounts ≠ [])
    (hnotify : rewards.notifyAll supply amounts = .ok last) :
    last = rewards.intake supply amounts.sum := by
  cases amounts with
  | nil => exact absurd rfl hsome
  | cons amount amounts =>
      obtain ⟨inflow, next, hfirst, hrest⟩ := notifyAll_cons_eq_ok.mp hnotify
      obtain ⟨-, -, -, -, rfl⟩ := notify_eq_ok_iff.mp ⟨inflow, hfirst⟩
      exact notifyAll_intake hrest

theorem pos_of_notifyAll (hnotify : rewards.notifyAll supply amounts = .ok last) :
    ∀ amount ∈ amounts, 0 < amount := by
  induction amounts generalizing rewards with
  | nil => exact nofun
  | cons amount amounts ih =>
      obtain ⟨inflow, next, hfirst, hrest⟩ := notifyAll_cons_eq_ok.mp hnotify
      exact List.forall_mem_cons.mpr ⟨(notify_ok hfirst).1, ih hrest⟩

/-- No more is held back than was notified, or everything that comes in is held back. -/
def PendingWithin (rewards : Rewards) (supply : Amount) : Prop :=
  supply = 0 ∨ rewards.pending ≤ rewards.notified

theorem PendingWithin.intake (hheld : rewards.PendingWithin supply) (amount : Amount) :
    (rewards.intake supply amount).PendingWithin supply := by
  refine hheld.imp_right fun hpending => ?_
  rw [notified_intake]
  exact (rewards.pending_intake_le supply amount).trans (Nat.add_le_add_right hpending amount)

/-- Two inflows are taken in one after another exactly if their sum is. -/
theorem notify_notify_iff (hheld : rewards.PendingWithin supply) {first second : Amount}
    (hfirst : 0 < first) (hsecond : 0 < second) :
    (∃ inflow middle, rewards.notify supply first = .ok (inflow, middle) ∧
        ∃ inflow, middle.notify supply second = .ok (inflow, next)) ↔
      ∃ inflow, rewards.notify supply (first + second) = .ok (inflow, next) := by
  have hratio := (rewards.intake supply first).ratio_le_intake supply second
  rw [intake_intake] at hratio
  constructor
  · rintro ⟨inflow, middle, hnotify, hrest⟩
    obtain ⟨-, -, -, -, rfl⟩ := notify_eq_ok_iff.mp ⟨inflow, hnotify⟩
    obtain ⟨-, hpending, hnotified, hfits, rfl⟩ := notify_eq_ok_iff.mp hrest
    rw [intake_intake] at hfits ⊢
    rw [notified_intake, Nat.add_assoc] at hnotified
    refine notify_eq_ok_iff.mpr ⟨Nat.add_pos_left hfirst _, ?_, hnotified, hfits, rfl⟩
    rcases hheld with rfl | hheld
    · rw [← Nat.add_assoc]
      exact hpending
    · exact (Nat.add_le_add_right hheld _).trans hnotified
  · intro hsum
    obtain ⟨-, hpending, hnotified, hfits, rfl⟩ := notify_eq_ok_iff.mp hsum
    rw [← Nat.add_assoc] at hpending hnotified
    obtain ⟨inflow, hnotify⟩ := notify_eq_ok_iff.mpr
      ⟨hfirst, (Nat.le_add_right _ _).trans hpending, (Nat.le_add_right _ _).trans hnotified,
        fun hsupply => hratio.trans (hfits hsupply), rfl⟩
    refine ⟨inflow, _, hnotify, notify_eq_ok_iff.mpr ⟨hsecond, ?_, ?_, ?_, ?_⟩⟩
    · exact (Nat.add_le_add_right (rewards.pending_intake_le supply first) second).trans hpending
    · rwa [notified_intake]
    · rwa [intake_intake]
    · rw [intake_intake]

/-- A list of inflows is taken in exactly if its sum is. -/
theorem notifyAll_eq_ok_iff (hheld : rewards.PendingWithin supply) (hsome : amounts ≠ [])
    (hpositive : ∀ amount ∈ amounts, 0 < amount) :
    rewards.notifyAll supply amounts = .ok last ↔
      ∃ inflow, rewards.notify supply amounts.sum = .ok (inflow, last) := by
  induction amounts generalizing rewards with
  | nil => exact absurd rfl hsome
  | cons amount amounts ih =>
      obtain ⟨hamount, hpositive⟩ := List.forall_mem_cons.mp hpositive
      rw [notifyAll_cons_eq_ok, List.sum_cons]
      rcases eq_or_ne amounts [] with rfl | hmore
      · simp [notifyAll_nil_eq_ok]
      · have hsum : 0 < amounts.sum := List.sum_pos amounts hpositive hmore
        rw [← notify_notify_iff hheld hamount hsum]
        refine exists_congr fun inflow => exists_congr fun next => and_congr_right fun hnotify => ?_
        obtain ⟨-, -, -, -, rfl⟩ := notify_eq_ok_iff.mp ⟨inflow, hnotify⟩
        exact ih (hheld.intake amount) hmore hpositive

/-- How an inflow is cut into parts makes no difference to the stream.  Two lists of one sum leave
the same stream, if all of their inflows are taken in.  What was held back without stake and is
distributed later leaves the stream as if it had been notified at once.  And if no more is held back
than was notified, the parts are taken in exactly if their sum is. -/
theorem inflow_additive (rewards : Rewards) (supply : Amount) :
    (∀ {first second : List Amount} {last other : Rewards}, first ≠ [] → second ≠ [] →
        first.sum = second.sum → rewards.notifyAll supply first = .ok last →
        rewards.notifyAll supply second = .ok other → last = other) ∧
      (∀ {amounts : List Amount} {held last : Rewards} {inflow : Inflow}, amounts ≠ [] →
        0 < supply → rewards.notifyAll 0 amounts = .ok held →
        held.distributePending supply = .ok (inflow, last) →
        ∃ inflow, rewards.notify supply amounts.sum = .ok (inflow, last)) ∧
      (rewards.pending ≤ rewards.notified →
        ∀ {amounts : List Amount} {last : Rewards}, amounts ≠ [] →
          (∀ amount ∈ amounts, 0 < amount) →
          (rewards.notifyAll supply amounts = .ok last ↔
            ∃ inflow, rewards.notify supply amounts.sum = .ok (inflow, last))) := by
  refine ⟨?_, ?_, ?_⟩
  · intro first second last other hfirst hsecond hsum hlast hother
    rw [notifyAll_ok hfirst hlast, notifyAll_ok hsecond hother, hsum]
  · intro amounts held last inflow hsome hsupply hnotify hdistribute
    have honce := (notifyAll_eq_ok_iff (.inl rfl) hsome (pos_of_notifyAll hnotify)).mp hnotify
    obtain ⟨hsum, hpending, hnotified, -, rfl⟩ := notify_eq_ok_iff.mp honce
    have hheld : 0 < (rewards.intake 0 amounts.sum).pending := Nat.add_pos_right _ hsum
    have hratio := ratio_le_of_distributePending hsupply hheld hdistribute
    obtain rfl := distributePending_ok_intake hheld hdistribute
    rw [intake_withheld, Nat.add_zero] at hratio ⊢
    exact notify_eq_ok_iff.mpr ⟨hsum, hpending, hnotified, fun _ => hratio, rfl⟩
  · exact fun hheld => notifyAll_eq_ok_iff (.inr hheld)

/-- A stream with a remainder and some inflow held back. -/
def partway : Rewards where
  ratio := 5
  dust := 1
  pending := 2
  notified := 4

/-- Seven thirds of a unit are distributed, and a remainder of two stays. -/
def partwayOn : Rewards where
  ratio := 5 + 7 * rewardPrecision / 3
  dust := 2
  notified := 9

theorem inflow_additive_partway :
    partway.notifyAll 3 [1, 4] = .ok partwayOn ∧
      (∃ other, partway.notifyAll 3 [2, 2, 1] = .ok other ∧ partwayOn = other) ∧
      (∃ held inflow, partway.notifyAll 0 [3, 2] = .ok held ∧
        held.distributePending 3 = .ok (inflow, partwayOn) ∧
        ∃ inflow, partway.notify 3 [3, 2].sum = .ok (inflow, partwayOn)) ∧
      partway.pending ≤ partway.notified ∧
      ∃ inflow, partway.notify 3 [1, 4].sum = .ok (inflow, partwayOn) := by
  obtain ⟨hsame, hlater, hsum⟩ := inflow_additive partway 3
  have hfirst : partway.notifyAll 3 [1, 4] = .ok partwayOn := by decide
  have hsecond : partway.notifyAll 3 [2, 2, 1] = .ok partwayOn := by decide
  have hheld : partway.notifyAll 0 [3, 2] = .ok (partway.intake 0 5) := by decide
  have hdistribute :
      (partway.intake 0 5).distributePending 3 = .ok (.distributed 7, partwayOn) := by
    decide
  have hpending : partway.pending ≤ partway.notified := by decide
  refine ⟨hfirst, ⟨_, hsecond, ?_⟩, ⟨_, _, hheld, hdistribute, ?_⟩, hpending, ?_⟩
  · exact hsame (by simp) (by simp) (by decide) hfirst hsecond
  · exact hlater (by simp) (by decide) hheld hdistribute
  · exact (hsum hpending (by simp) (by decide)).mp hfirst

end FeeDistribution.Rewards
