import FeeDistribution.Event.Basic
import Mathlib.Data.List.DropRight

/-!
# The journal keeps the newest events

Events are recorded in a journal one at a time, and from time to time all that it holds are drained.
A journal with a limit loses events, always the oldest that it holds, and counts them.  Of the
events recorded since the last drain it therefore holds the newest, as many as the limit allows, and
nothing is unaccounted for: every event that was ever recorded has been drained, has been lost, or
is held (`Journal.keeps_newest`).

## Strategy

`Journal.After` says what a journal and the events drained from it are after some uses.  It is kept
by one more use (`After.step`), hence by any number of them (`After.run`).  The one case with an
argument is an event that meets a full journal: the newest events, less the oldest of them and with
the new one behind, are the newest again, because the limit is at least one (`newest_concat_of_le`).
-/

namespace FeeDistribution.Journal

/-! ## Uses of a journal -/

/-- A use of a journal. -/
inductive Use where
  /-- An event is recorded. -/
  | emit (event : Event)
  /-- All events are taken out. -/
  | drain
deriving DecidableEq

/-- The event that a use records. -/
def Use.event? : Use → Option Event
  | emit event => some event
  | drain => none

/-- All events that were ever recorded. -/
def recorded (uses : List Use) : List Event :=
  uses.filterMap Use.event?

/-- The events recorded since the last drain; all of them if there was none. -/
def sinceDrain (uses : List Use) : List Event :=
  recorded (uses.rtakeWhile fun use => use ≠ .drain)

/-- A new journal, with a limit or without one. -/
def start : Option Nat → Journal
  | none => {}
  | some limit => .withLimit limit

/-- Puts a journal to a use, which may take events out. -/
def step (journal : Journal) : Use → List Event × Journal
  | .emit event => ([], journal.emit event)
  | .drain => journal.drain

/-- Puts a journal to a list of uses, one after the other, and collects the events taken out. -/
def run (journal : Journal) : List Use → List Event × Journal
  | [] => ([], journal)
  | use :: uses =>
    let (drained, next) := journal.step use
    let (more, last) := next.run uses
    (drained ++ more, last)

variable {journal : Journal} {limit : Option Nat} {bound : Nat} {uses : List Use}
  {drained events : List Event} {event : Event}

@[simp] theorem recorded_emit : recorded (uses ++ [.emit event]) = recorded uses ++ [event] := by
  simp [recorded, Use.event?]

@[simp] theorem recorded_drain : recorded (uses ++ [.drain]) = recorded uses := by
  simp [recorded, Use.event?]

@[simp] theorem sinceDrain_emit :
    sinceDrain (uses ++ [.emit event]) = sinceDrain uses ++ [event] := by
  rw [sinceDrain, List.rtakeWhile_concat_pos _ _ _ (by simp), recorded_emit, sinceDrain]

@[simp] theorem sinceDrain_drain : sinceDrain (uses ++ [.drain]) = [] := by
  rw [sinceDrain, List.rtakeWhile_concat_neg _ _ _ (by simp)]
  rfl

/-! ## The newest events -/

/-- Of so many events, how many a journal with this limit holds.  A limit of zero counts as one. -/
def kept (limit : Option Nat) (count : Nat) : Nat :=
  match limit with
  | none => count
  | some bound => min count (max bound 1)

/-- The last of some events, as many as a journal with this limit holds. -/
def newest (limit : Option Nat) (events : List Event) : List Event :=
  events.rtake (kept limit events.length)

@[simp] theorem newest_nil : newest limit [] = [] :=
  List.rtake_nil _

theorem kept_le (count : Nat) : kept limit count ≤ count := by
  unfold kept
  split
  · exact Nat.le_refl count
  · exact Nat.min_le_left _ _

@[simp] theorem length_newest : (newest limit events).length = kept limit events.length := by
  have hle : kept limit events.length ≤ events.length := kept_le _
  rw [newest, List.rtake, List.length_drop]
  omega

theorem newest_of_kept_eq (hall : kept limit events.length = events.length) :
    newest limit events = events := by
  rw [newest, hall, List.rtake, Nat.sub_self, List.drop_zero]

@[simp] theorem newest_none : newest none events = events :=
  newest_of_kept_eq rfl

/-- Where there is room, every event is held. -/
theorem newest_concat_of_lt (hroom : (newest (some bound) events).length < max bound 1) :
    newest (some bound) (events ++ [event]) = newest (some bound) events ++ [event] := by
  rw [length_newest, kept] at hroom
  have hbefore : kept (some bound) events.length = events.length := by
    rw [kept]
    omega
  have hafter : kept (some bound) (events ++ [event]).length = (events ++ [event]).length := by
    rw [kept, List.length_append, List.length_singleton]
    omega
  rw [newest_of_kept_eq hbefore, newest_of_kept_eq hafter]

/-- Where there is none, the oldest event that is held makes room. -/
theorem newest_concat_of_le (hfull : max bound 1 ≤ (newest (some bound) events).length) :
    newest (some bound) (events ++ [event]) = (newest (some bound) events).tail ++ [event] := by
  rw [length_newest, kept] at hfull
  obtain ⟨fewer, hfewer⟩ : ∃ fewer, max bound 1 = fewer + 1 := ⟨max bound 1 - 1, by omega⟩
  have hbefore : kept (some bound) events.length = fewer + 1 := by
    rw [kept]
    omega
  have hafter : kept (some bound) (events ++ [event]).length = fewer + 1 := by
    rw [kept, List.length_append]
    omega
  have hnext : events.length - (fewer + 1) + 1 = events.length - fewer := by
    omega
  rw [newest, newest, hbefore, hafter, List.rtake_concat_succ, List.rtake, List.rtake,
    List.tail_drop, hnext]

/-! ## One use -/

/-- What a journal and the events drained from it are after some uses. -/
structure After (limit : Option Nat) (uses : List Use) (drained : List Event)
    (journal : Journal) : Prop where
  limit_eq : journal.limit = limit.map (max · 1)
  events_eq : journal.events = newest limit (sinceDrain uses)
  sublist : (drained ++ journal.events).Sublist (recorded uses)
  count_eq : drained.length + journal.dropped + journal.events.length = (recorded uses).length

theorem after_start (limit : Option Nat) : After limit [] [] (start limit) := by
  cases limit <;> exact ⟨rfl, rfl, .slnil, rfl⟩

theorem full_iff (hlimit : journal.limit = limit.map (max · 1)) :
    journal.Full ↔ ∃ bound, limit = some bound ∧ max bound 1 ≤ journal.events.length := by
  rw [Full, hlimit]
  cases limit <;> simp

theorem After.emit (hafter : After limit uses drained journal) (event : Event) :
    After limit (uses ++ [.emit event]) drained (journal.emit event) := by
  obtain ⟨hlimit, hevents, hsublist, hcount⟩ := hafter
  have hfull_iff := full_iff hlimit
  unfold Journal.emit
  split
  · rename_i hfull
    obtain ⟨bound, rfl, hheld⟩ := hfull_iff.mp hfull
    refine ⟨hlimit, ?_, ?_, ?_⟩
    · rw [hevents] at hheld
      rw [sinceDrain_emit, newest_concat_of_le hheld, hevents]
    · have hlost : (drained ++ journal.events.tail).Sublist (drained ++ journal.events) :=
        (List.tail_sublist _).append_left drained
      rw [recorded_emit, ← List.append_assoc]
      exact (hlost.trans hsublist).append_right [event]
    · rw [recorded_emit, List.length_append, List.length_append, List.length_tail]
      simp only [List.length_singleton]
      omega
  · rename_i hroom
    refine ⟨hlimit, ?_, ?_, ?_⟩
    · rw [sinceDrain_emit, hevents]
      cases limit with
      | none => rw [newest_none, newest_none]
      | some bound =>
          refine (newest_concat_of_lt (Nat.lt_of_not_le fun hheld => hroom ?_)).symm
          exact hfull_iff.mpr ⟨bound, rfl, hevents ▸ hheld⟩
    · rw [recorded_emit, ← List.append_assoc]
      exact hsublist.append_right [event]
    · rw [recorded_emit, List.length_append, List.length_append, ← hcount]
      exact (Nat.add_assoc _ _ _).symm

theorem After.drain (hafter : After limit uses drained journal) :
    After limit (uses ++ [.drain]) (drained ++ journal.drain.1) journal.drain.2 where
  limit_eq := hafter.limit_eq
  events_eq := by rw [sinceDrain_drain, newest_nil]; rfl
  sublist := by
    rw [recorded_drain, Journal.drain, List.append_nil]
    exact hafter.sublist
  count_eq := by
    rw [recorded_drain, ← hafter.count_eq, List.length_append]
    show drained.length + journal.events.length + journal.dropped = _
    exact Nat.add_right_comm _ _ _

theorem After.step (hafter : After limit uses drained journal) (use : Use) :
    After limit (uses ++ [use]) (drained ++ (journal.step use).1) (journal.step use).2 := by
  cases use with
  | emit event =>
      rw [Journal.step, List.append_nil]
      exact hafter.emit event
  | drain => exact hafter.drain

/-! ## Any number of uses -/

theorem After.run (hafter : After limit uses drained journal) (more : List Use) :
    After limit (uses ++ more) (drained ++ (journal.run more).1) (journal.run more).2 := by
  induction more generalizing uses drained journal with
  | nil =>
      rw [List.append_nil, Journal.run, List.append_nil]
      exact hafter
  | cons use more ih =>
      have hrest := ih (hafter.step use)
      rwa [List.append_assoc, List.append_assoc] at hrest

theorem dropped_le_emit : journal.dropped ≤ (journal.emit event).dropped := by
  unfold emit
  split
  · exact Nat.le_succ _
  · exact Nat.le_refl _

theorem dropped_le_step (journal : Journal) (use : Use) :
    journal.dropped ≤ (journal.step use).2.dropped := by
  cases use with
  | emit event => exact dropped_le_emit
  | drain => exact Nat.le_refl _

theorem dropped_le_run (journal : Journal) (uses : List Use) :
    journal.dropped ≤ (journal.run uses).2.dropped := by
  induction uses generalizing journal with
  | nil => exact Nat.le_refl _
  | cons use uses ih => exact (journal.dropped_le_step use).trans (ih _)

/-- After any use of a journal, with a limit or without one, it holds the last of the events
recorded since it was drained, as many as its limit allows, in their order.  What was drained, and
behind it what is held, are events that were recorded, in their order, and those that are missing
are just as many as were counted as lost.  The count never falls, and no drain changes it. -/
theorem keeps_newest (limit : Option Nat) (uses : List Use) :
    let drained := ((start limit).run uses).1
    let journal := ((start limit).run uses).2
    journal.events = (sinceDrain uses).rtake (kept limit (sinceDrain uses).length) ∧
      (∀ bound, limit = some bound → journal.events.length ≤ max bound 1) ∧
      (drained ++ journal.events).Sublist (recorded uses) ∧
      drained.length + journal.dropped + journal.events.length = (recorded uses).length ∧
      (∀ more, journal.dropped ≤ (journal.run more).2.dropped) ∧
      (journal.step .drain).2.dropped = journal.dropped := by
  intro drained journal
  have hafter : After limit uses drained journal := (after_start limit).run uses
  refine ⟨hafter.events_eq, ?_, hafter.sublist, hafter.count_eq, journal.dropped_le_run, rfl⟩
  rintro bound rfl
  rw [hafter.events_eq, length_newest]
  exact Nat.min_le_right _ _

/-- Of three events that meet a journal of two, the first is lost. -/
example : ((start (some 2)).run [.emit (.periodClosed 1), .emit (.periodClosed 2),
    .emit (.periodClosed 3)]).2 =
      { events := [.periodClosed 2, .periodClosed 3], limit := some 2, dropped := 1 } := by
  decide

end FeeDistribution.Journal
