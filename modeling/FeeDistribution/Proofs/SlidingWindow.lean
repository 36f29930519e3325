import FeeDistribution.Proofs.OpenPeriod

/-!
# The window as a sliding list

A window is meant to be a list of periods, newest first, that slides: a new period enters in front
and the oldest one falls out at the end.  Here this is taken at its word.  `Window.Update` is a
change of a window by its interface, `Update.slide` the same change of a list, and
`toList_update` says that the two agree.  Whatever can be read off a window (`Window.Shows`) is
therefore read off the list, however often the ring has wrapped around.

On a ledger the list has a meaning of its own: as long as no history is imported, its elements are
the periods that were opened, newest first.  Only a close opens a period; everything else leaves id
and start of every period alone, `Posting.atOpening_recent`.
-/

namespace FeeDistribution

namespace Window

variable {window : Window}

/-- A change of a window by its interface. -/
inductive Update where
  | push (period : Period)
  | replace (index : Nat) (period : Period)
  | modify (index : Nat) (change : Period → Period)

/-- The window after an update.  A replacement that is refused changes nothing. -/
def update (window : Window) : Update → Window
  | .push period => (window.push period).2
  | .replace index period =>
    match window.replace index period with
    | .ok (_, replaced) => replaced
    | .error _ => window
  | .modify index change => window.modify index change

/-- What an update does to a list. -/
def Update.slide (periods : List Period) : Update → List Period
  | .push period => period :: periods.dropLast
  | .replace index period => periods.set index period
  | .modify index change => periods.modify index change

/-- What a window shows and returns if it stands for a list of periods. -/
structure Shows (window : Window) (periods : List Period) : Prop where
  recent?_eq : ∀ index, window.recent? index = periods[index]?
  le_head : ∀ index < periods.length, index ≤ window.head
  push_fst : ∀ period, periods.getLast? = some (window.push period).1
  replace_fst : ∀ index period, (window.replace index period).map Prod.fst =
    match periods[index]? with
    | some old => .ok old
    | none => .error (.outsideWindow period.id)
  closed_eq : window.closed.map Prod.swap =
    periods.zipIdx.tail.filter fun row => decide row.1.Filled

/-! ## The list of a window -/

theorem getElem?_toList (index : Nat) : window.toList[index]? = window.recent? index := by
  by_cases hindex : index < window.length
  · rw [List.getElem?_eq_getElem (by simpa using hindex), getElem_toList, recent?_eq hindex]
  · rw [List.getElem?_eq_none (by simpa using hindex), recent?, if_neg hindex]

theorem zipIdx_toList :
    window.toList.zipIdx = (List.range window.length).map fun index =>
      (window.recent index, index) := by
  apply List.ext_getElem (by simp)
  intro index _ _
  simp

theorem closed_toList :
    window.closed.map Prod.swap =
      window.toList.zipIdx.tail.filter fun row => decide row.1.Filled := by
  have htail : (List.range window.length).tail = List.range' 1 (window.length - 1) := by
    rw [List.range_eq_range', List.tail_range']
  rw [zipIdx_toList, ← List.map_tail, htail, closed, List.filter_map, List.filter_map, List.map_map]
  rfl

theorem Aligned.shows_toList (aligned : window.Aligned) : window.Shows window.toList where
  recent?_eq index := (getElem?_toList index).symm
  le_head := by
    intro index hindex
    have hhead := aligned.length_le_head
    rw [length_toList] at hindex
    omega
  push_fst := by
    intro period
    have htwo := aligned.two_le_length
    rw [List.getLast?_eq_getElem?, getElem?_toList, length_toList, recent?_eq (by omega),
      Window.push_fst aligned]
  replace_fst := by
    intro index period
    rw [getElem?_toList, replace]
    cases window.recent? index <;> rfl
  closed_eq := closed_toList

/-! ## Updates -/

theorem update_replace {index : Nat} {period : Period} :
    window.update (.replace index period) = window.set index period := by
  by_cases hindex : index < window.length
  · simp [update, replace, recent?_eq hindex]
  · simp [update, replace, recent?, set, hindex]

@[simp] theorem length_update {change : Update} :
    (window.update change).length = window.length := by
  cases change with
  | push => exact length_push
  | replace => rw [update_replace, length_set]
  | modify => exact length_modify

theorem Aligned.update {change : Update} (aligned : window.Aligned) :
    (window.update change).Aligned := by
  cases change with
  | push => exact aligned.push
  | replace =>
      rw [update_replace]
      exact aligned.set
  | modify => exact aligned.modify

/-- Outside the window nothing is overwritten, in the list either. -/
theorem toList_set_of_length_le {index : Nat} {period : Period} (hindex : window.length ≤ index) :
    (window.set index period).toList = window.toList.set index period := by
  rw [set, if_neg (Nat.not_lt.mpr hindex), List.set_eq_of_length_le (by simpa using hindex)]

theorem toList_modify {index : Nat} {change : Period → Period} (aligned : window.Aligned) :
    (window.modify index change).toList = window.toList.modify index change := by
  by_cases hindex : index < window.length
  · rw [modify, toList_set aligned hindex, List.modify_eq_set_getElem?, getElem?_toList,
      recent?_eq hindex]
    rfl
  · have hindex := Nat.not_lt.mp hindex
    rw [modify, toList_set_of_length_le hindex, List.set_eq_of_length_le (by simpa using hindex),
      List.modify_eq_self (by simpa using hindex)]

theorem toList_update (aligned : window.Aligned) (change : Update) :
    (window.update change).toList = change.slide window.toList := by
  cases change with
  | push period => exact toList_push aligned
  | replace index period =>
      rw [update_replace]
      rcases Nat.lt_or_ge index window.length with hindex | hindex
      · exact toList_set aligned hindex
      · exact toList_set_of_length_le hindex
  | modify index change => exact toList_modify aligned

/-- A sequence of updates slides the list. -/
theorem toList_foldl_update (changes : List Update) (aligned : window.Aligned) :
    (changes.foldl update window).Aligned ∧
      (changes.foldl update window).length = window.length ∧
      (changes.foldl update window).toList = changes.foldl Update.slide window.toList := by
  induction changes generalizing window with
  | nil => exact ⟨aligned, rfl, rfl⟩
  | cons change changes ih =>
      obtain ⟨haligned, hlength, hlist⟩ := ih aligned.update
      rw [List.foldl_cons, List.foldl_cons, ← toList_update aligned change]
      exact ⟨haligned, hlength.trans length_update, hlist⟩

theorem toList_create {length : Nat} {id : PeriodId} {start : Timestamp}
    (hcreate : Window.create length id start = .ok window) :
    window.toList = .opened id start :: List.replicate (length - 1) .empty := by
  obtain ⟨aligned, hlength, hread⟩ := create_ok hcreate
  have htwo := aligned.two_le_length
  apply List.ext_getElem
  · simp
    omega
  · intro index _ _
    rw [getElem_toList, hread]
    cases index <;> simp

end Window

/-! ## Periods as they opened -/

/-- A period as it was when it opened. -/
def Period.atOpening (period : Period) : Period :=
  .opened period.id period.start

theorem Period.id_eq_of_atOpening_eq {first second : Period}
    (hsame : first.atOpening = second.atOpening) : first.id = second.id := by
  have hid := congrArg Period.id hsame
  exact hid

namespace Ledger

variable {ledger next : Ledger}

theorem atOpening_recent_deposited {fees rewards : Amount} (aligned : ledger.window.Aligned)
    (hdeposited : ledger.Deposited fees rewards next) (index : Nat) :
    (next.window.recent index).atOpening = (ledger.window.recent index).atOpening := by
  rw [recent_deposited aligned hdeposited]
  split
  · subst index
    rfl
  · rfl

/-- A close moves every period to the next slot. -/
theorem atOpening_recent_closedWindow {new : PeriodId} {start : Timestamp}
    (aligned : ledger.window.Aligned) {index : Nat} (hindex : index + 1 < ledger.window.length) :
    ((ledger.closedWindow new start).recent (index + 1)).atOpening =
      (ledger.window.recent index).atOpening := by
  rw [recent_closedWindow_succ aligned hindex]
  split
  · subst index
    rfl
  · rfl

theorem atOpening_recent_commitClaim {plan : ClaimPlan} {previous : PeriodId}
    (aligned : ledger.window.Aligned) (hcommit : ledger.commitClaim plan = .ok (previous, next))
    (index : Nat) :
    (next.window.recent index).atOpening = (ledger.window.recent index).atOpening := by
  rw [recent_takeOut aligned hcommit]
  rfl

theorem id_recent_deposited {fees rewards : Amount} (aligned : ledger.window.Aligned)
    (hdeposited : ledger.Deposited fees rewards next) (index : Nat) :
    (next.window.recent index).id = (ledger.window.recent index).id :=
  Period.id_eq_of_atOpening_eq (atOpening_recent_deposited aligned hdeposited index)

theorem id_recent_closedWindow {new : PeriodId} {start : Timestamp}
    (aligned : ledger.window.Aligned) {index : Nat} (hindex : index + 1 < ledger.window.length) :
    ((ledger.closedWindow new start).recent (index + 1)).id = (ledger.window.recent index).id :=
  Period.id_eq_of_atOpening_eq (atOpening_recent_closedWindow aligned hindex)

theorem id_recent_commitClaim {plan : ClaimPlan} {previous : PeriodId}
    (aligned : ledger.window.Aligned) (hcommit : ledger.commitClaim plan = .ok (previous, next))
    (index : Nat) :
    (next.window.recent index).id = (ledger.window.recent index).id :=
  Period.id_eq_of_atOpening_eq (atOpening_recent_commitClaim aligned hcommit index)

end Ledger

/-- A call that neither closes nor imports a period leaves all periods what they are. -/
theorem Posting.atOpening_recent {ledger next : Ledger} {payments nextPayments : Payments}
    {call : Call} {result : Except Fault Reply}
    (hposting : Posting ledger payments call result next nextPayments)
    (aligned : ledger.window.Aligned) (hopen : ∀ outcome, result ≠ .ok (.closed outcome))
    (himport : ∀ caller slot period, call ≠ .importPeriod caller slot period) (index : Nat) :
    (next.window.recent index).atOpening = (ledger.window.recent index).atOpening := by
  cases hposting with
  | refused | aside | settled | outside | finishImport => rfl
  | fee hrecord =>
      exact Ledger.atOpening_recent_deposited aligned (Ledger.recordFee_ok hrecord) index
  | reward hrecord =>
      exact Ledger.atOpening_recent_deposited aligned (Ledger.recordReward_ok hrecord) index
  | closed => exact absurd rfl (hopen _)
  | claimed _ _ hcommit => exact Ledger.atOpening_recent_commitClaim aligned hcommit index
  | unpaid _ _ hcommit => rw [Ledger.revertClaim_of_commitClaim hcommit]
  | importPeriod => exact absurd rfl (himport _ _ _)
  | importWatermark himported =>
      obtain ⟨_, rfl⟩ := Ledger.importWatermark_ok himported
      rfl

/-- The period that a call opened, given its result. -/
def Call.opened? (call : Call) : Except Fault Reply → Option Period
  | .ok (.closed outcome) => call.opensAt?.map (.opened outcome.opened)
  | _ => none

namespace System

variable {system : System} {call : Call} {periods : List Period}

/-- The periods opened by a list of calls, newest first, before those that had been opened
already. -/
def openings (system : System) (periods : List Period) : List Call → List Period
  | [] => periods
  | call :: calls =>
    (system.step call).2.openings ((call.opened? (system.step call).1).toList ++ periods) calls

/-- The window holds the periods opened last. -/
structure Remembers (system : System) (periods : List Period) : Prop where
  wellFormed : system.pool.ledger.window.WellFormed
  recent : ∀ index < system.pool.ledger.window.length,
    (system.pool.ledger.window.recent index).atOpening = periods.getD index .empty

theorem Remembers.step (hremembers : system.Remembers periods)
    (himport : ∀ caller slot period, call ≠ .importPeriod caller slot period) :
    (system.step call).2.Remembers ((call.opened? (system.step call).1).toList ++ periods) := by
  have hposting := step_posting system call
  have aligned := hremembers.wellFormed.toAligned
  refine ⟨hposting.wellFormed hremembers.wellFormed, ?_⟩
  rw [hposting.length_eq]
  intro index hindex
  by_cases hclosed : ∃ outcome, (system.step call).1 = .ok (.closed outcome)
  · -- the new period comes in front, and all others are put back
    obtain ⟨outcome, hclosed⟩ := hclosed
    obtain ⟨_, _, _, start, hopens, hnext⟩ := step_closed hclosed
    have hopened : call.opened? (system.step call).1 = some (.opened outcome.opened start) := by
      rw [hclosed, Call.opened?, hopens]
      rfl
    rw [hopened, hnext]
    cases index with
    | zero => exact congrArg Period.atOpening (Ledger.current_closedWindow aligned)
    | succ index =>
        exact (Ledger.atOpening_recent_closedWindow aligned hindex).trans
          (hremembers.recent index (by omega))
  · push Not at hclosed
    have hopened : call.opened? (system.step call).1 = none := by
      unfold Call.opened?
      split
      · exact absurd ‹_› (hclosed _)
      · rfl
    rw [hopened, hposting.atOpening_recent aligned hclosed himport]
    exact hremembers.recent index hindex

theorem Remembers.run (hremembers : system.Remembers periods) (calls : List Call)
    (himport : ∀ call ∈ calls, ∀ caller slot period, call ≠ .importPeriod caller slot period) :
    (system.run calls).2.Remembers (system.openings periods calls) := by
  induction calls generalizing system periods with
  | nil => exact hremembers
  | cons call calls ih =>
      obtain ⟨hcall, hcalls⟩ := List.forall_mem_cons.mp himport
      exact ih (hremembers.step hcall) hcalls

theorem length_run (system : System) (calls : List Call) :
    (system.run calls).2.pool.ledger.window.length = system.pool.ledger.window.length := by
  induction calls generalizing system with
  | nil => rfl
  | cons call calls ih => exact (ih _).trans (step_posting system call).length_eq

theorem remembers_create {length : Nat} {now : Timestamp}
    (hcreate : Ledger.create length now = .ok system.pool.ledger) :
    system.pool.ledger.window.length = length ∧ system.Remembers [.opened 1 now] := by
  obtain ⟨wf, hlength⟩ := Ledger.wellFormed_create hcreate
  refine ⟨hlength, wf, fun index _ => ?_⟩
  obtain ⟨window, hwindow, hledger⟩ := Fallible.bind_eq_ok.mp hcreate
  rw [← Fallible.pure_eq_ok.mp hledger, (Window.create_ok hwindow).2.2]
  cases index <;> rfl

/-- A window of at least two slots is a sliding list: it can be created, and after any updates it
shows a list of as many periods as it has slots, which began as the first period before empty ones
and to which the same was done.  In the window of a ledger into which no period was imported, these
are the periods opened last, newest first. -/
theorem window_slides {length : Nat} (htwo : 2 ≤ length) (now : Timestamp) :
    (∀ id, ∃ window, Window.create length id now = .ok window ∧
      ∀ changes : List Window.Update, ∃ periods : List Period,
        changes.foldl Window.Update.slide
            (.opened id now :: List.replicate (length - 1) .empty) = periods ∧
          periods.length = length ∧ (changes.foldl Window.update window).Shows periods) ∧
      ∀ (start : System) (calls : List Call),
        Ledger.create length now = .ok start.pool.ledger →
        (∀ call ∈ calls, ∀ caller slot period, call ≠ .importPeriod caller slot period) →
        ∀ index < length,
          ((start.run calls).2.pool.ledger.window.recent index).atOpening =
            (start.openings [.opened 1 now] calls).getD index .empty := by
  constructor
  · intro id
    have hcreate : ∃ window, Window.create length id now = .ok window :=
      ⟨_, if_neg (Nat.not_lt.mpr htwo)⟩
    obtain ⟨window, hcreate⟩ := hcreate
    obtain ⟨aligned, hlength, _⟩ := Window.create_ok hcreate
    refine ⟨window, hcreate, fun changes => ⟨_, rfl, ?_⟩⟩
    obtain ⟨haligned, hsame, hlist⟩ := Window.toList_foldl_update changes aligned
    rw [← Window.toList_create hcreate, ← hlist, Window.length_toList, hsame]
    exact ⟨hlength, haligned.shows_toList⟩
  · intro start calls hcreate himport index hindex
    obtain ⟨hlength, hremembers⟩ := remembers_create hcreate
    exact (hremembers.run calls himport).recent index (by rwa [length_run, hlength])

/-- Three periods pushed onto a window of two slots leave the last two, also where one of them was
changed in between; so do two closes of a ledger. -/
theorem window_slides_twoSlots :
    2 ≤ 2 ∧
      (∃ window, Window.create 2 7 0 = .ok window ∧
        ([.push (.opened 8 1), .push (.opened 9 2), .modify 0 (·.raise 5 0),
            .push (.opened 10 3)].foldl Window.update window).recent? 1 =
          some ((Period.opened 9 2).raise 5 0)) ∧
      ((twoSlots.run [.fee 5, .closeRelayed .zero 7 3,
        .closeRelayed .zero 9 8]).2.pool.ledger.window.recent 1).atOpening = .opened 7 3 := by
  have htwo : 2 ≤ 2 := Nat.le_refl 2
  obtain ⟨hwindow, hledger⟩ := window_slides htwo 0
  obtain ⟨window, hcreate, hshows⟩ := hwindow 7
  refine ⟨htwo, ⟨window, hcreate, ?_⟩, ?_⟩
  · obtain ⟨periods, hperiods, _, hshown⟩ := hshows [.push (.opened 8 1), .push (.opened 9 2),
      .modify 0 (·.raise 5 0), .push (.opened 10 3)]
    rw [hshown.recent?_eq, ← hperiods]
    rfl
  · have hopenings := hledger twoSlots [.fee 5, .closeRelayed .zero 7 3, .closeRelayed .zero 9 8]
      rfl (by simp) 1 (by decide)
    rw [hopenings]
    decide

end System

end FeeDistribution
