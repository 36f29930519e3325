import FeeDistribution.Period.Basic

/-!
# The rolling window

A window holds a fixed number of periods.  Seen from the present they are counted backwards: index
zero is the open period, index one the period closed last, and so on.  They are stored in a ring, so
that opening a period overwrites the oldest one and moves no other: the `head` counts the periods
opened, and the period at index `i` stands in slot `(head - i) mod n`.
-/

namespace FeeDistribution

/-- A ring of periods and the sequence number of the open one. -/
structure Window where
  /-- The periods in storage order. -/
  slots : Array Period
  /-- The sequence number of the open period.  It starts at the number of slots less one, so that
  every index has a slot from the beginning. -/
  head : Nat
deriving DecidableEq

namespace Window

/-- The number of slots. -/
def length (window : Window) : Nat :=
  window.slots.size

/-- The place in storage of the period at an index. -/
def place (window : Window) (index : Nat) : Nat :=
  (window.head - index) % window.length

/-- The period at an index, or `none` outside the window. -/
def recent? (window : Window) (index : Nat) : Option Period :=
  if index < window.length then window.slots[window.place index]? else none

/-- The period at an index; outside the window, the empty period. -/
def recent (window : Window) (index : Nat) : Period :=
  (window.recent? index).getD .empty

/-- The open period. -/
def current (window : Window) : Period :=
  window.recent 0

/-- The periods from the open one to the oldest. -/
def toList (window : Window) : List Period :=
  (List.range window.length).map window.recent

/-- Replaces the period in a place of storage. -/
def setPlace (window : Window) (place : Nat) (period : Period) : Window :=
  { window with slots := window.slots.setIfInBounds place period }

/-- Overwrites the period at an index; outside the window nothing happens. -/
def set (window : Window) (index : Nat) (period : Period) : Window :=
  if index < window.length then window.setPlace (window.place index) period else window

/-- Changes the period at an index; outside the window nothing happens. -/
def modify (window : Window) (index : Nat) (change : Period → Period) : Window :=
  window.set index (change (window.recent index))

/-- A window of `length` slots in which period `id` is open and no other slot was ever filled. -/
def create (length : Nat) (id : PeriodId) (start : Timestamp) : Except Fault Window :=
  if length < 2 then .error (.misconfigured (.shortWindow length))
  else
    let blank : Window := { slots := Array.replicate length .empty, head := length - 1 }
    .ok (blank.set 0 (.opened id start))

/-- Opens a period in the place of the oldest one, which is returned. -/
def push (window : Window) (period : Period) : Period × Window :=
  let moved := { window with head := window.head + 1 }
  (moved.current, moved.set 0 period)

/-- Overwrites the period at an index and returns the old one. -/
def replace (window : Window) (index : Nat) (period : Period) : Except Fault (Period × Window) :=
  match window.recent? index with
  | some old => .ok (old, window.set index period)
  | none => .error (.outsideWindow period.id)

/-- The closed periods with their indices, newest first, without slots that were never filled. -/
def closed (window : Window) : List (Nat × Period) :=
  ((List.range' 1 (window.length - 1)).map fun index => (index, window.recent index)).filter
    fun (_, period) => decide period.Filled

/-- The id of the oldest period in the window. -/
def oldestId (window : Window) : PeriodId :=
  match window.toList.reverse.find? fun period => decide period.Filled with
  | some period => period.id
  | none => window.current.id

/-- The index of a period, if it is in the window. -/
def position? (window : Window) (id : PeriodId) : Option Nat :=
  if id = 0 ∨ id < window.oldestId ∨ window.current.id < id then none
  else (List.range window.length).find? fun index => (window.recent index).id == id

/-- Where a period stands in its life; a period that was never opened has no status. -/
def status? (window : Window) (id : PeriodId) : Option PeriodStatus :=
  if id = 0 ∨ window.current.id < id then none
  else
    match window.position? id with
    | none => some .evicted
    | some 0 => some .opened
    | some index =>
      if (window.recent index).Touched then some .partiallyClaimed else some .closed

end Window

end FeeDistribution
