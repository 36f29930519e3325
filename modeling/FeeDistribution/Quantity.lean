/-!
# Quantities

The numbers the program keeps.  Amounts and shares are eighteen-decimal fixed-point naturals of at
most 128 bits, period ids and durations are naturals of at most 64 bits, and timestamps are Unix
seconds of 64 bits with a sign.  The types below carry no bound of their own: an operation that
could leave the range checks it and reports a fault, or follows one of the rules stated here, two for
timestamps (`Timestamp.saturate`, `Timestamp.ofDuration`) and one for ids (`PeriodId.next`).

Four numbers that nothing else bounds are added up without a check, and are exact here: the sum of
all balances (`Tally.total`), what an account was paid of an asset (`Treasury.paidTo`), the closes
that moved the head of a window, and the events that a journal dropped.  They are what they would be
in their width as long as they fit it.  So all balances together, live or frozen in a snapshot, are
taken to be an amount, that is at most `Quantity.maxAmount`, and so are the payments of one account
in one asset; closes and dropped events are taken to number no more than `Quantity.maxWord`.
-/

namespace FeeDistribution

/-- A fixed-point amount, share or ratio with eighteen decimals. -/
abbrev Amount := Nat

/-- The number of a fee period.  Periods are numbered upwards from one; zero is no period. -/
abbrev PeriodId := Nat

/-- Seconds since the Unix epoch, negative before it. -/
abbrev Timestamp := Int

namespace Quantity

/-- The largest amount: 128 bits. -/
def maxAmount : Nat := 0xffffffffffffffffffffffffffffffff

/-- The largest period id, duration, slot or count: 64 bits. -/
def maxWord : Nat := 0xffffffffffffffff

/-- The largest per-share ratio of the reward stream: 256 bits. -/
def maxRatio : Nat := 0xffffffffffffffffffffffffffffffffffffffffffffffffffffffffffffffff

/-- The earliest timestamp. -/
def earliest : Timestamp := -0x8000000000000000

/-- The latest timestamp. -/
def latest : Timestamp := 0x7fffffffffffffff

end Quantity

namespace PeriodId

/-- The id after this one.  After the last word comes zero, which is the id of no period. -/
def next (id : PeriodId) : PeriodId :=
  if id < Quantity.maxWord then id + 1 else 0

theorem next_of_lt {id : PeriodId} (hid : id < Quantity.maxWord) : id.next = id + 1 :=
  if_pos hid

theorem next_of_le {id : PeriodId} (hid : Quantity.maxWord ≤ id) : id.next = 0 :=
  if_neg (Nat.not_lt.mpr hid)

end PeriodId

namespace Timestamp

/-- The nearest timestamp to an exact number of seconds: what lies outside the range becomes its
nearer end. -/
def saturate (seconds : Int) : Timestamp :=
  max Quantity.earliest (min seconds Quantity.latest)

/-- A 64-bit duration read as a signed number of seconds, modulo `2 ^ 64`.  A duration of at least
`2 ^ 63` seconds becomes negative. -/
def ofDuration (seconds : Nat) : Timestamp :=
  Int.bmod seconds (Quantity.maxWord + 1)

end Timestamp

end FeeDistribution
