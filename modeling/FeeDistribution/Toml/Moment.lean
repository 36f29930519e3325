import FeeDistribution.Text.Hex
import FeeDistribution.Toml.Basic

/-!
# Dates and times of TOML

A moment is a date, a date and a time of day, or a time of day.  A time of day that follows a date
may have an offset from universal time.  Which moment it is does not matter, but it must exist.
-/

namespace FeeDistribution.Toml

/-- Reads a number of exactly so many decimal digits. -/
def readFixed (digits : Nat) (text : List Char) : Option (Nat × List Char) :=
  let written := text.take digits
  if written.length = digits ∧ written.all Char.isDigit then
    some (written.foldl (fun total c => 10 * total + (c.toNat - 48)) 0, text.drop digits)
  else none

/-- Reads a number of two digits within bounds. -/
def readPair (low high : Nat) (text : List Char) : Option (Nat × List Char) := do
  let (value, rest) ← readFixed 2 text
  if low ≤ value ∧ value ≤ high then pure (value, rest) else none

/-- Reads one character. -/
def readMark (mark : Char) : List Char → Option (List Char)
  | c :: rest => if c = mark then some rest else none
  | [] => none

/-- Whether a year has a leap day. -/
def isLeapYear (year : Nat) : Bool :=
  year % 4 == 0 && (year % 100 != 0 || year % 400 == 0)

/-- The number of days of a month. -/
def daysOf (year month : Nat) : Nat :=
  if month = 2 then if isLeapYear year then 29 else 28
  else if month = 4 ∨ month = 6 ∨ month = 9 ∨ month = 11 then 30
  else 31

/-- Reads a date. -/
def readDate (text : List Char) : Option (List Char) := do
  let (year, rest) ← readFixed 4 text
  let rest ← readMark '-' rest
  let (month, rest) ← readPair 1 12 rest
  let rest ← readMark '-' rest
  let (_, rest) ← readPair 1 (daysOf year month) rest
  pure rest

/-- Drops a fraction of a second, if there is one. -/
def skipFraction : List Char → List Char
  | '.' :: c :: rest => if c.isDigit then rest.dropWhile Char.isDigit else '.' :: c :: rest
  | text => text

/-- Reads a time of day.  A minute may have a leap second. -/
def readTime (text : List Char) : Option (List Char) := do
  let (_, rest) ← readPair 0 23 text
  let rest ← readMark ':' rest
  let (_, rest) ← readPair 0 59 rest
  let rest ← readMark ':' rest
  let (_, rest) ← readPair 0 60 rest
  pure (skipFraction rest)

/-- Reads an offset from universal time in hours and minutes, after its sign. -/
def readOffset (text : List Char) : Option (List Char) := do
  let (_, rest) ← readPair 0 23 text
  let rest ← readMark ':' rest
  let (_, rest) ← readPair 0 59 rest
  pure rest

/-- Drops an offset from universal time, if there is one. -/
def skipOffset : List Char → List Char
  | 'Z' :: rest => rest
  | 'z' :: rest => rest
  | '+' :: rest => (readOffset rest).getD ('+' :: rest)
  | '-' :: rest => (readOffset rest).getD ('-' :: rest)
  | text => text

/-- Drops the time of day that follows a date, if there is one. -/
def skipTime : List Char → List Char
  | c :: rest =>
    if c = 'T' ∨ c = 't' ∨ c = ' ' then
      match readTime rest with
      | some rest => skipOffset rest
      | none => c :: rest
    else c :: rest
  | [] => []

/-- Reads a moment. -/
def readMoment (text : List Char) : Option (Value × List Char) :=
  match readDate text with
  | some rest => some (.moment, skipTime rest)
  | none => (readTime text).map fun rest => (.moment, rest)

end FeeDistribution.Toml
