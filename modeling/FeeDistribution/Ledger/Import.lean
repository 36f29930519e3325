import FeeDistribution.Ledger.Basic

/-!
# Importing history

Before normal operation begins, slots may be overwritten with periods of the past and watermarks may
be set.  Filled slots must stay an unbroken run from the open period, and ids must fall with the
index.
-/

namespace FeeDistribution.Ledger

/-- Checks an imported period against its neighbours in the window. -/
def checkNeighbours (ledger : Ledger) (slot : Nat) (period : Period) : Except Fault Unit := do
  if slot ≠ 0 then
    let newer := ledger.window.recent (slot - 1)
    if ¬ newer.Filled then throw (.invalid (.importOutOfOrder slot))
    if newer.id ≤ period.id then throw (.invalid (.notBelowNewer slot period.id newer.id))
  let older := ledger.window.recent (slot + 1)
  if older.Filled ∧ period.id ≤ older.id then
    throw (.invalid (.notAboveOlder slot period.id older.id))

/-- Overwrites a slot with a period of the past. -/
def importPeriod (ledger : Ledger) (slot : Nat) (period : Period) : Except Fault Ledger := do
  if ¬ ledger.importOpen then throw .importClosed
  if ledger.window.length ≤ slot then throw (.outsideWindow period.id)
  if ¬ period.Filled then throw (.invalid .zeroPeriodId)
  period.validate
  ledger.checkNeighbours slot period
  pure { ledger with window := ledger.window.set slot period }

/-- Sets the watermark of an account. -/
def importWatermark (ledger : Ledger) (account : Account) (id : PeriodId) : Except Fault Ledger :=
  if ledger.importOpen then
    .ok { ledger with watermarks := ledger.watermarks.set account id }
  else .error .importClosed

/-- Ends the import of history. -/
def finishImport (ledger : Ledger) : Ledger :=
  { ledger with importOpen := false }

end FeeDistribution.Ledger
