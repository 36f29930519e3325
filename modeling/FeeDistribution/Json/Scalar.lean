import FeeDistribution.Json.Basic
import FeeDistribution.Quantity

/-!
# Scalars in JSON

How numbers, texts and lists of the program stand in a JSON tree.  A number must be written with
digits alone and lie in its range: a fraction, an exponent, quotes, or a minus sign before a zero
make it no number of the program.
-/

namespace FeeDistribution.Json

variable {α : Type}

/-! ## Writing -/

/-- A natural number. -/
def ofNat (n : Nat) : Json :=
  .int false n

/-- A number with a sign. -/
def ofInt (i : Int) : Json :=
  .int (decide (i < 0)) i.natAbs

/-- A text. -/
def ofText (text : String) : Json :=
  .str (some text)

/-- A list, item by item. -/
def ofList (write : α → Json) (items : List α) : Json :=
  .arr (items.map write)

/-- A value that may be missing. -/
def ofOption (write : α → Json) : Option α → Json
  | some value => write value
  | none => .null

/-! ## Reading -/

/-- A natural number up to a bound. -/
def nat? (bound : Nat) : Json → Option Nat
  | .int false magnitude => if magnitude ≤ bound then some magnitude else none
  | _ => none

/-- An amount. -/
def amount? : Json → Option Amount :=
  nat? Quantity.maxAmount

/-- A number of 64 bits. -/
def word? : Json → Option Nat :=
  nat? Quantity.maxWord

/-- A timestamp.  A zero has no minus sign. -/
def timestamp? : Json → Option Timestamp
  | .int false magnitude =>
    if (magnitude : Int) ≤ Quantity.latest then some magnitude else none
  | .int true magnitude =>
    if magnitude ≠ 0 ∧ Quantity.earliest ≤ -(magnitude : Int) then some (-magnitude) else none
  | _ => none

/-- A text. -/
def text? : Json → Option String
  | .str text => text
  | _ => none

/-- A list whose items can all be read. -/
def list? (read : Json → Option α) : Json → Option (List α)
  | .arr items => items.mapM read
  | _ => none

/-- A value that may be missing; null stands for its absence. -/
def option? (read : Json → Option α) : Json → Option (Option α)
  | .null => some none
  | json => (read json).map some

/-- The name in a tree that names one of several choices: a text, or an object whose only member
has that name and holds null. -/
def choice? : Json → Option String
  | .str name => name
  | .obj [(name, .null)] => name
  | _ => none

end FeeDistribution.Json
