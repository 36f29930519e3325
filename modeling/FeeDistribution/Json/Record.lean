import FeeDistribution.Json.Basic

/-!
# Records in JSON

A record is written as an object with its members in a fixed order.  It is read from an object in
which each of its members occurs at most once, in any order, between others that do not matter; or
from an array of the values alone, in the fixed order, of which the last ones may be left out.
Whether a member may be missing is for its reader to say.
-/

namespace FeeDistribution.Json

variable {α : Type}

/-- The object with these members. -/
def record (members : List (String × Json)) : Json :=
  .obj (members.map fun (name, value) => (some name, value))

/-- The values of all members of a name, in order. -/
def valuesOf (members : List (Option String × Json)) (name : String) : List Json :=
  (members.filter fun (other, _) => other == some name).map Prod.snd

/-- The value of the one member of a name, `none` inside if there is no such member; a repeated
member is refused. -/
def uniqueValue? (members : List (Option String × Json)) (name : String) : Option (Option Json) :=
  match valuesOf members name with
  | [] => some none
  | [value] => some (some value)
  | _ => none

/-- The values of the members of these names, in the order of the names. -/
def fields? (names : List String) : Json → Option (List (Option Json))
  | .obj members =>
    if members.all fun (name, _) => name.isSome then names.mapM (uniqueValue? members) else none
  | .arr items =>
    if items.length ≤ names.length then
      some (items.map some ++ List.replicate (names.length - items.length) none)
    else none
  | _ => none

/-- Reads a member that must be there. -/
def required (read : Json → Option α) : Option Json → Option α
  | some value => read value
  | none => none

/-- Reads a member that may be missing. -/
def optional (read : Json → Option α) (default : α) : Option Json → Option α
  | some value => read value
  | none => some default

end FeeDistribution.Json
