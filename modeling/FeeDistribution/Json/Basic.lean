import FeeDistribution.Text.Scaled

/-!
# JSON trees

A JSON text as a tree.  A tree keeps what later readers may object to: integers of any size,
numbers with a fraction or an exponent, strings whose escapes spell no text, and members in their
order with repetitions.
-/

namespace FeeDistribution

/-- A JSON value. -/
inductive Json where
  /-- The null value. -/
  | null
  /-- A truth value. -/
  | bool (value : Bool)
  /-- A number written with digits alone, perhaps after a minus sign. -/
  | int (negative : Bool) (magnitude : Nat)
  /-- A number written with a fraction or an exponent, its sign left out. -/
  | decimal (number : Text.Scaled)
  /-- A string.  One whose escapes spell an unpaired surrogate has no text. -/
  | str (text : Option String)
  /-- An array. -/
  | arr (items : List Json)
  /-- An object, its members in order. -/
  | obj (members : List (Option String × Json))

namespace Json

instance : Inhabited Json := ⟨null⟩

mutual

/-- How many arrays and objects are nested in each other. -/
def depth : Json → Nat
  | arr items => depthOfItems items + 1
  | obj members => depthOfMembers members + 1
  | _ => 0

/-- The greatest depth of the items of an array. -/
def depthOfItems : List Json → Nat
  | [] => 0
  | item :: rest => max item.depth (depthOfItems rest)

/-- The greatest depth of the members of an object. -/
def depthOfMembers : List (Option String × Json) → Nat
  | [] => 0
  | (_, value) :: rest => max value.depth (depthOfMembers rest)

end

mutual

/-- Whether every string in the tree has a text and every number is finite. -/
def isSound : Json → Bool
  | int _ magnitude => (Text.Scaled.ofNat magnitude).isFinite
  | decimal number => number.isFinite
  | str text => text.isSome
  | arr items => itemsAreSound items
  | obj members => membersAreSound members
  | _ => true

/-- Whether every item of an array is sound. -/
def itemsAreSound : List Json → Bool
  | [] => true
  | item :: rest => item.isSound && itemsAreSound rest

/-- Whether every member of an object has a name and is sound. -/
def membersAreSound : List (Option String × Json) → Bool
  | [] => true
  | (name, value) :: rest => name.isSome && value.isSound && membersAreSound rest

end

end Json

end FeeDistribution
