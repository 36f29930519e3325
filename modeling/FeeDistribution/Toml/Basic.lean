/-!
# TOML documents

A TOML text as a tree of tables.  A table remembers how it came about, because that decides how it
may still be extended: by a header, by a dotted key, or not at all.
-/

namespace FeeDistribution.Toml

/-- How a table came about. -/
inductive Origin where
  /-- It has a header of its own, or is the top of the document. -/
  | header
  /-- It stands on the way to a table with a header. -/
  | implied
  /-- It stands on the way of a dotted key. -/
  | dotted
  /-- It was written between braces. -/
  | braces
deriving DecidableEq

/-- A value of a document.  Of floating-point numbers, dates and times only the kind is kept. -/
inductive Value where
  /-- A string. -/
  | text (text : String)
  /-- An integer. -/
  | integer (value : Int)
  /-- A floating-point number. -/
  | float
  /-- A truth value. -/
  | boolean (value : Bool)
  /-- A date, a time or both. -/
  | moment
  /-- An array. -/
  | array (items : List Value)
  /-- A table and its members. -/
  | table (origin : Origin) (members : List (String × Value))
  /-- An array of tables with headers.  It is never empty; the newest element is apart. -/
  | tables (newest : List (String × Value)) (older : List (List (String × Value)))

/-- The members of a table.  No name occurs twice. -/
abbrev Members := List (String × Value)

namespace Members

/-- The value of a member. -/
def find? (members : Members) (name : String) : Option Value :=
  members.lookup name

/-- Replaces the value of a member. -/
def replace (members : Members) (name : String) (value : Value) : Members :=
  members.map fun (other, old) => if other = name then (other, value) else (other, old)

/-- Adds a member, unless its name is taken. -/
def add (members : Members) (name : String) (value : Value) : Option Members :=
  match members.find? name with
  | some _ => none
  | none => some (members ++ [(name, value)])

/-- Changes the table at the end of a path.  Missing tables on the way are created; `origin` is what
they will have come about by, and `mayEnter` says into which tables the path may lead.  An array of
tables is entered at its newest element. -/
def follow (origin : Origin) (mayEnter : Origin → Bool)
    (change : Origin → Members → Option Members) :
    List String → Origin → Members → Option Members
  | [], here, members => change here members
  | name :: path, _, members =>
    match members.find? name with
    | none => do
      let inner ← follow origin mayEnter change path origin []
      pure (members ++ [(name, .table origin inner)])
    | some (.table there inner) =>
      if mayEnter there then do
        let inner ← follow origin mayEnter change path there inner
        pure (members.replace name (.table there inner))
      else none
    | some (.tables newest older) => do
      let newest ← follow origin mayEnter change path .header newest
      pure (members.replace name (.tables newest older))
    | some _ => none

/-- Whether a dotted key may lead through a table: it has no header and no braces. -/
def mayDot : Origin → Bool
  | .header => false
  | .braces => false
  | _ => true

/-- Whether a header may lead through a table: it has no braces. -/
def mayHead : Origin → Bool
  | .braces => false
  | _ => true

/-- Gives the last of a path of names a value.  A table that is reached by a dotted key must have
come about by one, and a table that came about by one can be reached in no other way. -/
def assign (path : List String) (name : String) (value : Value) (origin : Origin)
    (members : Members) : Option Members :=
  follow .dotted mayDot
    (fun there inner =>
      if decide (there = .dotted) = path.isEmpty then none else inner.add name value)
    path origin members

/-- Gives a table a header.  A table that already came about must have been implied. -/
def openTable (name : String) (members : Members) : Option Members :=
  match members.find? name with
  | none => members.add name (.table .header [])
  | some (.table .implied inner) => some (members.replace name (.table .header inner))
  | some _ => none

/-- Starts a new element of an array of tables. -/
def openElement (name : String) (members : Members) : Option Members :=
  match members.find? name with
  | none => members.add name (.tables [] [])
  | some (.tables newest older) => some (members.replace name (.tables [] (newest :: older)))
  | some _ => none

end Members

/-- A document as far as it was read. -/
structure Document where
  /-- The members of the top table. -/
  members : Members := []
  /-- The path of the last header; empty before the first one. -/
  header : List String := []

namespace Document

/-- Gives a path of names, counted from the last header, a value. -/
def assign (document : Document) (path : List String) (name : String) (value : Value) :
    Option Document := do
  let members ← Members.follow .implied Members.mayHead (Members.assign path name value)
    document.header .header document.members
  pure { document with members }

/-- Takes in the header of a table. -/
def openTable (document : Document) (path : List String) (name : String) : Option Document := do
  let members ← Members.follow .implied Members.mayHead (fun _ => Members.openTable name)
    path .header document.members
  pure { members, header := path ++ [name] }

/-- Takes in the header of an element of an array of tables. -/
def openElement (document : Document) (path : List String) (name : String) : Option Document := do
  let members ← Members.follow .implied Members.mayHead (fun _ => Members.openElement name)
    path .header document.members
  pure { members, header := path ++ [name] }

end Document

end FeeDistribution.Toml
