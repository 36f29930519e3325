import FeeDistribution.Toml.Lexical
import FeeDistribution.Toml.Moment
import FeeDistribution.Toml.Number

/-!
# Reading TOML

A text is read line by line into a document: headers, assignments and comments.  The functions for
nested values carry a bound on their steps; twice the length of the text always suffices, since
every second step consumes a character.
-/

namespace FeeDistribution.Toml

/-- The most names a key may have, and the most arrays and inline tables that may be nested. -/
def maxDepth : Nat := 79

/-- Reads a value that holds no others. -/
def readScalar : List Char → Option (Value × List Char)
  | 't' :: 'r' :: 'u' :: 'e' :: rest => some (.boolean true, rest)
  | 'f' :: 'a' :: 'l' :: 's' :: 'e' :: rest => some (.boolean false, rest)
  | c :: rest =>
    if c = '"' ∨ c = '\'' then do
      let (text, rest) ← readText (c :: rest)
      pure (.text (String.ofList text), rest)
    else
      match readMoment (c :: rest) with
      | some read => some read
      | none => readNumber (c :: rest)
  | [] => none

mutual

/-- Reads a value in which so many arrays and inline tables may be nested. -/
def readValue : Nat → Nat → List Char → Option (Value × List Char)
  | 0, _, _ => none
  | fuel + 1, nesting, text =>
    match text, nesting with
    | '[' :: rest, nesting + 1 => do
      let (items, rest) ← readItems fuel nesting rest
      pure (.array items, rest)
    | '{' :: rest, nesting + 1 =>
      match skipBlanks rest with
      | '}' :: rest => some (.table .braces [], rest)
      | rest => do
        let (members, rest) ← readPairs fuel nesting [] rest
        pure (.table .braces members, rest)
    | '[' :: _, 0 => none
    | '{' :: _, 0 => none
    | text, _ => readScalar text

/-- Reads the items of an array and the bracket that ends it.  A comma may follow the last item. -/
def readItems : Nat → Nat → List Char → Option (List Value × List Char)
  | 0, _, _ => none
  | fuel + 1, nesting, text =>
    match skipFiller false text with
    | ']' :: rest => some ([], rest)
    | text => do
      let (item, rest) ← readValue fuel nesting text
      match skipFiller false rest with
      | ']' :: rest => pure ([item], rest)
      | ',' :: rest =>
        let (items, rest) ← readItems fuel nesting rest
        pure (item :: items, rest)
      | _ => none

/-- Reads the assignments of an inline table and the brace that ends it, and adds them to the
members that were read before. -/
def readPairs : Nat → Nat → Members → List Char → Option (Members × List Char)
  | 0, _, _, _ => none
  | fuel + 1, nesting, members, text => do
    let ((path, name), rest) ← readKey maxDepth text
    match rest with
    | '=' :: rest =>
      let (value, rest) ← readValue fuel nesting (skipBlanks rest)
      let members ← members.assign path name value .braces
      match skipBlanks rest with
      | '}' :: rest => pure (members, rest)
      | ',' :: rest => readPairs fuel nesting members rest
      | _ => none
    | _ => none

end

/-- Reads an assignment up to the end of its line. -/
def readAssignment (fuel : Nat) (document : Document) (text : List Char) :
    Option (Document × List Char) := do
  let ((path, name), rest) ← readKey maxDepth text
  match rest with
  | '=' :: rest =>
    let (value, rest) ← readValue fuel maxDepth (skipBlanks rest)
    let rest ← endLine? rest
    let document ← document.assign path name value
    pure (document, rest)
  | _ => none

/-- Reads a header after its opening brackets up to the end of its line. -/
def readHeader (document : Document) (text : List Char) : Option (Document × List Char) := do
  let ((path, name), rest) ← readKey maxDepth text
  match rest with
  | ']' :: rest =>
    let rest ← endLine? rest
    let document ← document.openTable path name
    pure (document, rest)
  | _ => none

/-- Reads the header of an element of an array of tables after its opening brackets up to the end of
its line. -/
def readElementHeader (document : Document) (text : List Char) :
    Option (Document × List Char) := do
  let ((path, name), rest) ← readKey maxDepth text
  match rest with
  | ']' :: ']' :: rest =>
    let rest ← endLine? rest
    let document ← document.openElement path name
    pure (document, rest)
  | _ => none

/-- Reads the lines that are left. -/
def readLines : Nat → Document → List Char → Option Document
  | 0, _, _ => none
  | fuel + 1, document, text =>
    match skipBlanks text with
    | [] => some document
    | '#' :: rest => do
      let rest ← endLine? ('#' :: rest)
      readLines fuel document rest
    | '\n' :: rest => readLines fuel document rest
    | '\r' :: '\n' :: rest => readLines fuel document rest
    | '[' :: '[' :: rest => do
      let (document, rest) ← readElementHeader document rest
      readLines fuel document rest
    | '[' :: rest => do
      let (document, rest) ← readHeader document rest
      readLines fuel document rest
    | rest => do
      let (document, rest) ← readAssignment (2 * rest.length + 2) document rest
      readLines fuel document rest

/-- The characters after a byte order mark, if there is one. -/
def skipOrderMark : List Char → List Char
  | '\uFEFF' :: rest => rest
  | text => text

/-- The members of the top table of a TOML text, if it is one. -/
def parse? (text : String) : Option Members := do
  let document ← readLines (text.toList.length + 1) {} (skipOrderMark text.toList)
  pure document.members

end FeeDistribution.Toml
