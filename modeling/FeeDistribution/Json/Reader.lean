import FeeDistribution.Json.Basic
import FeeDistribution.Text.Hex

/-!
# Reading JSON

A text is read into a tree by recursive descent.  Each function takes the characters that are left
and returns what it read and what is left after it.  The functions for nested values carry a bound
on their nesting; twice the length of the text always suffices, since every second step consumes a
character.
-/

namespace FeeDistribution.Json

/-- Space between the parts of a JSON text. -/
def isBlank (c : Char) : Bool :=
  c == ' ' || c == '\t' || c == '\n' || c == '\r'

/-- The characters from the first that is no space. -/
def skipBlanks (text : List Char) : List Char :=
  text.dropWhile isBlank

/-! ## Strings -/

/-- One element of a string: a character, or a 16-bit unit spelled by an escape. -/
inductive Piece where
  /-- A character that stands for itself or has an escape of its own. -/
  | char (c : Char)
  /-- A unit spelled by four hexadecimal digits. -/
  | unit (code : Nat)

/-- The character that an escape of one letter stands for. -/
def unescape? : Char → Option Char
  | '"' => some '"'
  | '\\' => some '\\'
  | '/' => some '/'
  | 'b' => some '\x08'
  | 'f' => some '\x0c'
  | 'n' => some '\n'
  | 'r' => some '\r'
  | 't' => some '\t'
  | _ => none

/-- The value of hexadecimal digits. -/
def hexValue? (digits : List Char) : Option Nat := do
  let values ← digits.mapM fun c => Text.Hex.value? c.toNat
  pure (Text.Hex.toNat values)

/-- Reads the pieces of a string up to the closing quote. -/
def readPieces : List Char → Option (List Piece × List Char)
  | [] => none
  | '"' :: rest => some ([], rest)
  | '\\' :: 'u' :: a :: b :: c :: d :: rest => do
    let code ← hexValue? [a, b, c, d]
    let (pieces, rest) ← readPieces rest
    pure (.unit code :: pieces, rest)
  | '\\' :: letter :: rest => do
    let c ← unescape? letter
    let (pieces, rest) ← readPieces rest
    pure (.char c :: pieces, rest)
  | c :: rest =>
    if c.toNat < 32 || c == '\\' then none
    else do
      let (pieces, rest) ← readPieces rest
      pure (.char c :: pieces, rest)

/-- The text that pieces spell: a pair of surrogates is one character, an unpaired one is none. -/
def spell? : List Piece → Option (List Char)
  | [] => some []
  | .char c :: rest => (spell? rest).map (c :: ·)
  | .unit high :: .unit low :: rest =>
    if 0xD800 ≤ high ∧ high < 0xDC00 then
      if 0xDC00 ≤ low ∧ low < 0xE000 then
        (spell? rest).map
          (Char.ofNat (0x10000 + (high - 0xD800) * 0x400 + (low - 0xDC00)) :: ·)
      else none
    else if 0xDC00 ≤ high ∧ high < 0xE000 then none
    else (spell? (.unit low :: rest)).map (Char.ofNat high :: ·)
  | .unit code :: rest =>
    if 0xD800 ≤ code ∧ code < 0xE000 then none else (spell? rest).map (Char.ofNat code :: ·)

/-- Reads a string after its opening quote. -/
def readString (text : List Char) : Option (Option String × List Char) := do
  let (pieces, rest) ← readPieces text
  pure ((spell? pieces).map String.ofList, rest)

/-! ## Numbers -/

/-- The value of a decimal digit. -/
def digitValue (c : Char) : Nat :=
  c.toNat - 48

/-- The value of decimal digits. -/
def decimalValue (digits : List Char) : Nat :=
  digits.foldl (fun total c => 10 * total + digitValue c) 0

/-- Reads one or more decimal digits. -/
def readDigits (text : List Char) : Option (List Char × List Char) :=
  match text.takeWhile Char.isDigit with
  | [] => none
  | digits => some (digits, text.dropWhile Char.isDigit)

/-- Reads the digits before a fraction: a single zero, or digits that start with no zero. -/
def readWhole (text : List Char) : Option (List Char × List Char) := do
  let (digits, rest) ← readDigits text
  if digits.head? = some '0' ∧ digits ≠ ['0'] then none else pure (digits, rest)

/-- Reads a fraction, if there is one. -/
def readFraction : List Char → Option (Option (List Char) × List Char)
  | '.' :: text => do
    let (digits, rest) ← readDigits text
    pure (some digits, rest)
  | text => some (none, text)

/-- Reads the sign and digits of an exponent. -/
def readSigned : List Char → Option (Int × List Char)
  | '-' :: text => do
    let (digits, rest) ← readDigits text
    pure (-(decimalValue digits : Int), rest)
  | '+' :: text => do
    let (digits, rest) ← readDigits text
    pure ((decimalValue digits : Int), rest)
  | text => do
    let (digits, rest) ← readDigits text
    pure ((decimalValue digits : Int), rest)

/-- Reads an exponent, if there is one. -/
def readExponent : List Char → Option (Option Int × List Char)
  | c :: text =>
    if c = 'e' ∨ c = 'E' then do
      let (exponent, rest) ← readSigned text
      pure (some exponent, rest)
    else some (none, c :: text)
  | [] => some (none, [])

/-- Reads a number without its sign. -/
def readMagnitude (negative : Bool) (text : List Char) : Option (Json × List Char) := do
  let (whole, rest) ← readWhole text
  let (fraction, rest) ← readFraction rest
  let (exponent, rest) ← readExponent rest
  match fraction, exponent with
  | none, none => pure (.int negative (decimalValue whole), rest)
  | _, _ =>
    let number := Text.Scaled.ofDigits (whole.map digitValue) ((fraction.getD []).map digitValue)
    pure (.decimal (number.shift (exponent.getD 0)), rest)

/-! ## Values -/

/-- Reads a fixed word. -/
def readWord (word : List Char) (value : Json) (text : List Char) : Option (Json × List Char) :=
  if word.isPrefixOf text then some (value, text.drop word.length) else none

mutual

/-- Reads a value, which may follow space. -/
def readValue : Nat → List Char → Option (Json × List Char)
  | 0, _ => none
  | fuel + 1, text =>
    match skipBlanks text with
    | [] => none
    | '"' :: rest => do
      let (text, rest) ← readString rest
      pure (.str text, rest)
    | '[' :: rest =>
      match skipBlanks rest with
      | ']' :: rest => some (.arr [], rest)
      | rest => do
        let (items, rest) ← readItems fuel rest
        pure (.arr items, rest)
    | '{' :: rest =>
      match skipBlanks rest with
      | '}' :: rest => some (.obj [], rest)
      | rest => do
        let (members, rest) ← readMembers fuel rest
        pure (.obj members, rest)
    | '-' :: rest => readMagnitude true rest
    | 'n' :: rest => readWord ['u', 'l', 'l'] .null rest
    | 't' :: rest => readWord ['r', 'u', 'e'] (.bool true) rest
    | 'f' :: rest => readWord ['a', 'l', 's', 'e'] (.bool false) rest
    | rest => readMagnitude false rest

/-- Reads one or more items and the bracket that ends them. -/
def readItems : Nat → List Char → Option (List Json × List Char)
  | 0, _ => none
  | fuel + 1, text => do
    let (item, rest) ← readValue fuel text
    match skipBlanks rest with
    | ']' :: rest => pure ([item], rest)
    | ',' :: rest =>
      let (items, rest) ← readItems fuel rest
      pure (item :: items, rest)
    | _ => none

/-- Reads one or more members and the brace that ends them. -/
def readMembers : Nat → List Char → Option (List (Option String × Json) × List Char)
  | 0, _ => none
  | fuel + 1, text =>
    match skipBlanks text with
    | '"' :: rest => do
      let (name, rest) ← readString rest
      match skipBlanks rest with
      | ':' :: rest =>
        let (value, rest) ← readValue fuel rest
        match skipBlanks rest with
        | '}' :: rest => pure ([(name, value)], rest)
        | ',' :: rest =>
          let (members, rest) ← readMembers fuel rest
          pure ((name, value) :: members, rest)
        | _ => none
      | _ => none
    | _ => none

end

/-- The tree of a JSON text, if it is one. -/
def parse? (text : String) : Option Json := do
  let (json, rest) ← readValue (2 * text.toList.length + 2) text.toList
  if skipBlanks rest = [] then pure json else none

end FeeDistribution.Json
