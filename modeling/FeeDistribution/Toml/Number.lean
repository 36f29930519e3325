import FeeDistribution.Text.Hex
import FeeDistribution.Text.Scaled
import FeeDistribution.Toml.Basic

/-!
# Numbers of TOML

An integer has 64 bits and is written in decimal with an optional sign, or without a sign in base
sixteen, eight or two after `0x`, `0o` or `0b`.  A floating-point number has a fraction, an exponent
or both, or is infinite or no number by name.  A single underscore may stand between two digits.
-/

namespace FeeDistribution.Toml

/-- Splits off the digits, in a base, that follow a digit; underscores between them are left out. -/
def takeDigits (base : Nat) : List Char → List Nat × List Char
  | [] => ([], [])
  | '_' :: c :: rest =>
    match digit? base c with
    | some value => let (values, rest) := takeDigits base rest; (value :: values, rest)
    | none => ([], '_' :: c :: rest)
  | c :: rest =>
    match digit? base c with
    | some value => let (values, rest) := takeDigits base rest; (value :: values, rest)
    | none => ([], c :: rest)
where
  /-- The value of a digit in a base of at most sixteen. -/
  digit? (base : Nat) (c : Char) : Option Nat :=
    (Text.Hex.value? c.toNat).filter fun value => value < base

/-- Reads one or more digits in a base. -/
def readDigits (base : Nat) : List Char → Option (List Nat × List Char)
  | '_' :: _ => none
  | text =>
    match takeDigits base text with
    | ([], _) => none
    | (values, rest) => some (values, rest)

/-- The number that digits spell in a base. -/
def valueOf (base : Nat) (digits : List Nat) : Nat :=
  digits.foldl (fun total digit => base * total + digit) 0

/-- Reads an optional sign; the answer says whether it is a minus. -/
def readSign : List Char → Bool × List Char
  | '+' :: rest => (false, rest)
  | '-' :: rest => (true, rest)
  | text => (false, text)

/-- Reads the digits of a decimal integer: a single zero, or digits that start with no zero. -/
def readWhole : List Char → Option (List Nat × List Char)
  | '0' :: rest => some ([0], rest)
  | text => readDigits 10 text

/-- An integer, if it has no more than 64 bits. -/
def bounded? (value : Int) : Option Value :=
  if -0x8000000000000000 ≤ value ∧ value ≤ 0x7fffffffffffffff then some (.integer value) else none

/-- Reads an integer in a base other than ten, after its mark. -/
def readBased (base : Nat) (text : List Char) : Option (Value × List Char) := do
  let (digits, rest) ← readDigits base text
  let value ← bounded? (valueOf base digits)
  pure (value, rest)

/-- Reads an integer. -/
def readInteger : List Char → Option (Value × List Char)
  | '0' :: 'x' :: rest => readBased 16 rest
  | '0' :: 'o' :: rest => readBased 8 rest
  | '0' :: 'b' :: rest => readBased 2 rest
  | text => do
    let (negative, text) := readSign text
    let (digits, rest) ← readWhole text
    let magnitude : Int := valueOf 10 digits
    let value ← bounded? (if negative then -magnitude else magnitude)
    pure (value, rest)

/-- Reads an exponent, if there is one. -/
def readExponent : List Char → Option (Option Int × List Char)
  | c :: rest =>
    if c = 'e' ∨ c = 'E' then do
      let (negative, rest) := readSign rest
      let (digits, rest) ← readDigits 10 rest
      let magnitude : Int := valueOf 10 digits
      pure (some (if negative then -magnitude else magnitude), rest)
    else some (none, c :: rest)
  | [] => some (none, [])

/-- Reads a fraction, if there is one. -/
def readFraction : List Char → Option (Option (List Nat) × List Char)
  | '.' :: rest => do
    let (digits, rest) ← readDigits 10 rest
    pure (some digits, rest)
  | text => some (none, text)

/-- Reads a number with a fraction, an exponent or both.  One that rounds to positive infinity is
refused. -/
def readDecimal (text : List Char) : Option (Value × List Char) := do
  let (negative, text) := readSign text
  let (whole, rest) ← readWhole text
  let (fraction, rest) ← readFraction rest
  let (exponent, rest) ← readExponent rest
  let places := fraction.getD []
  let mantissa := valueOf 10 (whole ++ places)
  let isWritten := fraction.isSome || exponent.isSome
  let isBounded :=
    negative || Text.Double.isFinite mantissa (exponent.getD 0 - places.length)
  if isWritten && isBounded then pure (.float, rest) else none

/-- Reads a number that has a name. -/
def readNamed : List Char → Option (Value × List Char)
  | 'i' :: 'n' :: 'f' :: rest => some (.float, rest)
  | 'n' :: 'a' :: 'n' :: rest => some (.float, rest)
  | _ => none

/-- Reads a number.  What is left after an integer can not begin a fraction or an exponent, since
nothing that may follow a value does. -/
def readNumber (text : List Char) : Option (Value × List Char) :=
  readNamed (readSign text).2 <|> readDecimal text <|> readInteger text

end FeeDistribution.Toml
