/-!
# Hexadecimal digits and numbers

Bytes are written as two hexadecimal digits each, and read back from the bytes of a text.  Writing
uses lower case; reading takes either case.

A number of up to 256 bits is written as `0x` and its digits without leading zeros.  It is read from
up to 64 characters, with or without the mark, as bytes of two digits each; when their number is odd
the first byte has one digit.  Blanks between the digits are passed over but count towards the
length, and a digit that they leave without its second one is dropped from the end.
-/

namespace FeeDistribution.Text

/-! ## Digits -/

namespace Hex

/-- The lower-case digit of a value below sixteen. -/
def digit (value : Nat) : Char :=
  if value < 10 then Char.ofNat (48 + value) else Char.ofNat (87 + value)

/-- The value of the digit with this code, in either case. -/
def value? (code : Nat) : Option Nat :=
  if 48 ≤ code ∧ code ≤ 57 then some (code - 48)
  else if 97 ≤ code ∧ code ≤ 102 then some (code - 87)
  else if 65 ≤ code ∧ code ≤ 70 then some (code - 55)
  else none

/-- The two digits of a byte, the high one first. -/
def ofByte (byte : UInt8) : List Char :=
  [digit (byte.toNat / 16), digit (byte.toNat % 16)]

/-- The digits of a sequence of bytes. -/
def encode (bytes : List UInt8) : List Char :=
  bytes.flatMap ofByte

/-- The bytes that a sequence of digit codes spells, or `none` if a code is no digit or the last
byte has only one digit. -/
def decode? : List Nat → Option (List UInt8)
  | [] => some []
  | [_] => none
  | high :: low :: rest => do
    let h ← value? high
    let l ← value? low
    let bytes ← decode? rest
    pure (UInt8.ofNat (16 * h + l) :: bytes)

/-- The digits of a natural number without leading zeros, the highest first; zero has one digit. -/
def ofNat (n : Nat) : List Char :=
  Nat.toDigits 16 n

/-- The number that a sequence of digit values spells. -/
def toNat (digits : List Nat) : Nat :=
  digits.foldl (fun total digit => 16 * total + digit) 0

end Hex

/-! ## Numbers -/

namespace HexNumber

/-- The written form of a number. -/
def render (n : Nat) : List Char :=
  '0' :: 'x' :: Hex.ofNat n

/-- Whether a character may stand between digits. -/
def isBlank (c : Char) : Bool :=
  c == ' ' || c == '\t' || c == '\n' || c == '\r'

/-- The text after the mark, if the mark is there. -/
def unmarked : List Char → List Char
  | '0' :: 'x' :: rest => rest
  | text => text

/-- How many of the digits form complete bytes, in a text of this length. -/
def complete (length digits : Nat) : Nat :=
  if length % 2 = 1 then 1 + 2 * ((digits - 1) / 2) else 2 * (digits / 2)

/-- The number that a text spells. -/
def read? (text : List Char) : Option Nat := do
  let body := unmarked text
  if body.isEmpty ∨ 64 < body.length then none
  else do
    let values ← (body.filter fun c => !isBlank c).mapM fun c => Hex.value? c.toNat
    pure (Hex.toNat (values.take (complete body.length values.length)))

end HexNumber

end FeeDistribution.Text
