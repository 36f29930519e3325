import FeeDistribution.Account.Basic
import FeeDistribution.Json.Scalar

/-!
# Reading accounts

An account is read from a text of exactly 64 hexadecimal digits of either case.  The text is judged
by its UTF-8 bytes: first their parity, then their number, then the first byte that is no digit.  A
message about a byte shows it between single quotes, as the character with its code, or escaped if
it would not be seen there.  In a JSON text an account stands as its 64 digits.
-/

namespace FeeDistribution

/-! ## Escaped characters in messages -/

namespace Text.Escape

/-- Whether a code point below 256 has a visible glyph: no control character, no space other than
the plain one, no soft hyphen. -/
def isVisible (code : Nat) : Bool :=
  (32 ≤ code && code < 127) || (160 < code && code != 173)

/-- The written form of a code point below 256 between single quotes. -/
def ofCode (code : Nat) : List Char :=
  if code = 0 then ['\\', '0']
  else if code = 9 then ['\\', 't']
  else if code = 10 then ['\\', 'n']
  else if code = 13 then ['\\', 'r']
  else if code = 39 then ['\\', '\'']
  else if code = 92 then ['\\', '\\']
  else if isVisible code then [Char.ofNat code]
  else '\\' :: 'u' :: '{' :: (Nat.toDigits 16 code ++ ['}'])

end Text.Escape

/-! ## Faults -/

/-- Why a text names no account. -/
inductive HexFault where
  /-- The number of bytes is odd. -/
  | oddLength
  /-- The number of bytes is even and not 64. -/
  | wrongLength
  /-- The byte `code` at this position is no digit. -/
  | badDigit (code : Nat) (position : Nat)
deriving DecidableEq

namespace HexFault

/-- The text of a fault. -/
def message : HexFault → String
  | oddLength => "Odd number of digits"
  | wrongLength => "Invalid string length"
  | badDigit code position =>
    "Invalid character '" ++ String.ofList (Text.Escape.ofCode code) ++ "' at position " ++
      toString position

end HexFault

/-! ## Texts and trees -/

namespace Account

/-- The UTF-8 bytes of a text. -/
def textBytes (text : List Char) : List Nat :=
  (text.flatMap String.utf8EncodeChar).map UInt8.toNat

/-- The first byte that is no hexadecimal digit, with its position. -/
def firstBadDigit? (codes : List Nat) : Option (Nat × Nat) :=
  codes.zipIdx.find? fun (code, _) => (Text.Hex.value? code).isNone

/-- The account that a text names. -/
def ofHexDigits (text : List Char) : Except HexFault Account :=
  let codes := textBytes text
  if codes.length % 2 = 1 then .error .oddLength
  else if codes.length ≠ 64 then .error .wrongLength
  else
    match firstBadDigit? codes with
    | some (code, position) => .error (.badDigit code position)
    | none =>
      match (Text.Hex.decode? codes).bind ofBytes? with
      | some account => .ok account
      | none => .error .wrongLength

/-- The account that a text names, if it names one. -/
def ofHex? (text : String) : Option Account :=
  (ofHexDigits text.toList).toOption

/-- The tree of an account. -/
def toJson (account : Account) : Json :=
  Json.ofText account.hex

/-- The account in a tree. -/
def ofJson? (json : Json) : Option Account := do
  let text ← json.text?
  ofHex? text

end Account

end FeeDistribution
