import FeeDistribution.Json.Basic
import FeeDistribution.Text.Hex

/-!
# Writing JSON

A tree is written without any space, its members in their order.  In a string, quotes, backslashes
and control characters are escaped and all else stands for itself.
-/

namespace FeeDistribution.Json

/-- The four hexadecimal digits of a number below `2 ^ 16`. -/
def fourDigits (code : Nat) : List Char :=
  [Text.Hex.digit (code / 4096), Text.Hex.digit (code / 256 % 16),
    Text.Hex.digit (code / 16 % 16), Text.Hex.digit (code % 16)]

/-- A character as it is written in a string. -/
def escape (c : Char) : List Char :=
  if c = '"' then ['\\', '"']
  else if c = '\\' then ['\\', '\\']
  else if c = '\x08' then ['\\', 'b']
  else if c = '\t' then ['\\', 't']
  else if c = '\n' then ['\\', 'n']
  else if c = '\x0c' then ['\\', 'f']
  else if c = '\r' then ['\\', 'r']
  else if c.toNat < 32 then '\\' :: 'u' :: fourDigits c.toNat
  else [c]

/-- A string between quotes.  One without a text is written as an unpaired surrogate. -/
def renderText : Option String → List Char
  | some text => '"' :: (text.toList.flatMap escape ++ ['"'])
  | none => ['"', '\\', 'u', 'd', '8', '0', '0', '"']

/-- The digits of a natural number. -/
def renderNat (n : Nat) : List Char :=
  Nat.toDigits 10 n

/-- A sign, if there is one, before the digits of a natural number. -/
def renderSigned (negative : Bool) (magnitude : Nat) : List Char :=
  if negative then '-' :: renderNat magnitude else renderNat magnitude

mutual

/-- The text of a tree. -/
def render : Json → List Char
  | null => ['n', 'u', 'l', 'l']
  | bool true => ['t', 'r', 'u', 'e']
  | bool false => ['f', 'a', 'l', 's', 'e']
  | int negative magnitude => renderSigned negative magnitude
  | decimal ⟨significand, exponent⟩ =>
    renderNat significand ++ 'e' :: renderSigned (decide (exponent < 0)) exponent.natAbs
  | str text => renderText text
  | arr [] => ['[', ']']
  | arr (item :: rest) => '[' :: (render item ++ renderItems rest)
  | obj [] => ['{', '}']
  | obj ((name, value) :: rest) =>
    '{' :: (renderText name ++ ':' :: (render value ++ renderMembers rest))

/-- The items after the first one, and the bracket that ends the array. -/
def renderItems : List Json → List Char
  | [] => [']']
  | item :: rest => ',' :: (render item ++ renderItems rest)

/-- The members after the first one, and the brace that ends the object. -/
def renderMembers : List (Option String × Json) → List Char
  | [] => ['}']
  | (name, value) :: rest =>
    ',' :: (renderText name ++ ':' :: (render value ++ renderMembers rest))

end

/-- The text of a tree. -/
def compact (json : Json) : String :=
  String.ofList json.render

end FeeDistribution.Json
