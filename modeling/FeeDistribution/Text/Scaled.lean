/-!
# Scaled numbers

Some numbers are never used but must still be representable as double-precision numbers where they
are written.  A number in decimal is `mantissa * 10 ^ exponent`, and whether it is within the range
can be decided exactly.

A scaled number is read digit by digit into a significand of 64 bits and a power of ten.  The digits
that no longer fit stay out of the significand, so a scaled number may lie below the number that is
written.  Turned into double precision, the significand and the power of ten are rounded first and
their product after that; close to the largest number this decides otherwise than the exact value
would.
-/

namespace FeeDistribution.Text

/-! ## The range of double-precision numbers -/

namespace Double

/-- Half a step above the largest double-precision number: what reaches it rounds to infinity. -/
def infinityFrom : Nat := Nat.pow 2 1024 - Nat.pow 2 970

/-- Whether `mantissa * 10 ^ exponent` is below the numbers that round to infinity. -/
def isFinite (mantissa : Nat) (exponent : Int) : Bool :=
  let places := ((Nat.toDigits 10 mantissa).length : Int) + exponent
  mantissa == 0 || places < 309 ||
    (places == 309 &&
      mantissa * Nat.pow 10 exponent.toNat < infinityFrom * Nat.pow 10 (-exponent).toNat)

/-- The natural number nearest to a quotient; of two equally near, the even one. -/
def roundQuotient (dividend divisor : Nat) : Nat :=
  let quotient := dividend / divisor
  let twice := 2 * (dividend % divisor)
  if divisor < twice ∨ (twice = divisor ∧ quotient % 2 = 1) then quotient + 1 else quotient

/-- The number of 53 binary digits, followed by zeros, that is nearest to a natural number. -/
def nearest (n : Nat) : Nat :=
  let step := Nat.pow 2 (Nat.log2 n + 1 - 53)
  roundQuotient n step * step

end Double

/-! ## Significand and exponent -/

/-- The number `significand * 10 ^ exponent`. -/
structure Scaled where
  /-- The digits that count. -/
  significand : Nat
  /-- The power of ten by which they are multiplied. -/
  exponent : Int

namespace Scaled

/-- What a significand stays below: the first number of more than 64 bits. -/
def significandBound : Nat := 18446744073709551616

/-- Appends digits to a significand up to the first with which it would reach its bound; also the
digits that are left. -/
def append (significand : Nat) : List Nat → Nat × List Nat
  | [] => (significand, [])
  | digit :: rest =>
    if 10 * significand + digit < significandBound then append (10 * significand + digit) rest
    else (significand, digit :: rest)

/-- The number with these digits before and after the point.  Every digit before the point that is
left out raises the exponent by one, every digit after the point that is taken lowers it. -/
def ofDigits (whole places : List Nat) : Scaled :=
  let (significand, uncounted) := append 0 whole
  let (significand, dropped) := append significand places
  ⟨significand, (uncounted.length : Int) - (places.length - dropped.length : Nat)⟩

/-- A natural number, by its digits. -/
def ofNat (n : Nat) : Scaled :=
  ofDigits ((Nat.toDigits 10 n).map fun c => c.toNat - 48) []

/-- The number with its point moved. -/
def shift (number : Scaled) (places : Int) : Scaled :=
  { number with exponent := number.exponent + places }

/-- Whether the product of the rounded significand and the rounded power of ten is a finite
double-precision number.  Division by a power of ten always is. -/
def isFinite (number : Scaled) : Bool :=
  number.significand == 0 || number.exponent < 0 ||
    (number.exponent ≤ 308 &&
      Double.nearest number.significand * Double.nearest (Nat.pow 10 number.exponent.toNat)
        < Double.infinityFrom)

end Scaled

end FeeDistribution.Text
