import FeeDistribution.Fault

/-!
# Fixed-point arithmetic

Products are formed exactly and rounded down once, at the end.  A result that does not fit an amount
is an overflow.
-/

namespace FeeDistribution.Decimal

/-- An exact number as an amount, if it fits. -/
def narrow (value : Nat) : Except Fault Amount :=
  if value ≤ Quantity.maxAmount then .ok value else .error .overflow

/-- The product of `a` and `b` divided by `d`, rounded down. -/
def mulDiv (a b d : Amount) : Except Fault Amount :=
  if d = 0 then .error (.invalid .divisionByZero) else narrow (a * b / d)

/-- The product of two fixed-point numbers. -/
def multiply (x y : Amount) : Except Fault Amount :=
  mulDiv x y unit

/-- The quotient of two fixed-point numbers. -/
def divide (x y : Amount) : Except Fault Amount :=
  mulDiv x unit y

/-- The sum of two amounts. -/
def add (a b : Amount) : Except Fault Amount :=
  narrow (a + b)

/-- The difference of two amounts; there are no negative ones. -/
def sub (a b : Amount) : Except Fault Amount :=
  if b ≤ a then .ok (a - b) else .error .overflow

/-- The sum of a list of amounts, added one by one from the first. -/
def sum (amounts : List Amount) : Except Fault Amount :=
  amounts.foldlM add 0

/-- A whole number as a fixed-point amount. -/
def ofNat (whole : Nat) : Amount :=
  whole * unit

end FeeDistribution.Decimal
