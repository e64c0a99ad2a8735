import Reckon.Binary64.Rounding

/-!
# Decimals

A positive quotient has a decimal order, the exponent of its leading digit. Cut at a decimal
place it is a whole coefficient with a power of ten, rounded to the nearest and halves to even.
-/

namespace Reckon

/-- The decimal `coefficient * 10 ^ exponent`. -/
structure Decimal where
  coefficient : Nat
  exponent : Int
deriving DecidableEq

namespace Decimal

/-- The digits of a natural number, at least one. -/
def digits (n : Nat) : List Char :=
  Nat.toDigits 10 n

open Binary64 (tenTo)

/-- The greatest power of ten that is not above a positive quotient. -/
def order (num den : Nat) : Int :=
  let estimate := ((digits num).length : Int) - (digits den).length
  if den * tenTo estimate ≤ num * tenTo (-estimate) then estimate else estimate - 1

/-- A quotient in units of a decimal place, as a quotient again. -/
def inUnits (num den : Nat) (place : Int) : Nat × Nat :=
  (num * tenTo (-place), den * tenTo place)

/-- The decimal at a place that is nearest to a quotient. -/
def nearest (num den : Nat) (place : Int) : Decimal :=
  let (units, per) := inUnits num den place
  ⟨Binary64.nearestQuotient units per, place⟩

/-- The decimal with a number of significant digits that is nearest to a positive quotient. -/
def significant (count num den : Nat) : Decimal :=
  nearest num den (order num den - count + 1)

/-- The digits without the zeros at their end. -/
def trimZeros (ds : List Char) : List Char :=
  (ds.reverse.dropWhile (· == '0')).reverse

/-- The exponent of the leading digit. -/
def leadingOrder (d : Decimal) : Int :=
  d.exponent + (digits d.coefficient).length - 1

end Decimal

end Reckon
