import Reckon.Decimal.Basic

/-!
# The shortest decimal that reads back

Of all decimals that round to a given number the shortest ones have the fewest digits, and of
those one is nearest. If any decimal with its last digit at a certain place rounds to the
number, so does one of the two neighbours of the number at that place, because rounding is
monotone; these two are all that is tried.
-/

namespace Reckon.Decimal

/-- Whether a decimal rounds to a positive number. -/
def readsAs (d : Decimal) (x : Binary64) : Bool :=
  Binary64.ofDecimal false d.coefficient d.exponent == x

/-- The neighbour of a quotient on the other side of its nearest decimal. -/
def otherNeighbour (num den : Nat) (place : Int) : Decimal :=
  let (units, per) := inUnits num den place
  let below := units / per
  ⟨if Binary64.nearestQuotient units per = below then below + 1 else below, place⟩

/-- A decimal with a number of significant digits that rounds to the number, the nearer first. -/
def ofCount? (x : Binary64) (num den count : Nat) : Option Decimal :=
  let near := significant count num den
  let far := otherNeighbour num den (order num den - count + 1)
  if near.readsAs x then some near
  else if far.readsAs x then some far
  else none

/-- The shortest decimal of a positive finite number; seventeen digits always suffice. -/
def shortest (significand : Nat) (exponent : Int)
    (h : Binary64.Canonical significand exponent) : Decimal :=
  let num := Binary64.numerator significand exponent
  let den := Binary64.denominator exponent
  let x := Binary64.finite false significand exponent h
  ((List.range' 1 17).findSome? (ofCount? x num den)).getD (significant 17 num den)

end Reckon.Decimal
