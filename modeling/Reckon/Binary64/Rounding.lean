import Reckon.Binary64.Basic

/-!
# Rounding a quotient

`ofQuotient` is the one place where an exact value becomes a binary64 number: it takes the
nearest number, of two equally near ones the one with an even significand, and passes to
infinity from half a unit above the greatest finite number on. Literals, sums, products,
quotients and powers all go through it once.
-/

namespace Reckon.Binary64

/-- The integer nearest to a quotient; a half goes to the even neighbour. -/
def nearestQuotient (num den : Nat) : Nat :=
  let quotient := num / den
  let rest := num % den
  if 2 * rest < den then quotient
  else if den < 2 * rest then quotient + 1
  else quotient + quotient % 2

/-- The nearest integer is at most half a unit below the quotient. -/
theorem two_mul_le_nearestQuotient {num den : Nat} (h : 0 < den) :
    2 * num ≤ 2 * (nearestQuotient num den * den) + den := by
  have hsplit := Nat.div_add_mod' num den
  unfold nearestQuotient
  simp only
  split
  · omega
  · split
    · rw [Nat.add_mul]
      have := Nat.mod_lt num h
      omega
    · rw [Nat.add_mul]
      have : num / den % 2 * den ≥ 0 := Nat.zero_le _
      omega

/-- The nearest integer is at most half a unit above the quotient. -/
theorem nearestQuotient_two_mul_le (num den : Nat) :
    2 * (nearestQuotient num den * den) ≤ 2 * num + den := by
  have hsplit := Nat.div_add_mod' num den
  unfold nearestQuotient
  simp only
  split
  · omega
  · split
    · rw [Nat.add_mul]
      omega
    · rw [Nat.add_mul]
      have hle : num / den % 2 * den ≤ 1 * den :=
        Nat.mul_le_mul_right den (Nat.le_of_lt_succ (Nat.mod_lt _ (by decide)))
      omega

/-- A quotient halfway between two integers goes to the even one. -/
theorem nearestQuotient_even {num den : Nat} (h : 2 * (num % den) = den) :
    nearestQuotient num den % 2 = 0 := by
  have hge : ¬ 2 * (num % den) < den := by omega
  have hle : ¬ den < 2 * (num % den) := by omega
  simp only [nearestQuotient, if_neg hge, if_neg hle]
  omega

/-- The greatest power of two that is not above a positive quotient. -/
def binaryOrder (num den : Nat) : Int :=
  let order := (num.log2 : Int) - den.log2
  if den <<< order.toNat ≤ num <<< (-order).toNat then order else order - 1

/-- The exponent of the last place of the numbers around a quotient. -/
def lastPlace (num den : Nat) : Int :=
  max (-1074) (binaryOrder num den - 52)

/-- The number with a significand of at most `2 ^ 53`; beyond the greatest exponent, infinity. -/
def pack (negative : Bool) (significand : Nat) (exponent : Int) : Binary64 :=
  if h : Canonical significand exponent then .finite negative significand exponent h
  else if h : Canonical (significand / 2) (exponent + 1) then
    .finite negative (significand / 2) (exponent + 1) h
  else .infinite negative

/-- The number nearest to `num / den`, with a sign that a zero keeps. -/
def ofQuotient (negative : Bool) (num den : Nat) : Binary64 :=
  if num = 0 then zero negative
  else
    let place := lastPlace num den
    pack negative (nearestQuotient (num <<< (-place).toNat) (den <<< place.toNat)) place

/-- The number nearest to an integer. -/
def ofInt (z : Int) : Binary64 :=
  ofQuotient (z < 0) z.natAbs 1

/-- The power of ten with a natural exponent; one for the others. -/
def tenTo (exponent : Int) : Nat :=
  Nat.pow 10 exponent.toNat

/-- The number nearest to `coefficient * 10 ^ exponent`. -/
def ofDecimal (negative : Bool) (coefficient : Nat) (exponent : Int) : Binary64 :=
  ofQuotient negative (coefficient * tenTo exponent) (tenTo (-exponent))

end Reckon.Binary64
