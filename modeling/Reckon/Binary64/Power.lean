import Reckon.Binary64.Arithmetic
import Reckon.Binary64.Enclosure

/-!
# Powers

`pow` gives the number nearest to the exact power, with the limits that the format lays down
for zeros, infinities and numbers that are not numbers: the power with exponent zero and every
power of one are one, and a negative base has only integer powers. The power one half is the
square root, which keeps the sign of a zero and does not exist for negative infinity.

A power that could lie halfway between two numbers is a power of two or a small integer power
of a short root, and is computed exactly. Every other power is enclosed, at growing precision,
until both ends of the enclosure round to the same number.
-/

namespace Reckon.Binary64

def one : Binary64 :=
  ofQuotient false 1 1

/-- An odd factor and the exponent of the power of two beside it. -/
def oddPart : Nat → Nat → Int → Nat × Int
  | 0, m, e => (m, e)
  | fuel + 1, m, e => if m % 2 = 0 then oddPart fuel (m / 2) (e + 1) else (m, e)

/-- Whether a scaled significand is an integer. -/
def isWhole (significand : Nat) (exponent : Int) : Bool :=
  numerator significand exponent % denominator exponent == 0

def isOdd (significand : Nat) (exponent : Int) : Bool :=
  isWhole significand exponent && wholePart significand exponent % 2 == 1

/-- Takes square roots of `odd * 2 ^ exponent`, as long as they are exact, and counts them. -/
def exactRoots : Nat → Nat → Int → Nat × Int × Nat
  | 0, odd, exponent => (odd, exponent, 0)
  | fuel + 1, odd, exponent =>
    let root := odd.sqrt
    if root * root = odd ∧ exponent % 2 = 0 then
      let (odd', exponent', count) := exactRoots fuel root (exponent / 2)
      (odd', exponent', count + 1)
    else (odd, exponent, 0)

/-- The positive number nearest to `base * 2 ^ exponent`, or to its inverse. -/
def ofScaled (inverse : Bool) (base : Nat) (exponent : Int) : Binary64 :=
  if inverse then ofQuotient false (denominator exponent) (numerator base exponent)
  else ofQuotient false (numerator base exponent) (denominator exponent)

/-- The limit of a power without bound, or of its inverse. -/
def beyond (small : Bool) : Binary64 :=
  if small then zero false else .infinite false

/-- The power of a positive base if the exponent leaves a small exact quotient. -/
def exactPower? (m : Nat) (e : Int) (negative : Bool) (m' : Nat) (e' : Int) : Option Binary64 :=
  let (base, scale) := oddPart 53 m e
  let (odd, order) := oddPart 53 m' e'
  let (root, rootScale, count) := exactRoots (-order).toNat base scale
  if order + count < 0 then none
  else
    let power := odd <<< (order + count).toNat
    if root = 1 then
      if 1200 < (rootScale * power).natAbs then some (beyond (negative != (rootScale < 0)))
      else some (ofScaled negative 1 (rootScale * power))
    else if power ≤ 64 then some (ofScaled negative (Nat.pow root power) (rootScale * power))
    else none

/-- The two ends of an enclosure of a power of a positive base, rounded. -/
def powerEnds (bits m : Nat) (e : Int) (negative : Bool) (m' : Nat) (e' : Int) : Binary64 × Binary64 :=
  let size := Enclosure.halve (-e').toNat (Enclosure.scale (numerator m' e') (Enclosure.log bits m e))
  let product := if negative then size.neg else size
  let bound : Int := (800 <<< bits : Nat)
  if bound < product.lower then (beyond false, beyond false)
  else if product.upper < -bound then (beyond true, beyond true)
  else
    let (value, order) := Enclosure.exp bits product
    let rounded (v : Int) := ofScaled false v.toNat (order - bits)
    (rounded value.lower, rounded value.upper)

/-- Doubles the precision until both ends agree. -/
def enclosedPower (m : Nat) (e : Int) (negative : Bool) (m' : Nat) (e' : Int) : Nat → Nat → Binary64
  | 0, bits => (powerEnds bits m e negative m' e').1
  | fuel + 1, bits =>
    let (low, high) := powerEnds bits m e negative m' e'
    if low = high then low else enclosedPower m e negative m' e' fuel (2 * bits)

/-- The number nearest to the square root, from an integer root of at least 55 bits. -/
def sqrt : Binary64 → Binary64
  | .nan => .nan
  | .infinite s => if s then .nan else .infinite s
  | .finite s m e h =>
    if m = 0 then .finite s m e h
    else if s then .nan
    else
      let order := (e - 110) / 2
      let square := m <<< (e - 2 * order).toNat
      let root := square.sqrt
      let beyondRoot := if root * root = square then 0 else 1
      ofScaled false (2 * root + beyondRoot) (order - 1)

def signed (negative : Bool) (x : Binary64) : Binary64 :=
  if negative then x.neg else x

def pow : Binary64 → Binary64 → Binary64
  | x, .finite s' m' e' _ =>
    if m' = 0 ∨ x = one then one
    else if s' = false ∧ 2 * numerator m' e' = denominator e' then sqrt x
    else match x with
      | .nan => .nan
      | .infinite s => signed (s && isOdd m' e') (beyond s')
      | .finite s m e _ =>
        if m = 0 then signed (s && isOdd m' e') (beyond (!s'))
        else if s && !isWhole m' e' then .nan
        else
          let magnitude := (exactPower? m e s' m' e').getD (enclosedPower m e s' m' e' 6 192)
          signed (s && isOdd m' e') magnitude
  | x, .infinite s' =>
    if x.isNaN then .nan
    else if magnitudeLt x one then beyond (!s')
    else if magnitudeLt one x then beyond s'
    else one
  | x, .nan => if x = one then one else .nan

end Reckon.Binary64
