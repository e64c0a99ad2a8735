/-!
# Enclosures of logarithms and exponentials

An enclosure is a pair of integers that stand for bounds in units of a negative power of two.
Logarithms come from the series of the inverse hyperbolic tangent, exponentials from the Taylor
series. Every term is cut downwards, so a partial sum is a lower bound, and the number of terms
bounds what was cut off: each term loses less than three units, and so does the remaining tail.
-/

namespace Reckon.Binary64

/-- Bounds `lower ≤ v * 2 ^ bits ≤ upper` of a real number `v`, for a number of bits fixed by context. -/
structure Enclosure where
  lower : Int
  upper : Int

namespace Enclosure

def neg (v : Enclosure) : Enclosure :=
  ⟨-v.upper, -v.lower⟩

def add (v w : Enclosure) : Enclosure :=
  ⟨v.lower + w.lower, v.upper + w.upper⟩

def scale (z : Int) (v : Enclosure) : Enclosure :=
  if z < 0 then ⟨z * v.upper, z * v.lower⟩ else ⟨z * v.lower, z * v.upper⟩

/-- Division by `2 ^ n`, outwards. -/
def halve (n : Nat) (v : Enclosure) : Enclosure :=
  ⟨v.lower >>> n, -((-v.upper) >>> n)⟩

/-- The sum of the series of odd powers over odd numbers, and the number of its terms. -/
def oddPowers (num den : Nat) : Nat → Nat → Nat → Nat × Nat
  | 0, _, _ => (0, 0)
  | fuel + 1, power, index =>
    if power = 0 then (0, 0)
    else
      let (sum, terms) := oddPowers num den fuel (power * (num * num) / (den * den)) (index + 2)
      (sum + power / index, terms + 1)

/-- The inverse hyperbolic tangent of `num / den`, at most one third. -/
def artanh (bits num den : Nat) : Enclosure :=
  let (sum, terms) := oddPowers num den bits ((num <<< bits) / den) 1
  ⟨sum, sum + 3 * (terms + 1)⟩

def logTwo (bits : Nat) : Enclosure :=
  scale 2 (artanh bits 1 3)

/-- The logarithm of `significand * 2 ^ exponent`, through the power of two that is nearest to it. -/
def log (bits significand : Nat) (exponent : Int) : Enclosure :=
  let below := significand.log2
  let order := if 4 <<< below < 3 * significand then below + 1 else below
  let unit := 1 <<< order
  let ratio :=
    if significand < unit then neg (artanh bits (unit - significand) (unit + significand))
    else artanh bits (significand - unit) (significand + unit)
  add (scale (exponent + order) (logTwo bits)) (scale 2 ratio)

/-- The sum of the Taylor series from a term on, and the number of its terms. -/
def taylor (bits argument : Nat) : Nat → Nat → Nat → Nat × Nat
  | 0, _, _ => (0, 0)
  | fuel + 1, term, index =>
    if term = 0 then (0, 0)
    else
      let (sum, terms) := taylor bits argument fuel ((term * argument) >>> bits / index) (index + 1)
      (sum + term, terms + 1)

/-- The exponential of `v`, as an enclosure and a power of two by which it is scaled. -/
def exp (bits : Nat) (v : Enclosure) : Enclosure × Int :=
  let unit := logTwo bits
  let order := v.lower / unit.lower - 1
  let rest := add v (scale (-order) unit)
  let (low, _) := taylor bits rest.lower.toNat (2 * bits) (1 <<< bits) 1
  let (high, terms) := taylor bits rest.upper.toNat (2 * bits) (1 <<< bits) 1
  (⟨low, high + 3 * (terms + 2)⟩, order)

end Enclosure

end Reckon.Binary64
