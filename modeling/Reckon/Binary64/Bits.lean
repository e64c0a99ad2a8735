import Reckon.Binary64.Rounding

/-!
# The interchange word

The 64 bits of a number: its sign, a biased exponent and the significand without its leading
bit. The exponent zero marks the numbers below the full significands, the greatest exponent
the infinities and everything that is not a number.
-/

namespace Reckon.Binary64

def ofBits (word : Nat) : Binary64 :=
  let negative := word >>> 63 % 2 == 1
  let exponent : Nat := word >>> 52 % 2048
  let fraction := word % 0x10000000000000
  if exponent = 2047 then if fraction = 0 then .infinite negative else .nan
  else if exponent = 0 then pack negative fraction (-1074)
  else pack negative (0x10000000000000 + fraction) (exponent - 1075)

def signBit (negative : Bool) : Nat :=
  if negative then 0x8000000000000000 else 0

/-- The word of a number; what is not a number has none of its own. -/
def toBits? : Binary64 → Option Nat
  | .nan => none
  | .infinite s => some (signBit s + 2047 * 0x10000000000000)
  | .finite s m e _ =>
    if m < 0x10000000000000 then some (signBit s + m)
    else some (signBit s + (e + 1075).toNat * 0x10000000000000 + (m - 0x10000000000000))

end Reckon.Binary64
