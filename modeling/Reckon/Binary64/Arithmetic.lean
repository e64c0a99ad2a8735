import Reckon.Binary64.Rounding

/-!
# Arithmetic

Each operation computes its exact result as a quotient of integers and rounds it once. No
operation fails: a division by zero gives an infinity, or no number for zero over zero.

`remainder` keeps the sign of its first operand, and what remains always has an exact
representation. `mod` cuts both operands to integers, toward zero, before it takes the remainder.
-/

namespace Reckon.Binary64

def neg : Binary64 → Binary64
  | .nan => .nan
  | .infinite s => .infinite (!s)
  | .finite s m e h => .finite (!s) m e h

/-- The significand with its sign, moved to a lower exponent. -/
def shifted (negative : Bool) (significand : Nat) (exponent lower : Int) : Int :=
  let magnitude : Int := (significand <<< (exponent - lower).toNat : Nat)
  if negative then -magnitude else magnitude

def add : Binary64 → Binary64 → Binary64
  | .nan, _ | _, .nan => .nan
  | .infinite s, .infinite s' => if s = s' then .infinite s else .nan
  | .infinite s, .finite .. => .infinite s
  | .finite .., .infinite s => .infinite s
  | .finite s m e _, .finite s' m' e' _ =>
    let lower := min e e'
    let sum := shifted s m e lower + shifted s' m' e' lower
    if sum = 0 then zero (s && s')
    else ofQuotient (sum < 0) (numerator sum.natAbs lower) (denominator lower)

def sub (x y : Binary64) : Binary64 :=
  add x y.neg

def mul : Binary64 → Binary64 → Binary64
  | .nan, _ | _, .nan => .nan
  | .infinite s, .infinite s' => .infinite (s != s')
  | .infinite s, .finite s' m _ _ | .finite s' m _ _, .infinite s =>
    if m = 0 then .nan else .infinite (s != s')
  | .finite s m e _, .finite s' m' e' _ =>
    ofQuotient (s != s') (numerator (m * m') (e + e')) (denominator (e + e'))

def div : Binary64 → Binary64 → Binary64
  | .nan, _ | _, .nan => .nan
  | .infinite _, .infinite _ => .nan
  | .infinite s, .finite s' _ _ _ => .infinite (s != s')
  | .finite s _ _ _, .infinite s' => zero (s != s')
  | .finite s m e _, .finite s' m' e' _ =>
    if m' = 0 then if m = 0 then .nan else .infinite (s != s')
    else ofQuotient (s != s') (numerator m e * denominator e') (denominator e * numerator m' e')

/-- The integer part of a scaled significand. -/
def wholePart (significand : Nat) (exponent : Int) : Nat :=
  numerator significand exponent / denominator exponent

/-- The nearest integer toward zero. -/
def trunc : Binary64 → Binary64
  | .finite s m e _ => ofQuotient s (wholePart m e) 1
  | x => x

/-- What remains of the first number when the second is taken away a whole number of times, as
often as it goes into it. -/
def remainder : Binary64 → Binary64 → Binary64
  | .finite s m e _, .finite _ m' e' _ =>
    if m' = 0 then .nan
    else ofQuotient s (numerator m e * denominator e' % (numerator m' e' * denominator e))
      (denominator e * denominator e')
  | .finite s m e h, .infinite _ => .finite s m e h
  | _, _ => .nan

def mod (x y : Binary64) : Binary64 :=
  remainder x.trunc y.trunc

end Reckon.Binary64
