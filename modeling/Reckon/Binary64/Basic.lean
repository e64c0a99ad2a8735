/-!
# Binary64 numbers

A binary64 number is not a number, an infinity, or a signed significand of at most 53 bits
scaled by a power of two. Each number has one representation: the significand is full unless
the exponent is the least one, and both zeros have that least exponent.
-/

namespace Reckon

namespace Binary64

/-- The pairs that a finite number stores: the significand has 53 bits, or fewer at the least exponent. -/
def Canonical (significand : Nat) (exponent : Int) : Prop :=
  significand < 0x20000000000000 ∧ -1074 ≤ exponent ∧ exponent ≤ 971 ∧
    (0x10000000000000 ≤ significand ∨ exponent = -1074)

instance (significand : Nat) (exponent : Int) : Decidable (Canonical significand exponent) :=
  inferInstanceAs (Decidable (_ ∧ _ ∧ _ ∧ (_ ∨ _)))

theorem canonical_zero : Canonical 0 (-1074) := by decide

end Binary64

/-- A number of the binary64 format; the bit of a sign is `true` for a negative one. -/
inductive Binary64 where
  | nan
  | infinite (negative : Bool)
  | finite (negative : Bool) (significand : Nat) (exponent : Int)
      (canonical : Binary64.Canonical significand exponent)
deriving DecidableEq

namespace Binary64

def zero (negative : Bool) : Binary64 :=
  .finite negative 0 (-1074) canonical_zero

instance : Inhabited Binary64 := ⟨zero false⟩

def isNaN : Binary64 → Bool
  | .nan => true
  | _ => false

/-- The numerator of a scaled significand over a power of two. -/
def numerator (significand : Nat) (exponent : Int) : Nat :=
  significand <<< exponent.toNat

/-- The power of two under a scaled significand. -/
def denominator (exponent : Int) : Nat :=
  1 <<< (-exponent).toNat

theorem denominator_pos (exponent : Int) : 0 < denominator exponent := by
  rw [denominator, Nat.shiftLeft_eq, Nat.one_mul]
  exact Nat.two_pow_pos _

/-- The order of two magnitudes; nothing is ordered with what is not a number. -/
def magnitudeLt : Binary64 → Binary64 → Bool
  | .nan, _ | _, .nan => false
  | .infinite _, _ => false
  | .finite .., .infinite _ => true
  | .finite _ m e _, .finite _ m' e' _ =>
    numerator m e * denominator e' < numerator m' e' * denominator e

def isZero : Binary64 → Bool
  | .finite _ m _ _ => m == 0
  | _ => false

/-- Equality of values: the two zeros are equal, and what is not a number differs from everything. -/
def sameValue (x y : Binary64) : Bool :=
  !x.isNaN && !y.isNaN && (x == y || x.isZero && y.isZero)

end Binary64

end Reckon
