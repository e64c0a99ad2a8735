import Mathlib.Algebra.Order.Field.Power
import Mathlib.Data.Int.Log
import Mathlib.Data.Rat.Floor
import Mathlib.Tactic.FieldSimp
import Mathlib.Tactic.Linarith
import Mathlib.Tactic.NormNum
import Mathlib.Tactic.Positivity
import Mathlib.Tactic.Ring
import Reckon.Binary64.Rounding

/-!
# Exact values

A finite number is a rational number. The quotient that is rounded is one too, and its rounding
depends on nothing else: the exponent of the last place comes from its binary logarithm, and the
significand is the integer nearest to it in units of that place.
-/

namespace Reckon

/-- A power with an integer exponent as a quotient of powers with natural exponents. -/
theorem zpow_eq_div_toNat (b : ℚ) (z : Int) :
    b ^ z = b ^ z.toNat / b ^ (-z).toNat := by
  rcases Int.le_total 0 z with hz | hz
  · rw [Int.toNat_of_nonpos (Int.neg_nonpos_of_nonneg hz), pow_zero, div_one, ← zpow_natCast,
      Int.toNat_of_nonneg hz]
  · rw [Int.toNat_of_nonpos hz, pow_zero, one_div, ← zpow_natCast,
      Int.toNat_of_nonneg (Int.neg_nonneg_of_nonpos hz), zpow_neg, inv_inv]

/-! ## Logarithms of quotients -/

section Logarithm

variable {b : Nat} {num den : Nat}

theorem log_mul_zpow (hb : 1 < b) {r : ℚ} (hr : 0 < r) (z : Int) :
    Int.log b (r * (b : ℚ) ^ z) = Int.log b r + z := by
  have hpos : (0 : ℚ) < b := Nat.cast_pos.mpr (Nat.zero_lt_of_lt hb)
  refine eq_of_forall_le_iff fun k ↦ ?_
  calc k ≤ Int.log b (r * (b : ℚ) ^ z) ↔ (b : ℚ) ^ k ≤ r * (b : ℚ) ^ z :=
        (Int.zpow_le_iff_le_log hb (by positivity)).symm
    _ ↔ (b : ℚ) ^ (k - z) ≤ r := by
        rw [zpow_sub₀ hpos.ne', div_le_iff₀ (by positivity)]
    _ ↔ k - z ≤ Int.log b r := Int.zpow_le_iff_le_log hb hr
    _ ↔ k ≤ Int.log b r + z := sub_le_iff_le_add

theorem quotient_pos (hnum : 0 < num) (hden : 0 < den) : (0 : ℚ) < num / den :=
  div_pos (Nat.cast_pos.mpr hnum) (Nat.cast_pos.mpr hden)

/-- The logarithm of a quotient is the difference of the logarithms or one less. -/
theorem log_div_bounds (hb : 1 < b) (hnum : 0 < num) (hden : 0 < den) :
    (Nat.log b num : Int) - Nat.log b den - 1 ≤ Int.log b ((num : ℚ) / den) ∧
      Int.log b ((num : ℚ) / den) ≤ Nat.log b num - Nat.log b den := by
  have hpos : (0 : ℚ) < b := Nat.cast_pos.mpr (Nat.zero_lt_of_lt hb)
  have hden' : (0 : ℚ) < den := Nat.cast_pos.mpr hden
  have hquotient := quotient_pos hnum hden
  have hbounds {n : Nat} (hn : 0 < n) :
      (b : ℚ) ^ (Nat.log b n : Int) ≤ n ∧ (n : ℚ) < (b : ℚ) ^ ((Nat.log b n : Int) + 1) := by
    rw [← Int.log_natCast (R := ℚ)]
    exact ⟨Int.zpow_log_le_self hb (Nat.cast_pos.mpr hn), Int.lt_zpow_succ_log_self hb _⟩
  obtain ⟨hnumle, hnumlt⟩ := hbounds hnum
  obtain ⟨hdenle, hdenlt⟩ := hbounds hden
  constructor
  · rw [← Int.zpow_le_iff_le_log hb hquotient, le_div_iff₀ hden']
    calc (b : ℚ) ^ ((Nat.log b num : Int) - Nat.log b den - 1) * den
        ≤ (b : ℚ) ^ ((Nat.log b num : Int) - Nat.log b den - 1) *
            (b : ℚ) ^ ((Nat.log b den : Int) + 1) :=
          mul_le_mul_of_nonneg_left hdenlt.le (by positivity)
      _ = (b : ℚ) ^ (Nat.log b num : Int) := by
          rw [← zpow_add₀ hpos.ne']
          congr 1
          ring
      _ ≤ num := hnumle
  · rw [← Int.lt_add_one_iff, ← Int.lt_zpow_iff_log_lt hb hquotient, div_lt_iff₀ hden']
    calc (num : ℚ) < (b : ℚ) ^ ((Nat.log b num : Int) + 1) := hnumlt
      _ = (b : ℚ) ^ ((Nat.log b num : Int) - Nat.log b den + 1) *
            (b : ℚ) ^ (Nat.log b den : Int) := by
          rw [← zpow_add₀ hpos.ne']
          congr 1
          ring
      _ ≤ (b : ℚ) ^ ((Nat.log b num : Int) - Nat.log b den + 1) * den :=
          mul_le_mul_of_nonneg_left hdenle (by positivity)

/-- One comparison settles the logarithm of a quotient. -/
theorem log_div_eq_ite (hb : 1 < b) (hnum : 0 < num) (hden : 0 < den) :
    Int.log b ((num : ℚ) / den) =
      if (b : ℚ) ^ ((Nat.log b num : Int) - Nat.log b den) ≤ num / den then
        (Nat.log b num : Int) - Nat.log b den
      else (Nat.log b num : Int) - Nat.log b den - 1 := by
  have hquotient := quotient_pos hnum hden
  obtain ⟨hlower, hupper⟩ := log_div_bounds hb hnum hden
  have hle :=
    @Int.zpow_le_iff_le_log ℚ _ _ _ _ b hb ((Nat.log b num : Int) - Nat.log b den) _ hquotient
  split
  · next h => exact le_antisymm hupper (hle.mp h)
  · next h => exact le_antisymm (Int.le_sub_one_of_lt (not_le.mp (mt hle.mpr h))) hlower

end Logarithm

namespace Binary64

/-- The magnitude of a scaled significand. -/
def magnitude (significand : Nat) (exponent : Int) : ℚ :=
  significand * 2 ^ exponent

/-- A magnitude with the sign that a bit stands for. -/
def withSign {α : Type} [Neg α] (negative : Bool) (q : α) : α :=
  if negative then -q else q

/-- The exact value of a finite number; the others have none. -/
def toRat? : Binary64 → Option ℚ
  | .finite s m e _ => some (withSign s (magnitude m e))
  | _ => none

theorem exists_finite_of_toRat? {x : Binary64} {q : ℚ} (h : x.toRat? = some q) :
    ∃ s m e hc, x = .finite s m e hc ∧ q = withSign s (magnitude m e) := by
  match x, h with
  | .finite s m e hc, h => exact ⟨s, m, e, hc, rfl, (Option.some.inj h).symm⟩

theorem abs_withSign {α : Type} [AddCommGroup α] [LinearOrder α] [IsOrderedAddMonoid α] (s : Bool)
    (q : α) : |withSign s q| = |q| := by
  cases s with
  | false => rfl
  | true => exact abs_neg q

theorem cast_withSign (s : Bool) (z : Int) : ((withSign s z : Int) : ℚ) = withSign s (z : ℚ) := by
  cases s with
  | false => rfl
  | true => exact Int.cast_neg z

/-- The bit of the sign, which zeros and infinities have as well. -/
def isNegative : Binary64 → Bool
  | .nan => false
  | .infinite s => s
  | .finite s _ _ _ => s

theorem magnitude_nonneg (m : Nat) (e : Int) : 0 ≤ magnitude m e :=
  mul_nonneg (Nat.cast_nonneg m) (zpow_nonneg (by norm_num) e)

theorem magnitude_pos {m : Nat} (hm : 0 < m) (e : Int) : 0 < magnitude m e :=
  mul_pos (Nat.cast_pos.mpr hm) (zpow_pos (by norm_num) e)

theorem abs_value (s : Bool) (m : Nat) (e : Int) :
    |withSign s (magnitude m e)| = magnitude m e := by
  rw [abs_withSign, abs_of_nonneg (magnitude_nonneg m e)]

/-- A magnitude in a smaller unit. -/
theorem magnitude_mul_two_pow {p e : Int} (hp : p ≤ e) (m : Nat) :
    magnitude (m * 2 ^ (e - p).toNat) p = magnitude m e := by
  rw [magnitude, magnitude]
  push_cast
  rw [mul_assoc, ← zpow_natCast, ← zpow_add₀ two_ne_zero, Int.toNat_of_nonneg (by omega),
    sub_add_cancel]

theorem numerator_pos {m : Nat} (hm : 0 < m) (e : Int) : 0 < numerator m e := by
  rw [numerator, Nat.shiftLeft_eq]
  exact Nat.mul_pos hm (Nat.two_pow_pos _)

/-- The numerator of a scaled significand over its denominator is its magnitude. -/
theorem numerator_div_denominator (m : Nat) (e : Int) :
    (numerator m e : ℚ) / denominator e = magnitude m e := by
  rw [magnitude, zpow_eq_div_toNat 2, numerator, denominator, Nat.shiftLeft_eq,
    Nat.shiftLeft_eq, one_mul]
  push_cast
  exact mul_div_assoc _ _ _

/-! ## The last place -/

section Quotient

variable {num den : Nat}

theorem cast_shiftLeft (n k : Nat) : ((n <<< k : Nat) : ℚ) = n * 2 ^ k := by
  rw [Nat.shiftLeft_eq]
  push_cast
  rfl

/-- The comparison of shifted numbers that settles the binary order. -/
theorem shifted_le_shifted_iff (num : Nat) (hden : 0 < den) (z : Int) :
    den <<< z.toNat ≤ num <<< (-z).toNat ↔ (2 : ℚ) ^ z ≤ num / den := by
  have hden' : (0 : ℚ) < den := Nat.cast_pos.mpr hden
  rw [← Nat.cast_le (α := ℚ), cast_shiftLeft, cast_shiftLeft, zpow_eq_div_toNat 2,
    div_le_div_iff₀ (by positivity) hden', mul_comm (den : ℚ)]

/-- The binary order of a positive quotient is its binary logarithm. -/
theorem binaryOrder_eq_log (hnum : 0 < num) (hden : 0 < den) :
    binaryOrder num den = Int.log 2 ((num : ℚ) / den) := by
  rw [log_div_eq_ite (by decide : 1 < 2) hnum hden, binaryOrder, Nat.log2_eq_log_two,
    Nat.log2_eq_log_two]
  exact if_congr (shifted_le_shifted_iff num hden _) rfl rfl

/-- The exponent of the last place of the numbers around a positive rational. -/
def placeOf (q : ℚ) : Int :=
  max (-1074) (Int.log 2 q - 52)

theorem lastPlace_eq_placeOf (hnum : 0 < num) (hden : 0 < den) :
    lastPlace num den = placeOf (num / den) := by
  rw [lastPlace, placeOf, binaryOrder_eq_log hnum hden]

/-! ## The nearest integer -/

/-- A quotient in units of a place. -/
theorem shifted_div_shifted (num den : Nat) (z : Int) :
    ((num <<< (-z).toNat : Nat) : ℚ) / (den <<< z.toNat : Nat) = num / den / 2 ^ z := by
  rw [cast_shiftLeft, cast_shiftLeft, zpow_eq_div_toNat 2 z]
  field_simp

theorem shiftLeft_pos {n : Nat} (hn : 0 < n) (k : Nat) : 0 < n <<< k := by
  rw [Nat.shiftLeft_eq]
  exact Nat.mul_pos hn (Nat.two_pow_pos k)

theorem nearestQuotient_eq_or (num den : Nat) :
    nearestQuotient num den = num / den ∨ nearestQuotient num den = num / den + 1 := by
  unfold nearestQuotient
  dsimp only
  split
  · exact .inl rfl
  · split
    · exact .inr rfl
    · omega

theorem abs_nearestQuotient_sub_le (hden : 0 < den) :
    |(nearestQuotient num den : ℚ) - num / den| ≤ 1 / 2 := by
  have hden' : (0 : ℚ) < den := Nat.cast_pos.mpr hden
  have hbelow : (2 * num : ℚ) ≤ 2 * (nearestQuotient num den * den) + den := by
    exact_mod_cast two_mul_le_nearestQuotient hden
  have habove : (2 * (nearestQuotient num den * den) : ℚ) ≤ 2 * num + den := by
    exact_mod_cast nearestQuotient_two_mul_le num den
  rw [abs_le]
  constructor
  · rw [le_sub_iff_add_le, ← sub_nonneg]
    have : (nearestQuotient num den : ℚ) - (-(1 / 2) + num / den) =
        (2 * (nearestQuotient num den * den) + den - 2 * num) / (2 * den) := by
      field_simp
      ring
    rw [this]
    exact div_nonneg (by linarith) (by positivity)
  · rw [← sub_nonneg]
    have : (1 : ℚ) / 2 - (nearestQuotient num den - num / den) =
        (2 * num + den - 2 * (nearestQuotient num den * den)) / (2 * den) := by
      field_simp
      ring
    rw [this]
    exact div_nonneg (by linarith) (by positivity)

/-- A natural number that is nearest to a rational, the even one of two. -/
structure Nearest (y : ℚ) (n : Nat) : Prop where
  near : |(n : ℚ) - y| ≤ 1 / 2
  even : |(n : ℚ) - y| = 1 / 2 → n % 2 = 0

theorem nearest_nearestQuotient (num : Nat) (hden : 0 < den) :
    Nearest (num / den) (nearestQuotient num den) where
  near := abs_nearestQuotient_sub_le hden
  even := by
    intro hhalf
    have hden' : (den : ℚ) ≠ 0 := Nat.cast_ne_zero.mpr hden.ne'
    have hsplit := Nat.div_add_mod' num den
    have hrest := Nat.mod_lt num hden
    -- Half a unit away in either direction, the rest is half the divisor.
    have hcross : 2 * (nearestQuotient num den * den) = 2 * num + den ∨
        2 * (nearestQuotient num den * den) + den = 2 * num := by
      rcases (abs_eq (by norm_num)).mp hhalf with h | h
      · left
        rw [sub_eq_iff_eq_add, ← mul_right_inj' hden'] at h
        field_simp at h
        exact_mod_cast (by linarith : (2 * (nearestQuotient num den * den) : ℚ) = 2 * num + den)
      · right
        rw [sub_eq_iff_eq_add, ← mul_right_inj' hden'] at h
        field_simp at h
        exact_mod_cast (by linarith : (2 * (nearestQuotient num den * den) + den : ℚ) = 2 * num)
    by_cases hmiddle : 2 * (num % den) = den
    · exact nearestQuotient_even hmiddle
    · exfalso
      rcases nearestQuotient_eq_or num den with h | h <;> rw [h] at hcross
      · omega
      · rw [Nat.add_mul] at hcross
        omega

theorem nearestQuotient_mul_left {k : Nat} (hk : 0 < k) (num den : Nat) :
    nearestQuotient (k * num) (k * den) = nearestQuotient num den := by
  have hscale (a b : Nat) : 2 * (k * a) < k * b ↔ 2 * a < b := by
    rw [Nat.mul_left_comm, Nat.mul_lt_mul_left hk]
  have hscale' (a b : Nat) : k * a < 2 * (k * b) ↔ a < 2 * b := by
    rw [Nat.mul_left_comm, Nat.mul_lt_mul_left hk]
  simp only [nearestQuotient, Nat.mul_div_mul_left _ _ hk, Nat.mul_mod_mul_left, hscale, hscale']

theorem nearestQuotient_congr {num' den' : Nat} (hden : 0 < den) (hden' : 0 < den')
    (h : (num : ℚ) / den = num' / den') : nearestQuotient num den = nearestQuotient num' den' := by
  have hcross : num * den' = num' * den := by
    rw [div_eq_div_iff (Nat.cast_ne_zero.mpr hden.ne') (Nat.cast_ne_zero.mpr hden'.ne')] at h
    exact_mod_cast h
  calc nearestQuotient num den = nearestQuotient (den' * num) (den' * den) :=
        (nearestQuotient_mul_left hden' num den).symm
    _ = nearestQuotient (den * num') (den * den') := by
        rw [Nat.mul_comm den' num, hcross, Nat.mul_comm num' den, Nat.mul_comm den' den]
    _ = nearestQuotient num' den' := nearestQuotient_mul_left hden num' den'

/-! ## Rounding -/

/-- The significand of a rounded quotient is nearest to it in units of the last place. -/
theorem exists_pack (negative : Bool) (hnum : 0 < num) (hden : 0 < den) :
    ∃ significand, ofQuotient negative num den =
        pack negative significand (placeOf (num / den)) ∧
      Nearest (num / den / 2 ^ placeOf (num / den)) significand := by
  refine ⟨nearestQuotient (num <<< (-placeOf (num / den)).toNat)
    (den <<< (placeOf (num / den)).toNat), ?_, ?_⟩
  · rw [ofQuotient, if_neg hnum.ne', lastPlace_eq_placeOf hnum hden]
  · rw [← shifted_div_shifted]
    exact nearest_nearestQuotient _ (shiftLeft_pos hden _)

/-- The rounding of a quotient depends on its value only. -/
theorem ofQuotient_congr (negative : Bool) {num' den' : Nat} (hden : 0 < den) (hden' : 0 < den')
    (h : (num : ℚ) / den = num' / den') :
    ofQuotient negative num den = ofQuotient negative num' den' := by
  have hzero : num = 0 ↔ num' = 0 := by
    have hvalue : (num : ℚ) / den = 0 ↔ (num' : ℚ) / den' = 0 := by rw [h]
    simpa [hden.ne', hden'.ne'] using hvalue
  by_cases hnum : num = 0
  · rw [hnum, hzero.mp hnum, ofQuotient, ofQuotient, if_pos rfl, if_pos rfl]
  · have hnum' : num' ≠ 0 := fun h' ↦ hnum (hzero.mpr h')
    have hplace : lastPlace num den = lastPlace num' den' := by
      rw [lastPlace_eq_placeOf (Nat.pos_of_ne_zero hnum) hden,
        lastPlace_eq_placeOf (Nat.pos_of_ne_zero hnum') hden', h]
    rw [ofQuotient, ofQuotient, if_neg hnum, if_neg hnum', hplace]
    dsimp only
    congr 1
    refine nearestQuotient_congr (shiftLeft_pos hden _) (shiftLeft_pos hden' _) ?_
    rw [shifted_div_shifted, shifted_div_shifted, h]

end Quotient

end Binary64

end Reckon
