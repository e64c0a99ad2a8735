import Reckon.Proofs.Binary64.Value
import Reckon.Proofs.Decimal.Characters

/-!
# Values of digits

A row of digits with the order of its first digit denotes a rational number, and zeros at its end
do not matter. The order of a positive decimal is its decimal logarithm, and so is the order of
a quotient, which is found by counting digits.
-/

namespace Reckon.Decimal

open Binary64 (tenTo)

/-- The rational number that a decimal denotes. -/
def toRat (d : Decimal) : ℚ :=
  d.coefficient * 10 ^ d.exponent

/-- The rational number that digits denote, from the order of the first one down. -/
def placed (ds : List Char) (order : Int) : ℚ :=
  Nat.ofDigitChars 10 ds 0 * 10 ^ (order + 1 - ds.length)

theorem toRat_pos {d : Decimal} (h : 0 < d.coefficient) : 0 < d.toRat :=
  mul_pos (Nat.cast_pos.mpr h) (zpow_pos (by norm_num) _)

/-! ## Digits -/

section Digits

variable {n : Nat}

theorem length_digits (h : 0 < n) : (digits n).length = Nat.log 10 n + 1 := by
  have hlength (k : Nat) (hk : 0 < k) : (digits n).length ≤ k ↔ n < 10 ^ k :=
    Nat.length_toDigits_le_iff (by decide) hk
  apply Nat.le_antisymm
  · exact (hlength _ (Nat.succ_pos _)).mpr (Nat.lt_pow_succ_log_self (by decide) n)
  · have hlt := (hlength _ Nat.length_toDigits_pos).mp (Nat.le_refl _)
    exact (Nat.log_lt_iff_lt_pow (by decide) h.ne').mpr hlt

/-- The zeros at the end are all that is trimmed. -/
theorem exists_zeros (ds : List Char) :
    ∃ count, ds = trimZeros ds ++ List.replicate count '0' := by
  have hzeros : ds.rtakeWhile (· == '0') = List.replicate (ds.rtakeWhile (· == '0')).length '0' :=
    List.eq_replicate_iff.mpr ⟨rfl, fun c hc ↦ by simpa using List.mem_rtakeWhile_imp hc⟩
  refine ⟨(ds.rtakeWhile (· == '0')).length, ?_⟩
  rw [← hzeros]
  exact List.rdropWhile_append_rtakeWhile.symm

theorem placed_append_zeros (ds : List Char) (count : Nat) (order : Int) :
    placed (ds ++ List.replicate count '0') order = placed ds order := by
  rw [placed, placed, Nat.ofDigitChars_append, Nat.ofDigitChars_replicate_zero, List.length_append,
    List.length_replicate]
  push_cast
  rw [mul_comm ((10 : ℚ) ^ count), mul_assoc, ← zpow_natCast, ← zpow_add₀ (by norm_num)]
  congr 2
  ring

theorem placed_zeros_append (ds : List Char) (count : Nat) (order : Int) :
    placed (List.replicate count '0' ++ ds) (order + count) = placed ds order := by
  rw [placed, placed, Nat.ofDigitChars_append, Nat.ofDigitChars_replicate_zero, Nat.mul_zero,
    List.length_append, List.length_replicate]
  congr 2
  push_cast
  ring

theorem placed_trimZeros (ds : List Char) (order : Int) :
    placed (trimZeros ds) order = placed ds order := by
  obtain ⟨count, hcount⟩ := exists_zeros ds
  calc placed (trimZeros ds) order
      = placed (trimZeros ds ++ List.replicate count '0') order :=
        (placed_append_zeros _ _ _).symm
    _ = placed ds order := by rw [← hcount]

theorem placed_digits (d : Decimal) : placed (digits d.coefficient) d.leadingOrder = d.toRat := by
  rw [placed, toRat, digits, Nat.ofDigitChars_ten_toDigits, leadingOrder, digits]
  congr 2
  ring

theorem trimZeros_ne_nil (h : 0 < n) : trimZeros (digits n) ≠ [] := by
  intro hnil
  have hvalue := placed_trimZeros (digits n) 0
  rw [hnil, placed, placed, digits, Nat.ofDigitChars_ten_toDigits, Nat.ofDigitChars_nil,
    Nat.cast_zero, zero_mul] at hvalue
  exact mul_ne_zero (Nat.cast_ne_zero.mpr h.ne') (zpow_ne_zero _ (by norm_num)) hvalue.symm

end Digits

/-! ## Orders -/

theorem leadingOrder_eq_log {d : Decimal} (h : 0 < d.coefficient) :
    d.leadingOrder = Int.log 10 d.toRat := by
  have hlog := @log_mul_zpow 10 (by decide) d.coefficient (Nat.cast_pos.mpr h) d.exponent
  rw [toRat, leadingOrder, length_digits h]
  rw [Int.log_natCast] at hlog
  push_cast at hlog ⊢
  rw [hlog]
  ring

theorem cast_tenTo (z : Int) : (tenTo z : ℚ) = 10 ^ z.toNat :=
  Nat.cast_pow 10 z.toNat

theorem tenTo_pos (z : Int) : 0 < tenTo z :=
  Nat.pow_pos (by decide)

section Quotient

variable {num den : Nat}

theorem order_eq_log (hnum : 0 < num) (hden : 0 < den) :
    order num den = Int.log 10 ((num : ℚ) / den) := by
  have hcompare (z : Int) : den * tenTo z ≤ num * tenTo (-z) ↔ ((10 : Nat) : ℚ) ^ z ≤ num / den := by
    have hden' : (0 : ℚ) < den := Nat.cast_pos.mpr hden
    rw [← Nat.cast_le (α := ℚ), Nat.cast_mul, Nat.cast_mul, cast_tenTo, cast_tenTo,
      zpow_eq_div_toNat, Nat.cast_ofNat, div_le_div_iff₀ (by positivity) hden', mul_comm (den : ℚ)]
  have hestimate : ((digits num).length : Int) - (digits den).length =
      Nat.log 10 num - Nat.log 10 den := by
    rw [length_digits hnum, length_digits hden]
    push_cast
    ring
  rw [log_div_eq_ite (by decide : 1 < 10) hnum hden, order, hestimate]
  exact if_congr (hcompare _) rfl rfl

/-- The quotient in units of a place is the quotient over the unit. -/
theorem inUnits_div (num den : Nat) (place : Int) :
    ((inUnits num den place).1 : ℚ) / (inUnits num den place).2 = num / den / 10 ^ place := by
  rw [inUnits]
  push_cast
  rw [cast_tenTo, cast_tenTo, zpow_eq_div_toNat 10 place]
  field_simp

theorem inUnits_pos (num : Nat) (hden : 0 < den) (place : Int) : 0 < (inUnits num den place).2 :=
  Nat.mul_pos hden (tenTo_pos place)

end Quotient

/-! ## Rounding -/

theorem ofDecimal_value (d : Decimal) :
    ((d.coefficient * tenTo d.exponent : Nat) : ℚ) / tenTo (-d.exponent) = d.toRat := by
  rw [toRat, zpow_eq_div_toNat 10, ← mul_div_assoc]
  push_cast
  rw [cast_tenTo, cast_tenTo]

/-- What a decimal reads as is the rounding of any quotient with the same value. -/
theorem ofDecimal_eq (negative : Bool) (d : Decimal) {num den : Nat} (hden : 0 < den)
    (h : (num : ℚ) / den = d.toRat) :
    Binary64.ofDecimal negative d.coefficient d.exponent = Binary64.ofQuotient negative num den := by
  rw [Binary64.ofDecimal]
  exact Binary64.ofQuotient_congr negative (tenTo_pos _) hden ((ofDecimal_value d).trans h.symm)

end Reckon.Decimal
