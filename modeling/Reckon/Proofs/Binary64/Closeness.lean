import Reckon.Proofs.Binary64.Value

/-!
# Close quotients

A quotient that differs from a number by less than one part in `2 ^ 54` rounds to this number.
The least full significand is the critical one: below it the numbers lie twice as close, and
half of that distance is just the bound. So a number is the rounding of itself, and rounding
anything that some number of the format can hold is exact.
-/

namespace Reckon.Binary64

theorem eq_of_near {n k : Nat} {y : ℚ} (hn : |(n : ℚ) - y| ≤ 1 / 2) (hk : |y - k| < 1 / 2) :
    n = k := by
  have hlt : |(n : ℚ) - k| < 1 := by
    calc |(n : ℚ) - k| ≤ |(n : ℚ) - y| + |y - k| := abs_sub_le _ _ _
      _ < 1 := by linarith
  have hint : |(n : Int) - k| < 1 := by exact_mod_cast hlt
  have := Int.abs_lt_one_iff.mp hint
  omega

theorem pack_canonical (negative : Bool) {m : Nat} {e : Int} (h : Canonical m e) :
    pack negative m e = .finite negative m e h := by
  rw [pack, dif_pos h]

/-- A full significand that is rounded up to the next power of two. -/
theorem pack_carry (negative : Bool) {e : Int} (h : Canonical (2 ^ 52) e) :
    pack negative (2 ^ 53) (e - 1) = .finite negative (2 ^ 52) e h := by
  have hfull : ¬ Canonical (2 ^ 53) (e - 1) := fun hc ↦ absurd hc.1 (by decide)
  have hhalf : Canonical (2 ^ 53 / 2) (e - 1 + 1) := by
    rw [show e - 1 + 1 = e by ring]
    exact h
  rw [pack, dif_neg hfull, dif_pos hhalf]
  congr 1
  ring

/-! ## Closeness in units of the last place -/

section Close

variable {m : Nat} {e : Int} {y : ℚ}

theorem abs_sub_lt_half (h : Canonical m e) (hclose : 2 ^ 54 * |y - m| < m) : |y - m| < 1 / 2 := by
  have hm : (m : ℚ) < 2 ^ 53 := by exact_mod_cast h.1
  linarith

theorem pos_of_close (h : Canonical m e) (hclose : 2 ^ 54 * |y - m| < m) : 0 < y := by
  have hm : (1 : ℚ) ≤ m := by
    have hpos : (0 : ℚ) < m := lt_of_le_of_lt (by positivity) hclose
    exact_mod_cast hpos
  have hbelow := (abs_lt.mp (abs_sub_lt_half h hclose)).1
  linarith

/-- A close quotient has the last place of the number, or the place below if the significand is the
least full one. -/
theorem placeOf_of_close (h : Canonical m e) (hclose : 2 ^ 54 * |y - m| < m) :
    placeOf (y * 2 ^ e) = e ∨ placeOf (y * 2 ^ e) = e - 1 ∧ m = 2 ^ 52 := by
  have ⟨hlt, hleast, _, hfull⟩ := h
  have hy := pos_of_close h hclose
  obtain ⟨hbelow, habove⟩ := abs_lt.mp (abs_sub_lt_half h hclose)
  have hplace : placeOf (y * 2 ^ e) = max (-1074) (Int.log 2 y + e - 52) := by
    have hlog : Int.log 2 (y * 2 ^ e) = Int.log 2 y + e := by
      exact_mod_cast @log_mul_zpow 2 (by decide) y hy e
    rw [placeOf, hlog]
  have hlog (k : Int) : Int.log 2 y < k ↔ y < 2 ^ k := by
    exact_mod_cast (Int.lt_zpow_iff_log_lt (by decide : 1 < 2) hy).symm
  have hupper : Int.log 2 y < 53 := by
    have hm : ((m + 1 : Nat) : ℚ) ≤ (2 ^ 53 : Nat) := Nat.cast_le.mpr hlt
    push_cast at hm
    rw [hlog]
    norm_num at hm ⊢
    linarith
  by_cases hinner : e = -1074 ∨ 52 ≤ Int.log 2 y
  · left
    omega
  · -- Only the least full significand is that close to a quotient below it.
    right
    obtain ⟨hmore, hless⟩ := not_or.mp hinner
    have hm : (2 ^ 52 : ℚ) ≤ m := by exact_mod_cast hfull.resolve_right hmore
    have hbelow' : y < 2 ^ 52 := by exact_mod_cast (hlog 52).mp (not_le.mp hless)
    have hlower : ¬ Int.log 2 y < 51 := by
      rw [hlog, not_lt]
      norm_num
      linarith only [hm, hbelow]
    have hpower : (m : ℚ) < (2 ^ 52 + 1 : Nat) := by
      push_cast
      linarith only [hbelow, hbelow']
    exact ⟨by omega, Nat.le_antisymm (Nat.lt_succ_iff.mp (Nat.cast_lt.mp hpower))
      (hfull.resolve_right hmore)⟩

/-! ## Rounding -/

/-- A close quotient rounds to the number. -/
theorem ofQuotient_of_close (negative : Bool) {num den : Nat} (h : Canonical m e) (hden : 0 < den)
    (hclose : 2 ^ 54 * |(num : ℚ) / den - magnitude m e| < magnitude m e) :
    ofQuotient negative num den = .finite negative m e h := by
  have hunit : (0 : ℚ) < 2 ^ e := zpow_pos (by norm_num) e
  -- All comparisons are made in units of the last place of the number.
  obtain ⟨y, hy⟩ : ∃ y, (num : ℚ) / den = y * 2 ^ e :=
    ⟨num / den / 2 ^ e, (div_mul_cancel₀ _ hunit.ne').symm⟩
  rw [hy, magnitude, ← sub_mul, abs_mul, abs_of_pos hunit, ← mul_assoc] at hclose
  have hyclose : 2 ^ 54 * |y - m| < m := lt_of_mul_lt_mul_right hclose hunit.le
  have hnum : 0 < num := by
    have hpos : (0 : ℚ) < num / den := hy ▸ mul_pos (pos_of_close h hyclose) hunit
    exact Nat.pos_of_ne_zero fun hzero ↦ by simp [hzero] at hpos
  obtain ⟨significand, hpack, hnear, -⟩ := exists_pack negative hnum hden
  rw [hy] at hpack hnear
  rcases placeOf_of_close h hyclose with hplace | ⟨hplace, rfl⟩
  · rw [hplace, mul_div_cancel_right₀ _ hunit.ne'] at hnear
    rw [hpack, hplace, eq_of_near hnear (abs_sub_lt_half h hyclose), pack_canonical negative h]
  · -- In the lower place the significand is twice as great, and rounds up to the next power.
    have hdouble : y * 2 ^ e / 2 ^ (e - 1) = 2 * y := by
      rw [zpow_sub_one₀ two_ne_zero]
      field_simp
    rw [hplace, hdouble] at hnear
    have hcarry : |2 * y - (2 ^ 53 : Nat)| < 1 / 2 := by
      have hfactor : 2 * y - ((2 ^ 53 : Nat) : ℚ) = 2 * (y - (2 ^ 52 : Nat)) := by
        push_cast
        ring
      push_cast at hyclose
      rw [hfactor, abs_mul, abs_two]
      push_cast
      linarith
    rw [hpack, hplace, eq_of_near hnear hcarry, pack_carry negative h]

/-- A number is the rounding of its own value. -/
theorem ofQuotient_of_eq (negative : Bool) {num den : Nat} (h : Canonical m e) (hden : 0 < den)
    (hvalue : (num : ℚ) / den = magnitude m e) :
    ofQuotient negative num den = .finite negative m e h := by
  rcases Nat.eq_zero_or_pos m with rfl | hm
  · have hnum : num = 0 := by
      rw [magnitude, Nat.cast_zero, zero_mul, div_eq_zero_iff] at hvalue
      simpa [hden.ne'] using hvalue
    obtain rfl : e = -1074 := h.2.2.2.resolve_left (by decide)
    rw [ofQuotient, if_pos hnum, zero]
  · refine ofQuotient_of_close negative h hden ?_
    rw [hvalue, sub_self, abs_zero, mul_zero]
    exact magnitude_pos hm e

end Close

/-- A significand of at most 53 bits can be made full, or its exponent the least one. -/
theorem exists_canonical {k : Nat} {p : Int} (hk : k < 2 ^ 53) (hleast : -1074 ≤ p)
    (hgreatest : p ≤ 971) : ∃ m e, Canonical m e ∧ magnitude m e = magnitude k p := by
  rcases Nat.eq_zero_or_pos k with rfl | hpos
  · exact ⟨0, -1074, canonical_zero, by simp [magnitude]⟩
  have hlog : k.log2 < 53 := (Nat.log2_lt hpos.ne').mpr hk
  obtain ⟨shift, hshift⟩ : ∃ shift, shift = min (52 - k.log2) (p + 1074).toNat := ⟨_, rfl⟩
  have hvalue : magnitude (k * 2 ^ shift) (p - shift) = magnitude k p := by
    rw [magnitude, magnitude]
    push_cast
    rw [mul_assoc, ← zpow_natCast, ← zpow_add₀ two_ne_zero, add_sub_cancel]
  have hupper : k * 2 ^ shift < 2 ^ 53 := by
    calc k * 2 ^ shift < 2 ^ (k.log2 + 1) * 2 ^ shift :=
          Nat.mul_lt_mul_of_pos_right Nat.lt_log2_self (Nat.two_pow_pos shift)
      _ = 2 ^ (k.log2 + 1 + shift) := (Nat.pow_add 2 _ _).symm
      _ ≤ 2 ^ 53 := Nat.pow_le_pow_right (by decide) (by omega)
  have hfull : 2 ^ 52 ≤ k * 2 ^ shift ∨ p - shift = -1074 := by
    rcases Nat.le_total (52 - k.log2) (p + 1074).toNat with hle | hle
    · left
      calc 2 ^ 52 = 2 ^ k.log2 * 2 ^ shift := by
            rw [← Nat.pow_add]
            congr 1
            omega
        _ ≤ k * 2 ^ shift := Nat.mul_le_mul_right _ (Nat.log2_self_le hpos.ne')
    · right
      omega
  exact ⟨k * 2 ^ shift, p - shift, ⟨hupper, by omega, by omega, hfull⟩, hvalue⟩

/-- Rounding a value that a significand of at most 53 bits can hold is exact. -/
theorem ofQuotient_exact {num den k : Nat} {p : Int} (hden : 0 < den) (hk : k < 2 ^ 53)
    (hleast : -1074 ≤ p) (hgreatest : p ≤ 971) (hvalue : (num : ℚ) / den = magnitude k p) :
    ∃ m e h, (∀ negative, ofQuotient negative num den = .finite negative m e h) ∧
      magnitude m e = num / den := by
  obtain ⟨m, e, hcanonical, hsame⟩ := exists_canonical hk hleast hgreatest
  rw [← hsame] at hvalue
  exact ⟨m, e, hcanonical, fun negative ↦ ofQuotient_of_eq negative hcanonical hden hvalue,
    hvalue.symm⟩

end Reckon.Binary64
