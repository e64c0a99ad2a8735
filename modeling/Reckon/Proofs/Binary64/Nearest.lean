import Reckon.Proofs.Binary64.Closeness

/-!
# The nearest number

A rational that is not negative is rounded to the number nearest to it, of two equally near ones
to that with an even significand, and from half a unit above the greatest finite number on to
infinity. In units of its last place the rounding is a nearest integer, so it is as near as any
number that is a multiple of this unit; the numbers with a smaller unit all lie below the power of
two from which on the unit is in use.
-/

namespace Reckon.Binary64

/-- The number that a rational rounds to, among those of positive sign. -/
inductive RoundingOf (q : ℚ) : Binary64 → Prop where
  | infinite (hbeyond : 2 ^ 1024 - 2 ^ 970 ≤ q) : RoundingOf q (.infinite false)
  | finite {m : Nat} {e : Int} (hc : Canonical m e) (hbelow : q < 2 ^ 1024 - 2 ^ 970)
      (hnearest : ∀ y w, toRat? y = some w → |magnitude m e - q| ≤ |w - q|)
      (heven : ∀ y w, toRat? y = some w → w ≠ magnitude m e → |magnitude m e - q| = |w - q| →
        m % 2 = 0) :
      RoundingOf q (.finite false m e hc)

/-! ## Nearest integers -/

section Integer

variable {n : Nat} {y : ℚ}

theorem Nearest.half_le_abs_sub (h : Nearest y n) {k : Int} (hk : k ≠ n) : 1 / 2 ≤ |(k : ℚ) - y| := by
  have hone : (1 : ℚ) ≤ |(k : ℚ) - n| := by
    exact_mod_cast Int.one_le_abs (sub_ne_zero.mpr hk)
  have htriangle := abs_sub_le (k : ℚ) y n
  rw [abs_sub_comm y] at htriangle
  linarith [h.near]

/-- No integer is nearer than a nearest one. -/
theorem Nearest.abs_sub_le (h : Nearest y n) (k : Int) : |(n : ℚ) - y| ≤ |(k : ℚ) - y| := by
  by_cases hk : k = n
  · rw [hk, Int.cast_natCast]
  · exact h.near.trans (h.half_le_abs_sub hk)

/-- Only an even one shares its distance with another integer. -/
theorem Nearest.even_of_abs_sub_eq (h : Nearest y n) {k : Int} (hk : k ≠ n)
    (hequal : |(n : ℚ) - y| = |(k : ℚ) - y|) : n % 2 = 0 :=
  h.even (le_antisymm h.near (hequal ▸ h.half_le_abs_sub hk))

end Integer

/-! ## Units of the last place -/

theorem two_pow_mul_zpow (k : Nat) (p : Int) : (2 : ℚ) ^ k * 2 ^ p = 2 ^ (k + p) := by
  rw [zpow_add₀ two_ne_zero, zpow_natCast]

theorem two_zpow_mono {p p' : Int} (h : p ≤ p') : (2 : ℚ) ^ p ≤ 2 ^ p' :=
  zpow_le_zpow_right₀ one_le_two h

theorem abs_mul_zpow_sub (k q : ℚ) (p : Int) : |k * 2 ^ p - q| = |k - q / 2 ^ p| * 2 ^ p := by
  have hunit : (0 : ℚ) < 2 ^ p := zpow_pos two_pos p
  calc |k * 2 ^ p - q| = |(k - q / 2 ^ p) * 2 ^ p| := by
        rw [sub_mul, div_mul_cancel₀ _ hunit.ne']
    _ = |k - q / 2 ^ p| * 2 ^ p := by rw [abs_mul, abs_of_pos hunit]

section Places

variable {q : ℚ}

/-- Counted in the unit of its last place, a positive rational is less than `2 ^ 53`. -/
theorem lt_placeOf (q : ℚ) : q < 2 ^ 53 * 2 ^ placeOf q := by
  have hlog : q < (2 : ℚ) ^ (Int.log 2 q + 1) := by
    exact_mod_cast Int.lt_zpow_succ_log_self (by decide : 1 < 2) q
  rw [two_pow_mul_zpow]
  refine lt_of_lt_of_le hlog (two_zpow_mono ?_)
  rw [placeOf]
  omega

/-- Above the least place it is at least `2 ^ 52`. -/
theorem placeOf_le (hq : 0 < q) (hplace : -1074 < placeOf q) : 2 ^ 52 * 2 ^ placeOf q ≤ q := by
  have hlog : (2 : ℚ) ^ Int.log 2 q ≤ q := by
    exact_mod_cast Int.zpow_log_le_self (by decide : 1 < 2) hq
  rw [two_pow_mul_zpow]
  refine le_trans (two_zpow_mono ?_) hlog
  rw [placeOf] at hplace ⊢
  omega

/-- A number is a multiple of the unit, or lies below the numbers that have this unit. -/
theorem multiple_or_below (hq : 0 < q) {y : Binary64} {w : ℚ} (hy : y.toRat? = some w) :
    (∃ k : Int, w = k * 2 ^ placeOf q) ∨ w < 2 ^ 52 * 2 ^ placeOf q ∧ 2 ^ 52 * 2 ^ placeOf q ≤ q := by
  obtain ⟨s, m, e, hc, rfl, rfl⟩ := exists_finite_of_toRat? hy
  rcases le_or_gt (placeOf q) e with hle | hlt
  · left
    obtain ⟨k, hk⟩ : ∃ k : Nat, magnitude k (placeOf q) = magnitude m e :=
      ⟨_, magnitude_mul_two_pow hle m⟩
    refine ⟨withSign s (k : Int), ?_⟩
    rw [← hk, cast_withSign, magnitude, Int.cast_natCast]
    cases s with
    | false => rfl
    | true => exact (neg_mul _ _).symm
  · right
    refine ⟨?_, placeOf_le hq (lt_of_le_of_lt hc.2.1 hlt)⟩
    have hm : (m : ℚ) < 2 ^ 53 := by exact_mod_cast hc.1
    calc withSign s (magnitude m e) ≤ magnitude m e := (le_abs_self _).trans_eq (abs_value s m e)
      _ < 2 ^ 53 * 2 ^ e := mul_lt_mul_of_pos_right hm (zpow_pos two_pos e)
      _ ≤ 2 ^ 52 * 2 ^ placeOf q := by
          rw [two_pow_mul_zpow, two_pow_mul_zpow]
          exact two_zpow_mono (by omega)

section Significand

variable {n : Nat}

theorem abs_magnitude_sub_le (hn : Nearest (q / 2 ^ placeOf q) n) (k : Int) :
    |magnitude n (placeOf q) - q| ≤ |k * 2 ^ placeOf q - q| := by
  rw [magnitude, abs_mul_zpow_sub, abs_mul_zpow_sub]
  exact mul_le_mul_of_nonneg_right (hn.abs_sub_le k) (zpow_pos two_pos _).le

/-- No number is nearer than the nearest significand, and none is as near as an odd one. -/
theorem nearest_or_even (hq : 0 < q) (hn : Nearest (q / 2 ^ placeOf q) n) {y : Binary64} {w : ℚ}
    (hy : y.toRat? = some w) :
    |magnitude n (placeOf q) - q| ≤ |w - q| ∧
      (w ≠ magnitude n (placeOf q) → |magnitude n (placeOf q) - q| = |w - q| → n % 2 = 0) := by
  rcases multiple_or_below hq hy with ⟨k, rfl⟩ | ⟨hbelow, hle⟩
  · refine ⟨abs_magnitude_sub_le hn k, fun hne hequal ↦ ?_⟩
    have hk : k ≠ n := by
      rintro rfl
      exact hne (by rw [magnitude, Int.cast_natCast])
    rw [magnitude, abs_mul_zpow_sub, abs_mul_zpow_sub] at hequal
    exact hn.even_of_abs_sub_eq hk (mul_right_cancel₀ (zpow_pos two_pos _).ne' hequal)
  · have hlt : |magnitude n (placeOf q) - q| < |w - q| := by
      have hpower := abs_magnitude_sub_le hn (2 ^ 52)
      rw [Int.cast_pow, Int.cast_ofNat, abs_sub_comm _ q, abs_sub_comm _ q,
        abs_of_nonneg (sub_nonneg.mpr hle)] at hpower
      calc |magnitude n (placeOf q) - q| = |q - magnitude n (placeOf q)| := abs_sub_comm _ _
        _ ≤ q - 2 ^ 52 * 2 ^ placeOf q := hpower
        _ < q - w := sub_lt_sub_left hbelow q
        _ ≤ |q - w| := le_abs_self _
        _ = |w - q| := abs_sub_comm _ _
    exact ⟨hlt.le, fun _ hequal ↦ absurd hequal hlt.ne⟩

theorem le_two_pow_of_nearest (hn : Nearest (q / 2 ^ placeOf q) n) : n ≤ 2 ^ 53 := by
  have hupper : q / 2 ^ placeOf q < 2 ^ 53 := (div_lt_iff₀ (zpow_pos two_pos _)).mpr (lt_placeOf q)
  have hnear := (abs_le.mp hn.near).2
  have hlt : (n : ℚ) < (2 ^ 53 + 1 : Nat) := by
    push_cast
    linarith
  exact Nat.lt_succ_iff.mp (Nat.cast_lt.mp hlt)

theorem full_of_nearest (hq : 0 < q) (hn : Nearest (q / 2 ^ placeOf q) n)
    (hplace : -1074 < placeOf q) : 2 ^ 52 ≤ n := by
  have hlower : 2 ^ 52 ≤ q / 2 ^ placeOf q :=
    (le_div_iff₀ (zpow_pos two_pos _)).mpr (placeOf_le hq hplace)
  have hnear := (abs_le.mp hn.near).1
  have hlt : ((2 ^ 52 : Nat) : ℚ) < (n + 1 : Nat) := by
    push_cast
    linarith
  exact Nat.lt_succ_iff.mp (Nat.cast_lt.mp hlt)

end Significand

end Places

/-! ## The limit to infinity -/

section Limit

variable {q : ℚ} {n : Nat}

theorem limit_eq : (2 : ℚ) ^ 1024 - 2 ^ 970 = (2 ^ 54 - 1) * 2 ^ (970 : Int) := by
  rw [sub_mul, two_pow_mul_zpow, one_mul, ← zpow_natCast 2 1024, ← zpow_natCast 2 970]
  rfl

/-- Half a unit below the next power of two, a nearest significand is this power. -/
theorem Nearest.eq_two_pow_iff {y : ℚ} (hn : Nearest y n) (hle : n ≤ 2 ^ 53) :
    n = 2 ^ 53 ↔ 2 ^ 53 - 1 / 2 ≤ y := by
  obtain ⟨hbelow, habove⟩ := abs_le.mp hn.near
  constructor
  · rintro rfl
    push_cast at habove
    linarith
  · intro hy
    by_contra hne
    -- The number below the power is odd, so it does not take the value halfway between.
    have hn' : ((n + 1 : Nat) : ℚ) ≤ (2 ^ 53 : Nat) := Nat.cast_le.mpr (by omega)
    push_cast at hn'
    have hhalf : |(n : ℚ) - y| = 1 / 2 := by
      rw [show (n : ℚ) - y = -(1 / 2) by linarith, abs_neg, abs_of_pos (by norm_num)]
    have hodd : ((n + 1 : Nat) : ℚ) = (2 ^ 53 : Nat) := by
      push_cast
      linarith
    have heven := hn.even hhalf
    have := Nat.cast_injective hodd
    omega

/-- What is rounded to infinity has too great a last place, or the greatest one and is rounded up to
the next power of two. -/
theorem limit_le_iff (hq : 0 < q) (hn : Nearest (q / 2 ^ placeOf q) n) :
    2 ^ 1024 - 2 ^ 970 ≤ q ↔ 971 < placeOf q ∨ placeOf q = 971 ∧ n = 2 ^ 53 := by
  have hunit : (0 : ℚ) < 2 ^ (970 : Int) := zpow_pos two_pos _
  rw [limit_eq]
  rcases lt_trichotomy (placeOf q) 971 with hlt | heq | hgt
  · refine iff_of_false (not_le.mpr ?_) (by omega)
    calc q < 2 ^ 53 * 2 ^ placeOf q := lt_placeOf q
      _ ≤ 2 ^ 53 * 2 ^ (970 : Int) :=
          mul_le_mul_of_nonneg_left (two_zpow_mono (by omega)) (by positivity)
      _ ≤ (2 ^ 54 - 1) * 2 ^ (970 : Int) := mul_le_mul_of_nonneg_right (by norm_num) hunit.le
  · have hplace : (2 : ℚ) ^ placeOf q = 2 ^ (970 : Int) * 2 := by
      rw [heq, ← zpow_add_one₀ two_ne_zero]
      rfl
    have hscaled : (2 ^ 54 - 1) * 2 ^ (970 : Int) ≤ q ↔ 2 ^ 53 - 1 / 2 ≤ q / 2 ^ placeOf q := by
      rw [le_div_iff₀ (zpow_pos two_pos _), hplace]
      have hsame : (2 ^ 54 - 1) * (2 : ℚ) ^ (970 : Int) = (2 ^ 53 - 1 / 2) * (2 ^ (970 : Int) * 2) := by
        ring
      rw [hsame]
    rw [hscaled, ← hn.eq_two_pow_iff (le_two_pow_of_nearest hn), heq]
    simp
  · refine iff_of_true ?_ (.inl hgt)
    calc ((2 : ℚ) ^ 54 - 1) * 2 ^ (970 : Int) ≤ 2 ^ 54 * 2 ^ (970 : Int) :=
          mul_le_mul_of_nonneg_right (by norm_num) hunit.le
      _ ≤ 2 ^ 52 * 2 ^ placeOf q := by
          rw [two_pow_mul_zpow, two_pow_mul_zpow]
          exact two_zpow_mono (by omega)
      _ ≤ q := placeOf_le hq (by omega)

end Limit

/-! ## Rounding -/

section Pack

variable {n : Nat} {p : Int}

theorem pack_infinite (negative : Bool) (h : 971 < p ∨ p = 971 ∧ n = 2 ^ 53) :
    pack negative n p = .infinite negative := by
  have hfull : ¬ Canonical n p := by
    rintro ⟨hlt, -, hle, -⟩
    omega
  have hhalf : ¬ Canonical (n / 2) (p + 1) := by
    rintro ⟨-, -, hle, -⟩
    omega
  rw [pack, dif_neg hfull, dif_neg hhalf]

/-- A significand is kept with its magnitude, and stays even. -/
theorem exists_pack_eq_finite (negative : Bool) (hle : n ≤ 2 ^ 53) (hleast : -1074 ≤ p)
    (hfull : -1074 < p → 2 ^ 52 ≤ n) (hlimit : ¬ (971 < p ∨ p = 971 ∧ n = 2 ^ 53)) :
    ∃ m e hc, pack negative n p = .finite negative m e hc ∧ magnitude m e = magnitude n p ∧
      (n % 2 = 0 → m % 2 = 0) := by
  rcases Nat.lt_or_eq_of_le hle with hlt | rfl
  · have hc : Canonical n p := ⟨hlt, hleast, by omega, by omega⟩
    exact ⟨n, p, hc, pack_canonical negative hc, rfl, id⟩
  · have hc : Canonical (2 ^ 52) (p + 1) := ⟨by decide, by omega, by omega, .inl (by decide)⟩
    refine ⟨2 ^ 52, p + 1, hc, ?_, ?_, fun _ ↦ by decide⟩
    · have hcarry := pack_carry negative hc
      rwa [add_sub_cancel_right] at hcarry
    · rw [magnitude, magnitude, zpow_add_one₀ two_ne_zero]
      push_cast
      ring

end Pack

/-- Rounding a quotient gives the nearest number. -/
theorem roundingOf_ofQuotient (num : Nat) {den : Nat} (hden : 0 < den) :
    RoundingOf (num / den) (ofQuotient false num den) := by
  rcases Nat.eq_zero_or_pos num with rfl | hnum
  · rw [ofQuotient, if_pos rfl, Nat.cast_zero, zero_div]
    have hzero : magnitude 0 (-1074) = 0 := by simp [magnitude]
    refine .finite canonical_zero ?_ (fun y w _ ↦ ?_) fun _ _ _ _ _ ↦ rfl
    · rw [limit_eq]
      exact mul_pos (by norm_num) (zpow_pos two_pos _)
    · rw [hzero, sub_self, abs_zero]
      exact abs_nonneg _
  have hq := quotient_pos hnum hden
  obtain ⟨n, hpack, hn⟩ := exists_pack false hnum hden
  rw [hpack]
  generalize (num : ℚ) / den = q at hq hn ⊢
  have hlimit := limit_le_iff hq hn
  by_cases hbeyond : 971 < placeOf q ∨ placeOf q = 971 ∧ n = 2 ^ 53
  · rw [pack_infinite false hbeyond]
    exact .infinite (hlimit.mpr hbeyond)
  · have hleast : -1074 ≤ placeOf q := le_max_left _ _
    obtain ⟨m, e, hc, hfinite, hsame, hparity⟩ := exists_pack_eq_finite false
      (le_two_pow_of_nearest hn) hleast (full_of_nearest hq hn) hbeyond
    rw [hfinite]
    refine .finite hc (not_le.mp (mt hlimit.mp hbeyond)) (fun y w hy ↦ ?_) fun y w hy ↦ ?_
    · rw [hsame]
      exact (nearest_or_even hq hn hy).1
    · rw [hsame]
      exact fun hne hequal ↦ hparity ((nearest_or_even hq hn hy).2 hne hequal)

/-! ## What the nearest number is -/

/-- The order of numbers of positive sign. -/
def AtMost (x y : Binary64) : Prop :=
  y = .infinite false ∨ ∃ v w, x.toRat? = some v ∧ y.toRat? = some w ∧ v ≤ w

namespace RoundingOf

variable {q q' : ℚ} {x x' : Binary64}

theorem ne_nan (h : RoundingOf q x) : x ≠ .nan := by
  cases h <;> nofun

theorem isNegative_eq_false (h : RoundingOf q x) : x.isNegative = false := by
  cases h <;> rfl

theorem eq_infinite_iff (h : RoundingOf q x) : x = .infinite false ↔ 2 ^ 1024 - 2 ^ 970 ≤ q := by
  cases h with
  | infinite hbeyond => exact iff_of_true rfl hbeyond
  | finite hc hbelow => exact iff_of_false nofun (not_le.mpr hbelow)

theorem toRat?_least : toRat? (.finite false 1 (-1074) (by decide)) = some (2 ^ (-1074 : Int)) := by
  rw [toRat?, withSign, magnitude, Nat.cast_one, one_mul]
  rfl

theorem toRat?_zero : toRat? (zero false) = some 0 := by
  rw [zero, toRat?, withSign, magnitude, Nat.cast_zero, zero_mul]
  rfl

/-- The numbers up to the least positive one have the least exponent. -/
theorem eq_of_magnitude_le_least {m : Nat} {e : Int} (hc : Canonical m e)
    (h : magnitude m e ≤ 2 ^ (-1074 : Int)) : e = -1074 ∧ (m = 0 ∨ m = 1) := by
  have hplace : (m : ℚ) * 2 ^ (-1074 : Int) ≤ 1 * 2 ^ (-1074 : Int) := by
    rw [one_mul]
    exact le_trans (mul_le_mul_of_nonneg_left (two_zpow_mono hc.2.1) (Nat.cast_nonneg m)) h
  have hm : m ≤ 1 := by exact_mod_cast le_of_mul_le_mul_right hplace (zpow_pos two_pos _)
  exact ⟨hc.2.2.2.resolve_left (by omega), Nat.le_one_iff_eq_zero_or_eq_one.mp hm⟩

/-- Half the least positive number goes to zero, being halfway between the two. -/
theorem eq_zero_iff (h : RoundingOf q x) (hq : 0 ≤ q) :
    x = zero false ↔ q ≤ 2 ^ (-1075 : Int) := by
  have hleast : (2 : ℚ) ^ (-1074 : Int) = 2 * 2 ^ (-1075 : Int) := by
    rw [← zpow_one_add₀ two_ne_zero]
    rfl
  have hunit : (0 : ℚ) < 2 ^ (-1075 : Int) := zpow_pos two_pos _
  cases h with
  | infinite hbeyond =>
    refine iff_of_false nofun (not_le.mpr (lt_of_lt_of_le ?_ hbeyond))
    rw [limit_eq]
    calc (2 : ℚ) ^ (-1075 : Int) ≤ 2 ^ (970 : Int) := two_zpow_mono (by decide)
      _ < (2 ^ 54 - 1) * 2 ^ (970 : Int) :=
          lt_mul_of_one_lt_left (zpow_pos two_pos _) (by norm_num)
  | @finite m e hc hbelow hnearest heven =>
    constructor
    · intro hzero
      cases hzero
      have hnear := hnearest _ _ toRat?_least
      rw [magnitude, Nat.cast_zero, zero_mul, zero_sub, abs_neg, abs_of_nonneg hq, hleast] at hnear
      rcases abs_cases (2 * (2 : ℚ) ^ (-1075 : Int) - q) with ⟨habs, -⟩ | ⟨habs, -⟩ <;> linarith
    · intro hsmall
      have hzero := hnearest _ _ toRat?_zero
      rw [zero_sub, abs_neg, abs_of_nonneg hq] at hzero
      -- The magnitude is at most twice `q`, so the significand is zero or the least one.
      have hmagnitude : magnitude m e ≤ 2 ^ (-1074 : Int) := by
        linarith [(abs_le.mp hzero).2]
      obtain ⟨rfl, rfl | rfl⟩ := eq_of_magnitude_le_least hc hmagnitude
      · rfl
      · rw [magnitude, Nat.cast_one, one_mul, hleast, abs_of_nonneg (by linarith)] at hzero
        have htie := heven _ _ toRat?_zero
        rw [magnitude, Nat.cast_one, one_mul, hleast, abs_of_nonneg (by linarith), zero_sub, abs_neg,
          abs_of_nonneg hq] at htie
        exact absurd (htie (by linarith) (by linarith)) (by decide)

theorem atMost_self (h : RoundingOf q x) : x.AtMost x := by
  cases h with
  | infinite => exact .inl rfl
  | finite hc => exact .inr ⟨_, _, rfl, rfl, le_rfl⟩

theorem add_le_two_mul {a b : ℚ} (hlt : b < a) (h : |a - q| ≤ |b - q|) : a + b ≤ 2 * q := by
  by_contra hmiddle
  have hnearer : |b - q| < a - q := abs_lt.mpr ⟨by linarith, by linarith⟩
  exact absurd h (not_le.mpr (hnearer.trans_le (le_abs_self _)))

theorem two_mul_le_add {a b : ℚ} (hlt : b < a) (h : |b - q| ≤ |a - q|) : 2 * q ≤ a + b := by
  by_contra hmiddle
  have hnearer : |a - q| < -(b - q) := abs_lt.mpr ⟨by linarith, by linarith⟩
  exact absurd h (not_le.mpr (hnearer.trans_le (neg_le_abs _)))

/-- A greater rational has no smaller nearest number. -/
theorem mono (h : RoundingOf q x) (h' : RoundingOf q' x') (hlt : q < q') : x.AtMost x' := by
  cases h' with
  | infinite hbeyond => exact .inl rfl
  | @finite m' e' hc' hbelow' hnearest' heven' =>
    right
    cases h with
    | infinite hbeyond => exact absurd (hbeyond.trans_lt hlt) (not_lt.mpr hbelow'.le)
    | @finite m e hc hbelow hnearest heven =>
      refine ⟨_, _, rfl, rfl, ?_⟩
      change magnitude m e ≤ magnitude m' e'
      by_contra hless
      -- Neither rational is on the far side of the middle between the two numbers.
      have hmiddle : magnitude m e + magnitude m' e' ≤ 2 * q :=
        add_le_two_mul (not_le.mp hless) (hnearest (.finite false m' e' hc') _ rfl)
      have hmiddle' : 2 * q' ≤ magnitude m e + magnitude m' e' :=
        two_mul_le_add (not_le.mp hless) (hnearest' (.finite false m e hc) _ rfl)
      linarith

end RoundingOf

end Reckon.Binary64
