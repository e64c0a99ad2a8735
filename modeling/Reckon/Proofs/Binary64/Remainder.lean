import Mathlib.Algebra.Order.Floor.Semifield
import Reckon.Binary64.Arithmetic
import Reckon.Proofs.Binary64.Closeness

/-!
# Remainders

Both operands of a remainder are whole multiples of the smaller of their units, and what remains
is such a multiple too, below the smaller significand. So a remainder is never rounded, however
far the operands are apart. With operands cut to integers it is the remainder of the integer
division that is cut toward zero, and it has the sign of the first operand even where it is zero.
-/

namespace Reckon.Binary64

/-- The integer nearest to a rational on the side of zero. -/
def towardZero (q : ℚ) : Int :=
  if q < 0 then ⌈q⌉ else ⌊q⌋

theorem towardZero_withSign (s : Bool) {q : ℚ} (hq : 0 ≤ q) :
    towardZero (withSign s q) = withSign s ⌊q⌋ := by
  cases s with
  | false => simp [towardZero, withSign, not_lt.mpr hq]
  | true =>
    rcases hq.eq_or_lt with rfl | hpos
    · simp [towardZero, withSign]
    · simp [towardZero, withSign, hpos, Int.ceil_neg]

/-- The remainder of a division cut toward zero has the sign of the dividend. -/
theorem withSign_tmod_withSign (s s' : Bool) (z z' : Int) :
    (withSign s z).tmod (withSign s' z') = withSign s (z.tmod z') := by
  cases s <;> cases s' <;> simp [withSign, Int.neg_tmod, Int.tmod_neg]

/-! ## Whole parts -/

section Whole

variable {m : Nat} {e : Int}

theorem wholePart_eq_floor (m : Nat) (e : Int) : wholePart m e = ⌊magnitude m e⌋₊ := by
  rw [← numerator_div_denominator, Nat.floor_div_eq_div, wholePart]

theorem floor_magnitude (m : Nat) (e : Int) : ⌊magnitude m e⌋ = wholePart m e := by
  rw [wholePart_eq_floor, Int.natCast_floor_eq_floor (magnitude_nonneg m e)]

theorem wholePart_eq_zero_iff : wholePart m e = 0 ↔ magnitude m e < 1 := by
  rw [wholePart_eq_floor, Nat.floor_eq_zero]

/-- Cutting a number to an integer is exact. -/
theorem exists_trunc (h : Canonical m e) :
    ∃ m' e' h', (∀ s, trunc (.finite s m e h) = .finite s m' e' h') ∧
      magnitude m' e' = wholePart m e := by
  have hone : (wholePart m e : ℚ) / (1 : Nat) = wholePart m e := by
    rw [Nat.cast_one, div_one]
  have ⟨hlt, hleast, hgreatest, _⟩ := h
  suffices hexact : ∃ k p, k < 2 ^ 53 ∧ -1074 ≤ p ∧ p ≤ 971 ∧
      (wholePart m e : ℚ) / (1 : Nat) = magnitude k p by
    obtain ⟨k, p, hk, hp, hp', hvalue⟩ := hexact
    obtain ⟨m', e', h', htrunc, hsame⟩ := ofQuotient_exact Nat.one_pos hk hp hp' hvalue
    exact ⟨m', e', h', htrunc, hsame.trans hone⟩
  rw [hone]
  rcases Int.le_total 0 e with he | he
  · -- Nothing is cut off.
    refine ⟨m, e, hlt, hleast, hgreatest, ?_⟩
    have hdenominator : denominator e = 1 := by
      rw [denominator, Int.toNat_of_nonpos (by omega)]
      rfl
    rw [← numerator_div_denominator, wholePart, hdenominator, Nat.div_one, Nat.cast_one, div_one]
  · refine ⟨wholePart m e, 0, ?_, by decide, by decide, by simp [magnitude]⟩
    have hnumerator : numerator m e = m := by
      rw [numerator, Int.toNat_of_nonpos he]
      rfl
    rw [wholePart, hnumerator]
    exact lt_of_le_of_lt (Nat.div_le_self _ _) hlt

end Whole

/-! ## What remains -/

/-- What remains of a rational when another is taken away a whole number of times. -/
def rest (q r : ℚ) : ℚ :=
  q - r * ⌊q / r⌋₊

theorem rest_natCast (n n' : Nat) : rest n n' = (n % n' : Nat) := by
  rw [rest, Nat.floor_div_eq_div, sub_eq_iff_eq_add]
  exact_mod_cast (Nat.mod_add_div n n').symm

theorem rest_mul_right (q r : ℚ) {c : ℚ} (hc : c ≠ 0) : rest (q * c) (r * c) = rest q r * c := by
  rw [rest, rest, mul_div_mul_right _ _ hc]
  ring

section Remainder

variable {m m' : Nat} {e e' : Int}

/-- Two numbers in the smaller of their units, where one significand stays as it is. -/
theorem exists_common_unit (h : Canonical m e) (h' : Canonical m' e') :
    ∃ a b p, magnitude a p = magnitude m e ∧ magnitude b p = magnitude m' e' ∧
      (a < 2 ^ 53 ∨ b < 2 ^ 53) ∧ -1074 ≤ p ∧ p ≤ 971 := by
  have ⟨hlt, hleast, hgreatest, _⟩ := h
  have ⟨hlt', hleast', hgreatest', _⟩ := h'
  rcases Int.le_total e e' with hle | hle
  · exact ⟨m, m' * 2 ^ (e' - e).toNat, e, rfl, magnitude_mul_two_pow hle m', .inl hlt, hleast,
      hgreatest⟩
  · exact ⟨m * 2 ^ (e - e').toNat, m', e', magnitude_mul_two_pow hle m, rfl, .inr hlt', hleast',
      hgreatest'⟩

/-- The integers whose remainder is rounded leave what the numbers leave. -/
theorem rest_numerators (m m' : Nat) (e e' : Int) :
    ((numerator m e * denominator e' % (numerator m' e' * denominator e) : Nat) : ℚ) /
      (denominator e * denominator e' : Nat) = rest (magnitude m e) (magnitude m' e') := by
  have hden : (denominator e : ℚ) ≠ 0 := Nat.cast_ne_zero.mpr (denominator_pos e).ne'
  have hden' : (denominator e' : ℚ) ≠ 0 := Nat.cast_ne_zero.mpr (denominator_pos e').ne'
  have hnum : ((numerator m e * denominator e' : Nat) : ℚ) =
      magnitude m e * (denominator e * denominator e' : Nat) := by
    rw [← numerator_div_denominator]
    push_cast
    field_simp
  have hnum' : ((numerator m' e' * denominator e : Nat) : ℚ) =
      magnitude m' e' * (denominator e * denominator e' : Nat) := by
    rw [← numerator_div_denominator]
    push_cast
    field_simp
  have hcommon : ((denominator e * denominator e' : Nat) : ℚ) ≠ 0 := by
    push_cast
    exact mul_ne_zero hden hden'
  rw [← rest_natCast, hnum, hnum', rest_mul_right _ _ hcommon, mul_div_cancel_right₀ _ hcommon]

/-- The remainder of two numbers is exact. -/
theorem exists_remainder (h : Canonical m e) (h' : Canonical m' e') (hm' : m' ≠ 0) :
    ∃ m'' e'' h'', (∀ s s', remainder (.finite s m e h) (.finite s' m' e' h') =
        .finite s m'' e'' h'') ∧
      magnitude m'' e'' = rest (magnitude m e) (magnitude m' e') := by
  obtain ⟨a, b, p, ha, hb, hsmall, hleast, hgreatest⟩ := exists_common_unit h h'
  have hremains : rest (magnitude m e) (magnitude m' e') = magnitude (a % b) p := by
    rw [← ha, ← hb, magnitude, magnitude, magnitude,
      rest_mul_right _ _ (zpow_ne_zero p two_ne_zero), rest_natCast]
  have hb0 : 0 < b := by
    by_contra hzero
    rw [Nat.eq_zero_of_not_pos hzero, magnitude, Nat.cast_zero, zero_mul] at hb
    exact (magnitude_pos (Nat.pos_of_ne_zero hm') e').ne hb
  have hlt : a % b < 2 ^ 53 := by
    rcases hsmall with hsmall | hsmall
    · exact lt_of_le_of_lt (Nat.mod_le a b) hsmall
    · exact lt_trans (Nat.mod_lt a hb0) hsmall
  have hden : 0 < denominator e * denominator e' :=
    Nat.mul_pos (denominator_pos e) (denominator_pos e')
  obtain ⟨m'', e'', h'', hround, hsame⟩ :=
    ofQuotient_exact hden hlt hleast hgreatest ((rest_numerators m m' e e').trans hremains)
  refine ⟨m'', e'', h'', fun s s' ↦ ?_, hsame.trans (rest_numerators m m' e e')⟩
  calc remainder (.finite s m e h) (.finite s' m' e' h')
      = ofQuotient s (numerator m e * denominator e' % (numerator m' e' * denominator e))
          (denominator e * denominator e') := if_neg hm'
    _ = .finite s m'' e'' h'' := hround s

/-! ## Remainders of integer parts -/

theorem mod_finite (h : Canonical m e) (h' : Canonical m' e') (hwhole : wholePart m' e' ≠ 0) :
    ∃ m'' e'' h'', (∀ s s', mod (.finite s m e h) (.finite s' m' e' h') =
        .finite s m'' e'' h'') ∧
      magnitude m'' e'' = (wholePart m e % wholePart m' e' : Nat) := by
  obtain ⟨k, p, hk, htrunc, hvalue⟩ := exists_trunc h
  obtain ⟨k', p', hk', htrunc', hvalue'⟩ := exists_trunc h'
  have hpos : k' ≠ 0 := by
    rintro rfl
    rw [magnitude, Nat.cast_zero, zero_mul, eq_comm, Nat.cast_eq_zero] at hvalue'
    exact hwhole hvalue'
  obtain ⟨m'', e'', h'', hremainder, hrest⟩ := exists_remainder hk hk' hpos
  refine ⟨m'', e'', h'', fun s s' ↦ ?_, ?_⟩
  · rw [mod, htrunc, htrunc', hremainder]
  · rw [hrest, hvalue, hvalue', rest_natCast]

theorem mod_eq_nan_of_wholePart (s s' : Bool) (h : Canonical m e) (h' : Canonical m' e')
    (hwhole : wholePart m' e' = 0) : mod (.finite s m e h) (.finite s' m' e' h') = .nan := by
  obtain ⟨k, p, hk, htrunc, _⟩ := exists_trunc h
  have htrunc' : trunc (.finite s' m' e' h') = zero s' := by
    rw [trunc, hwhole, ofQuotient, if_pos rfl]
  rw [mod, htrunc, htrunc', zero, remainder, if_pos rfl]

end Remainder

theorem towardZero_value (s : Bool) (m : Nat) (e : Int) :
    towardZero (withSign s (magnitude m e)) = withSign s (wholePart m e : Int) := by
  rw [towardZero_withSign s (magnitude_nonneg m e), floor_magnitude]

theorem remainder_nan (x : Binary64) : remainder x .nan = .nan := by
  cases x <;> rfl

theorem nan_mod (b : Binary64) : mod .nan b = .nan := by
  unfold mod
  cases b.trunc <;> rfl

theorem infinite_mod (s : Bool) (b : Binary64) : mod (.infinite s) b = .nan := by
  unfold mod
  cases b.trunc <;> rfl

/-- There is no remainder of what has no finite value, nor by what is cut to zero. -/
theorem mod_eq_nan_iff (a b : Binary64) :
    a.mod b = .nan ↔ a = .nan ∨ b = .nan ∨ (∃ s, a = .infinite s) ∨
      ∃ v, b.toRat? = some v ∧ |v| < 1 := by
  match a, b with
  | .nan, b => simp [nan_mod]
  | .infinite s, b => simp [infinite_mod]
  | .finite s m e h, .nan =>
    simp [mod, show trunc .nan = .nan from rfl, remainder_nan]
  | .finite s m e h, .infinite s' =>
    obtain ⟨k, p, hk, htrunc, -⟩ := exists_trunc h
    simp [mod, htrunc, show trunc (.infinite s') = .infinite s' from rfl, remainder, toRat?]
  | .finite s m e h, .finite s' m' e' h' =>
    have hvalue (v : ℚ) : toRat? (.finite s' m' e' h') = some v ∧ |v| < 1 ↔
        withSign s' (magnitude m' e') = v ∧ |v| < 1 := by
      rw [toRat?, Option.some.injEq]
    simp only [reduceCtorEq, false_or, exists_false, hvalue, exists_eq_left', abs_value,
      ← wholePart_eq_zero_iff]
    refine ⟨fun hnan ↦ ?_, mod_eq_nan_of_wholePart s s' h h'⟩
    by_contra hwhole
    obtain ⟨m'', e'', h'', hmod, -⟩ := mod_finite h h' hwhole
    exact absurd ((hmod s s').symm.trans hnan) (by simp)

/-- The remainder by an infinity is the integer part. -/
theorem mod_infinite {a : Binary64} {u : ℚ} (ha : a.toRat? = some u) (s : Bool) :
    a.mod (.infinite s) = a.trunc ∧ a.trunc.toRat? = some (towardZero u : ℚ) ∧
      a.trunc.isNegative = a.isNegative := by
  obtain ⟨s', m, e, h, rfl, rfl⟩ := exists_finite_of_toRat? ha
  obtain ⟨k, p, hk, htrunc, hvalue⟩ := exists_trunc h
  refine ⟨?_, ?_, ?_⟩
  · rw [mod, htrunc]
    rfl
  · rw [htrunc, toRat?, hvalue, towardZero_value, cast_withSign, Int.cast_natCast]
  · rw [htrunc]
    rfl

/-- The remainder of numbers cut to integers is the remainder of the integers. -/
theorem mod_of_one_le {a b : Binary64} {u v : ℚ} (ha : a.toRat? = some u) (hb : b.toRat? = some v)
    (hv : 1 ≤ |v|) :
    (a.mod b).toRat? = some ((towardZero u).tmod (towardZero v) : ℚ) ∧
      (a.mod b).isNegative = a.isNegative ∧ towardZero v ≠ 0 := by
  obtain ⟨s, m, e, h, rfl, rfl⟩ := exists_finite_of_toRat? ha
  obtain ⟨s', m', e', h', rfl, rfl⟩ := exists_finite_of_toRat? hb
  rw [abs_value] at hv
  have hwhole : wholePart m' e' ≠ 0 := mt wholePart_eq_zero_iff.mp (not_lt.mpr hv)
  obtain ⟨m'', e'', h'', hmod, hvalue⟩ := mod_finite h h' hwhole
  refine ⟨?_, ?_, ?_⟩
  · rw [hmod, toRat?, hvalue, towardZero_value, towardZero_value, withSign_tmod_withSign,
      cast_withSign, ← Int.ofNat_tmod, Int.cast_natCast]
  · rw [hmod]
    rfl
  · rw [towardZero_value, ← abs_ne_zero, abs_withSign, abs_ne_zero]
    exact Int.natCast_ne_zero.mpr hwhole

theorem trunc_neg (b : Binary64) : b.neg.trunc = b.trunc.neg := by
  match b with
  | .nan | .infinite _ => rfl
  | .finite s m e h =>
    obtain ⟨k, p, hk, htrunc, -⟩ := exists_trunc h
    rw [neg, htrunc, htrunc, neg]

theorem remainder_neg (x y : Binary64) : remainder x y.neg = remainder x y := by
  cases x <;> cases y <;> rfl

/-- The integer remainder on operands cut to integers is exact: the quotient is cut toward zero,
nothing is rounded, and the sign of the divisor does not matter. -/
theorem mod_is_integer_remainder (a b : Binary64) :
    (a.mod b = .nan ↔ a = .nan ∨ b = .nan ∨ (∃ s, a = .infinite s) ∨
      ∃ v, b.toRat? = some v ∧ |v| < 1) ∧
    (∀ u s, a.toRat? = some u → b = .infinite s →
      a.mod b = a.trunc ∧ (a.mod b).toRat? = some (towardZero u : ℚ) ∧
        (a.mod b).isNegative = a.isNegative) ∧
    (∀ u v, a.toRat? = some u → b.toRat? = some v → 1 ≤ |v| →
      ∃ r : Int, r = towardZero u - towardZero v * (towardZero u).tdiv (towardZero v) ∧
        (a.mod b).toRat? = some (r : ℚ) ∧ |r| < |towardZero v| ∧
        (a.mod b).isNegative = a.isNegative) ∧
    a.mod b = a.mod b.neg := by
  refine ⟨mod_eq_nan_iff a b, ?_, ?_, ?_⟩
  · rintro u s ha rfl
    obtain ⟨hmod, hvalue, hsign⟩ := mod_infinite ha s
    rw [hmod]
    exact ⟨rfl, hvalue, hsign⟩
  · intro u v ha hb hv
    obtain ⟨hvalue, hsign, hdivisor⟩ := mod_of_one_le ha hb hv
    refine ⟨(towardZero u).tmod (towardZero v), Int.tmod_def _ _, hvalue, ?_, hsign⟩
    calc |(towardZero u).tmod (towardZero v)|
        = ((towardZero u).natAbs % (towardZero v).natAbs : Nat) := by
          rw [Int.abs_eq_natAbs, Int.natAbs_tmod]
      _ < (towardZero v).natAbs :=
          Nat.cast_lt.mpr (Nat.mod_lt _ (Int.natAbs_pos.mpr hdivisor))
      _ = |towardZero v| := (Int.abs_eq_natAbs _).symm
  · rw [mod, mod, trunc_neg, remainder_neg]

/-- Minus seven leaves minus one by three, which a quotient cut downward would not. -/
theorem mod_is_integer_remainder_of_seven :
    (ofInt (-7)).toRat? = some (-7) ∧ (ofInt 3).toRat? = some 3 ∧ 1 ≤ |(3 : ℚ)| ∧
      (mod (ofInt (-7)) (ofInt 3)).toRat? = some (-1) := by
  have hseven : (ofInt (-7)).toRat? = some (-7) := by
    rw [show ofInt (-7) = .finite true (7 * 2 ^ 50) (-50) (by decide) by decide +kernel]
    norm_num [toRat?, withSign, magnitude]
  have hthree : (ofInt 3).toRat? = some 3 := by
    rw [show ofInt 3 = .finite false (3 * 2 ^ 51) (-51) (by decide) by decide +kernel]
    norm_num [toRat?, withSign, magnitude]
  have habs : 1 ≤ |(3 : ℚ)| := by norm_num
  obtain ⟨r, hr, hvalue, -⟩ :=
    (mod_is_integer_remainder (ofInt (-7)) (ofInt 3)).2.2.1 (-7) 3 hseven hthree habs
  have hone : r = -1 := by
    rw [hr]
    norm_num [towardZero]
    decide
  refine ⟨hseven, hthree, habs, ?_⟩
  rw [hvalue, hone]
  norm_num

end Reckon.Binary64
