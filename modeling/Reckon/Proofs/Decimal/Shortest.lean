import Mathlib.Algebra.Order.Floor.Semifield
import Reckon.Proofs.Binary64.Closeness
import Reckon.Proofs.Decimal.Digits

/-!
# Decimals that read back

With seventeen significant digits the nearest decimal is so close to a number that it reads back,
so the search for a shortest one finds one. Whatever it finds is one of the two neighbours of the
number at some place. These lie between the powers of ten around the number, and so the decimal
has the order of the number, unless it is the next power of ten itself. The two powers of ten
where positional notation starts and ends are settled by reading them.
-/

namespace Reckon.Decimal

open Binary64 (Canonical magnitude numerator denominator)

/-! ## Neighbours -/

/-- A decimal at a place that is next to a rational. -/
structure Neighbours (q : ℚ) (place : Int) (d : Decimal) : Prop where
  exponent_eq : d.exponent = place
  coefficient_eq : d.coefficient = ⌊q / 10 ^ place⌋₊ ∨ d.coefficient = ⌊q / 10 ^ place⌋₊ + 1

section Quotient

variable {num den : Nat}

theorem floor_inUnits (num den : Nat) (place : Int) :
    ⌊(num : ℚ) / den / 10 ^ place⌋₊ = (inUnits num den place).1 / (inUnits num den place).2 := by
  rw [← inUnits_div, Nat.floor_div_eq_div]

theorem neighbours_nearest (num den : Nat) (place : Int) :
    Neighbours (num / den) place (nearest num den place) where
  exponent_eq := rfl
  coefficient_eq := by
    rw [floor_inUnits]
    exact Binary64.nearestQuotient_eq_or _ _

theorem neighbours_otherNeighbour (num den : Nat) (place : Int) :
    Neighbours (num / den) place (otherNeighbour num den place) where
  exponent_eq := rfl
  coefficient_eq := by
    rw [floor_inUnits, otherNeighbour]
    dsimp only
    split
    · exact .inr rfl
    · exact .inl rfl

/-- A neighbour of a rational lies between the powers of ten around it. -/
theorem Neighbours.bounds {q : ℚ} (hq : 0 < q) {count : Nat} (hcount : 0 < count) {d : Decimal}
    (h : Neighbours q (Int.log 10 q - count + 1) d) :
    0 < d.coefficient ∧ 10 ^ Int.log 10 q ≤ d.toRat ∧ d.toRat ≤ 10 ^ (Int.log 10 q + 1) := by
  obtain ⟨order, horder⟩ : ∃ order, order = Int.log 10 q := ⟨_, rfl⟩
  obtain ⟨places, rfl⟩ : ∃ places, count = places + 1 := ⟨count - 1, by omega⟩
  have hplace : Int.log 10 q - (places + 1 : Nat) + 1 = order - places := by
    push_cast
    omega
  obtain ⟨hexponent, hcoefficient⟩ := h
  rw [hplace] at hexponent hcoefficient
  rw [← horder]
  have hunit : (0 : ℚ) < 10 ^ (order - places) := zpow_pos (by norm_num) _
  have hunits (k : Nat) :
      ((10 ^ k : Nat) : ℚ) * 10 ^ (order - places) = 10 ^ (order - places + k) := by
    push_cast
    rw [← zpow_natCast, ← zpow_add₀ (by norm_num)]
    congr 1
    ring
  have hlower : 10 ^ places ≤ ⌊q / 10 ^ (order - places)⌋₊ := by
    apply Nat.le_floor
    rw [le_div_iff₀ hunit, hunits, sub_add_cancel, horder]
    exact_mod_cast Int.zpow_log_le_self (by decide : 1 < 10) hq
  have hupper : ⌊q / 10 ^ (order - places)⌋₊ < 10 ^ (places + 1) := by
    rw [Nat.floor_lt (div_nonneg hq.le hunit.le), div_lt_iff₀ hunit, hunits]
    push_cast
    rw [← add_assoc, sub_add_cancel, horder]
    exact_mod_cast Int.lt_zpow_succ_log_self (by decide : 1 < 10) q
  have hbetween : 10 ^ places ≤ d.coefficient ∧ d.coefficient ≤ 10 ^ (places + 1) := by omega
  refine ⟨lt_of_lt_of_le (Nat.pow_pos (by decide)) hbetween.1, ?_, ?_⟩
  · calc (10 : ℚ) ^ order = ((10 ^ places : Nat) : ℚ) * 10 ^ (order - places) := by
          rw [hunits, sub_add_cancel]
      _ ≤ d.toRat := by
          rw [toRat, hexponent]
          exact mul_le_mul_of_nonneg_right (Nat.cast_le.mpr hbetween.1) hunit.le
  · calc d.toRat ≤ ((10 ^ (places + 1) : Nat) : ℚ) * 10 ^ (order - places) := by
          rw [toRat, hexponent]
          exact mul_le_mul_of_nonneg_right (Nat.cast_le.mpr hbetween.2) hunit.le
      _ = 10 ^ (order + 1) := by
          rw [hunits]
          congr 1
          push_cast
          ring

end Quotient

/-! ## Seventeen digits -/

section Shortest

variable {m : Nat} {e : Int}

/-- The nearest decimal is at most half a unit of its last place away. -/
theorem abs_toRat_nearest_sub_le (num : Nat) {den : Nat} (hden : 0 < den) (place : Int) :
    |(nearest num den place).toRat - num / den| ≤ (1 / 2 : ℚ) * 10 ^ place := by
  have hunit : (0 : ℚ) < 10 ^ place := zpow_pos (by norm_num) _
  have hnearest := @Binary64.abs_nearestQuotient_sub_le (inUnits num den place).1 _
    (inUnits_pos num hden place)
  rw [inUnits_div] at hnearest
  calc |(nearest num den place).toRat - num / den|
      = |(((nearest num den place).coefficient : ℚ) - num / den / 10 ^ place) * 10 ^ place| := by
        rw [sub_mul, div_mul_cancel₀ _ hunit.ne']
        rfl
    _ = |((nearest num den place).coefficient : ℚ) - num / den / 10 ^ place| * 10 ^ place := by
        rw [abs_mul, abs_of_pos hunit]
    _ ≤ 1 / 2 * 10 ^ place := mul_le_mul_of_nonneg_right hnearest hunit.le

/-- The nearest decimal with seventeen digits reads back. -/
theorem readsAs_significant (h : Canonical m e) (hm : 0 < m) :
    (significant 17 (numerator m e) (denominator e)).readsAs (.finite false m e h) = true := by
  have hpos := Binary64.magnitude_pos hm e
  have hden := Binary64.denominator_pos e
  obtain ⟨place, hplace⟩ : ∃ place, place = Int.log 10 (magnitude m e) - 16 := ⟨_, rfl⟩
  have hsignificant : significant 17 (numerator m e) (denominator e) =
      nearest (numerator m e) (denominator e) place := by
    rw [significant, order_eq_log (Binary64.numerator_pos hm e) hden,
      Binary64.numerator_div_denominator, hplace]
    congr 1
    ring
  have hunit : (0 : ℚ) < 10 ^ place := zpow_pos (by norm_num) _
  -- A unit of the last place is less than one part in `2 ^ 53`.
  have hpower : 10 ^ 16 * (10 : ℚ) ^ place ≤ magnitude m e := by
    calc 10 ^ 16 * (10 : ℚ) ^ place = 10 ^ Int.log 10 (magnitude m e) := by
          rw [← zpow_natCast, ← zpow_add₀ (by norm_num), hplace]
          congr 1
          push_cast
          ring
      _ ≤ magnitude m e := by exact_mod_cast Int.zpow_log_le_self (by decide : 1 < 10) hpos
  have hnear := abs_toRat_nearest_sub_le (numerator m e) hden place
  rw [Binary64.numerator_div_denominator] at hnear
  rw [readsAs, beq_iff_eq, hsignificant, Binary64.ofDecimal]
  apply Binary64.ofQuotient_of_close false h (tenTo_pos _)
  rw [ofDecimal_value]
  calc 2 ^ 54 * |(nearest (numerator m e) (denominator e) place).toRat - magnitude m e|
      ≤ 2 ^ 54 * (1 / 2 * 10 ^ place) := mul_le_mul_of_nonneg_left hnear (by norm_num)
    _ < 10 ^ 16 * 10 ^ place := by
        rw [← mul_assoc]
        exact mul_lt_mul_of_pos_right (by norm_num) hunit
    _ ≤ magnitude m e := hpower

theorem ofCount?_eq_some {x : Binary64} {num den count : Nat} {d : Decimal}
    (h : ofCount? x num den count = some d) :
    d.readsAs x = true ∧ Neighbours (num / den) (order num den - count + 1) d := by
  unfold ofCount? at h
  dsimp only at h
  split at h
  · next hreads =>
    obtain rfl := Option.some.inj h
    exact ⟨hreads, neighbours_nearest _ _ _⟩
  · split at h
    · next hreads =>
      obtain rfl := Option.some.inj h
      exact ⟨hreads, neighbours_otherNeighbour _ _ _⟩
    · cases h

/-- The search succeeds, with a decimal that reads back and lies between the powers of ten around
the number. -/
theorem shortest_spec (h : Canonical m e) (hm : 0 < m) :
    (shortest m e h).readsAs (.finite false m e h) = true ∧ 0 < (shortest m e h).coefficient ∧
      10 ^ Int.log 10 (magnitude m e) ≤ (shortest m e h).toRat ∧
      (shortest m e h).toRat ≤ 10 ^ (Int.log 10 (magnitude m e) + 1) := by
  have hnum := Binary64.numerator_pos hm e
  have hden := Binary64.denominator_pos e
  have hsome : ((List.range' 1 17).findSome?
      (ofCount? (.finite false m e h) (numerator m e) (denominator e))).isSome = true := by
    refine List.findSome?_isSome_iff.mpr ⟨17, by decide, ?_⟩
    rw [ofCount?, if_pos (readsAs_significant h hm)]
    rfl
  obtain ⟨d, hd⟩ := Option.isSome_iff_exists.mp hsome
  have hshortest : shortest m e h = d := by
    rw [shortest, hd, Option.getD_some]
  obtain ⟨count, hcount, hfound⟩ := List.exists_of_findSome?_eq_some hd
  obtain ⟨hreads, hneighbours⟩ := ofCount?_eq_some hfound
  rw [order_eq_log hnum hden, Binary64.numerator_div_denominator] at hneighbours
  rw [hshortest]
  have hpositive : 0 < count := by
    rw [List.mem_range'_1] at hcount
    omega
  exact ⟨hreads, hneighbours.bounds (Binary64.magnitude_pos hm e) hpositive⟩

/-! ## Positional notation -/

/-- A number below another one has no shortest decimal that reads as the other one. -/
theorem toRat_shortest_ne (h : Canonical m e) (hm : 0 < m) {num den k : Nat} {p : Int}
    (hden : 0 < den) {hk : Canonical k p}
    (hreads : Binary64.ofQuotient false num den = .finite false k p hk)
    (hlt : magnitude m e < magnitude k p) : (shortest m e h).toRat ≠ num / den := by
  intro heq
  have hback := (shortest_spec h hm).1
  rw [readsAs, beq_iff_eq, ofDecimal_eq false _ hden heq.symm, hreads] at hback
  cases hback
  exact lt_irrefl _ hlt

/-- The shortest decimal is not below a power of ten exactly if the number is not, provided that
the power does not read as a number below it. -/
theorem le_leadingOrder_shortest_iff (h : Canonical m e) (hm : 0 < m) {z : Int} {num den k : Nat}
    {p : Int} (hden : 0 < den) (hpower : (num : ℚ) / den = 10 ^ z) {hk : Canonical k p}
    (hreads : Binary64.ofQuotient false num den = .finite false k p hk)
    (hle : 10 ^ z ≤ magnitude k p) :
    z ≤ (shortest m e h).leadingOrder ↔ 10 ^ z ≤ magnitude m e := by
  obtain ⟨-, hcoefficient, hlower, hupper⟩ := shortest_spec h hm
  have horder : z ≤ (shortest m e h).leadingOrder ↔ 10 ^ z ≤ (shortest m e h).toRat := by
    rw [leadingOrder_eq_log hcoefficient]
    exact_mod_cast (Int.zpow_le_iff_le_log (by decide : 1 < 10) (toRat_pos hcoefficient)).symm
  have hlog : z ≤ Int.log 10 (magnitude m e) ↔ 10 ^ z ≤ magnitude m e := by
    exact_mod_cast
      (Int.zpow_le_iff_le_log (by decide : 1 < 10) (Binary64.magnitude_pos hm e)).symm
  have hmono {a b : Int} (hab : a ≤ b) : (10 : ℚ) ^ a ≤ 10 ^ b :=
    zpow_le_zpow_right₀ (by norm_num) hab
  rw [horder]
  constructor
  · -- Below the power, the decimal could at most be the power itself.
    intro hreached
    by_contra hbelow
    have hsucc : Int.log 10 (magnitude m e) + 1 ≤ z := by
      have := mt hlog.mp hbelow
      omega
    have hne := toRat_shortest_ne h hm hden hreads (lt_of_lt_of_le (not_le.mp hbelow) hle)
    rw [hpower] at hne
    exact hne (le_antisymm (hupper.trans (hmono hsucc)) hreached)
  · intro hreached
    exact (hmono (hlog.mpr hreached)).trans hlower

/-- Positional notation is for the numbers from one in ten thousand to below ten to the sixteenth. -/
theorem leadingOrder_shortest_iff (h : Canonical m e) (hm : 0 < m) :
    Layout.shortest.least ≤ (shortest m e h).leadingOrder ∧
        (shortest m e h).leadingOrder < Layout.shortest.beyond ↔
      1 / 10000 ≤ magnitude m e ∧ magnitude m e < 10 ^ 16 := by
  have hleast : Layout.shortest.least ≤ (shortest m e h).leadingOrder ↔
      (10 : ℚ) ^ (-4 : Int) ≤ magnitude m e :=
    @le_leadingOrder_shortest_iff m e h hm (-4) 1 10000 7378697629483821 (-66) (by decide)
      (by norm_num) (by decide) (by decide +kernel) (by norm_num [magnitude])
  have hbeyond : Layout.shortest.beyond ≤ (shortest m e h).leadingOrder ↔
      (10 : ℚ) ^ (16 : Int) ≤ magnitude m e :=
    @le_leadingOrder_shortest_iff m e h hm 16 (10 ^ 16) 1 (5 ^ 16 * 2 ^ 15) 1 (by decide)
      (by norm_num) (by decide) (by decide +kernel) (by norm_num [magnitude])
  rw [← not_le, ← not_le, hleast, hbeyond]
  norm_num

end Shortest

end Reckon.Decimal
