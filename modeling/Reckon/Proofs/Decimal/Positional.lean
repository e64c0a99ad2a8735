import Reckon.Decimal.Numeral
import Reckon.Proofs.Decimal.Shortest

/-!
# Positional texts are numerals

A positional text has a digit on each side of its point, whatever the order, so it is the text of
a numeral. The numeral denotes the rational number that the digits denote: zeros are only filled
in before the first digit or behind the last one.
-/

namespace Reckon

namespace Numeral

/-- The rational number that a numeral denotes. -/
def toRat (n : Numeral) : ℚ :=
  Decimal.placed (n.whole ++ n.fraction) (n.whole.length - 1)

/-- The quotient that is rounded is the number that is denoted. -/
theorem quotient_eq_toRat (n : Numeral) :
    ((Nat.ofDigitChars 10 (n.whole ++ n.fraction) 0 : Nat) : ℚ) /
      (Nat.pow 10 n.fraction.length : Nat) = n.toRat := by
  rw [toRat, Decimal.placed, List.length_append, div_eq_mul_inv]
  congr 1
  calc ((Nat.pow 10 n.fraction.length : Nat) : ℚ)⁻¹ = (10 : ℚ) ^ (-(n.fraction.length : Int)) := by
        rw [zpow_neg, zpow_natCast]
        exact congrArg Inv.inv (Nat.cast_pow 10 _)
    _ = 10 ^ ((n.whole.length : Int) - 1 + 1 - (n.whole.length + n.fraction.length : Nat)) := by
        congr 1
        push_cast
        ring

theorem value_eq_ofQuotient (n : Numeral) {num den : Nat} (hden : 0 < den)
    (h : (num : ℚ) / den = n.toRat) : n.value = Binary64.ofQuotient false num den :=
  Binary64.ofQuotient_congr false (Nat.pow_pos (by decide)) hden (n.quotient_eq_toRat.trans h.symm)

end Numeral

namespace Layout

variable {ds : List Char} {order : Int}

/-- The numeral with a point after some digits, and more digits behind it. -/
theorem exists_numeral_point {whole fraction : List Char} (hwhole : whole ≠ [])
    (hfraction : fraction ≠ []) (hdigits : ∀ c ∈ whole ++ fraction, c.isDigit = true) :
    ∃ n : Numeral, n.text = whole ++ '.' :: fraction ∧
      n.toRat = Decimal.placed (whole ++ fraction) (whole.length - 1) := by
  refine ⟨⟨whole, fraction, hwhole, hdigits⟩, ?_, rfl⟩
  obtain ⟨c, rest, rfl⟩ := List.exists_cons_of_ne_nil hfraction
  rfl

/-- A positional text is the text of a numeral with the value of its digits. -/
theorem exists_numeral_positional (hne : ds ≠ []) (hdigits : ∀ c ∈ ds, c.isDigit = true)
    (order : Int) :
    ∃ n : Numeral, n.text = shortest.positional ds order ∧ n.toRat = Decimal.placed ds order := by
  have hzeros (count : Nat) : ∀ c ∈ List.replicate count '0', c.isDigit = true :=
    Decimal.isDigit_of_mem_zeros
  rcases lt_or_ge order 0 with hneg | hnonneg
  · -- Zeros are filled in before the first digit.
    obtain ⟨count, hcount⟩ : ∃ count, count = (-order - 1).toNat := ⟨_, rfl⟩
    obtain ⟨n, htext, hvalue⟩ := @exists_numeral_point ['0'] (List.replicate count '0' ++ ds)
      (by simp) (by simp [hne]) (List.forall_mem_append.mpr
        ⟨hzeros 1, List.forall_mem_append.mpr ⟨hzeros count, hdigits⟩⟩)
    refine ⟨n, ?_, ?_⟩
    · rw [htext, positional, if_pos hneg, hcount, List.append_assoc]
      rfl
    · rw [hvalue, ← Decimal.placed_zeros_append ds (count + 1) order]
      congr 1
      push_cast
      rw [List.length_singleton]
      omega
  · obtain ⟨count, hcount⟩ : ∃ count, count = order.toNat + 1 := ⟨_, rfl⟩
    have horder : order = (count : Int) - 1 := by omega
    rw [positional, if_neg (not_lt.mpr hnonneg), ← hcount]
    dsimp only
    split
    · next hall =>
      -- Zeros are filled in behind the last digit, up to the point and one behind it.
      have hlength : ds.length ≤ count := List.drop_eq_nil_iff.mp hall
      obtain ⟨n, htext, hvalue⟩ :=
        @exists_numeral_point (ds ++ List.replicate (count - ds.length) '0') ['0'] (by simp [hne])
          (by simp) (List.forall_mem_append.mpr
            ⟨List.forall_mem_append.mpr ⟨hdigits, hzeros _⟩, hzeros 1⟩)
      refine ⟨n, ?_, ?_⟩
      · rw [htext, List.take_of_length_le hlength]
        rfl
      · rw [hvalue, List.append_assoc,
          show List.replicate (count - ds.length) '0' ++ ['0'] =
            List.replicate (count - ds.length + 1) '0' from List.replicate_succ'.symm,
          Decimal.placed_append_zeros, List.length_append, List.length_replicate, horder]
        congr 1
        omega
    · next hsome =>
      have hlength : count < ds.length := not_le.mp (mt List.drop_eq_nil_iff.mpr hsome)
      obtain ⟨n, htext, hvalue⟩ := @exists_numeral_point (ds.take count) (ds.drop count)
        (by simp [hne]; omega) hsome (by rwa [List.take_append_drop])
      refine ⟨n, ?_, ?_⟩
      · rw [htext, Nat.sub_eq_zero_of_le hlength.le, List.replicate_zero, List.append_nil]
      · rw [hvalue, List.take_append_drop, List.length_take, Nat.min_eq_left hlength.le, horder]

end Layout

namespace Binary64

variable {m : Nat} {e : Int}

/-- The positional digits of a magnitude are the text of a numeral that rounds to it. -/
theorem exists_numeral_magnitude (h : Canonical m e)
    (hmoderate : m = 0 ∨ 1 / 10000 ≤ magnitude m e ∧ magnitude m e < 10 ^ 16) :
    ∃ n : Numeral, (finite false m e h).shortestText = n.text ∧ n.value = .finite false m e h := by
  rcases Nat.eq_zero_or_pos m with rfl | hm
  · obtain ⟨n, htext, hvalue⟩ :=
      @Layout.exists_numeral_positional ['0'] (List.cons_ne_nil _ _)
        (List.all_eq_true.mp (by decide)) 0
    refine ⟨n, ?_, ?_⟩
    · rw [htext]
      rfl
    · have hnothing : ((0 : Nat) : ℚ) / (1 : Nat) = n.toRat := by
        rw [hvalue, Decimal.placed]
        simp [Nat.ofDigitChars]
      have hzero : ((0 : Nat) : ℚ) / (1 : Nat) = magnitude 0 e := by simp [magnitude]
      rw [n.value_eq_ofQuotient Nat.one_pos hnothing,
        ofQuotient_of_eq false h Nat.one_pos hzero]
  · obtain ⟨hreads, hcoefficient, -, -⟩ := Decimal.shortest_spec h hm
    have hpositional :=
      (Decimal.leadingOrder_shortest_iff h hm).mpr (hmoderate.resolve_left hm.ne')
    generalize hd : Decimal.shortest m e h = d at hreads hcoefficient hpositional
    obtain ⟨n, htext, hvalue⟩ := Layout.exists_numeral_positional
      (Decimal.trimZeros_ne_nil hcoefficient) (fun _ ↦ Decimal.isDigit_of_mem_trimZeros)
      d.leadingOrder
    rw [Decimal.placed_trimZeros, Decimal.placed_digits] at hvalue
    refine ⟨n, ?_, ?_⟩
    · rw [htext]
      change (if m = 0 then _ else Layout.shortest.writeDecimal (Decimal.shortest m e h)) = _
      rw [if_neg hm.ne', hd]
      exact if_pos hpositional
    · rw [Decimal.readsAs, beq_iff_eq] at hreads
      rw [n.value_eq_ofQuotient (Decimal.tenTo_pos _) ((Decimal.ofDecimal_value d).trans hvalue.symm)]
      exact hreads

end Binary64

end Reckon
