import Reckon.Proofs.Binary64.Nearest
import Reckon.Proofs.Decimal.Positional
import Reckon.Token

/-!
# Literals are rounded once

A literal of any length denotes a rational number, and the token that is read from it holds the
number nearest to this rational. So the token depends on nothing but the rational: zeros at either
end do not matter, and a greater rational never gives a smaller token. A text that denotes nothing
is refused with the text itself.
-/

namespace Reckon

namespace Numeral

/-- The number that digits denote with a point behind some of them, or with none. -/
inductive Denotes : List Char → ℚ → Prop where
  | whole {ds : List Char} (hne : ds ≠ []) (hdigits : ∀ c ∈ ds, c.isDigit = true) :
      Denotes ds (Nat.ofDigitChars 10 ds 0)
  | point {ds fs : List Char} (hds : ds ≠ []) (hfs : fs ≠ [])
      (hdigits : ∀ c ∈ ds ++ fs, c.isDigit = true) :
      Denotes (ds ++ '.' :: fs)
        (Nat.ofDigitChars 10 ds 0 + Nat.ofDigitChars 10 fs 0 / 10 ^ fs.length)

theorem toRat_eq_add (n : Numeral) :
    n.toRat = Nat.ofDigitChars 10 n.whole 0 +
      Nat.ofDigitChars 10 n.fraction 0 / 10 ^ n.fraction.length := by
  have hpower : (Nat.pow 10 n.fraction.length : Nat) = (10 : ℚ) ^ n.fraction.length :=
    Nat.cast_pow 10 _
  rw [← n.quotient_eq_toRat, hpower, Nat.ofDigitChars_append, Nat.ofDigitChars_eq_ofDigitChars_zero]
  push_cast
  rw [add_div, mul_div_cancel_left₀ _ (pow_ne_zero _ (by norm_num))]

theorem denotes_iff {text : List Char} {q : ℚ} :
    Denotes text q ↔ ∃ n : Numeral, n.text = text ∧ n.toRat = q := by
  constructor
  · intro h
    cases h with
    | whole hne hdigits =>
      refine ⟨⟨text, [], hne, by rwa [List.append_nil]⟩, rfl, ?_⟩
      rw [toRat_eq_add]
      simp
    | @point ds fs hds hfs hdigits =>
      refine ⟨⟨ds, fs, hds, hdigits⟩, ?_, toRat_eq_add _⟩
      obtain ⟨c, cs, rfl⟩ := List.exists_cons_of_ne_nil hfs
      rfl
  · rintro ⟨⟨ds, fs, hds, hdigits⟩, rfl, rfl⟩
    rw [toRat_eq_add]
    cases fs with
    | nil =>
      rw [List.append_nil] at hdigits
      simpa [text] using Denotes.whole hds hdigits
    | cons c cs => exact .point hds (List.cons_ne_nil c cs) hdigits

theorem Denotes.nonneg {text : List Char} {q : ℚ} (h : Denotes text q) : 0 ≤ q := by
  cases h with
  | whole => exact Nat.cast_nonneg _
  | point => positivity

/-! ## Zeros -/

section Zeros

variable {text : List Char} {q : ℚ}

theorem ofDigitChars_zeros_append (count : Nat) (ds : List Char) :
    Nat.ofDigitChars 10 (List.replicate count '0' ++ ds) 0 = Nat.ofDigitChars 10 ds 0 := by
  rw [Nat.ofDigitChars_append, Nat.ofDigitChars_replicate_zero, Nat.mul_zero]

theorem Denotes.zeros_append (h : Denotes text q) (count : Nat) :
    Denotes (List.replicate count '0' ++ text) q := by
  cases h with
  | whole hne hdigits =>
    rw [← ofDigitChars_zeros_append count]
    exact .whole (List.append_ne_nil_of_right_ne_nil _ hne)
      (List.forall_mem_append.mpr ⟨Decimal.isDigit_of_mem_zeros, hdigits⟩)
  | @point ds fs hds hfs hdigits =>
    rw [← ofDigitChars_zeros_append count ds, ← List.append_assoc]
    refine .point (List.append_ne_nil_of_right_ne_nil _ hds) hfs ?_
    rw [List.append_assoc]
    exact List.forall_mem_append.mpr ⟨Decimal.isDigit_of_mem_zeros, hdigits⟩

theorem Denotes.append_zeros (h : Denotes text q) (hpoint : '.' ∈ text) (count : Nat) :
    Denotes (text ++ List.replicate count '0') q := by
  cases h with
  | whole hne hdigits => exact absurd (hdigits _ hpoint) (by decide)
  | @point ds fs hds hfs hdigits =>
    have hfraction : ((Nat.ofDigitChars 10 fs 0 : Nat) : ℚ) / 10 ^ fs.length =
        (Nat.ofDigitChars 10 (fs ++ List.replicate count '0') 0 : Nat) /
          10 ^ (fs ++ List.replicate count '0').length := by
      rw [Nat.ofDigitChars_append, Nat.ofDigitChars_replicate_zero, List.length_append,
        List.length_replicate, pow_add, mul_comm ((10 : ℚ) ^ fs.length)]
      push_cast
      exact (mul_div_mul_left _ _ (pow_ne_zero _ (by norm_num))).symm
    rw [hfraction, List.append_assoc, List.cons_append]
    refine .point hds (List.append_ne_nil_of_left_ne_nil hfs _) ?_
    rw [← List.append_assoc]
    exact List.forall_mem_append.mpr ⟨hdigits, Decimal.isDigit_of_mem_zeros⟩

theorem Denotes.append_point_zeros (h : Denotes text q) (hpoint : '.' ∉ text) (count : Nat) :
    Denotes (text ++ '.' :: List.replicate (count + 1) '0') q := by
  cases h with
  | whole hne hdigits =>
    have hfraction : (Nat.ofDigitChars 10 text 0 : ℚ) = Nat.ofDigitChars 10 text 0 +
        (Nat.ofDigitChars 10 (List.replicate (count + 1) '0') 0 : Nat) /
          10 ^ (List.replicate (count + 1) '0').length := by
      rw [Nat.ofDigitChars_replicate_zero, Nat.mul_zero, Nat.cast_zero, zero_div, add_zero]
    rw [hfraction]
    exact .point hne (List.cons_ne_nil _ _)
      (List.forall_mem_append.mpr ⟨hdigits, Decimal.isDigit_of_mem_zeros⟩)
  | point => exact absurd (List.mem_append_right _ List.mem_cons_self) hpoint

end Zeros

end Numeral

namespace Token

open Binary64 (RoundingOf)
open Numeral (Denotes)

section Literals

variable {text other : List Char} {q q' : ℚ}

theorem ofNumber_of_not_denotes (h : ¬ ∃ q, Denotes text q) :
    ofNumber text = .error (.malformedNumber text) := by
  cases hread : Numeral.ofText? text with
  | none => rw [ofNumber, hread]
  | some n =>
    exact absurd ⟨n.toRat, Numeral.denotes_iff.mpr ⟨n, Numeral.text_of_ofText? hread, rfl⟩⟩ h

/-- The number that is read depends on the rational only, and rounds it. -/
theorem exists_ofNumber_of_denotes (h : Denotes text q) :
    ∃ x, RoundingOf q x ∧ ∀ other, Denotes other q → ofNumber other = .ok (.value x) := by
  obtain ⟨n, _, rfl⟩ := Numeral.denotes_iff.mp h
  have hden : 0 < Nat.pow 10 n.fraction.length := Nat.pow_pos (by decide)
  refine ⟨n.value, ?_, fun other hother ↦ ?_⟩
  · rw [← n.quotient_eq_toRat]
    exact Binary64.roundingOf_ofQuotient _ hden
  · obtain ⟨n', rfl, hsame⟩ := Numeral.denotes_iff.mp hother
    rw [ofNumber, Numeral.ofText?_text]
    dsimp only
    rw [n'.value_eq_ofQuotient hden (n.quotient_eq_toRat.trans hsame.symm)]
    rfl

theorem ofNumber_congr (h : Denotes text q) (hother : Denotes other q) :
    ofNumber other = ofNumber text := by
  obtain ⟨x, _, hread⟩ := exists_ofNumber_of_denotes h
  rw [hread _ hother, hread _ h]

theorem ofNumber_mono (h : Denotes text q) (hother : Denotes other q') (hle : q ≤ q') :
    ∃ x y, ofNumber text = .ok (.value x) ∧ ofNumber other = .ok (.value y) ∧ x.AtMost y := by
  obtain ⟨x, hx, hread⟩ := exists_ofNumber_of_denotes h
  rcases hle.eq_or_lt with rfl | hlt
  · exact ⟨x, x, hread _ h, hread _ hother, hx.atMost_self⟩
  · obtain ⟨y, hy, hread'⟩ := exists_ofNumber_of_denotes hother
    exact ⟨x, y, hread _ h, hread' _ hother, hx.mono hy hlt⟩

/-- A text is a literal exactly if it denotes a rational, and then the number nearest to this
rational is read, whatever the length. The limits of zero and infinity are half a unit away from
the least positive and the greatest finite number. -/
theorem ofNumber_rounds_denoted (text : List Char) :
    ((∃ token, ofNumber text = .ok token) ↔ ∃ q, Denotes text q) ∧
      ((¬ ∃ q, Denotes text q) → ofNumber text = .error (.malformedNumber text)) ∧
      (Fault.malformedNumber text).kind.name = "NumberFormatError" ∧
      (Fault.malformedNumber text).text? = some text ∧
      ∀ q, Denotes text q →
        (∃ x, ofNumber text = .ok (.value x) ∧ RoundingOf q x ∧
          (x = .infinite false ↔ 2 ^ 1024 - 2 ^ 970 ≤ q) ∧
          (x = .zero false ↔ q ≤ 2 ^ (-1075 : Int)) ∧ x ≠ .nan ∧ x.isNegative = false) ∧
        (∀ other, Denotes other q → ofNumber other = ofNumber text) ∧
        (∀ count, ofNumber (List.replicate count '0' ++ text) = ofNumber text) ∧
        (∀ count, '.' ∈ text → ofNumber (text ++ List.replicate count '0') = ofNumber text) ∧
        (∀ count, '.' ∉ text →
          ofNumber (text ++ '.' :: List.replicate (count + 1) '0') = ofNumber text) ∧
        ∀ other q', Denotes other q' → q ≤ q' →
          ∃ x y, ofNumber text = .ok (.value x) ∧ ofNumber other = .ok (.value y) ∧ x.AtMost y := by
  refine ⟨⟨fun hread ↦ ?_, fun ⟨q, hq⟩ ↦ ?_⟩, ofNumber_of_not_denotes, rfl, rfl, fun q hq ↦ ?_⟩
  · by_contra hnothing
    obtain ⟨token, htoken⟩ := hread
    cases htoken.symm.trans (ofNumber_of_not_denotes hnothing)
  · obtain ⟨x, _, hread⟩ := exists_ofNumber_of_denotes hq
    exact ⟨_, hread _ hq⟩
  · obtain ⟨x, hx, hread⟩ := exists_ofNumber_of_denotes hq
    refine ⟨⟨x, hread _ hq, hx, hx.eq_infinite_iff, hx.eq_zero_iff hq.nonneg, hx.ne_nan,
      hx.isNegative_eq_false⟩, ?_, ?_, ?_, ?_, ?_⟩
    · exact fun other hother ↦ ofNumber_congr hq hother
    · exact fun count ↦ ofNumber_congr hq (hq.zeros_append count)
    · exact fun count hpoint ↦ ofNumber_congr hq (hq.append_zeros hpoint count)
    · exact fun count hpoint ↦ ofNumber_congr hq (hq.append_point_zeros hpoint count)
    · exact fun other q' hother hle ↦ ofNumber_mono hq hother hle

/-- Halfway between `2 ^ 53` and the number after it the even one is read. -/
theorem ofNumber_rounds_denoted_halfway :
    Denotes "9007199254740993".toList 9007199254740993 ∧
      ofNumber "9007199254740993".toList =
        .ok (.value (.finite false 0x10000000000000 1 (by decide))) ∧
      RoundingOf 9007199254740993 (.finite false 0x10000000000000 1 (by decide)) := by
  have hwhole : Denotes "9007199254740993".toList
      (Nat.ofDigitChars 10 "9007199254740993".toList 0 : Nat) :=
    .whole (by decide) (List.all_eq_true.mp (by decide))
  have hdigits : Nat.ofDigitChars 10 "9007199254740993".toList 0 = 9007199254740993 := by decide
  rw [hdigits] at hwhole
  obtain ⟨x, hx, hround, -⟩ := ((ofNumber_rounds_denoted _).2.2.2.2 _ hwhole).1
  have hread : ofNumber "9007199254740993".toList =
      .ok (.value (.finite false 0x10000000000000 1 (by decide))) := by rfl
  cases hread.symm.trans hx
  exact ⟨hwhole, hread, hround⟩

end Literals

end Token

end Reckon
