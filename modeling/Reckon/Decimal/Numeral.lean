import Reckon.Binary64.Rounding

/-!
# Numerals

A numeral is a run of ASCII digits, with or without a point and a further run of digits. It
denotes an exact decimal of any length, which is rounded once.
-/

namespace Reckon

/-- The digits before the point and those after it; without a point there are none after it. -/
structure Numeral where
  whole : List Char
  fraction : List Char
  whole_ne_nil : whole ≠ []
  isDigit_of_mem : ∀ c ∈ whole ++ fraction, c.isDigit = true

namespace Numeral

/-- The numeral of one digit. -/
def ofDigit (c : Char) (h : c.isDigit = true) : Numeral :=
  ⟨[c], [], List.cons_ne_nil c [], by simpa using h⟩

def text (n : Numeral) : List Char :=
  match n.fraction with
  | [] => n.whole
  | c :: cs => n.whole ++ '.' :: c :: cs

def ofDigits? (whole fraction : List Char) : Option Numeral :=
  if h : whole ≠ [] ∧ (whole ++ fraction).all Char.isDigit = true then
    some ⟨whole, fraction, h.1, List.all_eq_true.mp h.2⟩
  else none

def ofText? (text : List Char) : Option Numeral :=
  let whole := text.takeWhile Char.isDigit
  match text.dropWhile Char.isDigit with
  | [] => ofDigits? whole []
  | point :: fraction => if point = '.' ∧ fraction ≠ [] then ofDigits? whole fraction else none

/-- The number nearest to the decimal that the digits denote. -/
def value (n : Numeral) : Binary64 :=
  Binary64.ofQuotient false (Nat.ofDigitChars 10 (n.whole ++ n.fraction) 0) (Nat.pow 10 n.fraction.length)

theorem ofDigits?_eq_some_iff {whole fraction : List Char} {n : Numeral} :
    ofDigits? whole fraction = some n ↔ whole = n.whole ∧ fraction = n.fraction := by
  unfold ofDigits?
  constructor
  · intro h
    split at h
    · cases h
      exact ⟨rfl, rfl⟩
    · cases h
  · rintro ⟨rfl, rfl⟩
    rw [dif_pos ⟨n.whole_ne_nil, List.all_eq_true.mpr n.isDigit_of_mem⟩]

theorem isDigit_of_mem_whole (n : Numeral) {c : Char} (h : c ∈ n.whole) : c.isDigit = true :=
  n.isDigit_of_mem c (List.mem_append_left _ h)

/-- A numeral is read back from its text. -/
theorem ofText?_text (n : Numeral) : ofText? n.text = some n := by
  have hwhole : ∀ c ∈ n.whole, c.isDigit = true := fun c hc ↦ n.isDigit_of_mem_whole hc
  unfold ofText? text
  cases hfraction : n.fraction with
  | nil =>
    have htake : n.whole.takeWhile Char.isDigit = n.whole := by
      rw [← List.append_nil n.whole, List.takeWhile_append_of_pos hwhole, List.takeWhile_nil]
    have hdrop : n.whole.dropWhile Char.isDigit = [] := by
      rw [← List.append_nil n.whole, List.dropWhile_append_of_pos hwhole, List.dropWhile_nil]
    simp only [htake, hdrop]
    exact ofDigits?_eq_some_iff.mpr ⟨rfl, hfraction.symm⟩
  | cons c cs =>
    have hpoint : Char.isDigit '.' = false := by decide
    have htake : (n.whole ++ '.' :: c :: cs).takeWhile Char.isDigit = n.whole := by
      rw [List.takeWhile_append_of_pos hwhole]
      simp [hpoint]
    have hdrop : (n.whole ++ '.' :: c :: cs).dropWhile Char.isDigit = '.' :: c :: cs := by
      rw [List.dropWhile_append_of_pos hwhole]
      simp [hpoint]
    simp only [htake, hdrop]
    simpa using ofDigits?_eq_some_iff.mpr ⟨rfl, hfraction.symm⟩

theorem text_of_ofText? {text : List Char} {n : Numeral} (h : ofText? text = some n) :
    n.text = text := by
  have hsplit : text.takeWhile Char.isDigit ++ text.dropWhile Char.isDigit = text :=
    List.takeWhile_append_dropWhile
  unfold ofText? at h
  unfold Numeral.text
  cases hrest : text.dropWhile Char.isDigit with
  | nil =>
    rw [hrest] at h hsplit
    obtain ⟨hw, hf⟩ := ofDigits?_eq_some_iff.mp h
    rw [← hf, ← hw]
    simpa using hsplit
  | cons point fraction =>
    rw [hrest] at h hsplit
    simp only at h
    split at h
    · next hpoint =>
      obtain ⟨hw, hf⟩ := ofDigits?_eq_some_iff.mp h
      obtain ⟨rfl, hne⟩ := hpoint
      cases fraction with
      | nil => exact absurd rfl hne
      | cons c cs =>
        rw [← hf, ← hw]
        exact hsplit
    · cases h

/-- The texts that can be read are exactly those of numerals. -/
theorem ofText?_eq_some_iff {text : List Char} {n : Numeral} :
    ofText? text = some n ↔ n.text = text :=
  ⟨text_of_ofText?, fun h ↦ h ▸ ofText?_text n⟩

end Numeral

end Reckon
