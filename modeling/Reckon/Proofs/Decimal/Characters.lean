import Mathlib.Data.List.DropRight
import Reckon.Decimal.Layout

/-!
# Characters of numbers

The text of a number holds digits, a point, signs, the mark of an exponent and the letters of
the numbers without digits, and nothing else. So it needs no quotes and ends no record. It holds
at least one digit or letter, so no sign alone is a number.
-/

namespace Reckon

namespace Decimal

theorem isDigit_of_mem_digits {n : Nat} {c : Char} (h : c ∈ digits n) : c.isDigit = true :=
  Nat.isDigit_of_mem_toDigits (by decide) (by decide) h

theorem isDigit_of_mem_zeros {count : Nat} : ∀ c ∈ List.replicate count '0', c.isDigit = true := by
  intro c hc
  rw [List.eq_of_mem_replicate hc]
  decide

theorem trimZeros_isPrefix (ds : List Char) : trimZeros ds <+: ds :=
  List.rdropWhile_prefix (· == '0') ds

theorem isDigit_of_mem_trimZeros {n : Nat} {c : Char} (h : c ∈ trimZeros (digits n)) :
    c.isDigit = true :=
  isDigit_of_mem_digits ((trimZeros_isPrefix _).mem h)

end Decimal

namespace Layout

/-- The characters that texts of numbers are made of. -/
def isMark (c : Char) : Bool :=
  c.isDigit || ['.', '-', '+', 'e', 'i', 'n', 'f', 'a'].contains c

theorem isMark_of_isDigit {c : Char} (h : c.isDigit = true) : isMark c = true := by
  rw [isMark, h, Bool.true_or]

variable {ds : List Char}

/-- The digits before the point, zeros filled in behind the last one. -/
theorem isDigit_of_mem_whole (h : ∀ c ∈ ds, c.isDigit = true) (count : Nat) :
    ∀ c ∈ ds.take count ++ List.replicate (count - ds.length) '0', c.isDigit = true :=
  List.forall_mem_append.mpr
    ⟨fun c hc ↦ h c (List.mem_of_mem_take hc), Decimal.isDigit_of_mem_zeros⟩

theorem isMark_of_mem_positional (layout : Layout) (order : Int)
    (h : ∀ c ∈ ds, c.isDigit = true) : ∀ c ∈ layout.positional ds order, isMark c = true := by
  have hdigits : ∀ c ∈ ds, isMark c = true := fun c hc ↦ isMark_of_isDigit (h c hc)
  have hwhole (count : Nat) :
      ∀ c ∈ ds.take count ++ List.replicate (count - ds.length) '0', isMark c = true :=
    fun c hc ↦ isMark_of_isDigit (isDigit_of_mem_whole h count c hc)
  unfold positional
  split
  · have hpoint : ∀ c ∈ ['0', '.'], isMark c = true := List.all_eq_true.mp (by decide)
    refine List.forall_mem_append.mpr ⟨List.forall_mem_append.mpr ⟨hpoint, ?_⟩, hdigits⟩
    exact fun c hc ↦ isMark_of_isDigit (Decimal.isDigit_of_mem_zeros c hc)
  · dsimp only
    split
    · split
      · exact List.forall_mem_append.mpr ⟨hwhole _, List.all_eq_true.mp (by decide)⟩
      · exact hwhole _
    · next fraction hfraction =>
      refine List.forall_mem_append.mpr ⟨hwhole _, List.forall_mem_cons.mpr ⟨by decide, ?_⟩⟩
      exact fun c hc ↦ hdigits c (List.mem_of_mem_drop hc)

theorem isMark_of_mem_exponentText (order : Int) : ∀ c ∈ exponentText order, isMark c = true := by
  have hsign : ∀ c ∈ ['e', if order < 0 then '-' else '+'], isMark c = true := by
    split <;> exact List.all_eq_true.mp (by decide)
  refine List.forall_mem_append.mpr ⟨List.forall_mem_append.mpr ⟨hsign, ?_⟩, ?_⟩
  · exact fun c hc ↦ isMark_of_isDigit (Decimal.isDigit_of_mem_zeros c hc)
  · exact fun c hc ↦ isMark_of_isDigit (Decimal.isDigit_of_mem_digits hc)

theorem isMark_of_mem_scientific (order : Int) (h : ∀ c ∈ ds, c.isDigit = true) :
    ∀ c ∈ scientific ds order, isMark c = true := by
  have hdigits : ∀ c ∈ ds, isMark c = true := fun c hc ↦ isMark_of_isDigit (h c hc)
  refine List.forall_mem_append.mpr ⟨?_, isMark_of_mem_exponentText order⟩
  split
  · next d e rest =>
    obtain ⟨hd, hrest⟩ := List.forall_mem_cons.mp hdigits
    exact List.forall_mem_cons.mpr ⟨hd, List.forall_mem_cons.mpr ⟨by decide, hrest⟩⟩
  · exact hdigits

theorem isMark_of_mem_write (layout : Layout) (order : Int) (h : ∀ c ∈ ds, c.isDigit = true) :
    ∀ c ∈ layout.write ds order, isMark c = true := by
  unfold write
  split
  · exact layout.isMark_of_mem_positional order h
  · exact isMark_of_mem_scientific order h

theorem isMark_of_mem_writeDecimal (layout : Layout) (d : Decimal) :
    ∀ c ∈ layout.writeDecimal d, isMark c = true :=
  layout.isMark_of_mem_write _ fun _ ↦ Decimal.isDigit_of_mem_trimZeros

/-! ## At least one digit -/

theorem exists_isDigit_positional (layout : Layout) (order : Int)
    (h : ∀ c ∈ ds, c.isDigit = true) : ∃ c ∈ layout.positional ds order, c.isDigit = true := by
  unfold positional
  split
  · exact ⟨'0', by simp, by decide⟩
  · obtain ⟨count, hcount⟩ : ∃ count, count = order.toNat + 1 := ⟨_, rfl⟩
    have hne : ds.take count ++ List.replicate (count - ds.length) '0' ≠ [] := by
      rw [← List.length_pos_iff, List.length_append, List.length_take, List.length_replicate]
      omega
    obtain ⟨c, hc⟩ := List.exists_mem_of_ne_nil _ hne
    refine ⟨c, ?_, isDigit_of_mem_whole h count c hc⟩
    dsimp only
    rw [← hcount]
    split
    · split
      · exact List.mem_append_left _ hc
      · exact hc
    · exact List.mem_append_left _ hc

theorem exists_isDigit_scientific (ds : List Char) (order : Int) :
    ∃ c ∈ scientific ds order, c.isDigit = true := by
  obtain ⟨c, hc⟩ := List.exists_mem_of_length_pos
    (show 0 < (Decimal.digits order.natAbs).length from Nat.length_toDigits_pos)
  exact ⟨c, List.mem_append_right _ (List.mem_append_right _ hc), Decimal.isDigit_of_mem_digits hc⟩

theorem exists_isDigit_write (layout : Layout) (order : Int) (h : ∀ c ∈ ds, c.isDigit = true) :
    ∃ c ∈ layout.write ds order, c.isDigit = true := by
  unfold write
  split
  · exact layout.exists_isDigit_positional order h
  · exact exists_isDigit_scientific ds order

end Layout

namespace Binary64

section Texts

variable (layout : Layout) (decimal : (m : Nat) → (e : Int) → Canonical m e → Decimal)

theorem isMark_of_mem_textWith (x : Binary64) :
    ∀ c ∈ textWith "nan" (fun m e h ↦ if m = 0 then layout.write ['0'] 0
      else layout.writeDecimal (decimal m e h)) x, Layout.isMark c = true := by
  have hsign (s : Bool) : ∀ c ∈ sign s, Layout.isMark c = true := by
    cases s <;> exact List.all_eq_true.mp (by decide)
  have hnan : ∀ c ∈ "nan".toList, Layout.isMark c = true := List.all_eq_true.mp (by decide)
  cases x with
  | nan => exact hnan
  | infinite s =>
    exact List.forall_mem_append.mpr ⟨hsign s, List.all_eq_true.mp (by decide)⟩
  | finite s m e h =>
    refine List.forall_mem_append.mpr ⟨hsign s, ?_⟩
    dsimp only
    split
    · exact layout.isMark_of_mem_write _ (List.all_eq_true.mp (by decide))
    · exact layout.isMark_of_mem_writeDecimal _

/-- The text of a number is more than a sign. -/
theorem exists_isAlphanum_textWith (x : Binary64) :
    ∃ c ∈ textWith "nan" (fun m e h ↦ if m = 0 then layout.write ['0'] 0
      else layout.writeDecimal (decimal m e h)) x, c.isAlphanum = true := by
  cases x with
  | nan =>
    have hletter : 'n' ∈ "nan".toList := by decide
    exact ⟨'n', hletter, by decide⟩
  | infinite s => exact ⟨'i', List.mem_append_right _ (by decide), by decide⟩
  | finite s m e h =>
    obtain ⟨c, hc, hdigit⟩ : ∃ c ∈ (if m = 0 then layout.write ['0'] 0
        else layout.writeDecimal (decimal m e h)), c.isDigit = true := by
      split
      · exact layout.exists_isDigit_write _ (List.all_eq_true.mp (by decide))
      · exact layout.exists_isDigit_write _ fun _ ↦ Decimal.isDigit_of_mem_trimZeros
    exact ⟨c, List.mem_append_right _ hc, by rw [Char.isAlphanum, hdigit, Bool.or_true]⟩

end Texts

theorem isMark_of_mem_shortestText (x : Binary64) : ∀ c ∈ x.shortestText, Layout.isMark c = true :=
  isMark_of_mem_textWith .shortest Decimal.shortest x

theorem isMark_of_mem_generalText (x : Binary64) : ∀ c ∈ x.generalText, Layout.isMark c = true :=
  isMark_of_mem_textWith .general _ x

theorem exists_isAlphanum_generalText (x : Binary64) : ∃ c ∈ x.generalText, c.isAlphanum = true :=
  exists_isAlphanum_textWith .general _ x

end Binary64

end Reckon
