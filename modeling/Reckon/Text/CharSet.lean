/-!
# Sets of characters

A set of characters is a list of ranges of code points, apart and in ascending order, so that
a search can stop at the first range above the character.
-/

namespace Reckon.Text

abbrev CharSet := List (Nat × Nat)

namespace CharSet

def holds : CharSet → Nat → Bool
  | [], _ => false
  | (first, last) :: rest, code =>
    if code < first then false else code ≤ last || holds rest code

def contains (set : CharSet) (c : Char) : Bool :=
  holds set c.toNat

/-- Ranges that are not empty, do not touch and ascend, above a bound. -/
def Ascending : CharSet → Nat → Prop
  | [], _ => True
  | (first, last) :: rest, above => above ≤ first ∧ first ≤ last ∧ Ascending rest (last + 1)

instance : (set : CharSet) → (above : Nat) → Decidable (Ascending set above)
  | [], _ => isTrue trivial
  | (first, last) :: rest, above =>
    have : Decidable (Ascending rest (last + 1)) := instDecidableAscending rest (last + 1)
    inferInstanceAs (Decidable (above ≤ first ∧ first ≤ last ∧ Ascending rest (last + 1)))

theorem not_mem_of_lt {set : CharSet} {above code : Nat} (h : Ascending set above)
    (hlt : code < above) : ∀ range ∈ set, code < range.1 := by
  induction set generalizing above with
  | nil => simp
  | cons range rest ih =>
    obtain ⟨first, last⟩ := range
    obtain ⟨hfirst, hlast, hrest⟩ := h
    intro r hr
    rcases List.mem_cons.mp hr with rfl | hr
    · exact Nat.lt_of_lt_of_le hlt hfirst
    · exact ih hrest (by omega) r hr

/-- The search finds exactly the code points of the ranges. -/
theorem holds_iff {set : CharSet} {above code : Nat} (h : Ascending set above) :
    set.holds code = true ↔ ∃ range ∈ set, range.1 ≤ code ∧ code ≤ range.2 := by
  induction set generalizing above with
  | nil => simp [holds]
  | cons range rest ih =>
    obtain ⟨first, last⟩ := range
    obtain ⟨_, _, hrest⟩ := h
    have below (hlt : code < last + 1) := not_mem_of_lt hrest hlt
    rw [holds]
    split
    · next hlt =>
      refine ⟨by simp, ?_⟩
      rintro ⟨r, hr, hle, _⟩
      rcases List.mem_cons.mp hr with rfl | hr
      · simp only at hle
        omega
      · have := below (by omega) r hr
        omega
    · next hle =>
      have hge : first ≤ code := Nat.le_of_not_lt hle
      simp [ih hrest, hge]

end CharSet

end Reckon.Text
