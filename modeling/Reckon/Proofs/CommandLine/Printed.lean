import Reckon.CommandLine.Run
import Reckon.Proofs.Decimal.Positional
import Reckon.Proofs.Equation.Faults
import Reckon.Proofs.Grammar.Parsing

/-!
# Printed values as input

A value of moderate magnitude is printed as a numeral, with a minus before it if it is negative.
As an expression this is the numeral under a negation, and it has the printed value again, zeros
with their signs included. Every other value is printed with a letter that no expression can
hold, so it is refused. No printed text has a value other than the one that was printed.
-/

namespace Reckon

namespace Binary64

/-- The zeros and the finite numbers that are neither too small nor too great for digits alone. -/
def Moderate (x : Binary64) : Prop :=
  ∃ v, x.toRat? = some v ∧ (v = 0 ∨ 1 / 10000 ≤ |v| ∧ |v| < 10 ^ 16)

section Finite

variable {m : Nat} {e : Int}

theorem magnitude_eq_zero_iff : magnitude m e = 0 ↔ m = 0 := by
  rw [magnitude, mul_eq_zero, Nat.cast_eq_zero]
  exact or_iff_left (zpow_ne_zero e two_ne_zero)

theorem moderate_finite_iff (s : Bool) (h : Canonical m e) :
    Moderate (.finite s m e h) ↔ m = 0 ∨ 1 / 10000 ≤ magnitude m e ∧ magnitude m e < 10 ^ 16 := by
  have hzero : withSign s (magnitude m e) = 0 ↔ m = 0 := by
    rw [← abs_eq_zero, abs_value, magnitude_eq_zero_iff]
  rw [Moderate, toRat?]
  simp only [Option.some.injEq, exists_eq_left', hzero, abs_value]

theorem shortestText_finite (s : Bool) (h : Canonical m e) :
    shortestText (.finite s m e h) = sign s ++ shortestText (.finite false m e h) :=
  rfl

end Finite

/-! ## Letters -/

theorem mem_scientific (ds : List Char) (order : Int) : 'e' ∈ Layout.scientific ds order :=
  List.mem_append_right _ (List.mem_append_left _ (List.mem_append_left _ List.mem_cons_self))

/-- A number that is not moderate has a letter in its text. -/
theorem exists_letter {x : Binary64} (h : ¬ x.Moderate) :
    ∃ c ∈ ['e', 'i', 'n'], c ∈ x.shortestText := by
  match x with
  | .nan => exact ⟨'n', by decide, by decide⟩
  | .infinite s => exact ⟨'i', by decide, List.mem_append_right _ List.mem_cons_self⟩
  | .finite s m e hm =>
    rw [moderate_finite_iff, not_or] at h
    obtain ⟨hne, houtside⟩ := h
    rw [← Decimal.leadingOrder_shortest_iff hm (Nat.pos_of_ne_zero hne)] at houtside
    refine ⟨'e', by decide, List.mem_append_right _ ?_⟩
    dsimp only
    rw [if_neg hne, Layout.writeDecimal, Layout.write, if_neg houtside]
    exact mem_scientific _ _

end Binary64

namespace CommandLine

/-- A numeral with a sign spells an expression of the grammar. -/
theorem exists_derivation (leftAssociative skipBlanks : Bool) (s : Bool) (n : Numeral) :
    ∃ pieces e, Grammar.Derives leftAssociative Grammar.tightest pieces e ∧
      Piece.Spells skipBlanks pieces (Binary64.sign s ++ n.text) ∧
      e.eval Binary64.arithmetic = Binary64.signed s n.value := by
  have hspells : Piece.Spells skipBlanks [n.text] n.text := by
    have hpiece := Piece.Spells.piece n.text (@Piece.Spells.nil skipBlanks)
    rwa [List.append_nil] at hpiece
  cases s with
  | false => exact ⟨_, _, .numeral n, hspells, rfl⟩
  | true => exact ⟨_, _, .minus (.numeral n), .piece ['-'] hspells, rfl⟩

theorem solve_sign_numeral (reading : Reading) (s : Bool) (n : Numeral) :
    solve reading (String.ofList (Binary64.sign s ++ n.text)) =
      .ok (Binary64.signed s n.value) := by
  obtain ⟨pieces, e, hderives, hspells, hvalue⟩ :=
    exists_derivation reading.leftAssociative reading.skipBlanks s n
  have hlevel := hderives.loosen Nat.one_pos (by decide)
  rw [← String.toList_ofList (l := Binary64.sign s ++ n.text)] at hspells
  have hequation := hlevel.ofText_eq_ok (hlevel.sequence.1.ofText hspells)
  calc solve reading (String.ofList (Binary64.sign s ++ n.text))
      = Rpn.evaluate Binary64.arithmetic e.postorder := Equation.solveIn_of_ok hequation
    _ = .ok (e.eval Binary64.arithmetic) := e.evaluate_postorder Binary64.arithmetic
    _ = .ok (Binary64.signed s n.value) := by rw [hvalue]

/-- An expression with one of the letters is refused for it. -/
theorem solve_letter (reading : Reading) {text : List Char}
    (h : ∃ c ∈ ['e', 'i', 'n'], c ∈ text) :
    ∃ fault, solve reading (String.ofList text) = .error fault ∧ fault.kind = .symbol := by
  obtain ⟨c, hletter, hc⟩ := h
  have hillegible (skipBlanks : Bool) :
      (['e', 'i', 'n'].all fun c ↦ ¬ Piece.Legible skipBlanks c) = true := by
    cases skipBlanks <;> decide +kernel
  have hlexable : ¬ Piece.Lexable reading.skipBlanks (String.ofList text).toList := by
    rw [String.toList_ofList]
    intro hlexable
    exact of_decide_eq_true (List.all_eq_true.mp (hillegible _) c hletter) (hlexable.1 c hc)
  obtain ⟨fault, hfault, hkind⟩ := (Equation.ofText_symbol_iff reading _).mpr hlexable
  exact ⟨fault, Equation.solveIn_of_error hfault, hkind⟩

/-- A printed value of moderate magnitude is read as this very value, and every other printed value
is refused, so none is ever read as another one. -/
theorem solve_printed (x : Binary64) (reading : Reading) :
    valueLine x = valueText x ++ "\n" ∧
      (x.Moderate → solve reading (valueText x) = .ok x) ∧
      (¬ x.Moderate → ∃ fault, solve reading (valueText x) = .error fault ∧
        fault.kind.name = "LexError") ∧
      ∀ y, solve reading (valueText x) = .ok y → y = x := by
  have hmoderate (h : x.Moderate) : solve reading (valueText x) = .ok x := by
    obtain ⟨v, hv, -⟩ := id h
    obtain ⟨s, m, e, hm, rfl, -⟩ := Binary64.exists_finite_of_toRat? hv
    obtain ⟨n, htext, hvalue⟩ :=
      Binary64.exists_numeral_magnitude hm ((Binary64.moderate_finite_iff s hm).mp h)
    rw [valueText, Binary64.shortestText_finite, htext, solve_sign_numeral, hvalue]
    cases s <;> rfl
  have hother (h : ¬ x.Moderate) :
      ∃ fault, solve reading (valueText x) = .error fault ∧ fault.kind = .symbol :=
    solve_letter reading (Binary64.exists_letter h)
  refine ⟨rfl, hmoderate, fun h ↦ ?_, fun y hy ↦ ?_⟩
  · obtain ⟨fault, hfault, hkind⟩ := hother h
    exact ⟨fault, hfault, hkind ▸ rfl⟩
  · by_cases h : x.Moderate
    · exact Except.ok.inj (hy.symm.trans (hmoderate h))
    · obtain ⟨fault, hfault, -⟩ := hother h
      cases hy.symm.trans hfault

/-- Negative zero comes back with its sign, and an infinity is refused. -/
theorem solve_printed_zero_infinity :
    (Binary64.zero true).Moderate ∧
      solve ⟨true, false⟩ (valueText (.zero true)) = .ok (.zero true) ∧
      ¬ (Binary64.infinite true).Moderate ∧
      ∃ fault, solve ⟨true, false⟩ (valueText (.infinite true)) = .error fault ∧
        fault.kind.name = "LexError" := by
  have hzero : (Binary64.zero true).Moderate :=
    (Binary64.moderate_finite_iff true Binary64.canonical_zero).mpr (.inl rfl)
  have hinfinity : ¬ (Binary64.infinite true).Moderate := by
    rintro ⟨v, hv, -⟩
    cases hv
  exact ⟨hzero, (solve_printed _ ⟨true, false⟩).2.1 hzero, hinfinity,
    (solve_printed _ ⟨true, false⟩).2.2.1 hinfinity⟩

end CommandLine

end Reckon
