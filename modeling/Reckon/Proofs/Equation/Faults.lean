import Reckon.Equation
import Reckon.Proofs.Rpn.Height
import Reckon.Proofs.Rpn.Yard
import Reckon.Proofs.Token.Reading

/-!
# Which fault an expression ends in

Whether an expression is an equation is a matter of three conditions on its text, asked in this
order: every character is legible and one is not dropped; the maximal runs of numeric characters
are numerals; the brackets are balanced. The first condition that fails names the fault, over
the whole text. An equation has a value unless an operator of its postfix order finds too few
values or the values that remain are not one. No other fault is possible.
-/

namespace Reckon

namespace Piece

/-- The maximal runs of numeric characters, from left to right. -/
def runs (text : List Char) : List Piece :=
  (text.splitOnP fun c ↦ !isNumeric c).filter (· ≠ [])

def IsNumeral (run : Piece) : Prop :=
  ∃ n : Numeral, n.text = run

theorem isNumeral_iff {run : Piece} : run.IsNumeral ↔ (Numeral.ofText? run).isSome = true := by
  simp only [IsNumeral, ← Numeral.ofText?_eq_some_iff, Option.isSome_iff_exists]

instance (run : Piece) : Decidable run.IsNumeral :=
  decidable_of_iff _ isNumeral_iff.symm

/-- The leftmost run that is no numeral. -/
def firstMalformed? (text : List Char) : Option Piece :=
  (runs text).find? fun run ↦ ¬ run.IsNumeral

/-- All characters are legible, and not all of them are dropped. -/
def Lexable (skipBlanks : Bool) (text : List Char) : Prop :=
  (∀ c ∈ text, Legible skipBlanks c) ∧ ∃ c ∈ text, ¬ (skipBlanks = true ∧ Text.isBlank c = true)

theorem runs_cons {c : Char} (h : isNumeric c = false) (rest : List Char) :
    runs (c :: rest) = runs rest := by
  simp [runs, List.splitOnP_cons_eq_if_modifyHead, h]

theorem runs_append {run rest : List Char} (hne : run ≠ [])
    (hrun : ∀ c ∈ run, isNumeric c = true) (hrest : ∀ c ∈ rest.head?, isNumeric c = false) :
    runs (run ++ rest) = run :: runs rest := by
  have hinner : ∀ c ∈ run, (!isNumeric c) = false := fun c hc ↦ by simp [hrun c hc]
  cases rest with
  | nil =>
    rw [List.append_nil, runs, List.splitOnP_eq_singleton hinner]
    simp [runs, hne]
  | cons c rest =>
    have hc : isNumeric c = false := hrest c rfl
    rw [runs_cons hc, runs, List.splitOnP_append_cons_of_forall_mem hinner c (by simp [hc])]
    simp [runs, hne]

/-- The runs of a text are those of its pieces that are numeric. -/
theorem Cuts.runs_eq {skipBlanks : Bool} {text : List Char} {pieces : List Piece}
    (h : Cuts skipBlanks text pieces) : runs text = pieces.filter (·.any isNumeric) := by
  induction h with
  | nil => rfl
  | @run run rest pieces hne hrun hrest h ih =>
    have hany : run.any isNumeric = true := by
      obtain ⟨c, cs, rfl⟩ := List.exists_cons_of_ne_nil hne
      simp [hrun c List.mem_cons_self]
    rw [runs_append hne hrun hrest, ih, List.filter_cons, if_pos hany]
  | blank hskip hblank h ih => rw [runs_cons (isNumeric_of_isBlank hblank), ih]
  | symbol hsymbol h ih =>
    have hc := isNumeric_of_mem_symbols hsymbol
    rw [runs_cons hc, ih, List.filter_cons_of_neg (by simp [hc])]

theorem Cuts.word_eq {skipBlanks : Bool} {text : List Char} {pieces : List Piece}
    (h : Cuts skipBlanks text pieces) : Bracket.word text = Bracket.word pieces.flatten := by
  induction h with
  | nil => rfl
  | run hne hrun hrest h ih => rw [List.flatten_cons, Bracket.word_append, Bracket.word_append, ih]
  | @blank c rest pieces hskip hblank h ih =>
    have hnone : Bracket.ofChar? c = none := by
      unfold Bracket.ofChar?
      split
      · revert hblank
        decide
      · revert hblank
        decide
      · rfl
    rw [← ih, Bracket.word, List.filterMap_cons_none hnone]
    rfl
  | @symbol c rest pieces hsymbol h ih =>
    rw [List.flatten_cons, Bracket.word_append, ← ih, ← Bracket.word_append]
    rfl

theorem Cuts.legible {skipBlanks : Bool} {text : List Char} {pieces : List Piece}
    (h : Cuts skipBlanks text pieces) : ∀ c ∈ text, Legible skipBlanks c := by
  induction h with
  | nil => exact fun c hc ↦ absurd hc List.not_mem_nil
  | run hne hrun hrest h ih =>
    exact List.forall_mem_append.mpr ⟨fun c hc ↦ .inl (hrun c hc), ih⟩
  | blank hskip hblank h ih => exact List.forall_mem_cons.mpr ⟨.inr (.inr ⟨hskip, hblank⟩), ih⟩
  | symbol hsymbol h ih => exact List.forall_mem_cons.mpr ⟨.inr (.inl hsymbol), ih⟩

/-- No piece is left exactly if every character is dropped. -/
theorem Cuts.eq_nil_iff {skipBlanks : Bool} {text : List Char} {pieces : List Piece}
    (h : Cuts skipBlanks text pieces) :
    pieces = [] ↔ ∀ c ∈ text, skipBlanks = true ∧ Text.isBlank c = true := by
  induction h with
  | nil => simp
  | @run run rest pieces hne hrun hrest h ih =>
    refine iff_of_false (List.cons_ne_nil _ _) fun hall ↦ ?_
    obtain ⟨c, cs, rfl⟩ := List.exists_cons_of_ne_nil hne
    have hblank := isNumeric_of_isBlank (hall c (by simp)).2
    rw [hrun c List.mem_cons_self] at hblank
    cases hblank
  | blank hskip hblank h ih =>
    rw [ih, List.forall_mem_cons]
    exact ⟨fun hall ↦ ⟨⟨hskip, hblank⟩, hall⟩, fun hall ↦ hall.2⟩
  | symbol hsymbol h ih =>
    refine iff_of_false (List.cons_ne_nil _ _) fun hall ↦ ?_
    have hblank := (hall _ List.mem_cons_self).2
    rw [isBlank_of_mem_symbols hsymbol] at hblank
    cases hblank

theorem Formed.isNumeral {piece : Piece} (h : piece.Formed) (hany : piece.any isNumeric = true) :
    piece.IsNumeral := by
  cases h with
  | numeral n => exact ⟨n, rfl⟩
  | opening => exact absurd hany (by decide)
  | closing => exact absurd hany (by decide)
  | operator o => exact absurd hany (by cases o <;> decide)

theorem Malformed.not_isNumeral {run : Piece} (h : run.Malformed) : ¬ run.IsNumeral := by
  rw [isNumeral_iff, h.2.2]
  exact Bool.false_ne_true

theorem find?_formed {pieces : List Piece} (h : ∀ piece ∈ pieces, piece.Formed) :
    (pieces.filter (·.any isNumeric)).find? (fun run ↦ ¬ run.IsNumeral) = none := by
  rw [List.find?_eq_none]
  intro piece hpiece
  obtain ⟨hmem, hany⟩ := List.mem_filter.mp hpiece
  simpa using (h piece hmem).isNumeral hany

theorem find?_first_malformed {front back : List Piece} {run : Piece}
    (hfront : ∀ piece ∈ front, piece.Formed) (hrun : run.Malformed) :
    ((front ++ run :: back).filter (·.any isNumeric)).find? (fun run ↦ ¬ run.IsNumeral) =
      some run := by
  have hany : run.any isNumeric = true := by
    obtain ⟨c, cs, rfl⟩ := List.exists_cons_of_ne_nil hrun.1
    simp [hrun.2.1 c List.mem_cons_self]
  rw [List.filter_append, List.filter_cons, if_pos hany, List.find?_append, find?_formed hfront,
    Option.none_or, List.find?_cons_of_pos (by simpa using hrun.not_isNumeral)]

/-- A text is refused for its symbols unless it is lexable. -/
theorem ofText_cases (skipBlanks : Bool) (text : List Char) :
    (¬ Lexable skipBlanks text ∧
        ∃ fault, ofText skipBlanks text = .error fault ∧ fault.kind = .symbol) ∨
      Lexable skipBlanks text ∧
        ∃ pieces, ofText skipBlanks text = .ok pieces ∧ Cuts skipBlanks text pieces := by
  by_cases hlegible : ∀ c ∈ text, Legible skipBlanks c
  · obtain ⟨pieces, hcuts⟩ := exists_cuts hlegible
    by_cases hnil : pieces = []
    · subst hnil
      refine .inl ⟨fun hlexable ↦ ?_, .emptyExpression text, ?_, rfl⟩
      · obtain ⟨c, hc, hkept⟩ := hlexable.2
        exact hkept (hcuts.eq_nil_iff.mp rfl c hc)
      · rw [ofText, cut_of_cuts hcuts]
    · refine .inr ⟨⟨hlegible, ?_⟩, pieces, ofText_eq_ok_iff.mpr ⟨hcuts, hnil⟩, hcuts⟩
      by_contra hnone
      exact hnil (hcuts.eq_nil_iff.mpr fun c hc ↦ by_contra fun hkept ↦ hnone ⟨c, hc, hkept⟩)
  · obtain ⟨quoted, position, _, herror⟩ := stops_of_not_legible hlegible
    refine .inl ⟨fun hlexable ↦ hlegible hlexable.1, .unknownSymbol quoted position, ?_, rfl⟩
    rw [ofText, herror, Nat.zero_add]

end Piece

namespace Token

theorem mem_unbracketed {α : Type} {tokens : List (Token α)} {o : Operator}
    (h : .operator o ∈ unbracketed tokens) : o.isBracket = false := by
  have hnone := (List.mem_filter.mp h).2
  cases o <;> first | rfl | cases hnone

end Token

namespace Equation

open Piece Reckon.Bracket

/-- What building ends in, by the first condition on the text that fails. -/
inductive Verdict (reading : Reading) (expression : String) : Except Fault Equation → Prop where
  | illegible {fault : Fault} (hlexable : ¬ Lexable reading.skipBlanks expression.toList)
      (hkind : fault.kind = .symbol) : Verdict reading expression (.error fault)
  | malformed {run : Piece} (hlexable : Lexable reading.skipBlanks expression.toList)
      (hrun : firstMalformed? expression.toList = some run) :
      Verdict reading expression (.error (.malformedNumber run))
  | unbalanced {fault : Fault} (hlexable : Lexable reading.skipBlanks expression.toList)
      (hformed : firstMalformed? expression.toList = none)
      (hbalanced : ¬ Balanced (word expression.toList)) (hkind : fault.kind = .brackets) :
      Verdict reading expression (.error fault)
  | built {pieces : List Piece} {tokens order : List (Token Binary64)}
      (hlexable : Lexable reading.skipBlanks expression.toList)
      (hformed : firstMalformed? expression.toList = none)
      (hbalanced : Balanced (word expression.toList))
      (hpieces : Piece.ofText reading.skipBlanks expression.toList = .ok pieces)
      (htokens : Token.ofPieces pieces = .ok tokens)
      (hperm : order.Perm (Token.unbracketed tokens)) :
      Verdict reading expression (.ok ⟨expression, order⟩)

theorem verdict_ofText (reading : Reading) (expression : String) :
    Verdict reading expression (ofText reading expression) := by
  rcases Piece.ofText_cases reading.skipBlanks expression.toList with
    ⟨hlexable, fault, herror, hkind⟩ | ⟨hlexable, pieces, hpieces, hcuts⟩
  · rw [ofText, herror]
    exact .illegible hlexable hkind
  · have hfirst : firstMalformed? expression.toList =
        (pieces.filter (·.any isNumeric)).find? (fun run ↦ ¬ run.IsNumeral) := by
      rw [firstMalformed?, hcuts.runs_eq]
    rcases Token.formed_or_first_malformed hcuts.formed_or_malformed with
      hformed | ⟨front, run, back, rfl, hfront, hrun⟩
    · obtain ⟨tokens, ends, hreads, hbrackets⟩ := Token.exists_reads hformed false
      have htokens : Token.ofPieces pieces = .ok tokens := hreads.after_eq
      have hword : word expression.toList = Token.brackets tokens := by
        rw [hcuts.word_eq, hbrackets]
      simp only [ofText, hpieces, htokens, bind, Except.bind]
      by_cases hbalanced : Balanced (Token.brackets tokens)
      · obtain ⟨order, hok, hperm⟩ := Rpn.ofInfix_of_balanced reading.leftAssociative hbalanced
        rw [hok]
        exact .built hlexable (hfirst.trans (find?_formed hformed)) (hword ▸ hbalanced) hpieces
          htokens hperm
      · obtain ⟨fault, herror, hkind⟩ := Rpn.ofInfix_of_unbalanced reading.leftAssociative hbalanced
        rw [herror]
        exact .unbalanced hlexable (hfirst.trans (find?_formed hformed)) (hword ▸ hbalanced) hkind
    · simp only [ofText, hpieces, Token.ofPieces_malformed hfront hrun, bind, Except.bind]
      exact .malformed hlexable (hfirst.trans (find?_first_malformed hfront hrun))

section Conditions

variable (reading : Reading) (expression : String)

theorem ofText_symbol_iff :
    (∃ fault, ofText reading expression = .error fault ∧ fault.kind = .symbol) ↔
      ¬ Lexable reading.skipBlanks expression.toList := by
  have hverdict := verdict_ofText reading expression
  generalize ofText reading expression = outcome at hverdict ⊢
  cases hverdict with
  | illegible hlexable hkind => simp [hlexable, hkind]
  | malformed hlexable hrun => simp [hlexable, Fault.kind]
  | unbalanced hlexable hformed hbalanced hkind => simp [hlexable, hkind]
  | built hlexable => simp [hlexable]

theorem ofText_malformed_iff (run : Piece) :
    ofText reading expression = .error (.malformedNumber run) ↔
      Lexable reading.skipBlanks expression.toList ∧
        firstMalformed? expression.toList = some run := by
  have hverdict := verdict_ofText reading expression
  generalize ofText reading expression = outcome at hverdict ⊢
  cases hverdict with
  | @illegible fault hlexable hkind =>
    have hne : fault ≠ .malformedNumber run := fun heq ↦ by simp [heq, Fault.kind] at hkind
    simp [hlexable, hne]
  | malformed hlexable hrun => simp [hlexable, hrun]
  | @unbalanced fault hlexable hformed hbalanced hkind =>
    have hne : fault ≠ .malformedNumber run := fun heq ↦ by simp [heq, Fault.kind] at hkind
    simp [hformed, hne]
  | built hlexable hformed => simp [hformed]

theorem ofText_brackets_iff :
    (∃ fault, ofText reading expression = .error fault ∧ fault.kind = .brackets) ↔
      Lexable reading.skipBlanks expression.toList ∧
        firstMalformed? expression.toList = none ∧ ¬ Balanced (word expression.toList) := by
  have hverdict := verdict_ofText reading expression
  generalize ofText reading expression = outcome at hverdict ⊢
  cases hverdict with
  | illegible hlexable hkind => simp [hlexable, hkind]
  | malformed hlexable hrun => simp [hrun, Fault.kind]
  | unbalanced hlexable hformed hbalanced hkind => simp [hlexable, hformed, hbalanced, hkind]
  | built hlexable hformed hbalanced => simp [hbalanced]

end Conditions

section Values

variable {A : Arithmetic Binary64} {reading : Reading} {expression : String}

/-- Building fails in no other way. -/
theorem ofText_fault {fault : Fault} (h : ofText reading expression = .error fault) :
    fault.kind = .symbol ∨ (∃ run, fault = .malformedNumber run) ∨ fault.kind = .brackets := by
  have hverdict := verdict_ofText reading expression
  rw [h] at hverdict
  cases hverdict with
  | illegible hlexable hkind => exact .inl hkind
  | malformed hlexable hrun => exact .inr (.inl ⟨_, rfl⟩)
  | unbalanced hlexable hformed hbalanced hkind => exact .inr (.inr hkind)

/-- No bracket is left in the postfix order. -/
theorem isBracket_eq_false_of_mem {equation : Equation}
    (h : ofText reading expression = .ok equation) :
    ∀ o, .operator o ∈ equation.postfixTokens → o.isBracket = false := by
  intro o ho
  have hverdict := verdict_ofText reading expression
  rw [h] at hverdict
  cases hverdict with
  | built hlexable hformed hbalanced hpieces htokens hperm =>
    exact Token.mem_unbracketed (hperm.mem_iff.mp ho)

theorem solveIn_of_error {fault : Fault} (h : ofText reading expression = .error fault) :
    solveIn A reading expression = .error fault := by
  rw [solveIn, h]
  rfl

theorem solveIn_of_ok {equation : Equation} (h : ofText reading expression = .ok equation) :
    solveIn A reading expression = Rpn.evaluate A equation.postfixTokens := by
  rw [solveIn, h]
  rfl

/-- What an equation that is built ends in. -/
theorem verdict_solveIn {equation : Equation} (h : ofText reading expression = .ok equation) :
    Rpn.Verdict equation.postfixTokens (solveIn A reading expression) := by
  rw [solveIn_of_ok h]
  exact Rpn.verdict_evaluate A (isBracket_eq_false_of_mem h)

/-- Every fault is one of the text. -/
theorem solveIn_fault {fault : Fault} (h : solveIn A reading expression = .error fault) :
    fault.kind ∈ [FaultKind.symbol, .numeral, .brackets, .arity, .consistency] := by
  cases hbuild : ofText reading expression with
  | error found =>
    cases h.symm.trans (solveIn_of_error hbuild)
    rcases ofText_fault hbuild with hkind | ⟨run, rfl⟩ | hkind
    · simp [hkind]
    · simp [Fault.kind]
    · simp [hkind]
  | ok equation =>
    have hverdict := @verdict_solveIn A _ _ _ hbuild
    rw [h] at hverdict
    cases hverdict <;> simp [Fault.kind]

end Values

/-- Which fault an expression ends in, if any: that of the first condition that fails. -/
theorem fault_of_first_failing_condition (A : Arithmetic Binary64) (reading : Reading)
    (expression : String) :
    ((∃ fault, ofText reading expression = .error fault ∧ fault.kind = .symbol) ↔
        ¬ Lexable reading.skipBlanks expression.toList) ∧
      (∀ run, ofText reading expression = .error (.malformedNumber run) ↔
        Lexable reading.skipBlanks expression.toList ∧
          firstMalformed? expression.toList = some run) ∧
      ((∃ fault, ofText reading expression = .error fault ∧ fault.kind = .brackets) ↔
        Lexable reading.skipBlanks expression.toList ∧
          firstMalformed? expression.toList = none ∧ ¬ Balanced (word expression.toList)) ∧
      ((∃ o present, solveIn A reading expression = .error (.missingOperands o present)) ↔
        ∃ equation, ofText reading expression = .ok equation ∧
          Rpn.Starved equation.postfixTokens) ∧
      (∀ count, solveIn A reading expression = .error (.leftover count) ↔
        ∃ equation, ofText reading expression = .ok equation ∧
          ¬ Rpn.Starved equation.postfixTokens ∧
          Rpn.height equation.postfixTokens = count ∧ count ≠ 1) ∧
      ((∃ x, solveIn A reading expression = .ok x) ∨
        (∃ fault, ofText reading expression = .error fault ∧
          solveIn A reading expression = .error fault ∧
          (fault.kind = .symbol ∨ (∃ run, fault = .malformedNumber run) ∨
            fault.kind = .brackets)) ∨
        ∃ equation, ofText reading expression = .ok equation ∧
          ((∃ o present, solveIn A reading expression = .error (.missingOperands o present)) ∨
            ∃ count, solveIn A reading expression = .error (.leftover count))) := by
  refine ⟨ofText_symbol_iff reading expression, ofText_malformed_iff reading expression,
    ofText_brackets_iff reading expression, ?_⟩
  cases hbuild : ofText reading expression with
  | error fault =>
    have hkind := ofText_fault hbuild
    have hsolve := @solveIn_of_error A _ _ _ hbuild
    have hmissing (o present) : fault ≠ .missingOperands o present := by
      rintro rfl
      simp [Fault.kind] at hkind
    have hleftover (count) : fault ≠ .leftover count := by
      rintro rfl
      simp [Fault.kind] at hkind
    simp [hsolve, hmissing, hleftover, hkind]
  | ok equation =>
    have hverdict := @verdict_solveIn A _ _ _ hbuild
    generalize solveIn A reading expression = outcome at hverdict ⊢
    cases hverdict with
    | @starved front back o present hsplit hfed hpresent hmissing =>
      have hstarved : Rpn.Starved equation.postfixTokens := ⟨front, o, back, hsplit, by omega⟩
      simp [hstarved]
    | @leftover count hfed hcount hne =>
      have hcount_iff (other : Nat) :
          count = other ↔ Rpn.height equation.postfixTokens = other ∧ ¬ other = 1 := by omega
      simpa [hfed] using hcount_iff
    | value hfed hone =>
      have hnone (count : Nat) : Rpn.height equation.postfixTokens = count → count = 1 := by omega
      simpa [hfed] using hnone

end Equation

end Reckon
