import Mathlib.Data.List.Chain
import Reckon.Proofs.Token.Reading

/-!
# Spelling out expressions

A text spells pieces if it holds them in order with nothing but blanks around them. Cutting such
a text gives the pieces back, unless two numerals touch. In the sequences of the grammar no
operand follows directly on another, so any text that spells them is cut into just them.
-/

namespace Reckon

namespace Piece

/-- The texts that hold pieces in order, with blanks around them where blanks may stand. -/
inductive Spells (skipBlanks : Bool) : List Piece → List Char → Prop where
  | nil : Spells skipBlanks [] []
  | blank {pieces : List Piece} {c : Char} {text : List Char} (hskip : skipBlanks = true)
      (hblank : Text.isBlank c = true) (h : Spells skipBlanks pieces text) :
      Spells skipBlanks pieces (c :: text)
  | piece {pieces : List Piece} {text : List Char} (piece : Piece)
      (h : Spells skipBlanks pieces text) : Spells skipBlanks (piece :: pieces) (piece ++ text)

/-- An operand ends with a numeral or a closing bracket. -/
def EndsOperand (piece : Piece) : Prop :=
  piece = [')'] ∨ ∃ n : Numeral, piece = n.text

/-- An operand begins with a numeral or an opening bracket, signs apart. -/
def BeginsOperand (piece : Piece) : Prop :=
  piece = ['('] ∨ ∃ n : Numeral, piece = n.text

/-- No operand follows directly on another. -/
def Separated (pieces : List Piece) : Prop :=
  pieces.IsChain fun piece next ↦ ¬ (piece.EndsOperand ∧ next.BeginsOperand)

theorem ne_text_of_mem_symbols {c : Char} (h : c ∈ symbols) (n : Numeral) : [c] ≠ n.text := by
  intro heq
  have hnumeric := n.isNumeric_of_mem_text (heq ▸ List.mem_singleton_self c)
  rw [isNumeric_of_mem_symbols h] at hnumeric
  cases hnumeric

theorem exists_mem_symbols (o : BinaryOperator) : ∃ c ∈ symbols, o.symbol = [c] := by
  cases o <;> exact ⟨_, by decide, rfl⟩

theorem not_endsOperand_symbol (o : BinaryOperator) : ¬ EndsOperand o.symbol := by
  obtain ⟨c, hc, hsymbol⟩ := exists_mem_symbols o
  rintro (h | ⟨n, h⟩)
  · revert h
    cases o <;> decide
  · exact ne_text_of_mem_symbols hc n (hsymbol.symm.trans h)

theorem not_beginsOperand_symbol (o : BinaryOperator) : ¬ BeginsOperand o.symbol := by
  obtain ⟨c, hc, hsymbol⟩ := exists_mem_symbols o
  rintro (h | ⟨n, h⟩)
  · revert h
    cases o <;> decide
  · exact ne_text_of_mem_symbols hc n (hsymbol.symm.trans h)

theorem not_endsOperand_opening : ¬ EndsOperand ['('] := by
  rintro (h | ⟨n, h⟩)
  · revert h
    decide
  · exact ne_text_of_mem_symbols (by decide) n h

theorem not_beginsOperand_closing : ¬ BeginsOperand [')'] := by
  rintro (h | ⟨n, h⟩)
  · revert h
    decide
  · exact ne_text_of_mem_symbols (by decide) n h

theorem separated_singleton (piece : Piece) : Separated [piece] :=
  List.isChain_singleton piece

theorem Separated.cons {piece : Piece} {pieces : List Piece} (hpiece : ¬ piece.EndsOperand)
    (h : Separated pieces) : Separated (piece :: pieces) :=
  List.isChain_cons.mpr ⟨fun _ _ hjoined ↦ hpiece hjoined.1, h⟩

theorem Separated.concat {piece : Piece} {pieces : List Piece} (hpiece : ¬ piece.BeginsOperand)
    (h : Separated pieces) : Separated (pieces ++ [piece]) := by
  refine List.isChain_append.mpr ⟨h, List.isChain_singleton piece, ?_⟩
  rintro _ _ _ ⟨⟩ hjoined
  exact hpiece hjoined.2

/-- Separated sequences may be joined by an operator. -/
theorem Separated.join {front back : List Piece} (hfront : Separated front)
    (o : BinaryOperator) (hback : Separated back) : Separated (front ++ o.symbol :: back) := by
  refine List.isChain_append.mpr ⟨hfront, hback.cons (not_endsOperand_symbol o), ?_⟩
  rintro _ _ _ ⟨⟩ hjoined
  exact not_beginsOperand_symbol o hjoined.2

/-- A text that spells pieces begins with no number if they do not. -/
theorem Spells.head_not_numeric {skipBlanks : Bool} {pieces : List Piece} {text : List Char}
    (h : Spells skipBlanks pieces text) (hformed : ∀ piece ∈ pieces, piece.Formed)
    (hhead : ∀ piece ∈ pieces.head?, ∀ n : Numeral, piece ≠ n.text) :
    ∀ c ∈ text.head?, isNumeric c = false := by
  cases h with
  | nil => exact fun c hc ↦ by cases hc
  | blank hskip hblank h =>
    rintro c ⟨⟩
    exact isNumeric_of_isBlank hblank
  | piece piece h =>
    intro c hc
    cases hformed piece List.mem_cons_self with
    | numeral n => exact absurd rfl (hhead _ rfl n)
    | opening =>
      cases hc
      decide
    | closing =>
      cases hc
      decide
    | operator o =>
      obtain ⟨d, hd, hsymbol⟩ := exists_mem_symbols o
      rw [hsymbol] at hc
      cases hc
      exact isNumeric_of_mem_symbols hd

/-- Separated pieces are cut out of any text that spells them. -/
theorem Spells.cuts {skipBlanks : Bool} {pieces : List Piece} {text : List Char}
    (h : Spells skipBlanks pieces text) (hformed : ∀ piece ∈ pieces, piece.Formed)
    (hseparated : Separated pieces) : Cuts skipBlanks text pieces := by
  induction h with
  | nil => exact .nil
  | blank hskip hblank h ih => exact .blank hskip hblank (ih hformed hseparated)
  | @piece pieces text piece h ih =>
    obtain ⟨hpiece, hrest⟩ := List.forall_mem_cons.mp hformed
    obtain ⟨hnext, htail⟩ := List.isChain_cons.mp hseparated
    have hcuts := ih hrest htail
    cases hpiece with
    | numeral n =>
      refine .run n.text_ne_nil (fun c ↦ n.isNumeric_of_mem_text) ?_ hcuts
      refine h.head_not_numeric hrest fun next hmem m heq ↦ ?_
      exact hnext next hmem ⟨.inr ⟨n, rfl⟩, .inr ⟨m, heq⟩⟩
    | opening => exact .symbol (by decide) hcuts
    | closing => exact .symbol (by decide) hcuts
    | operator o =>
      obtain ⟨c, hc, hsymbol⟩ := exists_mem_symbols o
      rw [hsymbol]
      exact .symbol hc hcuts

end Piece

namespace Grammar

open Piece

mutual

theorem Operand.formed {pieces : List Piece} : Operand pieces → ∀ piece ∈ pieces, piece.Formed
  | .numeral n => List.forall_mem_singleton.mpr (.numeral n)
  | .group h => List.forall_mem_cons.mpr ⟨.opening,
      List.forall_mem_append.mpr ⟨h.formed, List.forall_mem_singleton.mpr .closing⟩⟩
  | .plus h => List.forall_mem_cons.mpr ⟨.operator .plus, h.formed⟩
  | .minus h => List.forall_mem_cons.mpr ⟨.operator .minus, h.formed⟩

theorem Sequence.formed {pieces : List Piece} : Sequence pieces → ∀ piece ∈ pieces, piece.Formed
  | .single h => h.formed
  | .more o hfront hback => List.forall_mem_append.mpr ⟨hfront.formed,
      List.forall_mem_cons.mpr ⟨.operator o, hback.formed⟩⟩

end

mutual

theorem Operand.separated {pieces : List Piece} : Operand pieces → Separated pieces
  | .numeral n => separated_singleton _
  | .group h => (h.separated.concat not_beginsOperand_closing).cons not_endsOperand_opening
  | .plus h => h.separated.cons (not_endsOperand_symbol .plus)
  | .minus h => h.separated.cons (not_endsOperand_symbol .minus)

theorem Sequence.separated {pieces : List Piece} : Sequence pieces → Separated pieces
  | .single h => h.separated
  | .more o hfront hback => hfront.separated.join o hback.separated

end

theorem Operand.ne_nil {pieces : List Piece} (h : Operand pieces) : pieces ≠ [] := by
  cases h <;> simp

theorem Sequence.ne_nil {pieces : List Piece} (h : Sequence pieces) : pieces ≠ [] := by
  cases h with
  | single h => exact h.ne_nil
  | more o hfront hback => simp

/-- A text that spells a sequence of the grammar has just its pieces. -/
theorem Sequence.ofText {skipBlanks : Bool} {pieces : List Piece} {text : List Char}
    (h : Sequence pieces) (hspells : Spells skipBlanks pieces text) :
    Piece.ofText skipBlanks text = .ok pieces :=
  ofText_eq_ok_iff.mpr ⟨hspells.cuts h.formed h.separated, h.ne_nil⟩

end Grammar

end Reckon
