import Reckon.Proofs.Grammar.Spelling
import Reckon.Proofs.Rpn.Precedence

/-!
# Parsing

The stages of an equation agree with the grammar of levels. The pieces of a derivation are read
as tokens that the yard brings into the postorder of the derivation's tree, because the spine
that an operand leaves behind binds as tight as its level and yields to the operator that the
grammar puts next. So every text that spells out a derivation is an equation with the postorder
of its tree, and its value is the value of the tree, for either reading of equal operators and
whatever the arithmetic is.
-/

namespace Reckon

open Rpn Rpn.Yard

namespace Operator

theorem isBracket_of_priority_pos {o : Operator} (h : 0 < o.priority) : o.isBracket = false := by
  revert h
  cases o <;> decide

end Operator

namespace BinaryOperator

theorem priority_pos (o : BinaryOperator) : 0 < o.priority := by
  cases o <;> decide

theorem groupsRight {leftAssociative : Bool} {o : BinaryOperator}
    (h : o.groupsLeft leftAssociative = false) :
    leftAssociative = false ∨ o.toOperator.rightAssociative = true := by
  cases leftAssociative with
  | false => exact .inl rfl
  | true => exact .inr (by simpa [groupsLeft] using h)

theorem toOperator_ne_openBracket (o : BinaryOperator) : o.toOperator ≠ .openBracket := by
  cases o <;> decide

theorem toOperator_ne_closeBracket (o : BinaryOperator) : o.toOperator ≠ .closeBracket := by
  cases o <;> decide

end BinaryOperator

namespace Grammar

/-- An operation that groups to the right, in the yard. -/
theorem brings_toRight {leftAssociative : Bool} {o : BinaryOperator}
    {front back leftOrder rightOrder : List (Token Binary64)}
    (groups : o.groupsLeft leftAssociative = false)
    (hfront : Brings leftAssociative (o.priority + 1) front leftOrder)
    (hback : Brings leftAssociative o.priority back rightOrder) :
    Brings leftAssociative o.priority (front ++ .operator o.toOperator :: back)
      (leftOrder ++ rightOrder ++ [.operator o.toOperator]) :=
  brings_binary o.toOperator_ne_openBracket o.toOperator_ne_closeBracket hfront hback
    (Nat.le_succ _) (Nat.le_refl _) (fun _ htop ↦ yields_of_lt htop)
    (admits_cons_self (BinaryOperator.groupsRight groups))

/-- An operation that groups to the left, in the yard. -/
theorem brings_toLeft {leftAssociative : Bool} {o : BinaryOperator}
    {front back leftOrder rightOrder : List (Token Binary64)}
    (groups : o.groupsLeft leftAssociative = true)
    (hfront : Brings leftAssociative o.priority front leftOrder)
    (hback : Brings leftAssociative (o.priority + 1) back rightOrder) :
    Brings leftAssociative o.priority (front ++ .operator o.toOperator :: back)
      (leftOrder ++ rightOrder ++ [.operator o.toOperator]) := by
  simp only [BinaryOperator.groupsLeft, Bool.and_eq_true, Bool.not_eq_true'] at groups
  refine brings_binary o.toOperator_ne_openBracket o.toOperator_ne_closeBracket hfront hback
    (Nat.le_refl _) (Nat.le_succ _) (fun top htop ↦ ?_)
    (admits_cons_of_lt (Nat.lt_succ_self _))
  have hbracket := Operator.isBracket_of_priority_pos (Nat.lt_of_lt_of_le o.priority_pos htop)
  exact yields_of_le groups.1 groups.2 hbracket htop

/-- The pieces of a derivation are read as tokens that come into the postorder of its tree. -/
theorem Derives.exists_tokens {leftAssociative : Bool} {level : Nat} {pieces : List Piece}
    {e : Expr Binary64} (h : Derives leftAssociative level pieces e) :
    ∃ tokens, Token.Reads false pieces tokens true ∧
      Brings leftAssociative level tokens e.postorder := by
  induction h with
  | numeral n => exact ⟨_, Token.reads_numeral n, brings_value _ _⟩
  | group h ih =>
    obtain ⟨tokens, hreads, hbrings⟩ := ih
    exact ⟨_, Token.reads_opening.append (hreads.append Token.reads_closing),
      brings_group _ hbrings⟩
  | plus h ih =>
    obtain ⟨tokens, hreads, hbrings⟩ := ih
    exact ⟨tokens, Token.reads_plus.append hreads, hbrings⟩
  | minus h ih =>
    obtain ⟨tokens, hreads, hbrings⟩ := ih
    exact ⟨_, Token.reads_minus.append hreads, brings_negate hbrings⟩
  | tighter positive h ih =>
    obtain ⟨tokens, hreads, hbrings⟩ := ih
    exact ⟨tokens, hreads, hbrings.loosen (Nat.le_succ _)⟩
  | @toRight o front back left right groups hleft hright ihl ihr =>
    obtain ⟨leftTokens, hreadsLeft, hbringsLeft⟩ := ihl
    obtain ⟨rightTokens, hreadsRight, hbringsRight⟩ := ihr
    exact ⟨_, hreadsLeft.append ((Token.reads_operator o).append hreadsRight),
      brings_toRight groups hbringsLeft hbringsRight⟩
  | @toLeft o front back left right groups hleft hright ihl ihr =>
    obtain ⟨leftTokens, hreadsLeft, hbringsLeft⟩ := ihl
    obtain ⟨rightTokens, hreadsRight, hbringsRight⟩ := ihr
    exact ⟨_, hreadsLeft.append ((Token.reads_operator o).append hreadsRight),
      brings_toLeft groups hbringsLeft hbringsRight⟩

/-- The equation of a derived sequence of pieces. -/
theorem Derives.ofText_eq_ok {reading : Reading} {pieces : List Piece} {e : Expr Binary64}
    {expression : String} (h : Derives reading.leftAssociative 1 pieces e)
    (hpieces : Piece.ofText reading.skipBlanks expression.toList = .ok pieces) :
    Equation.ofText reading expression = .ok ⟨expression, e.postorder⟩ := by
  obtain ⟨tokens, hreads, hbrings⟩ := h.exists_tokens
  have htokens : Token.ofPieces pieces = .ok tokens := hreads.after_eq
  have horder := hbrings.ofInfix Nat.one_pos
  simp only [Equation.ofText, hpieces, htokens, horder, bind, Except.bind, pure, Except.pure]

end Grammar

end Reckon
