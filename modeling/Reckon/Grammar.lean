import Reckon.Equation
import Reckon.Expr

/-!
# The grammar of expressions

Binary operators bind at four levels, from sums to remainders, and signs bind tighter than all
of them. At each level the operators group either to the right or to the left; the reading
decides which, except for powers.

The plain grammar says no more than that operands and binary operators alternate. It accepts the
same sequences and leaves their grouping open.
-/

namespace Reckon

namespace BinaryOperator

def priority (o : BinaryOperator) : Nat :=
  o.toOperator.priority

/-- Whether equal operators group to the left under a reading. -/
def groupsLeft (leftAssociative : Bool) (o : BinaryOperator) : Bool :=
  leftAssociative && !o.toOperator.rightAssociative

def symbol (o : BinaryOperator) : Piece :=
  o.toOperator.symbol

end BinaryOperator

namespace Grammar

/-- The level of signs, numerals and groups. -/
def tightest : Nat := 5

/-- The sequences of pieces that derive from a level, each with its tree. -/
inductive Derives (leftAssociative : Bool) : Nat → List Piece → Expr Binary64 → Prop where
  | numeral (n : Numeral) : Derives leftAssociative tightest [n.text] (.value n.value)
  | group {pieces : List Piece} {e : Expr Binary64} (h : Derives leftAssociative 1 pieces e) :
      Derives leftAssociative tightest (['('] :: pieces ++ [[')']]) e
  | plus {pieces : List Piece} {e : Expr Binary64} (h : Derives leftAssociative tightest pieces e) :
      Derives leftAssociative tightest (['+'] :: pieces) e
  | minus {pieces : List Piece} {e : Expr Binary64} (h : Derives leftAssociative tightest pieces e) :
      Derives leftAssociative tightest (['-'] :: pieces) (.negate e)
  | tighter {level : Nat} {pieces : List Piece} {e : Expr Binary64} (positive : 0 < level)
      (h : Derives leftAssociative (level + 1) pieces e) : Derives leftAssociative level pieces e
  | toRight {o : BinaryOperator} {front back : List Piece} {left right : Expr Binary64}
      (groups : o.groupsLeft leftAssociative = false)
      (hleft : Derives leftAssociative (o.priority + 1) front left)
      (hright : Derives leftAssociative o.priority back right) :
      Derives leftAssociative o.priority (front ++ o.symbol :: back) (.binary o left right)
  | toLeft {o : BinaryOperator} {front back : List Piece} {left right : Expr Binary64}
      (groups : o.groupsLeft leftAssociative = true)
      (hleft : Derives leftAssociative o.priority front left)
      (hright : Derives leftAssociative (o.priority + 1) back right) :
      Derives leftAssociative o.priority (front ++ o.symbol :: back) (.binary o left right)

mutual

/-- The plain grammar of operands: signs before a numeral or a group. -/
inductive Operand : List Piece → Prop where
  | numeral (n : Numeral) : Operand [n.text]
  | group {pieces : List Piece} (h : Sequence pieces) : Operand (['('] :: pieces ++ [[')']])
  | plus {pieces : List Piece} (h : Operand pieces) : Operand (['+'] :: pieces)
  | minus {pieces : List Piece} (h : Operand pieces) : Operand (['-'] :: pieces)

/-- Operands with binary operators between them. -/
inductive Sequence : List Piece → Prop where
  | single {pieces : List Piece} (h : Operand pieces) : Sequence pieces
  | more {front back : List Piece} (o : BinaryOperator) (hfront : Operand front)
      (hback : Sequence back) : Sequence (front ++ o.symbol :: back)

end

/-- Operands on both sides of an operator join to a sequence. -/
theorem Sequence.append {front back : List Piece} (o : BinaryOperator) (hfront : Sequence front)
    (hback : Sequence back) : Sequence (front ++ o.symbol :: back) := by
  cases hfront with
  | single h => exact .more o h hback
  | more o' h hrest =>
    rw [List.append_assoc, List.cons_append]
    exact .more o' h (append o hrest hback)
termination_by front.length
decreasing_by
  simp only [List.length_append, List.length_cons]
  omega

theorem priority_lt_tightest (o : BinaryOperator) : o.priority < tightest := by
  cases o <;> decide

theorem Derives.level_le {leftAssociative : Bool} {level : Nat} {pieces : List Piece}
    {e : Expr Binary64} (h : Derives leftAssociative level pieces e) : level ≤ tightest := by
  induction h with
  | numeral | group | plus | minus => exact Nat.le_refl _
  | tighter positive h ih => exact Nat.le_of_succ_le ih
  | toRight | toLeft => exact Nat.le_of_lt (priority_lt_tightest _)

theorem Derives.loosen {leftAssociative : Bool} {level tighter : Nat} {pieces : List Piece}
    {e : Expr Binary64} (h : Derives leftAssociative tighter pieces e) (positive : 0 < level)
    (hle : level ≤ tighter) : Derives leftAssociative level pieces e := by
  induction hle with
  | refl => exact h
  | step hle ih => exact ih (.tighter (Nat.lt_of_lt_of_le positive hle) h)

/-- What derives from a level also derives from the plain grammar. -/
theorem Derives.sequence {leftAssociative : Bool} {level : Nat} {pieces : List Piece}
    {e : Expr Binary64} (h : Derives leftAssociative level pieces e) :
    Sequence pieces ∧ (level = tightest → Operand pieces) := by
  induction h with
  | numeral n => exact ⟨.single (.numeral n), fun _ ↦ .numeral n⟩
  | group h ih => exact ⟨.single (.group ih.1), fun _ ↦ .group ih.1⟩
  | plus h ih => exact ⟨.single (.plus (ih.2 rfl)), fun _ ↦ .plus (ih.2 rfl)⟩
  | minus h ih => exact ⟨.single (.minus (ih.2 rfl)), fun _ ↦ .minus (ih.2 rfl)⟩
  | tighter positive h ih =>
    have hlevel := h.level_le
    exact ⟨ih.1, fun heq ↦ absurd heq (Nat.ne_of_lt hlevel)⟩
  | toRight groups hleft hright ihl ihr | toLeft groups hleft hright ihl ihr =>
    exact ⟨.append _ ihl.1 ihr.1, fun heq ↦ absurd heq (Nat.ne_of_lt (priority_lt_tightest _))⟩

end Grammar

end Reckon
