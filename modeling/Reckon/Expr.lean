import Reckon.Rpn.Evaluation

/-!
# Expression trees

A tree says which operands each operation takes. Its listing in postorder is the postfix
notation, and evaluating that listing gives the value of the tree.
-/

namespace Reckon

inductive BinaryOperator where
  | plus
  | minus
  | times
  | divide
  | power
  | remainder
deriving DecidableEq

def BinaryOperator.toOperator : BinaryOperator → Operator
  | plus => .plus
  | minus => .minus
  | times => .times
  | divide => .divide
  | power => .power
  | remainder => .remainder

theorem BinaryOperator.arity_toOperator (o : BinaryOperator) : o.toOperator.arity = .binary := by
  cases o <;> rfl

def Arithmetic.binary {α : Type} (A : Arithmetic α) : BinaryOperator → α → α → α
  | .plus => A.add
  | .minus => A.sub
  | .times => A.mul
  | .divide => A.div
  | .power => A.pow
  | .remainder => A.mod

inductive Expr (α : Type) where
  | value (x : α)
  | negate (e : Expr α)
  | binary (o : BinaryOperator) (left right : Expr α)

namespace Expr

variable {α : Type}

def postorder : Expr α → List (Token α)
  | value x => [.value x]
  | negate e => e.postorder ++ [.operator .negate]
  | binary o left right => left.postorder ++ right.postorder ++ [.operator o.toOperator]

/-- The value of a tree, from its operands up. -/
def eval (A : Arithmetic α) : Expr α → α
  | value x => x
  | negate e => A.neg (e.eval A)
  | binary o left right => A.binary o (left.eval A) (right.eval A)

/-- A listing in postorder puts the value of the tree on the stack and leaves the rest of it. -/
theorem foldlM_step_postorder (A : Arithmetic α) (e : Expr α) (stack : List α) :
    e.postorder.foldlM (Rpn.step A) stack = .ok (e.eval A :: stack) := by
  induction e generalizing stack with
  | value x => rfl
  | negate e ih =>
    rw [postorder, List.foldlM_append, ih]
    rfl
  | binary o left right ihl ihr =>
    rw [postorder, List.foldlM_append, List.foldlM_append, ihl]
    have hstep : Rpn.step A (right.eval A :: left.eval A :: stack) (.operator o.toOperator) =
        .ok (A.binary o (left.eval A) (right.eval A) :: stack) := by
      cases o <;> rfl
    change (right.postorder.foldlM (Rpn.step A) (left.eval A :: stack) >>= _) = _
    rw [ihr]
    change (Rpn.step A (right.eval A :: left.eval A :: stack) (.operator o.toOperator) >>= _) = _
    rw [hstep]
    rfl

theorem evaluate_postorder (A : Arithmetic α) (e : Expr α) :
    Rpn.evaluate A e.postorder = .ok (e.eval A) := by
  have hrun : Rpn.run A e.postorder = .ok [e.eval A] := foldlM_step_postorder A e []
  rw [Rpn.evaluate, hrun]
  rfl

end Expr

end Reckon
