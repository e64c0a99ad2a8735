import Reckon.Token

/-!
# The value of a postfix sequence

Operands go onto a stack; an operator takes its operands from the top, the last one first, and
puts its result back. Exactly one value has to remain.
-/

namespace Reckon.Rpn

variable {α : Type}

/-- An operator applied to operands in order. -/
def apply (A : Arithmetic α) (o : Operator) (operands : List α) : Except Fault α :=
  match A.meaning o, operands with
  | .none, _ => .error (.notAFunction o)
  | .unary f, [x] => .ok (f x)
  | .binary f, [x, y] => .ok (f x y)
  | _, _ => .error (.wrongCount o operands.length)

/-- The stack after a token, the top first. -/
def step (A : Arithmetic α) (stack : List α) : Token α → Except Fault (List α)
  | .value x => .ok (x :: stack)
  | .operator o =>
    if stack.length < o.arity.count then .error (.missingOperands o stack.length)
    else do
      let result ← apply A o (stack.take o.arity.count).reverse
      return result :: stack.drop o.arity.count

def run (A : Arithmetic α) (tokens : List (Token α)) : Except Fault (List α) :=
  tokens.foldlM (step A) []

/-- The value that remains, if it is the only one. -/
def single : List α → Except Fault α
  | [x] => .ok x
  | stack => .error (.leftover stack.length)

def evaluate (A : Arithmetic α) (tokens : List (Token α)) : Except Fault α := do
  single (← run A tokens)

end Reckon.Rpn
