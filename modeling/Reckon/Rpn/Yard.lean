import Reckon.Fault
import Reckon.Token

/-!
# From infix to postfix order

Tokens are brought into postfix order with a stack of waiting operators. Operands pass straight
to the output. An operator waits on the stack until its right operand is complete, which it is
once an operator of lower priority or the closing bracket of its group arrives.

Operators of equal priority wait for each other, so their groups close from the right. With the
left associative reading an equal operator closes the group before it, except that powers and
negations group to the right in both readings.
-/

namespace Reckon.Rpn

/-- The output so far and the waiting operators, both with the latest first. -/
structure Yard (α : Type) where
  output : List (Token α)
  waiting : List Operator

namespace Yard

variable {α : Type}

def empty : Yard α := ⟨[], []⟩

/-- Whether an arriving operator waits above another one without sending it off. -/
def stays (leftAssociative : Bool) (incoming top : Operator) : Bool :=
  top.priority < incoming.priority ||
    incoming.priority == top.priority && (!leftAssociative || incoming.rightAssociative)

/-- Whether an arriving operator sends a waiting one to the output. -/
def sends (leftAssociative : Bool) (incoming top : Operator) : Bool :=
  incoming.priority < top.priority ||
    leftAssociative && top.priority == incoming.priority && !incoming.rightAssociative && !top.isBracket

def push (o : Operator) (yard : Yard α) : Yard α :=
  { yard with waiting := o :: yard.waiting }

/-- Sends the waiting operators to the output from the top on, as long as a test holds. -/
def sendWhile (test : Operator → Bool) (yard : Yard α) : Yard α :=
  ⟨((yard.waiting.takeWhile test).map .operator).reverse ++ yard.output, yard.waiting.dropWhile test⟩

/-- Completes the innermost group. -/
def close (yard : Yard α) : Except Fault (Yard α) :=
  let inner := yard.sendWhile (· ≠ .openBracket)
  match inner.waiting with
  | [] => .error .strayClosing
  | _ :: outer => .ok { inner with waiting := outer }

/-- The arrival of an operator that is not a bracket. -/
def arrive (leftAssociative : Bool) (o : Operator) (yard : Yard α) : Yard α :=
  match yard.waiting with
  | [] => yard.push o
  | top :: _ =>
    if stays leftAssociative o top then yard.push o
    else (yard.sendWhile (sends leftAssociative o)).push o

def step (leftAssociative : Bool) (yard : Yard α) : Token α → Except Fault (Yard α)
  | .value x => .ok { yard with output := .value x :: yard.output }
  | .operator .openBracket => .ok (yard.push .openBracket)
  | .operator .closeBracket => yard.close
  | .operator o => .ok (yard.arrive leftAssociative o)

def run (leftAssociative : Bool) (tokens : List (Token α)) : Except Fault (Yard α) :=
  tokens.foldlM (step leftAssociative) empty

/-- The output in order, once every bracket is closed. -/
def finish (yard : Yard α) : Except Fault (List (Token α)) :=
  if yard.waiting.contains .openBracket then .error .unclosedOpening
  else .ok (yard.output.reverse ++ yard.waiting.map .operator)

end Yard

/-- The tokens in postfix order, without brackets. -/
def ofInfix {α : Type} (leftAssociative : Bool) (tokens : List (Token α)) :
    Except Fault (List (Token α)) := do
  (← Yard.run leftAssociative tokens).finish

end Reckon.Rpn
