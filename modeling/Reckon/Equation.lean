import Reckon.Binary64.Power
import Reckon.Rpn.Evaluation
import Reckon.Rpn.Yard

/-!
# Equations

An equation is an expression together with its tokens in postfix order. It is built once from
the text and can be valued any number of times.
-/

namespace Reckon

/-- How expressions are read. -/
structure Reading where
  skipBlanks : Bool
  leftAssociative : Bool
deriving DecidableEq

/-- The arithmetic of binary64 numbers. -/
def Binary64.arithmetic : Arithmetic Binary64 where
  add := Binary64.add
  sub := Binary64.sub
  mul := Binary64.mul
  div := Binary64.div
  pow := Binary64.pow
  mod := Binary64.mod
  neg := Binary64.neg

structure Equation where
  expression : String
  postfixTokens : List (Token Binary64)

namespace Equation

def ofText (reading : Reading) (expression : String) : Except Fault Equation := do
  let pieces ← Piece.ofText reading.skipBlanks expression.toList
  let tokens ← Token.ofPieces pieces
  return ⟨expression, ← Rpn.ofInfix reading.leftAssociative tokens⟩

/-- The value under an arithmetic. -/
def valueIn (A : Arithmetic Binary64) (equation : Equation) : Except Fault Binary64 :=
  Rpn.evaluate A equation.postfixTokens

def value (equation : Equation) : Except Fault Binary64 :=
  equation.valueIn Binary64.arithmetic

/-- The postfix notation, a word for each token. -/
def postfixText (equation : Equation) : String :=
  String.ofList (Token.names equation.postfixTokens)

/-- The expression and its postfix notation. -/
def describe (equation : Equation) : String :=
  s!"<Equation {Fault.shown equation.expression.toList}, postfix {Fault.shown equation.postfixText.toList}>"

end Equation

/-- The value of an expression under an arithmetic. -/
def solveIn (A : Arithmetic Binary64) (reading : Reading) (expression : String) :
    Except Fault Binary64 := do
  (← Equation.ofText reading expression).valueIn A

def solve (reading : Reading) (expression : String) : Except Fault Binary64 :=
  solveIn Binary64.arithmetic reading expression

end Reckon
