import Reckon.Equation
import Reckon.Log

/-!
# Workings

The working of an expression shows each stage on the way to its value: the pieces, the tokens,
their postfix order and the value. At the first fault it stops. The log of a run is made of the
same stages.
-/

namespace Reckon

inductive Working where
  | unread (fault : Fault)
  | cut (pieces : List Piece) (fault : Fault)
  | classified (pieces : List Piece) (tokens : List (Token Binary64)) (fault : Fault)
  | ordered (pieces : List Piece) (tokens postfixTokens : List (Token Binary64))
      (outcome : Except Fault Binary64)

namespace Working

def ofText (reading : Reading) (expression : String) : Working :=
  match Piece.ofText reading.skipBlanks expression.toList with
  | .error fault => .unread fault
  | .ok pieces =>
    match Token.ofPieces pieces with
    | .error fault => .cut pieces fault
    | .ok tokens =>
      match Rpn.ofInfix reading.leftAssociative tokens with
      | .error fault => .classified pieces tokens fault
      | .ok postfixTokens =>
        .ordered pieces tokens postfixTokens (Rpn.evaluate Binary64.arithmetic postfixTokens)

open Log

def cutRecord (expression : String) (pieces : List Piece) : Record :=
  ⟨.lexer, .debug,
    s!"Lexed {Fault.shown expression.toList} into {String.ofList (Text.quotedList pieces)}"⟩

def tokensRecord (tokens : List (Token Binary64)) : Record :=
  ⟨.classifier, .debug, s!"Classified tokens: {String.ofList (Token.names tokens)}"⟩

def orderRecord (postfixTokens : List (Token Binary64)) : Record :=
  ⟨.converter, .debug, s!"Postfix: {String.ofList (Token.names postfixTokens)}"⟩

/-- The records of reading an expression. -/
def records (expression : String) : Working → List Record
  | .unread _ => []
  | .cut pieces _ => [cutRecord expression pieces]
  | .classified pieces tokens _ => [cutRecord expression pieces, tokensRecord tokens]
  | .ordered pieces tokens postfixTokens _ =>
    [cutRecord expression pieces, tokensRecord tokens, orderRecord postfixTokens]

end Working

/-- The record of valuing an equation, which is written only if more or less than one value remains. -/
def Equation.valueRecords (equation : Equation) : List Log.Record :=
  match Rpn.run Binary64.arithmetic equation.postfixTokens with
  | .error _ | .ok [_] => []
  | .ok stack =>
    let shown := ", ".intercalate (stack.reverse.map fun x ↦ Token.listed (.value x))
    [⟨.evaluator, .debug, s!"Stack content: [{shown}]"⟩]

end Reckon
