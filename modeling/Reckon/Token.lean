import Reckon.Decimal.Layout
import Reckon.Decimal.Numeral
import Reckon.Piece

/-!
# Tokens

A token is an operand or an operator. Pieces become tokens one by one: a sign that follows no
operand is not an operation between two, so a plus of that kind is dropped and a minus negates.
-/

namespace Reckon

inductive Token (α : Type) where
  | value (x : α)
  | operator (o : Operator)
deriving DecidableEq

namespace Token

variable {α : Type}

/-- Whether an operand ends before this place: a value or a closing bracket stands there. -/
def endsOperand : Option (Token α) → Bool
  | some (.value _) => true
  | some (.operator o) => o == .closeBracket
  | none => false

def ofNumber (text : List Char) : Except Fault (Token Binary64) :=
  match Numeral.ofText? text with
  | some numeral => .ok (.value numeral.value)
  | none => .error (.malformedNumber text)

def ofSymbol (text : List Char) : Except Fault Operator :=
  match Operator.ofSymbol? text with
  | some o => .ok o
  | none => .error (.unknownOperator text)

/-- What a symbol means behind a token; a sign without effect means nothing. -/
def placed? (previous : Option (Token α)) : Operator → Option Operator
  | .plus => if endsOperand previous then some .plus else none
  | .minus => if endsOperand previous then some .minus else some .negate
  | o => some o

/-- The tokens of the pieces that follow a token. -/
def following (previous : Option (Token Binary64)) : List Piece → Except Fault (List (Token Binary64))
  | [] => .ok []
  | [] :: _ => .error .emptyPiece
  | (c :: cs) :: rest =>
    if Piece.isNumeric c then do
      let token ← ofNumber (c :: cs)
      return token :: (← following (some token) rest)
    else do
      let symbol ← ofSymbol (c :: cs)
      match placed? previous symbol with
      | none => following previous rest
      | some o => return .operator o :: (← following (some (.operator o)) rest)

def ofPieces (pieces : List Piece) : Except Fault (List (Token Binary64)) :=
  following none pieces

/-- The text of a token in postfix notation. -/
def name : Token Binary64 → List Char
  | .value x => x.generalText
  | .operator o => o.symbol

/-- Names with spaces between them. -/
def names (tokens : List (Token Binary64)) : List Char :=
  [' '].intercalate (tokens.map name)

/-- The word for what a token is. -/
def kindName : Token α → String
  | .value _ => "value"
  | .operator _ => "operator"

/-- A token as it is shown in listings. -/
def listed (token : Token Binary64) : String :=
  s!"Token({token.kindName}, {String.ofList token.name})"

/-- Equality of tokens by the values of their operands. -/
def same : Token Binary64 → Token Binary64 → Bool
  | .value x, .value y => x.sameValue y
  | .operator o, .operator o' => o == o'
  | _, _ => false

end Token

end Reckon
