import Reckon.Operator
import Reckon.Text.Quoted

/-!
# Faults

Every reason why a text has no value, with the wording in one place. A fault is of one of seven
kinds, and the kind is what a table of results shows of it.
-/

namespace Reckon

inductive FaultKind where
  | symbol
  | numeral
  | classification
  | brackets
  | arity
  | consistency
  | index
deriving DecidableEq

def FaultKind.name : FaultKind → String
  | .symbol => "LexError"
  | .numeral => "NumberFormatError"
  | .classification => "ClassificationError"
  | .brackets => "UnbalancedBracketsError"
  | .arity => "ArityError"
  | .consistency => "InternalConsistencyError"
  | .index => "IndexError"

inductive Fault where
  /-- No operator starts at this position; the text is what was tried. -/
  | unknownSymbol (text : List Char) (position : Nat)
  | emptyExpression (text : List Char)
  | malformedNumber (text : List Char)
  | unknownOperator (text : List Char)
  | emptyPiece
  | strayClosing
  | unclosedOpening
  /-- A bracket where an operation is due. -/
  | notAFunction (operator : Operator)
  | wrongCount (operator : Operator) (given : Nat)
  | missingOperands (operator : Operator) (present : Nat)
  /-- The number of values at the end differs from one. -/
  | leftover (height : Nat)
deriving DecidableEq

namespace Fault

def kind : Fault → FaultKind
  | unknownSymbol .. | emptyExpression _ => .symbol
  | malformedNumber _ => .numeral
  | unknownOperator _ => .classification
  | emptyPiece => .index
  | strayClosing | unclosedOpening => .brackets
  | notAFunction _ | wrongCount .. | missingOperands .. => .arity
  | leftover _ => .consistency

/-- The text that a fault is about. -/
def text? : Fault → Option (List Char)
  | unknownSymbol text _ | emptyExpression text | malformedNumber text | unknownOperator text => some text
  | _ => none

def position? : Fault → Option Nat
  | unknownSymbol _ position => some position
  | emptyExpression _ => some 0
  | _ => none

def shown (text : List Char) : String :=
  String.ofList (Text.quoted text)

def message : Fault → String
  | unknownSymbol text position => s!"Unrecognized symbol {shown text} at position {position}"
  | emptyExpression _ => "Empty expression"
  | malformedNumber text => s!"Malformed number {shown text}"
  | unknownOperator text => s!"Operator not recognized: {shown text}"
  | emptyPiece => "string index out of range"
  | strayClosing => "Closing bracket without matching opening bracket"
  | unclosedOpening => "Opening bracket is never closed"
  | notAFunction o => s!"Unexpected function: {o.name}"
  | wrongCount o given => s!"You need exactly {o.arity.count} args for {o.name}, got {given}"
  | missingOperands o present =>
    s!"Insufficient operands for {o.name}: need {o.arity.count}, have {present}"
  | leftover height => s!"Stack has {height} elements after evaluation, expected 1"

/-- The kind and the message. -/
def report (f : Fault) : String :=
  s!"{f.kind.name}: {f.message}"

end Fault

end Reckon
