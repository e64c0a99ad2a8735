/-!
# Operators

The nine operators: two brackets, six binary operators and the sign that negates. All but the
last have a symbol of their own in the input; a minus becomes a negation by its position.
-/

namespace Reckon

/-- How many operands an operator takes. -/
inductive Arity where
  | none
  | unary
  | binary
deriving DecidableEq

def Arity.count : Arity → Nat
  | .none => 0
  | .unary => 1
  | .binary => 2

inductive Operator where
  | openBracket
  | closeBracket
  | plus
  | minus
  | times
  | divide
  | power
  | remainder
  | negate
deriving DecidableEq

namespace Operator

def all : List Operator :=
  [openBracket, closeBracket, plus, minus, times, divide, power, remainder, negate]

/-- The text of an operator in postfix notation. -/
def symbol : Operator → List Char
  | openBracket => ['(']
  | closeBracket => [')']
  | plus => ['+']
  | minus => ['-']
  | times => ['*']
  | divide => ['/']
  | power => ['^']
  | remainder => ['%']
  | negate => ['u', '-']

def arity : Operator → Arity
  | openBracket | closeBracket => .none
  | negate => .unary
  | _ => .binary

/-- The higher number binds tighter. -/
def priority : Operator → Nat
  | openBracket | closeBracket => 0
  | plus | minus => 1
  | times | divide => 2
  | power => 3
  | remainder => 4
  | negate => 5

/-- The name of an operator in messages. -/
def name : Operator → String
  | openBracket => "OPEN_BRACKET"
  | closeBracket => "CLOSE_BRACKET"
  | plus => "PLUS"
  | minus => "MINUS"
  | times => "MULTIPLY"
  | divide => "DIVIDE"
  | power => "POWER"
  | remainder => "MOD"
  | negate => "UNARY_MINUS"

def isBracket (o : Operator) : Bool :=
  o = openBracket || o = closeBracket

/-- The operators that group to the right whichever way the others group. -/
def rightAssociative (o : Operator) : Bool :=
  o = power || o = negate

/-- The operators that the input can name. -/
def inputs : List Operator :=
  all.filter (· ≠ negate)

/-- The operator that the input names by a text. -/
def ofSymbol? (text : List Char) : Option Operator :=
  inputs.find? (·.symbol == text)

theorem symbol_injective {o o' : Operator} (h : o.symbol = o'.symbol) : o = o' := by
  cases o <;> cases o' <;> first | rfl | simp [symbol] at h

theorem ofSymbol?_eq_some_iff {text : List Char} {o : Operator} :
    ofSymbol? text = some o ↔ o ≠ negate ∧ o.symbol = text := by
  constructor
  · intro h
    have hmem := List.mem_of_find?_eq_some h
    have hsymbol := List.find?_some h
    exact ⟨by simpa using (List.mem_filter.mp hmem).2, eq_of_beq hsymbol⟩
  · rintro ⟨hne, rfl⟩
    cases o <;> first | exact absurd rfl hne | decide

end Operator

/-- An arithmetic gives each operation a meaning on operands of some type. -/
structure Arithmetic (α : Type) where
  add : α → α → α
  sub : α → α → α
  mul : α → α → α
  div : α → α → α
  pow : α → α → α
  mod : α → α → α
  neg : α → α

/-- What an operator does to operands. -/
inductive Meaning (α : Type) where
  | none
  | unary (f : α → α)
  | binary (f : α → α → α)

def Meaning.arity {α : Type} : Meaning α → Arity
  | .none => .none
  | .unary _ => .unary
  | .binary _ => .binary

namespace Arithmetic

def meaning {α : Type} (A : Arithmetic α) : Operator → Meaning α
  | .openBracket | .closeBracket => .none
  | .plus => .binary A.add
  | .minus => .binary A.sub
  | .times => .binary A.mul
  | .divide => .binary A.div
  | .power => .binary A.pow
  | .remainder => .binary A.mod
  | .negate => .unary A.neg

theorem arity_meaning {α : Type} (A : Arithmetic α) (o : Operator) :
    (A.meaning o).arity = o.arity := by
  cases o <;> rfl

end Arithmetic

end Reckon
