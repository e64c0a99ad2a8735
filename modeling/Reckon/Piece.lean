import Reckon.Fault
import Reckon.Text.Blank
import Reckon.Text.Digit

/-!
# Pieces

An expression is cut into pieces from left to right: maximal runs of digits and points, and
operator symbols. Blank characters may separate pieces and are then dropped. A symbol grows
character by character until it is known; it never grows into a number or a bracket, so the
first character that starts no symbol is reported together with everything up to there.
-/

namespace Reckon

/-- A part of an expression: a number to be read, or a symbol. -/
abbrev Piece := List Char

namespace Piece

/-- The characters that numbers are made of. -/
def isNumeric (c : Char) : Bool :=
  Text.isDigit c || c == '.'

def isBracket (c : Char) : Bool :=
  c == '(' || c == ')'

def isKnown (text : List Char) : Bool :=
  (Operator.ofSymbol? text).isSome

/-- Grows a text to the first known symbol, as far as it may go, and gives what remains. -/
def grow (text : List Char) : List Char → List Char × List Char
  | [] => (text, [])
  | c :: rest =>
    if isKnown text || isNumeric c || isBracket c then (text, c :: rest)
    else grow (text ++ [c]) rest

theorem length_grow_le (text rest : List Char) : (grow text rest).2.length ≤ rest.length := by
  induction rest generalizing text with
  | nil => simp [grow]
  | cons c rest ih =>
    rw [grow]
    split
    · simp
    · exact Nat.le_succ_of_le (ih _)

theorem length_dropWhile_le (p : Char → Bool) (text : List Char) :
    (text.dropWhile p).length ≤ text.length :=
  (List.dropWhile_sublist p).length_le

/-- The pieces of a text that starts at a position. -/
def cut (skipBlanks : Bool) (position : Nat) : List Char → Except Fault (List Piece)
  | [] => .ok []
  | c :: rest =>
    if isNumeric c then
      let run := c :: rest.takeWhile isNumeric
      (cut skipBlanks (position + run.length) (rest.dropWhile isNumeric)).map (run :: ·)
    else if skipBlanks && Text.isBlank c then cut skipBlanks (position + 1) rest
    else
      let grown := grow [c] rest
      if isKnown grown.1 then
        (cut skipBlanks (position + grown.1.length) grown.2).map (grown.1 :: ·)
      else .error (.unknownSymbol grown.1 position)
termination_by text => text.length
decreasing_by
  · exact Nat.lt_succ_of_le (length_dropWhile_le isNumeric rest)
  · exact Nat.lt_succ_self _
  · exact Nat.lt_succ_of_le (length_grow_le [c] rest)

/-- The pieces of an expression, at least one. -/
def ofText (skipBlanks : Bool) (text : List Char) : Except Fault (List Piece) :=
  match cut skipBlanks 0 text with
  | .ok [] => .error (.emptyExpression text)
  | outcome => outcome

end Piece

end Reckon
