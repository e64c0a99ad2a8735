/-!
# Lines

A line ends at a line feed, at a carriage return, or at a carriage return that a line feed
follows; nothing else ends one. After the last end there is a further line only if it holds
characters.
-/

namespace Reckon.Text

/-- The lines of a text behind a line that is begun. -/
def linesFrom (line : List Char) : List Char → List (List Char)
  | [] => if line.isEmpty then [] else [line.reverse]
  | '\r' :: '\n' :: rest => line.reverse :: linesFrom [] rest
  | '\r' :: rest => line.reverse :: linesFrom [] rest
  | '\n' :: rest => line.reverse :: linesFrom [] rest
  | c :: rest => linesFrom (c :: line) rest

def lines (text : List Char) : List (List Char) :=
  linesFrom [] text

end Reckon.Text
