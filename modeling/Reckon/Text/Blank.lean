import Reckon.Text.CharSet

/-!
# Blank characters

The characters that separate without meaning: spaces, tabs, ends of lines and the control
characters 1C to 1F, over all of Unicode.
-/

namespace Reckon.Text

def blanks : CharSet :=
  [(0x9, 0xd), (0x1c, 0x20), (0x85, 0x85), (0xa0, 0xa0), (0x1680, 0x1680), (0x2000, 0x200a),
   (0x2028, 0x2029), (0x202f, 0x202f), (0x205f, 0x205f), (0x3000, 0x3000)]

theorem ascending_blanks : blanks.Ascending 0 := by
  decide

def isBlank (c : Char) : Bool :=
  blanks.contains c

/-- Whether a text holds nothing but blank characters; the empty text does. -/
def allBlank (text : List Char) : Bool :=
  text.all isBlank

end Reckon.Text
