import Reckon.Text.Printable

/-!
# Quoted texts

The form in which messages show a text: in single quotes, or in double quotes if only single
quotes occur in it, with the backslash, the surrounding quote and every character that cannot
be printed written as an escape.
-/

namespace Reckon.Text

/-- The quote around a text. -/
def quoteFor (text : List Char) : Char :=
  if text.contains '\'' && !text.contains '"' then '"' else '\''

/-- A code point in lower case hexadecimal, with a least number of digits. -/
def hex (width code : Nat) : List Char :=
  let ds := Nat.toDigits 16 code
  List.replicate (width - ds.length) '0' ++ ds

/-- The escape of a character by its code point, in the shortest of the three forms. -/
def numericEscape (c : Char) : List Char :=
  if c.toNat < 0x100 then '\\' :: 'x' :: hex 2 c.toNat
  else if c.toNat < 0x10000 then '\\' :: 'u' :: hex 4 c.toNat
  else '\\' :: 'U' :: hex 8 c.toNat

def escape (quote c : Char) : List Char :=
  if c = '\\' ∨ c = quote then ['\\', c]
  else if c = '\n' then ['\\', 'n']
  else if c = '\r' then ['\\', 'r']
  else if c = '\t' then ['\\', 't']
  else if isPrintable c then [c]
  else numericEscape c

def quoted (text : List Char) : List Char :=
  let quote := quoteFor text
  quote :: text.flatMap (escape quote) ++ [quote]

/-- A list of texts in square brackets. -/
def quotedList (texts : List (List Char)) : List Char :=
  '[' :: [',', ' '].intercalate (texts.map quoted) ++ [']']

end Reckon.Text
