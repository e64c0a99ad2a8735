import Reckon.Decimal.Shortest

/-!
# Texts of numbers

Four ways to write a binary64 number. The shortest text holds the fewest digits that read back,
the general text six significant digits; both are positional for moderate orders and otherwise
carry an exponent. The fixed text has six places after the point, and the scientific text six
places and always an exponent. All digits come from the exact value, halves to even.
-/

namespace Reckon

/-- Where positional notation starts and ends, and whether whole numbers keep a point. -/
structure Layout where
  least : Int
  beyond : Int
  wholePoint : Bool

namespace Layout

/-- Positional from `0.0001` to below `10 ^ 16`, always with a point. -/
def shortest : Layout := ⟨-4, 16, true⟩

/-- Positional from `0.0001` to below `10 ^ 6`, whole numbers without a point. -/
def general : Layout := ⟨-4, 6, false⟩

/-- The digits with a point after the digit of order zero. -/
def positional (layout : Layout) (ds : List Char) (order : Int) : List Char :=
  if order < 0 then ['0', '.'] ++ List.replicate (-order - 1).toNat '0' ++ ds
  else
    let count := order.toNat + 1
    let whole := ds.take count ++ List.replicate (count - ds.length) '0'
    match ds.drop count with
    | [] => if layout.wholePoint then whole ++ ['.', '0'] else whole
    | fraction => whole ++ '.' :: fraction

/-- The mark of an exponent, its sign and at least two digits. -/
def exponentText (order : Int) : List Char :=
  let ds := Decimal.digits order.natAbs
  ['e', if order < 0 then '-' else '+'] ++ List.replicate (2 - ds.length) '0' ++ ds

/-- The digits with a point after the first one, and the exponent. -/
def scientific (ds : List Char) (order : Int) : List Char :=
  let mantissa := match ds with
    | d :: e :: rest => d :: '.' :: e :: rest
    | short => short
  mantissa ++ exponentText order

def write (layout : Layout) (ds : List Char) (order : Int) : List Char :=
  if layout.least ≤ order ∧ order < layout.beyond then layout.positional ds order
  else scientific ds order

/-- A decimal without the zeros at the end of its digits. -/
def writeDecimal (layout : Layout) (d : Decimal) : List Char :=
  layout.write (Decimal.trimZeros (Decimal.digits d.coefficient)) d.leadingOrder

end Layout

namespace Binary64

def sign (negative : Bool) : List Char :=
  if negative then ['-'] else []

/-- The texts of the numbers without digits, and the sign before the digits of the others. -/
def textWith (notANumber : String) (magnitude : (m : Nat) → (e : Int) → Canonical m e → List Char) :
    Binary64 → List Char
  | .nan => notANumber.toList
  | .infinite s => sign s ++ ['i', 'n', 'f']
  | .finite s m e h => sign s ++ magnitude m e h

/-- The shortest text that reads back. -/
def shortestText : Binary64 → List Char :=
  textWith "nan" fun m e h ↦
    if m = 0 then Layout.shortest.write ['0'] 0
    else Layout.shortest.writeDecimal (Decimal.shortest m e h)

/-- Six significant digits, without zeros at the end. -/
def generalText : Binary64 → List Char :=
  textWith "nan" fun m e _ ↦
    if m = 0 then Layout.general.write ['0'] 0
    else Layout.general.writeDecimal (Decimal.significant 6 (numerator m e) (denominator e))

/-- Six places after the point. -/
def fixedText : Binary64 → List Char :=
  textWith "NaN" fun m e _ ↦
    let ds := Decimal.digits (Decimal.nearest (numerator m e) (denominator e) (-6)).coefficient
    let padded := List.replicate (7 - ds.length) '0' ++ ds
    padded.take (padded.length - 6) ++ '.' :: padded.drop (padded.length - 6)

/-- One digit before the point, six after it, and an exponent. -/
def scientificText : Binary64 → List Char :=
  textWith "NaN" fun m e _ ↦
    if m = 0 then Layout.scientific (List.replicate 7 '0') 0
    else
      let d := Decimal.significant 7 (numerator m e) (denominator e)
      Layout.scientific ((Decimal.digits d.coefficient).take 7) d.leadingOrder

end Binary64

end Reckon
