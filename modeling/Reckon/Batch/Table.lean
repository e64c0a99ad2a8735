import Reckon.Batch.Row
import Reckon.Config
import Reckon.Csv.Writer
import Reckon.Decimal.Layout

/-!
# Tables of results

Rows of results are three columns: the expressions, their results and their faults. Where two
columns are given the same name, the later one stands in place of the earlier. The columns are
written as comma separated records, or as a table for reading, set to the right.

The table writes all numbers alike. They have the least number of decimals, from one to six,
that shows the same as six do; if one is too small for six decimals, or one is large and the
texts get long, all are in scientific notation.
-/

namespace Reckon.Batch

inductive Cells where
  | texts (list : List String)
  | numbers (list : List Binary64)

structure Column where
  name : String
  cells : Cells

namespace Column

/-- Puts a column behind others, or in place of one of its name. -/
def put (columns : List Column) (column : Column) : List Column :=
  if columns.any (·.name == column.name) then
    columns.map fun other ↦ if other.name == column.name then column else other
  else columns ++ [column]

def isNumeric (column : Column) : Bool :=
  match column.cells with
  | .texts _ => false
  | .numbers _ => true

end Column

/-- The columns of rows. -/
def columns (config : Config) (rows : List Row) : List Column :=
  [⟨config.expressionColumn, .texts (rows.map (·.expression))⟩,
    ⟨config.resultColumn, .numbers (rows.map Row.result)⟩,
    ⟨config.errorColumn, .texts (rows.map Row.error)⟩].foldl Column.put []

/-! ## Records -/

/-- A field for a number, empty without one; the digits are those that read back. -/
def resultField (x : Binary64) : Csv.Field :=
  if x.isNaN then [] else x.shortestText

def Column.fields (column : Column) : List Csv.Field :=
  match column.cells with
  | .texts list => list.map String.toList
  | .numbers list => list.map resultField

/-- Records of so many rows, a field from each column. -/
def records (columns : List Column) (rows : Nat) : List Csv.Record :=
  columns.foldr (fun column records ↦ List.zipWith List.cons column.fields records)
    (List.replicate rows [])

/-- The text of a saved table, by a writer that may quote carriage returns. -/
def csv (config : Config) (quotesReturn : Bool) (rows : List Row) : List Char :=
  let columns := columns config rows
  Csv.write quotesReturn (columns.map (·.name.toList) :: records columns rows.length)

/-! ## Numbers -/

/-- Whether a text is a number with a point, which infinities are not. -/
def hasPoint (text : List Char) : Bool :=
  text.contains '.'

/-- Drops the last character of the numbers with a point as long as all of them end in zero. -/
def trimTogether : Nat → List (List Char) → List (List Char)
  | 0, texts => texts
  | fuel + 1, texts =>
    if texts.any hasPoint && (texts.filter hasPoint).all (·.getLast? == some '0') then
      trimTogether fuel (texts.map fun text ↦ if hasPoint text then text.dropLast else text)
    else texts

/-- Gives a number that ends in its point a decimal. -/
def keepDecimal (text : List Char) : List Char :=
  if text.getLast? = some '.' then text ++ ['0'] else text

def fixedTexts (values : List Binary64) : List (List Char) :=
  (trimTogether 6 (values.map Binary64.fixedText)).map keepDecimal

def isSmall (x : Binary64) : Bool :=
  !x.isZero && Binary64.magnitudeLt x (.ofDecimal false 1 (-6))

def isLarge (x : Binary64) : Bool :=
  Binary64.magnitudeLt (.ofDecimal false 1 6) x

def numberTexts (values : List Binary64) : List (List Char) :=
  let fixed := fixedTexts values
  if values.any isSmall || values.any isLarge && fixed.any (12 < ·.length) then
    values.map Binary64.scientificText
  else fixed

/-! ## Layout -/

/-- Tabs and ends of lines as they are shown in a cell. -/
def cell (text : String) : List Char :=
  text.toList.flatMap fun c ↦
    if c = '\t' then ['\\', 't']
    else if c = '\n' then ['\\', 'n']
    else if c = '\r' then ['\\', 'r']
    else [c]

def toRight (width : Nat) (text : List Char) : List Char :=
  List.replicate (width - text.length) ' ' ++ text

/-- The cells of a column, all as wide as the widest. -/
def aligned (cells : List (List Char)) : List (List Char) :=
  let width := cells.foldl (fun width text ↦ max width text.length) 0
  cells.map (toRight width)

def Column.cellTexts (column : Column) : List (List Char) :=
  match column.cells with
  | .texts list => list.map cell
  | .numbers list => numberTexts list

/-- Names as they are shown, without the spaces that all of them start with. -/
def labels (names : List String) : List (List Char) :=
  let shown := names.map cell
  let shared := (shown.map fun label ↦ (label.takeWhile (· = ' ')).length).min?.getD 0
  shown.map (List.drop shared)

/-- The labels of columns; where the last column with a label has numbers, there is room for a
sign before it. -/
def headings (columns : List Column) : List (List Char) :=
  let labels := labels (columns.map (·.name))
  let numeric := (labels.zip (columns.map Column.isNumeric)).reverse
  labels.map fun label ↦ if numeric.lookup label = some true then ' ' :: label else label

def emptyTable (columns : List Column) : String :=
  let names := ", ".intercalate (columns.map (·.name))
  s!"Empty DataFrame\nColumns: [{names}]\nIndex: []\n"

/-- The lines of a table; a line has a cell from each column. -/
def lines (columns : List Column) (rows : Nat) : List (List (List Char)) :=
  let texts := List.zipWith (fun heading column ↦ aligned (heading :: column.cellTexts))
    (headings columns) columns
  texts.foldr (List.zipWith List.cons) (List.replicate (rows + 1) [])

/-- The table with its header. -/
def table (config : Config) (rows : List Row) : String :=
  let columns := columns config rows
  if rows.isEmpty then emptyTable columns
  else
    String.ofList ((lines columns rows.length).flatMap fun cells ↦
      [' '].intercalate cells ++ ['\n'])

end Reckon.Batch
