import Reckon.Config
import Reckon.Csv.Sheet
import Reckon.Path
import Reckon.Text.Blank
import Reckon.Text.Lines

/-!
# Files of expressions

A file whose name ends in `.csv` is a sheet, and its expressions are the fields of one column.
Any other file holds an expression in each line that is not blank. Both are encoded in UTF-8.
-/

namespace Reckon

inductive LoadFault where
  /-- The file cannot be opened. -/
  | unopened (path : String) (fault : PathFault)
  | undecodable
  | malformed
  | noColumns
  | noColumn (name path : String)
deriving DecidableEq

/-- The wording, where the fault has one of its own. -/
def LoadFault.message? : LoadFault → Option String
  | unopened path fault => some (fault.message path)
  | noColumn name path => some s!"Column '{name}' not found in {path}"
  | _ => none

namespace ExpressionFile

def isSheet (path : String) : Bool :=
  path.endsWith ".csv"

/-- The lines of a text that are not blank. -/
def ofLines (text : List Char) : List String :=
  ((Text.lines text).filter (!Text.allBlank ·)).map String.ofList

def ofSheet (column path : String) (text : List Char) : Except LoadFault (List String) :=
  match Csv.Sheet.ofText text with
  | .error .malformed => .error .malformed
  | .error .noColumns => .error .noColumns
  | .ok sheet =>
    match sheet.column? column with
    | some fields => .ok fields
    | none => .error (.noColumn column path)

/-- The column to read: the configured one unless another is named. -/
def columnOr (config : Config) (column : Option String) : String :=
  match column with
  | none | some "" => config.expressionColumn
  | some name => name

/-- The expressions of a file, given its bytes if it can be opened. -/
def load (config : Config) (column : Option String) (path : String)
    (content : Except PathFault ByteArray) : Except LoadFault (List String) :=
  match content with
  | .error fault => .error (.unopened path fault)
  | .ok bytes =>
    match String.fromUTF8? bytes with
    | none => .error .undecodable
    | some text =>
      if isSheet path then ofSheet (columnOr config column) path text.toList
      else .ok (ofLines text.toList)

/-- A text is read back from its encoding. -/
theorem load_toUTF8 (config : Config) (column : Option String) (path text : String) :
    load config column path (.ok text.toUTF8) =
      if isSheet path then ofSheet (columnOr config column) path text.toList
      else .ok (ofLines text.toList) := by
  have hdecode : String.fromUTF8? text.toUTF8 = some text := dif_pos text.isValidUTF8
  simp only [load, hdecode]

end ExpressionFile

end Reckon
