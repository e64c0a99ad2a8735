import Reckon.Csv.Reader

/-!
# Sheets with named columns

The first record of a sheet names its columns. A column without a name is called after its
position, and a name that occurs before gets a number behind it that makes it new; given names
come before those made from a position. If the first row has more fields than there are names,
the surplus fields at the front of each row are an index and the names belong to the fields
behind them. Short rows are filled up with empty fields; a row wider than the first one is a
fault.
-/

namespace Reckon.Csv

def numbered (name : String) (number : Nat) : String :=
  s!"{name}.{number}"

/-- The first number from one on that makes a name differ from all that are used. -/
def freeNumber (name : String) (used : List String) (number : Nat) : Nat :=
  if _h : numbered name number ∈ used then
    freeNumber name (used.erase (numbered name number)) (number + 1)
  else number
termination_by used.length
decreasing_by
  have := List.length_pos_of_mem _h
  rw [List.length_erase_of_mem _h]
  omega

/-- The names so far, and for each name the number that it gets next if it occurs again. -/
structure Naming where
  names : List String
  next : List (String × Nat)

/-- Settles the name at a position. -/
def Naming.settle (naming : Naming) (position : Nat) : Naming :=
  let name := naming.names.getD position ""
  match naming.next.lookup name with
  | none => { naming with next := (name, 1) :: naming.next }
  | some number =>
    let free := freeNumber name naming.names number
    ⟨naming.names.set position (numbered name free),
      (numbered name free, 1) :: (name, free + 1) :: naming.next⟩

/-- The distinct names of the columns under a header. -/
def columnNames (header : List String) : List String :=
  let positions := List.range header.length
  let isGiven (i : Nat) : Bool := header.getD i "" != ""
  let names := List.zipWith (fun i name ↦ if name == "" then s!"Unnamed: {i}" else name) positions header
  let order := positions.filter isGiven ++ positions.filter (!isGiven ·)
  (order.foldl Naming.settle ⟨names, []⟩).names

structure Sheet where
  columns : List String
  rows : List (List String)

inductive SheetFault where
  /-- A quote that is not closed, or a row that is too wide. -/
  | malformed
  | noColumns
deriving DecidableEq

/-- A row without its index, filled up to a width. -/
def fit (index width : Nat) (row : List String) : List String :=
  (row ++ List.replicate (width - row.length) "").drop index

def Sheet.ofText (text : List Char) : Except SheetFault Sheet :=
  match read? text with
  | none => .error .malformed
  | some records =>
    match records.map (·.map String.ofList) with
    | [] => .error .noColumns
    | header :: [] => .ok ⟨columnNames header, []⟩
    | header :: first :: rest =>
      let width := max header.length first.length
      if rest.any (width < ·.length) then .error .malformed
      else .ok ⟨columnNames header, (first :: rest).map (fit (width - header.length) width)⟩

/-- The fields of a column, if there is one of this name. -/
def Sheet.column? (sheet : Sheet) (name : String) : Option (List String) :=
  (sheet.columns.idxOf? name).map fun i ↦ sheet.rows.map (·.getD i "")

end Reckon.Csv
