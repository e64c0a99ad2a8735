import Mathlib.Data.List.Basic
import Mathlib.Data.List.Forall2
import Mathlib.Data.List.GetD
import Reckon.Batch.Table
import Reckon.ExpressionFile
import Reckon.Proofs.Csv.Reading
import Reckon.Proofs.Decimal.Characters

/-!
# Saved results

Saved results are a sheet with a column of expressions, and are loaded like any other sheet. Each
row is one record of three fields, of which only the expression can need quotes. So loading gives
all expressions back if the writer quotes carriage returns. A writer that does not loses those
expressions that hold a carriage return and nothing else that asks for quotes, and no others.
-/

namespace Reckon

namespace Csv

theorem read?_of_head {text : List Char} (h : text.head? ≠ some '\ufeff') :
    read? text = readLines text := by
  unfold read?
  split
  · exact absurd rfl h
  · rfl

theorem fit_eq_self {width : Nat} {row : List String} (h : row.length = width) :
    fit 0 width row = row := by
  simp [fit, h]

/-- A cell of a row is one of its fields, or was filled in. -/
theorem getD_fit (index width i : Nat) (row : List String) :
    (fit index width row).getD i "" ∈ row ∨ (fit index width row).getD i "" = "" := by
  by_cases hlt : i < (fit index width row).length
  · rw [List.getD_eq_getElem _ _ hlt]
    have hmem := List.mem_of_mem_drop (List.getElem_mem hlt)
    exact (List.mem_append.mp hmem).imp_right List.eq_of_mem_replicate
  · exact .inr (List.getD_eq_default _ _ (Nat.le_of_not_lt hlt))

section Sheet

variable {text : List Char} {header : Record} {rows : List Record}

/-- The cells of a sheet are fields of its records in order. -/
theorem Sheet.exists_fit (h : read? text = some (header :: rows)) {sheet : Sheet}
    (hsheet : Sheet.ofText text = .ok sheet) :
    ∃ index width, sheet.rows = rows.map fun row ↦ fit index width (row.map String.ofList) := by
  cases rows with
  | nil =>
    simp only [ofText, h, List.map_cons, List.map_nil, Except.ok.injEq] at hsheet
    exact ⟨0, 0, hsheet ▸ rfl⟩
  | cons first rest =>
    simp only [ofText, h, List.map_cons] at hsheet
    split at hsheet
    · cases hsheet
    · cases hsheet
      exact ⟨_, _, List.map_map (l := first :: rest)⟩

/-- Records as long as the header are the rows of a sheet as they stand. -/
theorem Sheet.ofText_of_length (h : read? text = some (header :: rows))
    (hlength : ∀ row ∈ rows, row.length = header.length) :
    Sheet.ofText text =
      .ok ⟨columnNames (header.map String.ofList), rows.map (·.map String.ofList)⟩ := by
  cases rows with
  | nil => simp only [ofText, h, List.map_cons, List.map_nil]
  | cons first rest =>
    obtain ⟨hfirst, hrest⟩ := List.forall_mem_cons.mp hlength
    have hwide : (rest.map (·.map String.ofList)).any (max header.length first.length < ·.length) =
        false := by
      rw [List.any_map, List.any_eq_false]
      intro row hrow
      simp [hfirst, hrest row hrow]
    have hfit : ∀ row ∈ first :: rest,
        fit (max header.length first.length - header.length) (max header.length first.length)
          (row.map String.ofList) = row.map String.ofList := by
      intro row hrow
      rw [hfirst, Nat.max_self, Nat.sub_self]
      exact fit_eq_self (by rw [List.length_map, hlength row hrow])
    simp only [ofText, h, List.map_cons, List.length_map, hwide, Bool.false_eq_true, if_false]
    rw [show first.map String.ofList :: rest.map (·.map String.ofList) =
      (first :: rest).map (·.map String.ofList) from rfl, List.map_map]
    exact congrArg (fun rows ↦ Except.ok (Sheet.mk _ rows)) (List.map_congr_left hfit)

end Sheet

end Csv

namespace Batch

open Csv

/-- The columns have the names that no configuration changed. -/
def UsualColumns (config : Config) : Prop :=
  config.expressionColumn = "expression" ∧ config.resultColumn = "result" ∧
    config.errorColumn = "error"

def header : Record :=
  ["expression".toList, "result".toList, "error".toList]

/-- The record of a row. -/
def recordOf (row : Row) : Record :=
  [row.expression.toList, resultField row.result, row.error.toList]

theorem zipWith_cons_map {α : Type} (f : Row → α) (g : Row → List α) (rows : List Row) :
    List.zipWith List.cons (rows.map f) (rows.map g) = rows.map fun row ↦ f row :: g row := by
  rw [List.zipWith_map, List.zipWith_self]

/-- Saved results are a header and a record for each row. -/
theorem csv_eq {config : Config} (h : UsualColumns config) (quotesReturn : Bool)
    (rows : List Row) :
    csv config quotesReturn rows = write quotesReturn (header :: rows.map recordOf) := by
  obtain ⟨hexpression, hresult, herror⟩ := h
  have hcolumns : columns config rows =
      [⟨"expression", .texts (rows.map (·.expression))⟩,
        ⟨"result", .numbers (rows.map Row.result)⟩, ⟨"error", .texts (rows.map Row.error)⟩] := by
    simp [columns, Column.put, hexpression, hresult, herror]
  have hrecords : records (columns config rows) rows.length = rows.map recordOf := by
    have hempty : List.replicate rows.length ([] : Record) = rows.map fun _ ↦ [] :=
      List.map_const'.symm
    rw [hcolumns]
    simp only [records, List.foldr_cons, List.foldr_nil, Column.fields, List.map_map, hempty,
      zipWith_cons_map]
    rfl
  rw [csv, hrecords, hcolumns]
  rfl

/-! ## Fields that need no quotes -/

theorem isSpecial_of_isMark {c : Char} (h : Layout.isMark c = true) :
    isSpecial c = false ∧ c ≠ ' ' ∧ c ≠ '\t' := by
  have hnot {d : Char} (hd : Layout.isMark d = false) : c ≠ d := by
    rintro rfl
    rw [h] at hd
    cases hd
  have hcomma : c ≠ ',' := hnot (by decide)
  have hquote : c ≠ '"' := hnot (by decide)
  have hnewline : c ≠ '\n' := hnot (by decide)
  have hreturn : c ≠ '\r' := hnot (by decide)
  exact ⟨by simp [isSpecial, hcomma, hquote, hnewline, hreturn], hnot (by decide), hnot (by decide)⟩

theorem isMark_of_mem_resultField {x : Binary64} {c : Char} (h : c ∈ resultField x) :
    Layout.isMark c = true := by
  unfold resultField at h
  split at h
  · cases h
  · exact x.isMark_of_mem_shortestText c h

theorem isSpecial_of_mem_error {row : Row} {c : Char} (h : c ∈ row.error.toList) :
    isSpecial c = false := by
  have hkind (kind : FaultKind) : ∀ c ∈ kind.name.toList, isSpecial c = false := by
    have hall : (kind.name.toList.all fun c ↦ !isSpecial c) = true := by
      cases kind <;> decide +kernel
    simpa using List.all_eq_true.mp hall
  unfold Row.error at h
  split at h
  · cases h
  · exact hkind _ c h

theorem not_mem_of_plain {field : Field} (h : ∀ c ∈ field, isSpecial c = false) {c : Char}
    (hc : isSpecial c = true) : c ∉ field := by
  intro hmem
  rw [h c hmem] at hc
  cases hc

variable {quotesReturn : Bool}

theorem needsQuotes_of_plain {field : Field} (h : ∀ c ∈ field, isSpecial c = false) :
    needsQuotes quotesReturn field = false := by
  refine List.any_eq_false.mpr fun c hc ↦ ?_
  have hplain := h c hc
  simp only [isSpecial, Bool.or_eq_false_iff] at hplain
  simp [hplain]

theorem plain_result (x : Binary64) : ∀ c ∈ resultField x, isSpecial c = false :=
  fun _ hc ↦ (isSpecial_of_isMark (isMark_of_mem_resultField hc)).1

theorem plain_error (row : Row) : ∀ c ∈ row.error.toList, isSpecial c = false :=
  fun _ ↦ isSpecial_of_mem_error

theorem regular_header : Record.Regular quotesReturn header := by
  have hreturn : ∀ field ∈ header, '\r' ∉ field := by decide +kernel
  exact ⟨by decide, fun field hfield ↦ kept_of_not_mem (hreturn field hfield)⟩

theorem regular_recordOf {row : Row} (h : Kept quotesReturn row.expression.toList) :
    Record.Regular quotesReturn (recordOf row) := by
  refine ⟨Nat.le_succ 2, ?_⟩
  simp only [recordOf, List.forall_mem_cons, List.not_mem_nil, false_implies, implies_true,
    and_true]
  exact ⟨h, kept_of_not_mem (not_mem_of_plain (plain_result _) (by decide)),
    kept_of_not_mem (not_mem_of_plain (plain_error row) (by decide))⟩

/-! ## Loading saved results -/

/-- An expression comes back from a sheet if its carriage returns are written in quotes, be it for
another character of the expression or for their own sake. -/
def ComesBack (quotesReturn : Bool) (expression : String) : Prop :=
  '\r' ∈ expression.toList → ',' ∈ expression.toList ∨ '"' ∈ expression.toList ∨
    '\n' ∈ expression.toList ∨ quotesReturn = true

theorem comesBack_iff {expression : String} :
    ComesBack quotesReturn expression ↔ Kept quotesReturn expression.toList := by
  refine forall_congr' fun hreturn ↦ ?_
  rw [needsQuotes_iff, and_iff_left hreturn]

/-- The characters of a cell are in a field of its record. -/
theorem exists_field_of_mem_cell {index width i : Nat} {record : Record} {cell : String}
    (h : (fit index width (record.map String.ofList)).getD i "" = cell) {c : Char}
    (hc : c ∈ cell.toList) : ∃ field ∈ record, c ∈ field := by
  rcases getD_fit index width i (record.map String.ofList) with hmem | hempty
  · rw [h] at hmem
    obtain ⟨field, hfield, rfl⟩ := List.mem_map.mp hmem
    rw [String.toList_ofList] at hc
    exact ⟨field, hfield, hc⟩
  · rw [← h, hempty] at hc
    cases hc

/-- A row whose expression is lost gives a record without carriage returns. -/
theorem readLines_lost {row : Row} (h : ¬ Kept quotesReturn row.expression.toList)
    (rest : List Char) :
    ∃ record after,
      readLines (writeRecord quotesReturn (recordOf row) ++ rest) =
          (readLines after).map (record :: ·) ∧
        ∀ f ∈ record, '\r' ∉ f := by
  obtain ⟨_, hbare⟩ := Classical.not_imp.mp h
  have hbare : needsQuotes quotesReturn row.expression.toList = false := Bool.eq_false_iff.mpr hbare
  obtain ⟨_, hbareQuote, hbareNewline⟩ := not_mem_of_bare hbare
  generalize hbehind : resultField row.result ++ ',' :: row.error.toList = behind
  have htext : writeRecord quotesReturn (recordOf row) ++ rest =
      (row.expression.toList ++ ',' :: behind) ++ '\n' :: rest := by
    rw [← hbehind]
    simp [writeRecord, recordOf, writeField, hbare, needsQuotes_of_plain (plain_result row.result),
      needsQuotes_of_plain (plain_error row), List.intercalate_cons_cons]
  have hplain {c : Char} (hc : isSpecial c = true) (hcomma : c ≠ ',') : c ∉ behind := by
    rw [← hbehind]
    simp [not_mem_of_plain (plain_result row.result) hc, not_mem_of_plain (plain_error row) hc,
      hcomma]
  have hquote : '"' ∉ row.expression.toList ++ ',' :: behind := by
    simpa [hplain (c := '"') (by decide) (by decide)] using hbareQuote
  have hnewline : '\n' ∉ row.expression.toList ++ ',' :: behind := by
    simpa [hplain (c := '\n') (by decide) (by decide)] using hbareNewline
  have hoccupied : Occupied rest behind := by
    have hnoquote := hplain (c := '"') (by decide) (by decide)
    cases hresult : resultField row.result with
    | nil =>
      rw [← hbehind, hresult] at hnoquote ⊢
      exact occupied_visible (by decide) (by decide) hnoquote
    | cons c field =>
      have hmark : Layout.isMark c = true :=
        @isMark_of_mem_resultField row.result c (hresult ▸ List.mem_cons_self)
      obtain ⟨hspecial, hspace, htab⟩ := isSpecial_of_isMark hmark
      simp only [isSpecial, Bool.or_eq_false_iff, beq_eq_false_iff_ne] at hspecial
      rw [← hbehind, hresult] at hnoquote ⊢
      exact occupied_visible ⟨hspecial.1.2, hspecial.2⟩ (not_or.mpr ⟨hspace, htab⟩) hnoquote
  rw [htext]
  exact (hoccupied.behind hnewline hquote).readLines_eq hquote

/-- If each record that is read holds the carriage returns of its row, no expression is lost. -/
theorem kept_of_readLines {rows : List Row} {records : List Record}
    (h : readLines (write quotesReturn (rows.map recordOf)) = some records)
    (hcells : List.Forall₂ (fun row record ↦
      '\r' ∈ row.expression.toList → ∃ f ∈ record, '\r' ∈ f) rows records) :
    ∀ row ∈ rows, Kept quotesReturn row.expression.toList := by
  induction rows generalizing records with
  | nil => exact fun _ hrow ↦ absurd hrow List.not_mem_nil
  | cons row rows ih =>
    rw [List.map_cons, write, List.flatMap_cons, ← write] at h
    by_cases hkept : Kept quotesReturn row.expression.toList
    · rw [readLines_writeRecord (regular_recordOf hkept)] at h
      obtain ⟨others, hothers, rfl⟩ := Option.map_eq_some_iff.mp h
      exact List.forall_mem_cons.mpr ⟨hkept, ih hothers (List.forall₂_cons.mp hcells).2⟩
    · obtain ⟨record, after, hread, hreturn⟩ :=
        readLines_lost hkept (write quotesReturn (rows.map recordOf))
      rw [hread] at h
      obtain ⟨others, _, rfl⟩ := Option.map_eq_some_iff.mp h
      obtain ⟨f, hf, hmem⟩ := (List.forall₂_cons.mp hcells).1 (Classical.not_imp.mp hkept).1
      exact absurd hmem (hreturn f hf)

section Load

variable {config : Config} {rows : List Row} {path : String}

theorem read?_csv (rows : List Row) : read? (write quotesReturn (header :: rows.map recordOf)) =
    (readLines (write quotesReturn (rows.map recordOf))).map (header :: ·) := by
  have hheader : writeRecord quotesReturn header = "expression,result,error\n".toList := by
    cases quotesReturn <;> decide +kernel
  have hhead : (write quotesReturn (header :: rows.map recordOf)).head? ≠ some '\ufeff' := by
    rw [write, List.flatMap_cons, hheader]
    simp
  rw [read?_of_head hhead, write, List.flatMap_cons, ← write, readLines_writeRecord regular_header]

theorem column?_csv (records : List Record) :
    (Sheet.mk (columnNames (header.map String.ofList)) (records.map (·.map String.ofList))).column?
      "expression" = some (records.map fun record ↦ (record.map String.ofList).getD 0 "") := by
  have hfirst : (columnNames (header.map String.ofList)).idxOf? "expression" = some 0 := by
    decide +kernel
  rw [Sheet.column?, hfirst, Option.map_some, List.map_map]
  rfl

/-- Saved results whose expressions are kept give them back. -/
theorem ofSheet_csv (path : String) (h : ∀ row ∈ rows, Kept quotesReturn row.expression.toList) :
    ExpressionFile.ofSheet "expression" path (write quotesReturn (header :: rows.map recordOf)) =
      .ok (rows.map (·.expression)) := by
  have hregular : ∀ record ∈ rows.map recordOf, record.Regular quotesReturn := by
    intro record hrecord
    obtain ⟨row, hrow, rfl⟩ := List.mem_map.mp hrecord
    exact regular_recordOf (h row hrow)
  have hlines : readLines (write quotesReturn (rows.map recordOf)) = some (rows.map recordOf) := by
    have hread := readLines_write hregular []
    rwa [List.append_nil, readLines_nil, Option.map_some, List.append_nil] at hread
  have hread : read? (write quotesReturn (header :: rows.map recordOf)) =
      some (header :: rows.map recordOf) := by
    rw [read?_csv, hlines, Option.map_some]
  have hlength : ∀ record ∈ rows.map recordOf, record.length = header.length := by
    intro record hrecord
    obtain ⟨row, _, rfl⟩ := List.mem_map.mp hrecord
    rfl
  have hcells : ((rows.map recordOf).map fun record ↦ (record.map String.ofList).getD 0 "") =
      rows.map (·.expression) := by
    rw [List.map_map]
    exact List.map_congr_left fun row _ ↦ String.ofList_toList
  simp only [ExpressionFile.ofSheet, Sheet.ofText_of_length hread hlength, column?_csv, hcells]

/-- Expressions that are given back were kept. -/
theorem kept_of_ofSheet_csv
    (h : ExpressionFile.ofSheet "expression" path
        (write quotesReturn (header :: rows.map recordOf)) = .ok (rows.map (·.expression))) :
    ∀ row ∈ rows, Kept quotesReturn row.expression.toList := by
  unfold ExpressionFile.ofSheet at h
  split at h
  · cases h
  · cases h
  · next sheet hsheet =>
    split at h
    · next fields hcolumn =>
      obtain ⟨i, _, rfl⟩ := Option.map_eq_some_iff.mp hcolumn
      have hread := @read?_csv quotesReturn rows
      cases hlines : readLines (write quotesReturn (rows.map recordOf)) with
      | none =>
        rw [hlines, Option.map_none] at hread
        simp only [Sheet.ofText, hread] at hsheet
        cases hsheet
      | some records =>
        rw [hlines, Option.map_some] at hread
        obtain ⟨index, width, hrows⟩ := Sheet.exists_fit hread hsheet
        rw [hrows, List.map_map] at h
        have hequal : records.map (fun record ↦
            (fit index width (record.map String.ofList)).getD i "") = rows.map (·.expression) :=
          Except.ok.inj h
        have hcells : List.Forall₂ (fun record row ↦
            (fit index width (record.map String.ofList)).getD i "" = row.expression)
              records rows := by
          rw [← List.forall₂_map_right_iff, ← List.forall₂_map_left_iff, hequal]
          exact List.forall₂_refl _
        exact kept_of_readLines hlines
          (hcells.flip.imp fun _ _ hcell hc ↦ exists_field_of_mem_cell hcell hc)
    · cases h

/-- Loading saved results gives all their expressions back just if each of them comes back. -/
theorem load_csv_iff (hsheet : ExpressionFile.isSheet path = true) (hcolumns : UsualColumns config) :
    ExpressionFile.load config none path
          (.ok (String.ofList (csv config quotesReturn rows)).toUTF8) =
        .ok (rows.map (·.expression)) ↔
      ∀ row ∈ rows, ComesBack quotesReturn row.expression := by
  have hload : ExpressionFile.load config none path
        (.ok (String.ofList (csv config quotesReturn rows)).toUTF8) =
      ExpressionFile.ofSheet "expression" path
        (write quotesReturn (header :: rows.map recordOf)) := by
    simp only [ExpressionFile.load_toUTF8, hsheet, if_true, ExpressionFile.columnOr,
      String.toList_ofList, csv_eq hcolumns, hcolumns.1]
  simp only [hload, comesBack_iff]
  exact ⟨kept_of_ofSheet_csv, ofSheet_csv path⟩

end Load

end Batch

end Reckon
