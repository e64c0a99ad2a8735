import Mathlib.Data.List.Perm.Basic
import Reckon.Batch.Table
import Reckon.Proofs.Equation.Faults
import Reckon.Proofs.Solver.Transparency

/-!
# Rows by themselves

A batch fills two columns at once, and a fault of an expression fills both; any other fault would
end it between two rows. No expression has such a fault. So there is a row for each expression in
its turn, the row that it has by itself, whatever stands around it and whatever is remembered.
-/

namespace Reckon

/-- Whether a fault is one of an expression, which a piece without characters is not. -/
def Fault.isOfExpression (fault : Fault) : Bool :=
  fault.kind ≠ .index

theorem FaultKind.name_ne_empty (kind : FaultKind) : kind.name ≠ "" := by
  cases kind <;> decide

theorem isOfExpression_of_solve {reading : Reading} {expression : String} {fault : Fault}
    (h : solve reading expression = .error fault) : fault.isOfExpression = true := by
  have hkind := Equation.solveIn_fault h
  rw [Fault.isOfExpression, decide_eq_true_eq]
  intro hindex
  rw [hindex] at hkind
  exact absurd hkind (by decide)

namespace Row

/-- The row of an expression by itself. -/
def alone (reading : Reading) (expression : String) : Row :=
  ⟨expression, solve reading expression⟩

/-- What a row shows. -/
def cells (row : Row) : String × Binary64 × String :=
  (row.expression, row.result, row.error)

theorem cells_alone (reading : Reading) (expression : String) :
    (alone reading expression).cells =
      match solve reading expression with
      | .ok x => (expression, x, "")
      | .error fault => (expression, .nan, fault.kind.name) := by
  rw [cells, result, error, alone]
  cases solve reading expression <;> rfl

theorem error_eq_empty_iff {row : Row} : row.error = "" ↔ ∃ x, row.outcome = .ok x := by
  rw [error]
  cases row.outcome with
  | error fault => simp [fault.kind.name_ne_empty]
  | ok x => simp

end Row

namespace Batch

/-- The columns of results and of faults as they are filled. -/
structure Filling where
  results : List Binary64
  errors : List String

/-- Fills in an outcome; a fault that is not one of the expression ends the batch. -/
def Filling.add (filling : Filling) : Except Fault Binary64 → Except Fault Filling
  | .ok x => .ok ⟨filling.results ++ [x], filling.errors ++ [""]⟩
  | .error fault =>
    if fault.isOfExpression then
      .ok ⟨filling.results ++ [.nan], filling.errors ++ [fault.kind.name]⟩
    else .error fault

/-- Fills in rows. -/
def Filling.addRows (filling : Filling) (rows : List Row) : Filling :=
  ⟨filling.results ++ rows.map Row.result, filling.errors ++ rows.map Row.error⟩

/-- The columns of expressions and of what was filled in beside them. -/
def Filling.columns (filling : Filling) (config : Config) (expressions : List String) : List Column :=
  [⟨config.expressionColumn, .texts expressions⟩,
    ⟨config.resultColumn, .numbers filling.results⟩,
    ⟨config.errorColumn, .texts filling.errors⟩].foldl Column.put []

end Batch

namespace Solver

open Batch

/-- Values expressions one after the other and fills the columns with what comes of them. -/
def fill (solver : Solver) (filling : Filling) :
    List String → Except Fault (Filling × Solver)
  | [] => .ok (filling, solver)
  | expression :: rest => do
    let (outcome, after) := solver.evaluate expression
    after.fill (← filling.add outcome) rest

theorem fill_cons (solver : Solver) {filling next : Filling} {expression : String}
    (h : filling.add (solver.evaluate expression).1 = .ok next) (rest : List String) :
    solver.fill filling (expression :: rest) = (solver.evaluate expression).2.fill next rest := by
  rw [fill]
  simp only [h]
  rfl

theorem rows_cons (solver : Solver) (expression : String) (rest : List String) :
    solver.rows (expression :: rest) =
      (⟨expression, (solver.evaluate expression).1⟩ :: ((solver.evaluate expression).2.rows rest).1,
        ((solver.evaluate expression).2.rows rest).2) :=
  rfl

theorem rows_after (solver : Solver) (expressions : List String) :
    (solver.rows expressions).2 =
      expressions.foldl (fun solver expression ↦ (solver.evaluate expression).2) solver := by
  induction expressions generalizing solver with
  | nil => rfl
  | cons expression rest ih => exact ih (solver.evaluate expression).2

section Faithful

variable {solver : Solver}

/-- The columns are filled up to the end, in step with the rows. -/
theorem Faithful.fill_eq (h : solver.Faithful) (filling : Filling) (expressions : List String) :
    solver.fill filling expressions =
      .ok (filling.addRows (solver.rows expressions).1, (solver.rows expressions).2) := by
  -- The columns that are filled already may be any, as they grow with each row.
  induction expressions generalizing solver filling with
  | nil =>
    change Except.ok (filling, solver) = .ok (filling.addRows [], solver)
    simp [Filling.addRows]
  | cons expression rest ih =>
    have hadd : filling.add (solver.evaluate expression).1 =
        .ok (filling.addRows [⟨expression, (solver.evaluate expression).1⟩]) := by
      rw [h.evaluate_eq]
      cases hsolve : solve solver.reading expression with
      | ok x => rfl
      | error fault =>
        rw [Filling.add, if_pos (isOfExpression_of_solve hsolve)]
        rfl
    have hafter : (solver.evaluate expression).2.Faithful := h.parse expression
    rw [fill_cons solver hadd, ih hafter, rows_cons]
    simp [Filling.addRows]

/-- The rows of a batch are those of its expressions by themselves. -/
theorem Faithful.rows_alone (h : solver.Faithful) (expressions : List String) :
    (solver.rows expressions).1 = expressions.map (Row.alone solver.reading) :=
  h.rows_eq expressions

end Faithful

/-- What a batch makes of any expressions, where each row is by itself. -/
structure Tabulates (solver : Solver) : Prop where
  fills : ∀ expressions, solver.fill ⟨[], []⟩ expressions =
    .ok (⟨(solver.rows expressions).1.map Row.result, (solver.rows expressions).1.map Row.error⟩,
      (solver.rows expressions).2)
  columns : ∀ config expressions, Batch.columns config (solver.rows expressions).1 =
    Filling.columns ⟨(solver.rows expressions).1.map Row.result,
      (solver.rows expressions).1.map Row.error⟩ config expressions
  cells : ∀ expressions, (solver.rows expressions).1.map Row.cells =
    expressions.map fun expression ↦
      match solve solver.reading expression with
      | .ok x => (expression, x, "")
      | .error fault => (expression, .nan, fault.kind.name)
  errors : ∀ expressions, ∀ row ∈ (solver.rows expressions).1,
    row.error = "" ↔ ∃ x, solve solver.reading row.expression = .ok x
  append : ∀ front back, (solver.rows (front ++ back)).1 =
    (solver.rows front).1 ++ (solver.rows back).1
  perm : ∀ expressions others, expressions.Perm others →
    (solver.rows expressions).1.Perm (solver.rows others).1
  after : ∀ expressions, (solver.rows expressions).2 =
    expressions.foldl (fun solver expression ↦ (solver.evaluate expression).2) solver

theorem Faithful.tabulates {solver : Solver} (h : solver.Faithful) : solver.Tabulates where
  fills := fun expressions ↦ h.fill_eq ⟨[], []⟩ expressions
  columns := fun config expressions ↦ by
    have hexpressions : (solver.rows expressions).1.map (·.expression) = expressions := by
      rw [h.rows_alone, List.map_map]
      exact List.map_id expressions
    rw [Batch.columns, hexpressions, Filling.columns]
  cells := fun expressions ↦ by
    rw [h.rows_alone, List.map_map]
    exact List.map_congr_left fun expression _ ↦ Row.cells_alone solver.reading expression
  errors := fun expressions row hrow ↦ by
    rw [h.rows_alone] at hrow
    obtain ⟨expression, _, rfl⟩ := List.mem_map.mp hrow
    exact Row.error_eq_empty_iff
  append := fun front back ↦ by rw [h.rows_alone, h.rows_alone, h.rows_alone, List.map_append]
  perm := fun expressions others hperm ↦ by
    rw [h.rows_alone, h.rows_alone]
    exact hperm.map _
  after := solver.rows_after

end Solver

namespace Session

theorem faithful_foldl_advance {solver : Solver} (h : solver.Faithful) (commands : List Command) :
    (commands.foldl advance solver).Faithful := by
  induction commands generalizing solver with
  | nil => exact h
  | cons command rest ih => exact ih (faithful_advance h command)

/-- Whatever a session did before, a batch has a row for each expression, the row of this
expression by itself, and leaves what valuing the expressions in turn leaves. -/
theorem tabulates_advance (capacity : Int) (reading : Reading) (commands : List Command) :
    (commands.foldl advance (.new capacity reading)).Tabulates :=
  (faithful_foldl_advance (Solver.faithful_new capacity reading) commands).tabulates

end Session

end Reckon
