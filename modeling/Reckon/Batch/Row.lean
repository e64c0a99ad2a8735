import Reckon.Solver.Basic

/-!
# Rows of results

A list of expressions is valued one after the other by the same solver, and each gives a row,
whether it has a value or not. A row shows the kind of its fault; without a value it holds what
is not a number.
-/

namespace Reckon

structure Row where
  expression : String
  outcome : Except Fault Binary64

namespace Row

def result (row : Row) : Binary64 :=
  match row.outcome with
  | .ok x => x
  | .error _ => .nan

/-- The name of the kind of fault, empty for a value. -/
def error (row : Row) : String :=
  match row.outcome with
  | .ok _ => ""
  | .error fault => fault.kind.name

def failed (row : Row) : Bool :=
  match row.outcome with
  | .ok _ => false
  | .error _ => true

end Row

namespace Solver

/-- The rows of the expressions, and the solver after the last one. -/
def rows (solver : Solver) : List String → List Row × Solver
  | [] => ([], solver)
  | expression :: rest =>
    let (outcome, after) := solver.evaluate expression
    let (others, last) := after.rows rest
    (⟨expression, outcome⟩ :: others, last)

end Solver

end Reckon
