import Reckon.Cache
import Reckon.Equation

/-!
# Solvers

A solver reads expressions under its current options and remembers the equations it built. A
look-up is answered from the cache if the same text was read under the same options; equations
are numbered in the order in which they are built, so that a remembered one can be told from
one that was built again. A text that cannot be read is counted as a miss and leaves no trace.
-/

namespace Reckon

/-- What an equation depends on. -/
structure Request where
  expression : String
  reading : Reading
deriving DecidableEq

/-- An equation with its number in the order of building. -/
structure Built where
  equation : Equation
  serial : Nat

structure Solver where
  capacity : Int
  reading : Reading
  cache : Cache Request Built
  hits : Nat
  misses : Nat
  serials : Nat

namespace Solver

def new (capacity : Int) (reading : Reading) : Solver where
  capacity := capacity
  reading := reading
  cache := .empty
  hits := 0
  misses := 0
  serials := 0

/-- The request that an expression is under the current options. -/
def request (solver : Solver) (expression : String) : Request :=
  ⟨expression, solver.reading⟩

def remembered? (solver : Solver) (expression : String) : Option Built :=
  solver.cache.find? (solver.request expression)

/-- Keeps an equation; with a capacity of zero or less nothing is kept. -/
def remember (solver : Solver) (expression : String) (built : Built) : Solver :=
  if 0 < solver.capacity then
    { solver with
      cache := solver.cache.store solver.capacity.toNat (solver.request expression) built }
  else solver

def parse (solver : Solver) (expression : String) : Except Fault Built × Solver :=
  match solver.remembered? expression with
  | some built =>
    (.ok built,
      { solver with cache := solver.cache.touch (solver.request expression), hits := solver.hits + 1 })
  | none =>
    let counted := { solver with misses := solver.misses + 1 }
    match Equation.ofText solver.reading expression with
    | .error fault => (.error fault, counted)
    | .ok equation =>
      let built : Built := ⟨equation, solver.serials⟩
      (.ok built, { counted with serials := solver.serials + 1 }.remember expression built)

def evaluate (solver : Solver) (expression : String) : Except Fault Binary64 × Solver :=
  let (outcome, after) := solver.parse expression
  (outcome.bind (·.equation.value), after)

/-- Forgets all equations and starts counting again. -/
def clear (solver : Solver) : Solver :=
  { solver with cache := .empty, hits := 0, misses := 0 }

end Solver

end Reckon
