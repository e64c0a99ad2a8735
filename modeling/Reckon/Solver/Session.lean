import Reckon.Batch.Row

/-!
# Sessions

A session is a sequence of commands to one solver. After each command its answer is reported
together with the counts and the contents of the cache. An equation that an earlier command
already gave is reported with the position of the first such command.
-/

namespace Reckon

inductive Command where
  | parse (expression : String)
  | evaluate (expression : String)
  | batch (expressions : List String)
  | clear
  | setCapacity (capacity : Int)
  | setSkipBlanks (flag : Bool)
  | setLeftAssociative (flag : Bool)

inductive Answer where
  | equation (equation : Equation) (sameAs : Option Nat)
  | value (x : Binary64)
  | fault (fault : Fault)
  | rows (rows : List Row)
  | done

structure Report where
  answer : Answer
  hits : Nat
  misses : Nat
  capacity : Int
  keys : List Request

/-- A solver, the number of commands so far, and for each equation given the first position. -/
structure Session where
  solver : Solver
  position : Nat
  given : List (Nat × Nat)

namespace Session

def start (solver : Solver) : Session :=
  ⟨solver, 0, []⟩

/-- The first position at which an equation was given, which is now if there is no earlier one. -/
def note (session : Session) (built : Built) : Option Nat × List (Nat × Nat) :=
  match session.given.lookup built.serial with
  | some position => (some position, session.given)
  | none => (none, (built.serial, session.position) :: session.given)

/-- The solver after a command, apart from what is answered. -/
def advance (solver : Solver) : Command → Solver
  | .parse expression => (solver.parse expression).2
  | .evaluate expression => (solver.evaluate expression).2
  | .batch expressions => (solver.rows expressions).2
  | .clear => solver.clear
  | .setCapacity capacity => { solver with capacity := capacity }
  | .setSkipBlanks flag => { solver with reading := { solver.reading with skipBlanks := flag } }
  | .setLeftAssociative flag =>
    { solver with reading := { solver.reading with leftAssociative := flag } }

def answer (session : Session) : Command → Answer
  | .parse expression =>
    match (session.solver.parse expression).1 with
    | .ok built => .equation built.equation (session.note built).1
    | .error fault => .fault fault
  | .evaluate expression =>
    match (session.solver.evaluate expression).1 with
    | .ok x => .value x
    | .error fault => .fault fault
  | .batch expressions => .rows (session.solver.rows expressions).1
  | _ => .done

def givenAfter (session : Session) : Command → List (Nat × Nat)
  | .parse expression =>
    match (session.solver.parse expression).1 with
    | .ok built => (session.note built).2
    | .error _ => session.given
  | _ => session.given

def step (session : Session) (command : Command) : Report × Session :=
  let after := advance session.solver command
  (⟨session.answer command, after.hits, after.misses, after.capacity, after.cache.keys⟩,
    ⟨after, session.position + 1, session.givenAfter command⟩)

def run (session : Session) : List Command → List Report
  | [] => []
  | command :: rest =>
    let (report, after) := session.step command
    report :: after.run rest

end Session

end Reckon
