import Reckon.Proofs.Solver.Step

/-!
# Histories of a solver

Beside the solver itself, a history keeps every reading of a text since the last clearing: the
text and the solver that reads it. All commands are readings one after the other, a clearing or a
change of an option. So what every reading keeps, and these keep too, holds after any commands
and within any batch.
-/

namespace Reckon

/-- The reading of a text by a solver. -/
structure Access where
  solver : Solver
  expression : String

namespace Access

def request (access : Access) : Request :=
  access.solver.request access.expression

/-- Whether the equation is found in the cache. -/
def Hit (access : Access) : Prop :=
  (access.solver.remembered? access.expression).isSome = true

def outcome (access : Access) : Except Fault Built :=
  (access.solver.parse access.expression).1

end Access

/-- A solver and what was read since it was cleared or made, the oldest first. -/
structure History where
  past : List Access
  solver : Solver

namespace History

def start (capacity : Int) (reading : Reading) : History :=
  ⟨[], .new capacity reading⟩

def read (history : History) (expression : String) : History :=
  ⟨history.past ++ [⟨history.solver, expression⟩], (history.solver.parse expression).2⟩

def readAll (history : History) (expressions : List String) : History :=
  expressions.foldl read history

/-- The texts that a command reads. -/
def texts : Command → List String
  | .parse expression | .evaluate expression => [expression]
  | .batch expressions => expressions
  | _ => []

def advance (history : History) : Command → History
  | .clear => ⟨[], history.solver.clear⟩
  | .setCapacity capacity => { history with solver.capacity := capacity }
  | .setSkipBlanks flag => { history with solver.reading.skipBlanks := flag }
  | .setLeftAssociative flag => { history with solver.reading.leftAssociative := flag }
  | command => history.readAll (texts command)

/-- The history of commands. -/
def run (history : History) (commands : List Command) : History :=
  commands.foldl advance history

theorem solver_readAll (history : History) (expressions : List String) :
    (history.readAll expressions).solver = (history.solver.rows expressions).2 := by
  induction expressions generalizing history with
  | nil => rfl
  | cons expression rest ih => exact ih (history.read expression)

/-- The solver of a history is that of the commands. -/
theorem solver_advance (history : History) (command : Command) :
    (history.advance command).solver = Session.advance history.solver command := by
  cases command with
  | parse expression | evaluate expression => rfl
  | batch expressions => exact solver_readAll history expressions
  | clear | setCapacity | setSkipBlanks | setLeftAssociative => rfl

theorem solver_run (history : History) (commands : List Command) :
    (history.run commands).solver = commands.foldl Session.advance history.solver := by
  induction commands generalizing history with
  | nil => rfl
  | cons command rest ih =>
    rw [List.foldl_cons, ← solver_advance]
    exact ih (history.advance command)

/-- Texts that are read after commands are read as the next batch. -/
theorem solver_readAll_run (capacity : Int) (reading : Reading) (commands : List Command)
    (expressions : List String) :
    (((start capacity reading).run commands).readAll expressions).solver =
      Session.advance (commands.foldl Session.advance (.new capacity reading))
        (.batch expressions) := by
  calc (((start capacity reading).run commands).readAll expressions).solver
      = Session.advance ((start capacity reading).run commands).solver (.batch expressions) :=
        solver_advance _ (.batch expressions)
    _ = Session.advance (commands.foldl Session.advance (.new capacity reading))
          (.batch expressions) := by
        rw [solver_run]
        rfl

section Invariants

variable {I : History → Prop} {history : History}

theorem readAll_induction (hread : ∀ history expression, I history → I (history.read expression))
    (h : I history) (expressions : List String) : I (history.readAll expressions) := by
  induction expressions generalizing history with
  | nil => exact h
  | cons expression rest ih => exact ih (hread history expression h)

/-- What a reading, a clearing and a change of the options keep, commands keep. -/
theorem run_induction {commands : List Command}
    (hread : ∀ history expression, I history → I (history.read expression))
    (hclear : ∀ history, I history → I ⟨[], history.solver.clear⟩)
    (hreading : ∀ (history : History) reading, I history →
      I { history with solver.reading := reading })
    (hcapacity : ∀ capacity, .setCapacity capacity ∈ commands → ∀ history : History, I history →
      I { history with solver.capacity := capacity })
    (h : I history) : I (history.run commands) := by
  induction commands generalizing history with
  | nil => exact h
  | cons command rest ih =>
    refine ih (fun capacity hmem ↦ hcapacity capacity (List.mem_cons_of_mem _ hmem)) ?_
    cases command with
    | parse expression | evaluate expression => exact hread history expression h
    | batch expressions => exact readAll_induction hread h expressions
    | clear => exact hclear history h
    | setCapacity capacity => exact hcapacity capacity List.mem_cons_self history h
    | setSkipBlanks flag => exact hreading history { history.solver.reading with skipBlanks := flag } h
    | setLeftAssociative flag =>
      exact hreading history { history.solver.reading with leftAssociative := flag } h

end Invariants

end History

end Reckon
