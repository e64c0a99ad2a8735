import Reckon.Proofs.Cache.Keys
import Reckon.Solver.Session

/-!
# Steps of a solver

Reading a text does one of three things to a solver: it finds an equation that is remembered, it
fails, or it builds an equation and may keep it. Every other operation reads texts one after the
other, forgets everything or sets an option. So no operation changes how texts are read but the
two that set it.
-/

namespace Reckon

namespace Solver

/-- The outcomes of reading a text, each with the solver that it leaves. -/
inductive Parsed (solver : Solver) (expression : String) : Except Fault Built × Solver → Prop where
  | hit {built : Built} (hfound : solver.remembered? expression = some built) :
      Parsed solver expression
        (.ok built, { solver with
          cache := solver.cache.touch (solver.request expression), hits := solver.hits + 1 })
  | fault {fault : Fault} (hnew : solver.remembered? expression = none)
      (hbuild : Equation.ofText solver.reading expression = .error fault) :
      Parsed solver expression (.error fault, { solver with misses := solver.misses + 1 })
  | miss {equation : Equation} (hnew : solver.remembered? expression = none)
      (hbuild : Equation.ofText solver.reading expression = .ok equation) :
      Parsed solver expression
        (.ok ⟨equation, solver.serials⟩,
          { solver with misses := solver.misses + 1, serials := solver.serials + 1 }.remember
            expression ⟨equation, solver.serials⟩)

theorem parsed_parse (solver : Solver) (expression : String) :
    solver.Parsed expression (solver.parse expression) := by
  unfold parse
  cases hfound : solver.remembered? expression with
  | some built => exact .hit hfound
  | none =>
    cases hbuild : Equation.ofText solver.reading expression with
    | error fault => exact .fault hfound hbuild
    | ok equation => exact .miss hfound hbuild

theorem reading_remember (solver : Solver) (expression : String) (built : Built) :
    (solver.remember expression built).reading = solver.reading := by
  unfold remember
  split <;> rfl

theorem reading_parse (solver : Solver) (expression : String) :
    (solver.parse expression).2.reading = solver.reading := by
  have hparsed := solver.parsed_parse expression
  generalize solver.parse expression = after at hparsed ⊢
  cases hparsed with
  | hit hfound | fault hnew hbuild => rfl
  | miss hnew hbuild => exact reading_remember _ expression _

/-- Keeping an equation changes nothing but the cache. -/
theorem remember_eq (solver : Solver) (expression : String) (built : Built) :
    solver.remember expression built =
      { solver with cache := (solver.remember expression built).cache } := by
  unfold remember
  split <;> rfl

@[simp] theorem capacity_remember (solver : Solver) (expression : String) (built : Built) :
    (solver.remember expression built).capacity = solver.capacity := by
  rw [remember_eq]

@[simp] theorem hits_remember (solver : Solver) (expression : String) (built : Built) :
    (solver.remember expression built).hits = solver.hits := by
  rw [remember_eq]

@[simp] theorem misses_remember (solver : Solver) (expression : String) (built : Built) :
    (solver.remember expression built).misses = solver.misses := by
  rw [remember_eq]

@[simp] theorem serials_remember (solver : Solver) (expression : String) (built : Built) :
    (solver.remember expression built).serials = solver.serials := by
  rw [remember_eq]

theorem capacity_parse (solver : Solver) (expression : String) :
    (solver.parse expression).2.capacity = solver.capacity := by
  have hparsed := solver.parsed_parse expression
  generalize solver.parse expression = after at hparsed ⊢
  cases hparsed with
  | hit hfound | fault hnew hbuild => rfl
  | miss hnew hbuild => exact capacity_remember _ expression _

theorem isSome_remembered?_iff {solver : Solver} {expression : String} :
    (solver.remembered? expression).isSome = true ↔
      solver.request expression ∈ solver.cache.keys :=
  Cache.isSome_find?_iff

theorem remembered?_eq_none_iff {solver : Solver} {expression : String} :
    solver.remembered? expression = none ↔ solver.request expression ∉ solver.cache.keys :=
  Cache.find?_eq_none_iff

theorem keys_remember (solver : Solver) (expression : String) (built : Built) :
    (solver.remember expression built).cache.keys =
      if 0 < solver.capacity then
        (solver.cache.keys ++ [solver.request expression]).rtake solver.capacity.toNat
      else solver.cache.keys := by
  unfold remember
  split
  · exact Cache.keys_store _ _ _ _
  · rfl

/-- Reading a text counts a hit if it is remembered. -/
theorem hits_parse (solver : Solver) (expression : String) :
    (solver.parse expression).2.hits =
      solver.hits + if solver.request expression ∈ solver.cache.keys then 1 else 0 := by
  have hparsed := solver.parsed_parse expression
  generalize solver.parse expression = after at hparsed ⊢
  cases hparsed with
  | hit hfound => rw [if_pos (isSome_remembered?_iff.mp (by rw [hfound]; rfl))]
  | fault hnew hbuild =>
    rw [if_neg (remembered?_eq_none_iff.mp hnew)]
    rfl
  | miss hnew hbuild =>
    rw [if_neg (remembered?_eq_none_iff.mp hnew)]
    exact hits_remember _ expression _

/-- Reading a text counts once. -/
theorem hits_add_misses_parse (solver : Solver) (expression : String) :
    (solver.parse expression).2.hits + (solver.parse expression).2.misses =
      solver.hits + solver.misses + 1 := by
  have hparsed := solver.parsed_parse expression
  generalize solver.parse expression = after at hparsed ⊢
  cases hparsed with
  | hit hfound => exact Nat.add_right_comm _ _ _
  | fault hnew hbuild => rfl
  | miss hnew hbuild => simp only [hits_remember, misses_remember, Nat.add_assoc]

theorem reading_rows (solver : Solver) (expressions : List String) :
    (solver.rows expressions).2.reading = solver.reading := by
  induction expressions generalizing solver with
  | nil => rfl
  | cons expression rest ih => exact (ih _).trans (reading_parse solver expression)

end Solver

/-- The options after a command. -/
def Command.readingAfter (reading : Reading) : Command → Reading
  | .setSkipBlanks flag => { reading with skipBlanks := flag }
  | .setLeftAssociative flag => { reading with leftAssociative := flag }
  | _ => reading

namespace Session

theorem reading_advance (solver : Solver) (command : Command) :
    (advance solver command).reading = command.readingAfter solver.reading := by
  cases command with
  | parse expression | evaluate expression => exact solver.reading_parse expression
  | batch expressions => exact solver.reading_rows expressions
  | clear | setCapacity | setSkipBlanks | setLeftAssociative => rfl

end Session

end Reckon
