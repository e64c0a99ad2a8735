import Reckon.Proofs.Solver.Step

/-!
# Transparency of the cache

Every remembered equation is the one that its request builds. Look-ups, additions, failed texts,
changes of the options and clearing all keep this, whatever the capacity is at the time. So a
session answers each command as if there were no cache, from the options in force alone.
-/

namespace Reckon

namespace Solver

/-- Every remembered equation is the one that its request builds. -/
def Faithful (solver : Solver) : Prop :=
  ∀ entry ∈ solver.cache.entries,
    Equation.ofText entry.1.reading entry.1.expression = .ok entry.2.equation

theorem faithful_new (capacity : Int) (reading : Reading) : (new capacity reading).Faithful :=
  fun _ hentry ↦ absurd hentry List.not_mem_nil

theorem faithful_clear (solver : Solver) : solver.clear.Faithful :=
  fun _ hentry ↦ absurd hentry List.not_mem_nil

/-- Only the cache matters. -/
theorem Faithful.of_cache_eq {solver other : Solver} (h : solver.Faithful)
    (hcache : other.cache = solver.cache) : other.Faithful := by
  rwa [Faithful, hcache]

section Parse

variable {solver : Solver}

theorem Faithful.remember (h : solver.Faithful) {expression : String} {equation : Equation}
    (hbuild : Equation.ofText solver.reading expression = .ok equation) (serial : Nat) :
    (solver.remember expression ⟨equation, serial⟩).Faithful := by
  unfold Solver.remember
  split
  · intro entry hentry
    rcases Cache.mem_of_mem_store hentry with rfl | hentry
    · exact hbuild
    · exact h entry hentry
  · exact h

/-- Reading a text gives the equation that it builds under the current options. -/
theorem Faithful.parse_eq (h : solver.Faithful) (expression : String) :
    (solver.parse expression).1.map (·.equation) =
      Equation.ofText solver.reading expression := by
  have hparsed := solver.parsed_parse expression
  generalize solver.parse expression = after at hparsed ⊢
  cases hparsed with
  | hit hfound => exact (h _ (Cache.mem_of_find?_eq_some hfound)).symm
  | fault hnew hbuild | miss hnew hbuild => exact hbuild.symm

theorem Faithful.parse (h : solver.Faithful) (expression : String) :
    (solver.parse expression).2.Faithful := by
  have hparsed := solver.parsed_parse expression
  generalize solver.parse expression = after at hparsed ⊢
  cases hparsed with
  | hit hfound => exact fun entry hentry ↦ h entry (Cache.mem_touch.mp hentry)
  | fault hnew hbuild => exact h.of_cache_eq rfl
  | miss hnew hbuild =>
    have hcounted : Faithful
        { solver with misses := solver.misses + 1, serials := solver.serials + 1 } :=
      h.of_cache_eq rfl
    exact hcounted.remember hbuild solver.serials

end Parse

section Evaluate

variable {solver : Solver}

theorem Faithful.evaluate_eq (h : solver.Faithful) (expression : String) :
    (solver.evaluate expression).1 = solve solver.reading expression := by
  calc (solver.evaluate expression).1
      = ((solver.parse expression).1.map (·.equation)).bind Equation.value := by
        change (solver.parse expression).1.bind _ = _
        cases (solver.parse expression).1 <;> rfl
    _ = (Equation.ofText solver.reading expression).bind Equation.value := by rw [h.parse_eq]
    _ = solve solver.reading expression := rfl

theorem Faithful.rows (h : solver.Faithful) (expressions : List String) :
    (solver.rows expressions).2.Faithful := by
  induction expressions generalizing solver with
  | nil => exact h
  | cons expression rest ih => exact ih (h.parse expression)

theorem Faithful.rows_eq (h : solver.Faithful) (expressions : List String) :
    (solver.rows expressions).1 =
      expressions.map fun expression ↦ ⟨expression, solve solver.reading expression⟩ := by
  induction expressions generalizing solver with
  | nil => rfl
  | cons expression rest ih =>
    have hrest := ih (h.parse expression)
    rw [reading_parse] at hrest
    rw [List.map_cons, ← hrest, ← h.evaluate_eq]
    rfl

end Evaluate

end Solver

/-! ## Sessions without a cache -/

/-- An answer apart from whether its equation was given before. -/
def Answer.content : Answer → Answer
  | .equation parsed _ => .equation parsed none
  | answer => answer

/-- The answer to a command under some options, with every text read anew. -/
def Command.uncached (reading : Reading) : Command → Answer
  | .parse expression =>
    match Equation.ofText reading expression with
    | .ok equation => .equation equation none
    | .error fault => .fault fault
  | .evaluate expression =>
    match solve reading expression with
    | .ok x => .value x
    | .error fault => .fault fault
  | .batch expressions =>
    .rows (expressions.map fun expression ↦ ⟨expression, solve reading expression⟩)
  | _ => .done

/-- The answers to commands from given options on, with every text read anew. -/
def uncachedAnswers (reading : Reading) : List Command → List Answer
  | [] => []
  | command :: rest => command.uncached reading :: uncachedAnswers (command.readingAfter reading) rest

namespace Session

open Solver

theorem faithful_advance {solver : Solver} (h : solver.Faithful) (command : Command) :
    (advance solver command).Faithful := by
  cases command with
  | parse expression | evaluate expression => exact h.parse expression
  | batch expressions => exact h.rows expressions
  | clear => exact faithful_clear solver
  | setCapacity | setSkipBlanks | setLeftAssociative => exact h.of_cache_eq rfl

/-- One command of a session is answered as if there were no cache. -/
theorem content_answer {session : Session} (h : session.solver.Faithful) (command : Command) :
    (session.answer command).content = command.uncached session.solver.reading := by
  cases command with
  | parse expression =>
    rw [answer, Command.uncached, ← h.parse_eq]
    cases (session.solver.parse expression).1 <;> rfl
  | evaluate expression =>
    rw [answer, Command.uncached, h.evaluate_eq]
    cases solve session.solver.reading expression <;> rfl
  | batch expressions =>
    rw [answer, Command.uncached, h.rows_eq]
    rfl
  | clear | setCapacity | setSkipBlanks | setLeftAssociative => rfl

theorem contents_run {session : Session} (h : session.solver.Faithful) (commands : List Command) :
    (session.run commands).map (·.answer.content) =
      uncachedAnswers session.solver.reading commands := by
  induction commands generalizing session with
  | nil => rfl
  | cons command rest ih =>
    have hrest := @ih (session.step command).2 (faithful_advance h command)
    have hreading : (session.step command).2.solver.reading =
        command.readingAfter session.solver.reading := reading_advance _ _
    rw [hreading] at hrest
    rw [uncachedAnswers, ← hrest, ← content_answer h]
    rfl

/-- Whatever its history, its contents and its capacity, the cache does not show in any answer. -/
theorem answers_eq_uncached (capacity : Int) (reading : Reading) (commands : List Command) :
    ((start (.new capacity reading)).run commands).map (·.answer.content) =
      uncachedAnswers reading commands :=
  contents_run (faithful_new capacity reading) commands

end Session

end Reckon
