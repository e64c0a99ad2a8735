import Mathlib.Data.List.Forall2
import Reckon.Proofs.Solver.Recall
import Reckon.Proofs.Solver.Transparency

/-!
# More room never does worse

The same commands to two solvers, of which one has more room, keep them alike: both recall the
last of the same requests, so that the smaller one holds the end of what the larger one holds. A
hit of the smaller one is a hit of the larger one, and all answers are the same.
-/

namespace Reckon

namespace Solver

/-- A solver with no more room than another one that has read the same. -/
structure Under (small large : Solver) : Prop where
  reading : small.reading = large.reading
  capacity : small.capacity ≤ large.capacity
  recalls : ∃ used, small.Recalls used ∧ large.Recalls used
  hits : small.hits ≤ large.hits
  total : small.hits + small.misses = large.hits + large.misses
  faithful : small.Faithful ∧ large.Faithful

section Under

variable {small large : Solver}

theorem Under.keys_suffix (h : small.Under large) : small.cache.keys <:+ large.cache.keys := by
  obtain ⟨used, hsmall, hlarge⟩ := h.recalls
  rw [hsmall.keys, hlarge.keys]
  exact Cache.rtake_suffix_rtake used (Int.toNat_le_toNat h.capacity)

theorem Under.request_eq (h : small.Under large) (expression : String) :
    small.request expression = large.request expression :=
  congrArg (Request.mk expression) h.reading

theorem Under.parse (h : small.Under large) (expression : String) :
    (small.parse expression).2.Under (large.parse expression).2 where
  reading := by rw [reading_parse, reading_parse, h.reading]
  capacity := by
    rw [capacity_parse, capacity_parse]
    exact h.capacity
  recalls := by
    obtain ⟨used, hsmall, hlarge⟩ := h.recalls
    refine ⟨_, hsmall.parse expression, ?_⟩
    rw [h.request_eq]
    exact hlarge.parse expression
  hits := by
    rw [hits_parse, hits_parse, h.request_eq]
    apply Nat.add_le_add h.hits
    by_cases hmem : large.request expression ∈ small.cache.keys
    · rw [if_pos hmem, if_pos (h.keys_suffix.subset hmem)]
    · rw [if_neg hmem]
      exact Nat.zero_le _
  total := by rw [hits_add_misses_parse, hits_add_misses_parse, h.total]
  faithful := ⟨h.faithful.1.parse expression, h.faithful.2.parse expression⟩

theorem under_new {capacity more : Int} (h : capacity ≤ more) (reading : Reading) :
    (new capacity reading).Under (new more reading) where
  reading := rfl
  capacity := h
  recalls := ⟨[], recalls_new capacity reading, recalls_new more reading⟩
  hits := Nat.le_refl 0
  total := rfl
  faithful := ⟨faithful_new capacity reading, faithful_new more reading⟩

theorem Under.clear (h : small.Under large) : small.clear.Under large.clear where
  reading := h.reading
  capacity := h.capacity
  recalls := ⟨[], recalls_clear small, recalls_clear large⟩
  hits := Nat.le_refl 0
  total := rfl
  faithful := ⟨faithful_clear small, faithful_clear large⟩

/-- The same change of the options. -/
theorem Under.setReading (h : small.Under large) (change : Reading → Reading) :
    Under { small with reading := change small.reading }
      { large with reading := change large.reading } where
  reading := congrArg change h.reading
  capacity := h.capacity
  recalls := by
    obtain ⟨used, hsmall, hlarge⟩ := h.recalls
    exact ⟨used, ⟨hsmall.nodup, hsmall.parses, hsmall.keys⟩,
      ⟨hlarge.nodup, hlarge.parses, hlarge.keys⟩⟩
  hits := h.hits
  total := h.total
  faithful := ⟨h.faithful.1.of_cache_eq rfl, h.faithful.2.of_cache_eq rfl⟩

theorem Under.rows (h : small.Under large) (expressions : List String) :
    (small.rows expressions).2.Under (large.rows expressions).2 := by
  induction expressions generalizing small large with
  | nil => exact h
  | cons expression rest ih => exact ih (h.parse expression)

theorem Under.advance (h : small.Under large) {command : Command}
    (hkept : ∀ other, command ≠ .setCapacity other) :
    (Session.advance small command).Under (Session.advance large command) := by
  cases command with
  | parse expression | evaluate expression => exact h.parse expression
  | batch expressions => exact h.rows expressions
  | clear => exact h.clear
  | setCapacity other => exact absurd rfl (hkept other)
  | setSkipBlanks flag => exact h.setReading fun reading ↦ { reading with skipBlanks := flag }
  | setLeftAssociative flag =>
    exact h.setReading fun reading ↦ { reading with leftAssociative := flag }

end Under

end Solver

/-- The report of a session with no more room than another one. -/
structure Report.Under (small large : Report) : Prop where
  keys : small.keys <:+ large.keys
  hits : small.hits ≤ large.hits
  misses : large.misses ≤ small.misses
  total : small.hits + small.misses = large.hits + large.misses
  answer : small.answer.content = large.answer.content

namespace Session

theorem reports_under {small large : Session} (h : small.solver.Under large.solver)
    {commands : List Command} (hkept : ∀ other, .setCapacity other ∉ commands) :
    List.Forall₂ Report.Under (small.run commands) (large.run commands) := by
  induction commands generalizing small large with
  | nil => exact .nil
  | cons command rest ih =>
    have hcommand : ∀ other, command ≠ .setCapacity other := by
      rintro other rfl
      exact hkept other List.mem_cons_self
    have hrest : ∀ other, .setCapacity other ∉ rest :=
      fun other hmem ↦ hkept other (List.mem_cons_of_mem _ hmem)
    have hafter := h.advance hcommand
    have hanswer : (small.answer command).content = (large.answer command).content := by
      calc (small.answer command).content
          = command.uncached small.solver.reading := content_answer h.faithful.1 command
        _ = command.uncached large.solver.reading := by rw [h.reading]
        _ = (large.answer command).content := (content_answer h.faithful.2 command).symm
    have hmisses : (advance large.solver command).misses ≤ (advance small.solver command).misses := by
      have htotal := hafter.total
      have hhits := hafter.hits
      omega
    exact .cons ⟨hafter.keys_suffix, hafter.hits, hmisses, hafter.total, hanswer⟩ (ih hafter hrest)

/-- With more room the same commands find no less: after each of them the smaller cache is the
end of the larger one, and the answers are the same. -/
theorem reports_under_of_capacity_le {capacity more : Int} (h : capacity ≤ more)
    (reading : Reading) {commands : List Command}
    (hkept : ∀ other, .setCapacity other ∉ commands) :
    List.Forall₂ Report.Under ((start (.new capacity reading)).run commands)
      ((start (.new more reading)).run commands) :=
  reports_under (Solver.under_new h reading) hkept

/-- One text read twice, without room for its equation and with room for it. -/
theorem reports_under_of_capacity_le_again :
    (0 : Int) ≤ 1 ∧ (∀ other, .setCapacity other ∉ [Command.parse "3", .parse "3"]) ∧
      List.Forall₂ Report.Under
        ((start (.new 0 ⟨true, false⟩)).run [.parse "3", .parse "3"])
        ((start (.new 1 ⟨true, false⟩)).run [.parse "3", .parse "3"]) := by
  have hcapacity : (0 : Int) ≤ 1 := by decide
  have hkept : ∀ other, .setCapacity other ∉ [Command.parse "3", .parse "3"] := by simp
  exact ⟨hcapacity, hkept, reports_under_of_capacity_le hcapacity ⟨true, false⟩ hkept⟩

end Session

end Reckon
