import Mathlib.Data.List.Nodup
import Mathlib.Data.List.Perm.Basic
import Reckon.Proofs.Solver.History

/-!
# The books of a solver

The capacity may be set to anything at any time, below the size of the cache and below zero, so
that the size is not bounded by it. What every command keeps is less: keys are distinct, every
text that is read counts as a hit or as a miss, and the cache is within its capacity after a
command or has the keys that it had before.
-/

open scoped List

namespace Reckon

namespace Cache

variable {κ ν : Type} [DecidableEq κ]

theorem keys_touch_perm (cache : Cache κ ν) (key : κ) : (cache.touch key).keys.Perm cache.keys := by
  have hentries : (cache.touch key).entries.Perm cache.entries := by
    have hsplit := List.filter_append_perm (fun entry : κ × ν ↦ decide (entry.1 = key)) cache.entries
    simpa only [touch, decide_not] using hsplit
  unfold keys
  calc ((cache.touch key).entries.map (·.1)).reverse
    _ ~ (cache.touch key).entries.map (·.1) := List.reverse_perm _
    _ ~ cache.entries.map (·.1) := hentries.map _
    _ ~ (cache.entries.map (·.1)).reverse := (List.reverse_perm _).symm

end Cache

namespace Solver

variable {solver after : Solver}

/-- A solver comes to be within its capacity, or its keys stay the same up to their order. -/
def Fits (solver after : Solver) : Prop :=
  (after.cache.size : Int) ≤ max 0 after.capacity ∨ after.cache.keys.Perm solver.cache.keys

theorem Fits.trans {last : Solver} (hcapacity : last.capacity = after.capacity)
    (h : solver.Fits after) (hlast : after.Fits last) : solver.Fits last := by
  rcases hlast with hsize | hkeys
  · exact .inl hsize
  · rcases h with hsize | hbefore
    · left
      rw [hcapacity, ← Cache.length_keys, hkeys.length_eq, Cache.length_keys]
      exact hsize
    · exact .inr (hkeys.trans hbefore)

theorem fits_parse (solver : Solver) (expression : String) :
    solver.Fits (solver.parse expression).2 := by
  have hparsed := solver.parsed_parse expression
  generalize solver.parse expression = after at hparsed ⊢
  cases hparsed with
  | hit hfound => exact .inr (solver.cache.keys_touch_perm _)
  | fault hnew hbuild => exact .inr (List.Perm.refl _)
  | @miss equation hnew hbuild =>
    unfold remember
    split
    · left
      have hsize := solver.cache.size_store_le solver.capacity.toNat
        (solver.request expression) ⟨equation, solver.serials⟩
      change ((solver.cache.store _ _ _).size : Int) ≤ max 0 solver.capacity
      exact Int.le_trans (Int.ofNat_le.mpr hsize) (by omega)
    · exact .inr (List.Perm.refl _)

theorem capacity_rows (solver : Solver) (expressions : List String) :
    (solver.rows expressions).2.capacity = solver.capacity := by
  induction expressions generalizing solver with
  | nil => rfl
  | cons expression rest ih => exact (ih _).trans (solver.capacity_parse expression)

theorem fits_rows (solver : Solver) (expressions : List String) :
    solver.Fits (solver.rows expressions).2 := by
  induction expressions generalizing solver with
  | nil => exact .inr (List.Perm.refl _)
  | cons expression rest ih =>
    exact (solver.fits_parse expression).trans (capacity_rows _ rest) (ih _)

theorem fits_advance (solver : Solver) (command : Command) :
    solver.Fits (Session.advance solver command) := by
  cases command with
  | parse expression | evaluate expression => exact solver.fits_parse expression
  | batch expressions => exact solver.fits_rows expressions
  | clear => exact .inl (Int.le_max_left 0 solver.capacity)
  | setCapacity | setSkipBlanks | setLeftAssociative => exact .inr (List.Perm.refl _)

theorem nodup_parse (h : solver.cache.keys.Nodup) (expression : String) :
    (solver.parse expression).2.cache.keys.Nodup := by
  have hparsed := solver.parsed_parse expression
  generalize solver.parse expression = after at hparsed ⊢
  cases hparsed with
  | hit hfound => exact (solver.cache.keys_touch_perm _).nodup_iff.mpr h
  | fault hnew hbuild => exact h
  | miss hnew hbuild =>
    rw [keys_remember]
    split
    · have hnotMem : solver.request expression ∉ solver.cache.keys :=
        remembered?_eq_none_iff.mp hnew
      have hlonger : (solver.cache.keys ++ [solver.request expression]).Nodup := by
        rw [← List.concat_eq_append]
        exact h.concat hnotMem
      exact hlonger.sublist (List.drop_sublist _ _)
    · exact h

/-- The solver after a text that is read without fault: the equation is moved to the end where it
is remembered and is new otherwise. -/
def used (solver : Solver) (expression : String) (built : Built) : Solver :=
  if solver.request expression ∈ solver.cache.keys then
    { solver with
      cache := solver.cache.touch (solver.request expression), hits := solver.hits + 1 }
  else
    { solver with misses := solver.misses + 1, serials := solver.serials + 1 }.remember
      expression built

theorem parse_ok {expression : String} {built : Built}
    (h : (solver.parse expression).1 = .ok built) :
    (solver.parse expression).2 = solver.used expression built := by
  have hparsed := solver.parsed_parse expression
  generalize solver.parse expression = after at hparsed h ⊢
  cases hparsed with
  | hit hfound => rw [used, if_pos (isSome_remembered?_iff.mp (by rw [hfound]; rfl))]
  | fault hnew hbuild => cases h
  | miss hnew hbuild =>
    cases h
    rw [used, if_neg (remembered?_eq_none_iff.mp hnew)]

/-- What the equation of a text comes to does not matter for the solver. -/
theorem evaluate_ok {expression : String} {built : Built}
    (h : (solver.parse expression).1 = .ok built) :
    solver.evaluate expression = (built.equation.value, solver.used expression built) := by
  rw [← parse_ok h]
  unfold evaluate
  simp only [h]
  rfl

/-- An equation that was kept or is to be kept is the latest one after it is used. -/
theorem getLast?_used {expression : String} {built : Built} (h : solver.cache.keys.Nodup)
    (hkept : solver.request expression ∈ solver.cache.keys ∨ 0 < solver.capacity) :
    (solver.used expression built).cache.keys.getLast? = some (solver.request expression) := by
  unfold used
  split
  · next hmem =>
    have hkeys := Cache.keys_touch h hmem
    rw [hkeys, List.getLast?_concat]
  · next hmem =>
    have hpos : 0 < solver.capacity := hkept.resolve_left hmem
    obtain ⟨fewer, hfewer⟩ : ∃ fewer, solver.capacity.toNat = fewer + 1 :=
      ⟨solver.capacity.toNat - 1, by omega⟩
    rw [keys_remember, if_pos hpos, hfewer, List.rtake_concat_succ, List.getLast?_concat]
    rfl

/-- A text that cannot be read costs a miss and nothing else. -/
theorem parse_fault {expression : String} {fault : Fault}
    (h : (solver.parse expression).1 = .error fault) :
    solver.parse expression = (.error fault, { solver with misses := solver.misses + 1 }) := by
  have hparsed := solver.parsed_parse expression
  generalize solver.parse expression = after at hparsed h ⊢
  cases hparsed with
  | hit hfound | miss hnew hbuild => cases h
  | fault hnew hbuild =>
    cases h
    rfl

theorem evaluate_fault {expression : String} {fault : Fault}
    (h : (solver.parse expression).1 = .error fault) :
    solver.evaluate expression = (.error fault, { solver with misses := solver.misses + 1 }) := by
  rw [evaluate, parse_fault h]
  rfl

/-- Giving up entries one by one makes the room for an equation that is kept. -/
theorem evict?_parse {expression : String} {equation : Equation}
    (hnew : solver.remembered? expression = none)
    (hbuild : Equation.ofText solver.reading expression = .ok equation)
    (hpos : 0 < solver.capacity) :
    Cache.evict? solver.capacity
        (solver.cache.entries.reverse ++ [(solver.request expression, ⟨equation, solver.serials⟩)]) =
      some (solver.parse expression).2.cache.entries.reverse := by
  rw [Cache.evict?_store (Int.le_of_lt hpos)]
  simp only [parse, hnew, hbuild, remember, hpos, if_true]
  rfl

end Solver

namespace History

/-- The texts read since the last clearing, after a command. -/
def textsAfter (before : List String) : Command → List String
  | .clear => []
  | command => before ++ texts command

theorem past_readAll (history : History) (expressions : List String) :
    (history.readAll expressions).past.map (·.expression) =
      history.past.map (·.expression) ++ expressions := by
  induction expressions generalizing history with
  | nil => exact (List.append_nil _).symm
  | cons expression rest ih =>
    have hread : (history.read expression).past.map (·.expression) =
        history.past.map (·.expression) ++ [expression] := List.map_append
    calc ((history.read expression).readAll rest).past.map (·.expression)
        = (history.read expression).past.map (·.expression) ++ rest := ih _
      _ = history.past.map (·.expression) ++ expression :: rest := by
          rw [hread, List.append_assoc, List.singleton_append]

theorem past_run (history : History) (commands : List Command) :
    (history.run commands).past.map (·.expression) =
      commands.foldl textsAfter (history.past.map (·.expression)) := by
  induction commands generalizing history with
  | nil => rfl
  | cons command rest ih =>
    have hcommand : (history.advance command).past.map (·.expression) =
        textsAfter (history.past.map (·.expression)) command := by
      cases command with
      | parse | evaluate | batch => exact past_readAll history _
      | clear => rfl
      | setCapacity | setSkipBlanks | setLeftAssociative => exact (List.append_nil _).symm
    rw [List.foldl_cons, ← hcommand]
    exact ih (history.advance command)

/-- Distinct keys, and a hit or a miss for every reading. -/
structure Booked (history : History) : Prop where
  nodup : history.solver.cache.keys.Nodup
  counts : history.solver.hits + history.solver.misses = history.past.length

theorem Booked.read {history : History} (h : history.Booked) (expression : String) :
    (history.read expression).Booked where
  nodup := Solver.nodup_parse h.nodup expression
  counts := by
    have hcount := history.solver.hits_add_misses_parse expression
    rw [h.counts] at hcount
    have hlength : (history.read expression).past.length = history.past.length + 1 :=
      List.length_append
    exact hcount.trans hlength.symm

theorem booked_run (capacity : Int) (reading : Reading) (commands : List Command) :
    ((start capacity reading).run commands).Booked := by
  apply run_induction
  · exact fun _ expression h ↦ h.read expression
  · exact fun _ _ ↦ ⟨List.nodup_nil, rfl⟩
  · exact fun _ _ h ↦ ⟨h.nodup, h.counts⟩
  · exact fun _ _ _ h ↦ ⟨h.nodup, h.counts⟩
  · exact ⟨List.nodup_nil, rfl⟩

end History

namespace Solver

/-- What holds of a solver after any commands and texts, and what the next one does. -/
structure Balances (solver : Solver) (texts : List String) : Prop where
  nodup : solver.cache.keys.Nodup
  size : solver.cache.size = solver.cache.keys.length
  counts : solver.hits + solver.misses = texts.length
  fits : ∀ command, solver.Fits (Session.advance solver command)
  evicts : ∀ expression equation, solver.remembered? expression = none →
    Equation.ofText solver.reading expression = .ok equation → 0 < solver.capacity →
      Cache.evict? solver.capacity (solver.cache.entries.reverse ++
          [(solver.request expression, ⟨equation, solver.serials⟩)]) =
        some (solver.parse expression).2.cache.entries.reverse
  fault : ∀ expression fault, (solver.parse expression).1 = .error fault →
    (solver.parse expression).2 = { solver with misses := solver.misses + 1 } ∧
      solver.evaluate expression = (.error fault, { solver with misses := solver.misses + 1 })
  used : ∀ expression built, (solver.parse expression).1 = .ok built →
    (solver.parse expression).2 = solver.used expression built ∧
      solver.evaluate expression = (built.equation.value, solver.used expression built)
  latest : ∀ expression built,
    (solver.request expression ∈ solver.cache.keys ∨ 0 < solver.capacity) →
      (solver.used expression built).cache.keys.getLast? = some (solver.request expression)

end Solver

namespace History

theorem Booked.balances {history : History} (h : history.Booked) :
    history.solver.Balances (history.past.map (·.expression)) where
  nodup := h.nodup
  size := (Cache.length_keys _).symm
  counts := by rw [List.length_map, h.counts]
  fits := history.solver.fits_advance
  evicts := fun _ _ ↦ Solver.evict?_parse
  fault := fun _ _ hread ↦ ⟨by rw [Solver.parse_fault hread], Solver.evaluate_fault hread⟩
  used := fun _ _ hread ↦ ⟨Solver.parse_ok hread, Solver.evaluate_ok hread⟩
  latest := fun _ _ ↦ Solver.getLast?_used h.nodup

/-- The books balance after any commands and within the batch of texts that comes next, whatever
is done to the capacity on the way. -/
theorem balances_run (capacity : Int) (reading : Reading) (commands : List Command)
    (expressions : List String) :
    (Session.advance (commands.foldl Session.advance (.new capacity reading))
      (.batch expressions)).Balances (commands.foldl textsAfter [] ++ expressions) := by
  have hbooked : (((start capacity reading).run commands).readAll expressions).Booked :=
    readAll_induction (fun _ expression h ↦ h.read expression)
      (booked_run capacity reading commands) expressions
  have htexts : commands.foldl textsAfter [] ++ expressions =
      (((start capacity reading).run commands).readAll expressions).past.map (·.expression) := by
    rw [past_readAll, past_run]
    rfl
  rw [← solver_readAll_run, htexts]
  exact hbooked.balances

end History

end Reckon
