import Reckon.Proofs.Cache.Recency
import Reckon.Proofs.Solver.Step

/-!
# What a solver recalls

Requests that can be read have an order of last use. As long as a solver keeps its capacity, it
recalls the last requests in this order, as many as it has room for: a text that is found moves to
the end, and one that is built takes the place of the first.
-/

namespace Reckon

/-- Whether a request can be read. -/
def Request.parses (request : Request) : Bool :=
  (Equation.ofText request.reading request.expression).isOk

/-- Requests in the order of last use after one more; only those that can be read count. -/
def Request.recent (used : List Request) (request : Request) : List Request :=
  if request.parses then Cache.use used request else used

namespace Solver

/-- A solver holds the last requests of a list, as many as its capacity allows. -/
structure Recalls (solver : Solver) (used : List Request) : Prop where
  nodup : used.Nodup
  parses : ∀ request ∈ used, request.parses = true
  keys : solver.cache.keys = used.rtake solver.capacity.toNat

/-- Reading a text uses its request. -/
theorem Recalls.parse {solver : Solver} {used : List Request} (h : solver.Recalls used)
    (expression : String) :
    (solver.parse expression).2.Recalls (Request.recent used (solver.request expression)) := by
  have hcapacity := solver.capacity_parse expression
  have hparsed := solver.parsed_parse expression
  generalize solver.parse expression = after at hparsed hcapacity ⊢
  cases hparsed with
  | @hit built hfound =>
    have hmem : solver.request expression ∈ solver.cache.keys :=
      isSome_remembered?_iff.mp (by rw [hfound]; rfl)
    have hlast : solver.request expression ∈ used.rtake solver.capacity.toNat := h.keys ▸ hmem
    have hused : solver.request expression ∈ used := (Cache.rtake_suffix _ _).subset hlast
    have hnodup : solver.cache.keys.Nodup :=
      h.keys ▸ h.nodup.sublist (Cache.rtake_suffix _ _).sublist
    rw [Request.recent, if_pos (h.parses _ hused)]
    refine ⟨Cache.nodup_use h.nodup _, ?_, ?_⟩
    · intro request hrequest
      rcases Cache.mem_use.mp hrequest with hrequest | rfl
      · exact h.parses request hrequest
      · exact h.parses _ hused
    · rw [Cache.rtake_use_of_mem h.nodup hlast, ← h.keys]
      exact Cache.keys_touch hnodup hmem
  | fault hnew hbuild =>
    have hfails : (solver.request expression).parses = false := by
      change (Equation.ofText solver.reading expression).isOk = false
      rw [hbuild]
      rfl
    rw [Request.recent, if_neg (by simp [hfails])]
    exact ⟨h.nodup, h.parses, h.keys⟩
  | miss hnew hbuild =>
    have hparses : (solver.request expression).parses = true := by
      change (Equation.ofText solver.reading expression).isOk = true
      rw [hbuild]
      rfl
    rw [Request.recent, if_pos hparses]
    refine ⟨Cache.nodup_use h.nodup _, ?_, ?_⟩
    · intro request hrequest
      rcases Cache.mem_use.mp hrequest with hrequest | rfl
      · exact h.parses request hrequest
      · exact hparses
    · rw [hcapacity, keys_remember]
      have hlast : solver.request expression ∉ used.rtake solver.capacity.toNat :=
        h.keys ▸ remembered?_eq_none_iff.mp hnew
      by_cases hpos : 0 < solver.capacity
      · rw [if_pos hpos, Cache.rtake_use_of_notMem (by omega) hlast, ← h.keys]
        rfl
      · rw [if_neg hpos]
        change solver.cache.keys = _
        rw [h.keys, Int.toNat_of_nonpos (by omega), List.rtake_zero, List.rtake_zero]

theorem recalls_new (capacity : Int) (reading : Reading) : (new capacity reading).Recalls [] :=
  ⟨List.nodup_nil, fun _ h ↦ absurd h List.not_mem_nil, (List.rtake_nil _).symm⟩

theorem recalls_clear (solver : Solver) : solver.clear.Recalls [] :=
  ⟨List.nodup_nil, fun _ h ↦ absurd h List.not_mem_nil, (List.rtake_nil _).symm⟩

end Solver

end Reckon
