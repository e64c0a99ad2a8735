import Mathlib.Data.List.DropRight
import Reckon.Cache

/-!
# Keys of a cache

What a cache answers is seen from its keys, oldest first. A key that is found moves to the end,
a new one is put at the end and keys are given up at the front. Giving up entries one by one
comes to keeping the latest ones, and never meets an empty cache as long as the capacity is not
negative.
-/

namespace Reckon

namespace Cache

variable {κ ν : Type}

theorem mem_keys {cache : Cache κ ν} {key : κ} :
    key ∈ cache.keys ↔ ∃ value, (key, value) ∈ cache.entries := by
  simp [keys]

section Lookup

variable [DecidableEq κ] {cache : Cache κ ν} {key : κ}

theorem isSome_find?_iff : (cache.find? key).isSome = true ↔ key ∈ cache.keys := by
  simp [find?, keys]

theorem find?_eq_none_iff : cache.find? key = none ↔ key ∉ cache.keys := by
  rw [← isSome_find?_iff, Bool.not_eq_true, Option.isSome_eq_false_iff, Option.isNone_iff_eq_none]

/-- A key that is found becomes the latest one, and the others keep their order. -/
theorem keys_touch (hnodup : cache.keys.Nodup) (hmem : key ∈ cache.keys) :
    (cache.touch key).keys = cache.keys.filter (· ≠ key) ++ [key] := by
  have hself : cache.keys.filter (· = key) = [key] := by
    rw [List.filter_eq, hnodup.count, if_pos hmem, List.replicate_one]
  have hparts : (cache.touch key).keys =
      cache.keys.filter (· ≠ key) ++ cache.keys.filter (· = key) := by
    simp only [keys, touch, List.map_append, List.reverse_append, List.filter_reverse,
      List.filter_map, Function.comp_def]
  rw [hparts, hself]

end Lookup

/-- A new key becomes the latest one, and the oldest ones are given up. -/
theorem keys_store (cache : Cache κ ν) (capacity : Nat) (key : κ) (value : ν) :
    (cache.store capacity key value).keys = (cache.keys ++ [key]).rtake capacity := by
  simp only [keys, store, List.rtake_eq_reverse_take_reverse, List.map_take, List.map_cons,
    List.reverse_append, List.reverse_singleton, List.reverse_reverse, List.singleton_append]

/-- Gives up entries one by one, the oldest first, until no more than the capacity are left. It
fails where an entry is to be given up and there is none. -/
def evict? (capacity : Int) : List (κ × ν) → Option (List (κ × ν))
  | [] => if 0 > capacity then none else some []
  | oldest :: rest =>
    if rest.length + 1 > capacity then evict? capacity rest else some (oldest :: rest)

/-- With a capacity that is not negative there is always an entry to give up. -/
theorem evict?_eq_rtake {capacity : Int} (h : 0 ≤ capacity) (entries : List (κ × ν)) :
    evict? capacity entries = some (entries.rtake capacity.toNat) := by
  induction entries with
  | nil => simp [evict?, Int.not_lt.mpr h]
  | cons oldest rest ih =>
    rw [evict?]
    by_cases hfull : (rest.length : Int) + 1 > capacity
    · have hdrop : (oldest :: rest).length - capacity.toNat =
          (rest.length - capacity.toNat) + 1 := by
        rw [List.length_cons]
        omega
      rw [if_pos hfull, ih, List.rtake, List.rtake, hdrop, List.drop_succ_cons]
    · have hkeep : (oldest :: rest).length - capacity.toNat = 0 := by
        rw [List.length_cons]
        omega
      rw [if_neg hfull, List.rtake, hkeep, List.drop_zero]

/-- Storing is putting the new entry at the end and giving up entries one by one. -/
theorem evict?_store {capacity : Int} (h : 0 ≤ capacity) (cache : Cache κ ν) (key : κ) (value : ν) :
    evict? capacity (cache.entries.reverse ++ [(key, value)]) =
      some (cache.store capacity.toNat key value).entries.reverse := by
  rw [evict?_eq_rtake h, store, List.rtake_eq_reverse_take_reverse, List.reverse_append,
    List.reverse_singleton, List.reverse_reverse, List.singleton_append]

end Cache

end Reckon
