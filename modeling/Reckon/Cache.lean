/-!
# A cache of recent entries

Entries are kept in the order of their last use, the latest first. A look-up that finds its key
makes it the latest entry; storing makes room by giving up the entries that were not used for
the longest time. The capacity belongs to each call, so that it can change between calls.
-/

namespace Reckon

structure Cache (κ ν : Type) where
  entries : List (κ × ν)

namespace Cache

variable {κ ν : Type}

def empty : Cache κ ν := ⟨[]⟩

def size (cache : Cache κ ν) : Nat :=
  cache.entries.length

/-- The keys from the least to the most recently used. -/
def keys (cache : Cache κ ν) : List κ :=
  (cache.entries.map (·.1)).reverse

def find? [DecidableEq κ] (cache : Cache κ ν) (key : κ) : Option ν :=
  (cache.entries.find? (·.1 = key)).map (·.2)

/-- Makes an entry the latest one. -/
def touch [DecidableEq κ] (cache : Cache κ ν) (key : κ) : Cache κ ν :=
  ⟨cache.entries.filter (·.1 = key) ++ cache.entries.filter (·.1 ≠ key)⟩

/-- Adds an entry for a new key and keeps at most `capacity` entries. -/
def store (cache : Cache κ ν) (capacity : Nat) (key : κ) (value : ν) : Cache κ ν :=
  ⟨((key, value) :: cache.entries).take capacity⟩

@[simp] theorem length_keys (cache : Cache κ ν) : cache.keys.length = cache.size := by
  simp [keys, size]

theorem mem_of_find?_eq_some [DecidableEq κ] {cache : Cache κ ν} {key : κ} {value : ν}
    (h : cache.find? key = some value) : (key, value) ∈ cache.entries := by
  obtain ⟨entry, hentry, rfl⟩ := Option.map_eq_some_iff.mp h
  have hkey := List.find?_some hentry
  obtain rfl : entry.1 = key := of_decide_eq_true hkey
  exact List.mem_of_find?_eq_some hentry

theorem mem_touch [DecidableEq κ] {cache : Cache κ ν} {key : κ} {entry : κ × ν} :
    entry ∈ (cache.touch key).entries ↔ entry ∈ cache.entries := by
  by_cases h : entry.1 = key <;> simp [touch, h]

theorem mem_of_mem_store {cache : Cache κ ν} {capacity : Nat} {key : κ} {value : ν}
    {entry : κ × ν} (h : entry ∈ (cache.store capacity key value).entries) :
    entry = (key, value) ∨ entry ∈ cache.entries :=
  List.mem_cons.mp (List.mem_of_mem_take h)

theorem size_store_le (cache : Cache κ ν) (capacity : Nat) (key : κ) (value : ν) :
    (cache.store capacity key value).size ≤ capacity :=
  List.length_take_le capacity _

end Cache

end Reckon
