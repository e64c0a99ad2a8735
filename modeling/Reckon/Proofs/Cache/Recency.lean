import Mathlib.Data.Finset.Card
import Mathlib.Data.Finset.Dedup
import Mathlib.Data.List.Dedup
import Mathlib.Data.List.DropRight
import Mathlib.Data.List.Induction

/-!
# Orders of last use

Keys are listed from the least to the most recently used. One more use moves a key to the end.
The last keys of such a list are kept up by looking at them alone: a use of one of them reorders
them, any other use costs the first. In the order of last use of a list of uses, a key is among
the last ones exactly if few others were used since.
-/

namespace Reckon.Cache

variable {κ : Type}

theorem rtake_suffix (list : List κ) (count : Nat) : list.rtake count <:+ list :=
  List.drop_suffix _ _

/-- The last of a list are among the last of it if more are taken. -/
theorem rtake_suffix_rtake (list : List κ) {count more : Nat} (h : count ≤ more) :
    list.rtake count <:+ list.rtake more := by
  apply List.suffix_of_suffix_length_le (rtake_suffix list count) (rtake_suffix list more)
  simp only [List.rtake, List.length_drop]
  omega

theorem rtake_rtake (list : List κ) {count more : Nat} (h : count ≤ more) :
    (list.rtake more).rtake count = list.rtake count := by
  simp only [List.rtake_eq_reverse_take_reverse, List.reverse_reverse, List.take_take,
    Nat.min_eq_left h]

/-- A key at its last place is taken with all that come behind it. -/
theorem mem_rtake_append_cons_iff {key : κ} {older newer : List κ} {count : Nat} (h : key ∉ newer) :
    key ∈ (older ++ key :: newer).rtake count ↔ newer.length < count := by
  have hwhole := rtake_suffix (older ++ key :: newer) count
  have hlength : ((older ++ key :: newer).rtake count).length =
      min count (older.length + (newer.length + 1)) := by
    simp only [List.rtake, List.length_drop, List.length_append, List.length_cons]
    omega
  constructor
  · intro hmem
    by_contra hmany
    have hnewer : newer <:+ older ++ key :: newer :=
      (List.suffix_cons key newer).trans (List.suffix_append older _)
    have hsuffix := List.suffix_of_suffix_length_le hwhole hnewer (by omega)
    exact h (hsuffix.subset hmem)
  · intro hfew
    have hkey : key :: newer <:+ older ++ key :: newer := List.suffix_append older _
    have hsuffix := List.suffix_of_suffix_length_le hkey hwhole (by rw [List.length_cons]; omega)
    exact hsuffix.subset List.mem_cons_self

variable [DecidableEq κ] {recent : List κ} {key : κ}

/-- Keys from the least to the most recently used, after one more use. -/
def use (recent : List κ) (key : κ) : List κ :=
  recent.filter (· ≠ key) ++ [key]

theorem nodup_use (h : recent.Nodup) (key : κ) : (use recent key).Nodup := by
  apply List.Nodup.append (h.filter _) (List.nodup_singleton key)
  intro other hother hkey
  have hne := (List.mem_filter.mp hother).2
  simp [List.mem_singleton.mp hkey] at hne

theorem mem_use {other : κ} : other ∈ use recent key ↔ other ∈ recent ∨ other = key := by
  by_cases h : other = key <;> simp [use, h]

theorem rtake_filter_of_notMem {count : Nat} (h : key ∉ recent.rtake count) :
    (recent.filter (· ≠ key)).rtake count = recent.rtake count := by
  induction recent using List.reverseRecOn generalizing count with
  | nil => rfl
  | append_singleton rest last ih =>
    cases count with
    | zero => rw [List.rtake_zero, List.rtake_zero]
    | succ count =>
      rw [List.rtake_concat_succ, List.mem_append, not_or, List.mem_singleton] at h
      have hlast : [last].filter (· ≠ key) = [last] := by simp [Ne.symm h.2]
      rw [List.filter_append, hlast, List.rtake_concat_succ, List.rtake_concat_succ, ih h.1]

theorem filter_rtake_of_mem {count : Nat} (hnodup : recent.Nodup)
    (h : key ∈ recent.rtake (count + 1)) :
    (recent.rtake (count + 1)).filter (· ≠ key) = (recent.filter (· ≠ key)).rtake count := by
  induction recent using List.reverseRecOn generalizing count with
  | nil => simp
  | append_singleton rest last ih =>
    obtain ⟨hrest, -, hdisjoint⟩ := List.nodup_append'.mp hnodup
    rw [List.rtake_concat_succ, List.filter_append, List.filter_append]
    by_cases hkey : last = key
    · subst hkey
      have hnone (list : List κ) (hsuffix : list <:+ rest) : list.filter (· ≠ last) = list := by
        apply List.filter_eq_self.mpr
        rintro other hother
        have hmem := hsuffix.subset hother
        simpa using fun heq : other = last ↦ hdisjoint hmem (List.mem_singleton.mpr heq)
      have hlast : [last].filter (· ≠ last) = [] := by simp
      rw [hnone _ (rtake_suffix rest count), hnone rest List.suffix_rfl, hlast, List.append_nil,
        List.append_nil]
    · rw [List.rtake_concat_succ, List.mem_append, List.mem_singleton] at h
      have hmem : key ∈ rest.rtake count := h.resolve_right (Ne.symm hkey)
      have hlast : [last].filter (· ≠ key) = [last] := by simp [hkey]
      cases count with
      | zero =>
        rw [List.rtake_zero] at hmem
        cases hmem
      | succ count => rw [hlast, ih hrest hmem, List.rtake_concat_succ]

/-- A key among the last ones is used without giving any up. -/
theorem rtake_use_of_mem {count : Nat} (hnodup : recent.Nodup) (h : key ∈ recent.rtake count) :
    (use recent key).rtake count = (recent.rtake count).filter (· ≠ key) ++ [key] := by
  cases count with
  | zero =>
    rw [List.rtake_zero] at h
    cases h
  | succ count => rw [use, List.rtake_concat_succ, filter_rtake_of_mem hnodup h]

/-- Another key is used at the cost of the least recently used one. -/
theorem rtake_use_of_notMem {count : Nat} (hpos : 0 < count) (h : key ∉ recent.rtake count) :
    (use recent key).rtake count = (recent.rtake count ++ [key]).rtake count := by
  obtain ⟨fewer, rfl⟩ : ∃ fewer, count = fewer + 1 := ⟨count - 1, by omega⟩
  have hfewer : key ∉ recent.rtake fewer :=
    fun hmem ↦ h ((rtake_suffix_rtake recent (Nat.le_succ fewer)).subset hmem)
  rw [use, List.rtake_concat_succ, List.rtake_concat_succ, rtake_rtake recent (Nat.le_succ fewer),
    rtake_filter_of_notMem hfewer]

/-- The distinct keys of a list in the order of their last places, after one more key. -/
theorem dedup_concat (list : List κ) (key : κ) : (list ++ [key]).dedup = use list.dedup key := by
  induction list with
  | nil => rfl
  | cons first rest ih =>
    rw [List.cons_append, List.dedup_cons, List.dedup_cons, ih]
    by_cases hrest : first ∈ rest
    · simp [hrest]
    · by_cases hkey : first = key
      · subst hkey
        simp [use, hrest]
      · simp [use, hrest, hkey]

/-- A list with a key is split at the last place of the key. -/
theorem eq_append_cons_rtakeWhile {list : List κ} (h : key ∈ list) :
    ∃ front, list = front ++ key :: list.rtakeWhile (· ≠ key) := by
  have hsplit : list.rdropWhile (· ≠ key) ++ list.rtakeWhile (· ≠ key) = list :=
    List.rdropWhile_append_rtakeWhile
  have hne : list.rdropWhile (· ≠ key) ≠ [] := by
    rw [Ne, List.rdropWhile_eq_nil_iff]
    intro hall
    simpa using hall key h
  have hlast : (list.rdropWhile (· ≠ key)).getLast hne = key := by
    simpa using List.rdropWhile_last_not _ list hne
  refine ⟨(list.rdropWhile (· ≠ key)).dropLast, ?_⟩
  calc list
      = list.rdropWhile (· ≠ key) ++ list.rtakeWhile (· ≠ key) := hsplit.symm
    _ = ((list.rdropWhile (· ≠ key)).dropLast ++ [key]) ++ list.rtakeWhile (· ≠ key) := by
        rw [← List.dropLast_append_getLast hne, hlast, List.dropLast_concat]
    _ = (list.rdropWhile (· ≠ key)).dropLast ++ key :: list.rtakeWhile (· ≠ key) := by
        rw [List.append_assoc, List.singleton_append]

/-- A key is among the last distinct ones exactly if few others came since. -/
theorem mem_rtake_dedup_iff {list : List κ} {count : Nat} :
    key ∈ list.dedup.rtake count ↔
      key ∈ list ∧ (list.rtakeWhile (· ≠ key)).toFinset.card < count := by
  by_cases hmem : key ∈ list
  · obtain ⟨front, hlist⟩ := eq_append_cons_rtakeWhile hmem
    have hsince : key ∉ list.rtakeWhile (· ≠ key) :=
      fun h ↦ by simpa using List.mem_rtakeWhile_imp h
    obtain ⟨older, holder⟩ : ∃ older,
        older ++ key :: (list.rtakeWhile (· ≠ key)).dedup = list.dedup := by
      have hdedup : list.dedup = front ∪ key :: (list.rtakeWhile (· ≠ key)).dedup := by
        rw [← List.dedup_cons_of_notMem hsince, ← List.dedup_append, ← hlist]
      rw [hdedup]
      exact List.suffix_union_right _ _
    have hnewer : key ∉ (list.rtakeWhile (· ≠ key)).dedup :=
      fun h ↦ hsince (List.mem_dedup.mp h)
    rw [List.card_toFinset, ← holder, mem_rtake_append_cons_iff hnewer]
    exact (and_iff_right hmem).symm
  · have hnone : key ∉ list.dedup.rtake count :=
      fun h ↦ hmem (List.mem_dedup.mp ((rtake_suffix _ count).subset h))
    simp [hmem, hnone]

end Reckon.Cache
