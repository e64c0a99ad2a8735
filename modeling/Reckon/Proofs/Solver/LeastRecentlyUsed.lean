import Reckon.Proofs.Solver.History
import Reckon.Proofs.Solver.Recall

/-!
# The least recently used requests

With one capacity from the start on, the requests that a solver has given up are told from its
history: it holds the last distinct ones that could be read since it was cleared. So a text is
found exactly if it was read and fewer other texts than the capacity have been read since. What
is found is the equation that was built when the text was last missed.
-/

namespace Reckon

namespace History

/-- The requests of the past that could be read. -/
def good (history : History) : List Request :=
  (history.past.map Access.request).filter Request.parses

/-- The distinct requests of the past that could be read, in the order of last use. -/
def recent (history : History) : List Request :=
  history.good.dedup

theorem recent_read (history : History) (expression : String) :
    (history.read expression).recent =
      Request.recent history.recent (history.solver.request expression) := by
  have hpast : (history.read expression).past.map Access.request =
      history.past.map Access.request ++ [history.solver.request expression] :=
    List.map_append
  unfold recent good Request.recent
  rw [hpast, List.filter_append]
  cases hparses : (history.solver.request expression).parses with
  | true =>
    rw [List.filter_cons_of_pos hparses, List.filter_nil, Cache.dedup_concat, if_pos rfl]
  | false =>
    rw [List.filter_cons_of_neg (by simp [hparses]), List.filter_nil, List.append_nil,
      if_neg Bool.false_ne_true]

/-- An equation was built when its request was last missed. -/
def BuiltAt (past : List Access) (request : Request) (built : Built) : Prop :=
  ∃ before miss since, past = before ++ miss :: since ∧ miss.request = request ∧ ¬ miss.Hit ∧
    miss.outcome = .ok built ∧ ∀ access ∈ since, access.request = request → access.Hit

theorem builtAt_concat {past : List Access} {request : Request} {built : Built}
    (h : BuiltAt past request built) {access : Access} (hit : access.request = request → access.Hit) :
    BuiltAt (past ++ [access]) request built := by
  obtain ⟨before, miss, since, rfl, hrequest, hmiss, houtcome, hsince⟩ := h
  refine ⟨before, miss, since ++ [access], by simp, hrequest, hmiss, houtcome, ?_⟩
  exact List.forall_mem_append.mpr ⟨hsince, List.forall_mem_singleton.mpr hit⟩

theorem builtAt_last (past : List Access) {access : Access} {built : Built} (hmiss : ¬ access.Hit)
    (houtcome : access.outcome = .ok built) :
    BuiltAt (past ++ [access]) access.request built :=
  ⟨past, access, [], rfl, rfl, hmiss, houtcome, fun _ h ↦ absurd h List.not_mem_nil⟩

/-- Every entry was built when its request was last missed, and every number given is old. -/
structure Sourced (history : History) : Prop where
  entries : ∀ entry ∈ history.solver.cache.entries, BuiltAt history.past entry.1 entry.2
  serials : ∀ access ∈ history.past, ∀ built, access.outcome = .ok built →
    built.serial < history.solver.serials

theorem Sourced.found {history : History} (h : history.Sourced) {expression : String}
    {built : Built} (hfound : history.solver.remembered? expression = some built) :
    BuiltAt history.past (history.solver.request expression) built :=
  h.entries _ (Cache.mem_of_find?_eq_some hfound)

/-- What is in the cache under other requests stays built where it was. -/
theorem Sourced.others {history : History} (h : history.Sourced) {expression : String}
    (hnew : history.solver.remembered? expression = none) :
    ∀ entry ∈ history.solver.cache.entries,
      BuiltAt (history.past ++ [⟨history.solver, expression⟩]) entry.1 entry.2 := by
  intro entry hentry
  have hmem : entry.1 ∈ history.solver.cache.keys := Cache.mem_keys.mpr ⟨entry.2, hentry⟩
  have hne : history.solver.request expression ≠ entry.1 := fun heq ↦
    Solver.remembered?_eq_none_iff.mp hnew (heq ▸ hmem)
  exact builtAt_concat (h.entries entry hentry) fun hrequest ↦ absurd hrequest hne

theorem Sourced.read {history : History} (h : history.Sourced) (expression : String) :
    (history.read expression).Sourced := by
  have hparsed := history.solver.parsed_parse expression
  have houtcome : Access.outcome ⟨history.solver, expression⟩ =
      (history.solver.parse expression).1 := rfl
  unfold History.read
  generalize history.solver.parse expression = after at hparsed houtcome ⊢
  cases hparsed with
  | @hit built hfound =>
    have hit : Access.Hit ⟨history.solver, expression⟩ := by
      rw [Access.Hit, hfound]
      rfl
    constructor
    · intro entry hentry
      exact builtAt_concat (h.entries entry (Cache.mem_touch.mp hentry)) fun _ ↦ hit
    · refine List.forall_mem_append.mpr ⟨h.serials, List.forall_mem_singleton.mpr ?_⟩
      intro other hother'
      obtain ⟨before, miss, since, hpast, _, _, hmiss, _⟩ := h.found hfound
      obtain rfl : built = other := Except.ok.inj (houtcome.symm.trans hother')
      exact h.serials miss (by simp [hpast]) _ hmiss
  | fault hnew hbuild =>
    refine ⟨h.others hnew, List.forall_mem_append.mpr ⟨h.serials, List.forall_mem_singleton.mpr ?_⟩⟩
    intro other hother'
    cases houtcome.symm.trans hother'
  | @miss equation hnew hbuild =>
    have hmiss : ¬ Access.Hit ⟨history.solver, expression⟩ := by
      rw [Access.Hit, hnew]
      exact Bool.false_ne_true
    constructor
    · intro entry hentry
      unfold Solver.remember at hentry
      split at hentry
      · rcases Cache.mem_of_mem_store hentry with rfl | hentry
        · exact builtAt_last history.past hmiss houtcome
        · exact h.others hnew entry hentry
      · exact h.others hnew entry hentry
    · simp only [Solver.serials_remember]
      refine List.forall_mem_append.mpr ⟨?_, List.forall_mem_singleton.mpr ?_⟩
      · intro access haccess built hbuilt
        exact Nat.lt_succ_of_lt (h.serials access haccess built hbuilt)
      · intro built hbuilt
        obtain rfl := Except.ok.inj (houtcome.symm.trans hbuilt)
        exact Nat.lt_succ_self _

/-- What the cache holds and finds, told from the readings since it was cleared. -/
structure LeastRecentlyUsed (capacity : Int) (history : History) : Prop where
  keys : history.solver.cache.keys = history.recent.rtake capacity.toNat
  size : (history.solver.cache.keys.length : Int) = min (max capacity 0) history.recent.length
  hit_iff : ∀ expression, Access.Hit ⟨history.solver, expression⟩ ↔
    history.solver.request expression ∈ history.good ∧
      ((history.good.rtakeWhile (· ≠ history.solver.request expression)).toFinset.card : Int) <
        capacity
  hit_built : ∀ expression, Access.Hit ⟨history.solver, expression⟩ →
    ∃ built, Access.outcome ⟨history.solver, expression⟩ = .ok built ∧
      BuiltAt history.past (history.solver.request expression) built
  miss_new : ∀ expression built, ¬ Access.Hit ⟨history.solver, expression⟩ →
    Access.outcome ⟨history.solver, expression⟩ = .ok built →
      ∀ access ∈ history.past, ∀ earlier, access.outcome = .ok earlier →
        earlier.serial ≠ built.serial
  unkept : capacity ≤ 0 → history.solver.cache.keys = [] ∧
    ∀ expression, ¬ Access.Hit ⟨history.solver, expression⟩

/-- A text is found exactly if fewer others than the capacity came since it was last read. -/
theorem hit_iff_of_recalls {history : History} (h : history.solver.Recalls history.recent)
    (expression : String) :
    Access.Hit ⟨history.solver, expression⟩ ↔
      history.solver.request expression ∈ history.good ∧
        ((history.good.rtakeWhile (· ≠ history.solver.request expression)).toFinset.card : Int) <
          history.solver.capacity := by
  rw [Access.Hit, Solver.isSome_remembered?_iff, h.keys, recent, Cache.mem_rtake_dedup_iff]
  apply and_congr_right
  intro _
  exact Int.lt_toNat

/-- An equation that is built gets the next number. -/
theorem serial_of_not_hit {access : Access} {built : Built} (hmiss : ¬ access.Hit)
    (houtcome : access.outcome = .ok built) : built.serial = access.solver.serials := by
  have hnew : access.solver.remembered? access.expression = none := by
    simpa [Access.Hit] using hmiss
  have hparsed := access.solver.parsed_parse access.expression
  rw [Access.outcome] at houtcome
  generalize access.solver.parse access.expression = after at hparsed houtcome
  cases hparsed with
  | hit hfound => cases hnew.symm.trans hfound
  | fault _ hbuild => cases houtcome
  | miss _ hbuild =>
    cases houtcome
    rfl

theorem leastRecentlyUsed_of_recalls {history : History}
    (hrecalls : history.solver.Recalls history.recent) (hsourced : history.Sourced) :
    history.LeastRecentlyUsed history.solver.capacity where
  keys := hrecalls.keys
  size := by
    rw [hrecalls.keys, List.rtake, List.length_drop]
    omega
  hit_iff := hit_iff_of_recalls hrecalls
  hit_built := by
    intro expression hit
    obtain ⟨built, hfound⟩ := Option.isSome_iff_exists.mp hit
    refine ⟨built, ?_, hsourced.found hfound⟩
    simp only [Access.outcome, Solver.parse, hfound]
  miss_new := by
    intro expression built hmiss houtcome access haccess earlier hearlier
    have hserial : built.serial = history.solver.serials := serial_of_not_hit hmiss houtcome
    rw [hserial]
    exact Nat.ne_of_lt (hsourced.serials access haccess earlier hearlier)
  unkept := by
    intro hcapacity
    constructor
    · rw [hrecalls.keys, Int.toNat_of_nonpos hcapacity, List.rtake_zero]
    · intro expression hit
      have hfew := ((hit_iff_of_recalls hrecalls expression).mp hit).2
      omega

/-- A history with one capacity from the start on. -/
structure Tracked (capacity : Int) (history : History) : Prop where
  capacity_eq : history.solver.capacity = capacity
  recalls : history.solver.Recalls history.recent
  sourced : history.Sourced

theorem tracked_start (capacity : Int) (reading : Reading) :
    (start capacity reading).Tracked capacity where
  capacity_eq := rfl
  recalls := Solver.recalls_new capacity reading
  sourced := ⟨fun _ h ↦ absurd h List.not_mem_nil, fun _ h ↦ absurd h List.not_mem_nil⟩

theorem Tracked.read {capacity : Int} {history : History} (h : history.Tracked capacity)
    (expression : String) : (history.read expression).Tracked capacity where
  capacity_eq := (history.solver.capacity_parse expression).trans h.capacity_eq
  recalls := by
    rw [recent_read]
    exact h.recalls.parse expression
  sourced := h.sourced.read expression

theorem Tracked.clear {capacity : Int} {history : History} (h : history.Tracked capacity) :
    History.Tracked capacity ⟨[], history.solver.clear⟩ where
  capacity_eq := h.capacity_eq
  recalls := history.solver.recalls_clear
  sourced := ⟨fun _ h ↦ absurd h List.not_mem_nil, fun _ h ↦ absurd h List.not_mem_nil⟩

theorem Tracked.setReading {capacity : Int} {history : History} (h : history.Tracked capacity)
    (reading : Reading) : Tracked capacity { history with solver.reading := reading } where
  capacity_eq := h.capacity_eq
  recalls := ⟨h.recalls.nodup, h.recalls.parses, h.recalls.keys⟩
  sourced := ⟨h.sourced.entries, h.sourced.serials⟩

theorem tracked_run (capacity : Int) (reading : Reading) {commands : List Command}
    (hkept : ∀ other, .setCapacity other ∉ commands) :
    ((start capacity reading).run commands).Tracked capacity :=
  run_induction (fun _ expression h ↦ h.read expression) (fun _ h ↦ h.clear)
    (fun _ reading h ↦ h.setReading reading) (fun other hmem ↦ absurd hmem (hkept other))
    (tracked_start capacity reading)

/-- Unless its capacity is changed, a solver is a cache of the least recently used requests, after
any commands and within the batch of texts that comes next. -/
theorem run_least_recently_used (capacity : Int) (reading : Reading) {commands : List Command}
    (hkept : ∀ other, .setCapacity other ∉ commands) (expressions : List String) :
    (((start capacity reading).run commands).readAll expressions).solver =
        Session.advance (commands.foldl Session.advance (.new capacity reading))
          (.batch expressions) ∧
      (((start capacity reading).run commands).readAll expressions).LeastRecentlyUsed capacity := by
  have htracked : (((start capacity reading).run commands).readAll expressions).Tracked capacity :=
    readAll_induction (fun _ expression h ↦ h.read expression)
      (tracked_run capacity reading hkept) expressions
  have hused := leastRecentlyUsed_of_recalls htracked.recalls htracked.sourced
  rw [htracked.capacity_eq] at hused
  exact ⟨solver_readAll_run capacity reading commands expressions, hused⟩

/-- Three numerals, of which the first is read again before the third, and other options. -/
def numerals : List Command :=
  [.parse "1", .parse "2", .evaluate "1", .parse "3", .setLeftAssociative true]

/-- A solver with room for two after the numerals, and after the first one and a text that cannot be
read under the other options. -/
def afterNumerals : History :=
  ((start 2 ⟨true, false⟩).run numerals).readAll ["1", "2#"]

/-- The first numeral is found again, the second one is given up for the third, and under the other
options the first one is built once more. -/
theorem run_least_recently_used_numerals :
    (∀ other, .setCapacity other ∉ numerals) ∧
      afterNumerals.solver =
        Session.advance (numerals.foldl Session.advance (.new 2 ⟨true, false⟩))
          (.batch ["1", "2#"]) ∧
      afterNumerals.LeastRecentlyUsed 2 ∧
      afterNumerals.solver.cache.keys = [⟨"3", ⟨true, false⟩⟩, ⟨"1", ⟨true, true⟩⟩] ∧
      afterNumerals.solver.hits = 1 ∧ afterNumerals.solver.misses = 5 := by
  have hkept : ∀ other, .setCapacity other ∉ numerals := by simp [numerals]
  obtain ⟨hsolver, hused⟩ := run_least_recently_used 2 ⟨true, false⟩ hkept ["1", "2#"]
  have hgood : afterNumerals.good =
      [⟨"1", ⟨true, false⟩⟩, ⟨"2", ⟨true, false⟩⟩, ⟨"1", ⟨true, false⟩⟩, ⟨"3", ⟨true, false⟩⟩,
        ⟨"1", ⟨true, true⟩⟩] := by
    decide +kernel
  have hkeys : afterNumerals.solver.cache.keys = afterNumerals.recent.rtake 2 := hused.keys
  refine ⟨hkept, hsolver, hused, ?_, by decide +kernel, by decide +kernel⟩
  rw [hkeys, recent, hgood]
  decide +kernel

end History

end Reckon
