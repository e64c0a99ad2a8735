import Mathlib.Data.List.Chain
import Reckon.Proofs.Rpn.Order

/-!
# How operators wait above each other

An operator comes to wait right above another one only if it does not send that one off. So from
an open bracket upwards the waiting operators bind tighter and tighter, or equally tight where
equal operators may wait for each other. A group that is closed uncovers what waited before it was
opened, and disturbs nothing.
-/

namespace Reckon.Rpn.Yard

variable {α : Type} {leftAssociative : Bool} {yard after : Yard α}

/-- Each waiting operator stays above the one below it; an open bracket may wait above any. -/
def Ascends (leftAssociative : Bool) (waiting : List Operator) : Prop :=
  waiting.IsChain fun upper lower ↦
    upper = .openBracket ∨ stays leftAssociative upper lower = true

/-- An operator that sends another one off or stays above it does one of the two. -/
theorem stays_of_not_sends {o top : Operator} (ho : o.isBracket = false)
    (h : sends leftAssociative o top = false) : stays leftAssociative o top = true := by
  revert ho h
  cases leftAssociative <;> cases o <;> cases top <;> decide

theorem priority_le_of_stays {o top : Operator} (h : stays leftAssociative o top = true) :
    top.priority ≤ o.priority := by
  simp only [stays, Bool.or_eq_true, decide_eq_true_eq, Bool.and_eq_true, beq_iff_eq] at h
  rcases h with hlt | ⟨heq, _⟩
  · exact Nat.le_of_lt hlt
  · exact Nat.le_of_eq heq.symm

theorem stays_true_iff {o top : Operator} :
    stays true o top = true ↔
      top.priority < o.priority ∨ top = o ∧ (o = .power ∨ o = .negate) := by
  cases o <;> cases top <;> decide

theorem ascends_empty : Ascends leftAssociative (empty : Yard α).waiting :=
  List.isChain_nil

theorem ascends_push_openBracket (h : Ascends leftAssociative yard.waiting) :
    Ascends leftAssociative (yard.push .openBracket).waiting :=
  List.isChain_cons.mpr ⟨fun _ _ ↦ .inl rfl, h⟩

/-- An operator sends off whatever it does not stay above, and then waits. -/
theorem ascends_arrive {o : Operator} (ho : o.isBracket = false)
    (h : Ascends leftAssociative yard.waiting) :
    Ascends leftAssociative (yard.arrive leftAssociative o).waiting := by
  rw [arrive_eq]
  have hstays : ∀ top ∈ (yard.sendWhile (sends leftAssociative o)).waiting.head?,
      stays leftAssociative o top = true :=
    fun top htop ↦ stays_of_not_sends ho (eq_false_of_left htop)
  exact List.isChain_cons.mpr ⟨fun top htop ↦ .inr (hstays top htop),
    h.suffix (List.dropWhile_suffix _)⟩

theorem ascends_close (h : Ascends leftAssociative yard.waiting) (hclose : yard.close = .ok after) :
    Ascends leftAssociative after.waiting := by
  have hsent : yard.waiting.dropWhile (· ≠ .openBracket) = .openBracket :: after.waiting :=
    congrArg Yard.waiting (sendWhile_of_close hclose)
  exact (List.isChain_cons.mp (hsent ▸ h.suffix (List.dropWhile_suffix _))).2

theorem ascends_step {token : Token α} (h : Ascends leftAssociative yard.waiting)
    (hstep : step leftAssociative yard token = .ok after) :
    Ascends leftAssociative after.waiting := by
  cases token with
  | value x =>
    cases hstep
    exact h
  | operator o =>
    cases hbracket : o.isBracket with
    | false =>
      rw [step_arrive _ hbracket, Except.ok.injEq] at hstep
      exact hstep ▸ ascends_arrive hbracket h
    | true =>
      cases o with
      | openBracket =>
        cases hstep
        exact ascends_push_openBracket h
      | closeBracket => exact ascends_close h hstep
      | _ => cases hbracket

/-- Within a group nothing that waits above an operator is looser than it. -/
theorem Ascends.priority_le {above below : List Operator} {o : Operator}
    (h : Ascends leftAssociative (above ++ o :: below)) (habove : .openBracket ∉ above) :
    ∀ upper ∈ above, o.priority ≤ upper.priority := by
  induction above with
  | nil => exact fun upper hupper ↦ absurd hupper List.not_mem_nil
  | cons upper rest ih =>
    obtain ⟨hne, hrest⟩ := not_or.mp fun hmem ↦ habove (List.mem_cons.mpr hmem)
    obtain ⟨hnext, htail⟩ := List.isChain_cons.mp h
    have hinner := ih htail hrest
    have hstays {lower : Operator} (hlower : lower ∈ (rest ++ o :: below).head?) :
        lower.priority ≤ upper.priority :=
      priority_le_of_stays ((hnext lower hlower).resolve_left (Ne.symm hne))
    refine List.forall_mem_cons.mpr ⟨?_, hinner⟩
    cases rest with
    | nil => exact hstays rfl
    | cons lower rest => exact Nat.le_trans (hinner lower List.mem_cons_self) (hstays rfl)

/-! ## After every front of a sequence -/

theorem ascends_foldlM {tokens : List (Token α)} (h : Ascends leftAssociative yard.waiting)
    (hrun : tokens.foldlM (step leftAssociative) yard = .ok after) :
    Ascends leftAssociative after.waiting := by
  induction tokens generalizing yard with
  | nil =>
    cases hrun
    exact h
  | cons token rest ih =>
    obtain ⟨next, hnext, hrest⟩ := exists_of_foldlM_cons hrun
    exact ih (ascends_step h hnext) hrest

theorem ascends_run {tokens : List (Token α)} (h : run leftAssociative tokens = .ok yard) :
    Ascends leftAssociative yard.waiting :=
  ascends_foldlM ascends_empty h

/-- In a run no closing bracket comes to wait, and the open brackets are those of the scan. -/
theorem tidy_run {tokens : List (Token α)} (h : run leftAssociative tokens = .ok yard) :
    yard.Tidy ∧ Bracket.scan 0 (Token.brackets tokens) = some yard.openings := by
  have hfollows := follows_foldlM leftAssociative tidy_empty tokens
  rw [show tokens.foldlM (step leftAssociative) empty = .ok yard from h] at hfollows
  cases hfollows with
  | ok hscan htidy _ => exact ⟨htidy, hscan⟩

section Segments

variable {waiting segment : List Operator}

/-- Between two open brackets each operator stays above the one before it, from the bottom up. -/
theorem Ascends.isChain_segment (h : Ascends leftAssociative waiting)
    (hsegment : segment <:+: waiting.reverse) (hopen : .openBracket ∉ segment) :
    segment.IsChain fun lower upper ↦ stays leftAssociative upper lower = true := by
  have hupwards : waiting.reverse.IsChain fun lower upper ↦
      upper = .openBracket ∨ stays leftAssociative upper lower = true :=
    List.isChain_reverse.mpr h
  have hchain := List.IsChain.infix hupwards hsegment
  apply hchain.imp_of_mem_imp
  intro lower upper _ hupper hstays
  exact hstays.resolve_left (ne_of_mem_of_not_mem hupper hopen)

theorem Ascends.pairwise_segment (h : Ascends false waiting)
    (hsegment : segment <:+: waiting.reverse) (hopen : .openBracket ∉ segment) :
    segment.Pairwise fun lower upper ↦ lower.priority ≤ upper.priority := by
  have hchain : (segment.map Operator.priority).IsChain (· ≤ ·) := by
    rw [List.isChain_map]
    exact (h.isChain_segment hsegment hopen).imp fun _ _ ↦ priority_le_of_stays
  exact List.pairwise_map.mp (List.isChain_iff_pairwise.mp hchain)

end Segments

/-- The negation is the tightest operator and groups to the right, so it sends nothing off. -/
theorem arrive_negate (leftAssociative : Bool) (yard : Yard α) :
    yard.arrive leftAssociative .negate = yard.push .negate := by
  have hstays (top : Operator) : stays leftAssociative .negate top = true := by
    cases leftAssociative <;> cases top <;> rfl
  unfold arrive
  split
  · rfl
  · rw [if_pos (hstays _)]

/-- After every front of a sequence that raises no fault, the open brackets and operators wait and no
closing brackets, an open bracket for each one that is not closed yet. Above an open bracket, or from
the bottom, no operator waits above a tighter one; grouping to the left, only a power or a negation
waits above an equally tight one, which is then the same. A negation sends nothing off, and no
operator that arrives sends off an open bracket; a closing one takes the nearest open one away. -/
theorem waiting_of_run {tokens : List (Token α)} {count : Nat}
    (h : run leftAssociative (tokens.take count) = .ok yard) :
    (∀ o ∈ yard.waiting, o = .openBracket ∨ o.isBracket = false) ∧
      yard.waiting.count .openBracket + (Token.brackets (tokens.take count)).count .closing =
        (Token.brackets (tokens.take count)).count .opening ∧
      (∀ segment, segment <:+: yard.waiting.reverse → .openBracket ∉ segment →
        (leftAssociative = false →
          segment.Pairwise fun lower upper ↦ lower.priority ≤ upper.priority) ∧
        (leftAssociative = true →
          segment.IsChain fun lower upper ↦ lower.priority < upper.priority ∨
            lower = upper ∧ (upper = .power ∨ upper = .negate))) ∧
      step leftAssociative yard (.operator .negate) = .ok (yard.push .negate) ∧
      (∀ o, o ≠ .closeBracket → ∃ inner, yard.SendsOff inner ∧
        step leftAssociative yard (.operator o) = .ok (inner.push o)) ∧
      ∀ after, step leftAssociative yard (.operator .closeBracket) = .ok after →
        yard.SendsOff (after.push .openBracket) := by
  have hascends := ascends_run h
  obtain ⟨htidy, hscan⟩ := tidy_run h
  refine ⟨fun o ho ↦ ?_, ?_, fun segment hsegment hopen ↦ ⟨?_, ?_⟩, ?_,
    fun o ↦ exists_sendsOff_step leftAssociative yard, fun after ↦ sendsOff_of_close⟩
  · have hclosed : o ≠ .closeBracket := ne_of_mem_of_not_mem ho htidy.waiting
    cases o <;> first | exact .inl rfl | exact .inr rfl | exact absurd rfl hclosed
  · have hcount := Bracket.count_of_scan hscan
    rwa [Nat.zero_add] at hcount
  · rintro rfl
    exact hascends.pairwise_segment hsegment hopen
  · rintro rfl
    exact (hascends.isChain_segment hsegment hopen).imp fun _ _ ↦ stays_true_iff.mp
  · rw [step_arrive _ rfl, arrive_negate]

/-- In `1 - (2 ^ 3 ^ -4))` the last bracket is stray, and before the four an equal power and a
negation wait above the first power. -/
theorem waiting_of_run_powers :
    ∃ (tokens : List (Token Nat)) (yard : Yard Nat), run true tokens = .error .strayClosing ∧
      run true (tokens.take 8) = .ok yard ∧ yard.waiting.count .openBracket = 1 ∧
      [.power, .power, .negate] <:+: yard.waiting.reverse ∧
      ([.power, .power, .negate] : List Operator).IsChain (fun lower upper ↦
        lower.priority < upper.priority ∨ lower = upper ∧ (upper = .power ∨ upper = .negate)) ∧
      step true yard (.operator .negate) = .ok (yard.push .negate) := by
  let tokens : List (Token Nat) :=
    [.value 1, .operator .minus, .operator .openBracket, .value 2, .operator .power, .value 3,
      .operator .power, .operator .negate, .value 4, .operator .closeBracket, .operator .closeBracket]
  have hrun : run true (tokens.take 8) =
      .ok ⟨[.value 3, .value 2, .value 1], [.negate, .power, .power, .openBracket, .minus]⟩ := rfl
  have hsegment : [.power, .power, .negate] <:+:
      [Operator.negate, .power, .power, .openBracket, .minus].reverse := by decide
  obtain ⟨_, hcount, hsegments, hnegate, _⟩ := waiting_of_run hrun
  exact ⟨tokens, _, rfl, hrun, hcount, hsegment, (hsegments _ hsegment (by decide)).2 rfl, hnegate⟩

end Reckon.Rpn.Yard
