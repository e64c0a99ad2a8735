import Mathlib.Data.List.Basic
import Reckon.Proofs.Rpn.Height
import Reckon.Proofs.Rpn.Precedence

/-!
# Groups in place of operands

Output is only ever added to, and what waits below an open bracket is out of reach until the
bracket is closed. So tokens with balanced brackets are brought into the same order above any
yard as in an empty one, and a group of them acts as an operand does: it leaves its order in the
output and nothing that waits. Around a group all goes on as around an operand, whether or not
the tokens there make sense. The same holds of the values: a sequence that leaves one value on an
empty stack leaves it on any stack.
-/

namespace Reckon.Rpn

namespace Yard

variable {α : Type} {leftAssociative : Bool}

/-- A yard behind output of earlier tokens. -/
def behind (yard : Yard α) (earlier : List (Token α)) : Yard α :=
  { yard with output := yard.output ++ earlier }

/-- A yard above operators that wait longer. -/
def above (yard : Yard α) (below : List Operator) : Yard α :=
  { yard with waiting := yard.waiting ++ below }

theorem step_arrive (yard : Yard α) {o : Operator} (h : o.isBracket = false) :
    step leftAssociative yard (.operator o) = .ok (yard.arrive leftAssociative o) := by
  cases o <;> first | rfl | cases h

/-- An operator that stays above another one would send nothing off. -/
theorem arrive_eq (o : Operator) (yard : Yard α) :
    yard.arrive leftAssociative o = (yard.sendWhile (sends leftAssociative o)).push o := by
  obtain ⟨output, waiting⟩ := yard
  cases waiting with
  | nil => rfl
  | cons top rest =>
    cases hstays : stays leftAssociative o top with
    | true => simp [arrive, sendWhile, hstays, sends_of_stays hstays]
    | false => simp [arrive, hstays]

theorem sendWhile_behind (test : Operator → Bool) (yard : Yard α) (earlier : List (Token α)) :
    (yard.behind earlier).sendWhile test = (yard.sendWhile test).behind earlier := by
  simp only [sendWhile, behind, List.append_assoc]

theorem arrive_behind (o : Operator) (yard : Yard α) (earlier : List (Token α)) :
    (yard.behind earlier).arrive leftAssociative o =
      (yard.arrive leftAssociative o).behind earlier := by
  rw [arrive_eq, arrive_eq, sendWhile_behind]
  rfl

theorem close_behind (yard : Yard α) (earlier : List (Token α)) :
    (yard.behind earlier).close = yard.close.map (·.behind earlier) := by
  unfold close
  simp only [sendWhile_behind]
  have hwaiting (inner : Yard α) : (inner.behind earlier).waiting = inner.waiting := rfl
  rw [hwaiting]
  cases (yard.sendWhile (· ≠ .openBracket)).waiting <;> rfl

/-- A step does not look at the output. -/
theorem step_behind (yard : Yard α) (earlier : List (Token α)) (token : Token α) :
    step leftAssociative (yard.behind earlier) token =
      (step leftAssociative yard token).map (·.behind earlier) := by
  cases token with
  | value x => rfl
  | operator o =>
    cases hbracket : o.isBracket with
    | false =>
      rw [step_arrive _ hbracket, step_arrive _ hbracket, arrive_behind]
      rfl
    | true =>
      cases o with
      | openBracket => rfl
      | closeBracket => exact close_behind yard earlier
      | _ => cases hbracket

theorem foldlM_behind (yard : Yard α) (earlier : List (Token α)) (tokens : List (Token α)) :
    tokens.foldlM (step leftAssociative) (yard.behind earlier) =
      (tokens.foldlM (step leftAssociative) yard).map (·.behind earlier) := by
  induction tokens generalizing yard with
  | nil => rfl
  | cons token rest ih =>
    rw [List.foldlM_cons, List.foldlM_cons, step_behind]
    cases step leftAssociative yard token with
    | error fault => rfl
    | ok next => exact ih next

/-- Operators that are sent off stop at what a test keeps below. -/
theorem sendWhile_above {test : Operator → Bool} {yard : Yard α} {below : List Operator}
    (h : (∃ o ∈ yard.waiting, test o = false) ∨ ∀ top ∈ below.head?, test top = false) :
    (yard.above below).sendWhile test = (yard.sendWhile test).above below := by
  obtain ⟨output, waiting⟩ := yard
  have hlists : (waiting ++ below).takeWhile test = waiting.takeWhile test ∧
      (waiting ++ below).dropWhile test = waiting.dropWhile test ++ below := by
    induction waiting with
    | nil =>
      have hbelow : ∀ top ∈ below.head?, test top = false := by simpa using h
      cases below with
      | nil => exact ⟨rfl, rfl⟩
      | cons top rest => simp [hbelow top rfl]
    | cons o rest ih =>
      cases ho : test o with
      | false => simp [ho]
      | true =>
        have hrest := ih (by simpa [ho] using h)
        simpa [ho] using hrest
  simp only [sendWhile, above, hlists.1, hlists.2]

/-- An operator that is admitted below arrives as it would with nothing below. -/
theorem arrive_above_admits {o : Operator} (yard : Yard α) {below : List Operator}
    (ho : 1 ≤ o.priority) (hadmits : Admits leftAssociative 1 below) :
    (yard.above below).arrive leftAssociative o = (yard.arrive leftAssociative o).above below := by
  have hkept : ∀ top ∈ below.head?, sends leftAssociative o top = false :=
    fun top htop ↦ sends_of_stays (hadmits top htop o ho)
  rw [arrive_eq, arrive_eq, sendWhile_above (.inr hkept)]
  rfl

theorem close_above_of_ok {yard after : Yard α} (h : yard.close = .ok after)
    (below : List Operator) : (yard.above below).close = .ok (after.above below) := by
  let test : Operator → Bool := fun o ↦ decide (o ≠ .openBracket)
  cases hwaiting : yard.waiting.dropWhile test with
  | nil =>
    have hnone : (yard.sendWhile test).waiting = [] := hwaiting
    simp only [close, test, hnone, reduceCtorEq] at h
  | cons top outer =>
    have htop : top ∈ yard.waiting :=
      (List.dropWhile_sublist test).mem (hwaiting ▸ List.mem_cons_self)
    have hbracket : test top = false := by
      have hhead := List.head?_dropWhile_not test yard.waiting
      rw [hwaiting] at hhead
      exact hhead
    have hsend : (yard.above below).sendWhile test = (yard.sendWhile test).above below :=
      sendWhile_above (.inl ⟨top, htop, hbracket⟩)
    have hinner : (yard.sendWhile test).waiting = top :: outer := hwaiting
    have hafter : after = { yard.sendWhile test with waiting := outer } := by
      simp only [close, test, hinner, Except.ok.injEq] at h
      exact h.symm
    unfold close
    rw [hsend, hafter]
    simp only [above, hinner, List.cons_append]

/-- A step that succeeds does not reach what waits below. -/
theorem step_above {yard after : Yard α} {below : List Operator} {token : Token α}
    (hadmits : Admits leftAssociative 1 below) (h : step leftAssociative yard token = .ok after) :
    step leftAssociative (yard.above below) token = .ok (after.above below) := by
  cases token with
  | value x =>
    cases h
    rfl
  | operator o =>
    cases hbracket : o.isBracket with
    | false =>
      have ho : 1 ≤ o.priority := by
        revert hbracket
        cases o <;> decide
      rw [step_arrive _ hbracket, Except.ok.injEq] at h
      rw [step_arrive _ hbracket, arrive_above_admits _ ho hadmits, h]
    | true =>
      cases o with
      | openBracket =>
        cases h
        rfl
      | closeBracket => exact close_above_of_ok h below
      | _ => cases hbracket

theorem foldlM_above {yard after : Yard α} {below : List Operator} {tokens : List (Token α)}
    (hadmits : Admits leftAssociative 1 below)
    (h : tokens.foldlM (step leftAssociative) yard = .ok after) :
    tokens.foldlM (step leftAssociative) (yard.above below) = .ok (after.above below) := by
  induction tokens generalizing yard with
  | nil =>
    cases h
    rfl
  | cons token rest ih =>
    obtain ⟨next, hstep, hrest⟩ := exists_of_foldlM_cons h
    rw [foldlM_cons_of_ok (step_above hadmits hstep)]
    exact ih hrest

theorem values_operators (operators : List Operator) :
    (operators.map .operator).filter (Token.isValue (α := α)) = [] := by
  apply List.filter_eq_nil_iff.mpr
  intro token htoken
  obtain ⟨o, _, rfl⟩ := List.mem_map.mp htoken
  exact Bool.false_ne_true

/-- Operators that are sent off add no value to the output. -/
theorem values_sendWhile (test : Operator → Bool) (yard : Yard α) :
    (yard.sendWhile test).output.filter Token.isValue = yard.output.filter Token.isValue := by
  rw [sendWhile, List.filter_append, List.filter_reverse, values_operators, List.reverse_nil,
    List.nil_append]

theorem values_step {yard after : Yard α} {token : Token α}
    (h : step leftAssociative yard token = .ok after) :
    after.output.filter Token.isValue =
      [token].filter Token.isValue ++ yard.output.filter Token.isValue := by
  cases token with
  | value x =>
    cases h
    rfl
  | operator o =>
    cases hbracket : o.isBracket with
    | false =>
      rw [step_arrive _ hbracket, Except.ok.injEq] at h
      rw [← h, arrive_eq]
      exact values_sendWhile _ yard
    | true =>
      cases o with
      | openBracket =>
        cases h
        rfl
      | closeBracket =>
        have hinner := values_sendWhile (· ≠ .openBracket) yard
        change yard.close = .ok after at h
        unfold close at h
        cases hwaiting : (yard.sendWhile (· ≠ .openBracket)).waiting with
        | nil => simp only [hwaiting, reduceCtorEq] at h
        | cons top outer =>
          simp only [hwaiting, Except.ok.injEq] at h
          rw [← h]
          exact hinner
      | _ => cases hbracket

/-- Values come to the output in the order in which they arrive. -/
theorem values_foldlM {yard after : Yard α} {tokens : List (Token α)}
    (h : tokens.foldlM (step leftAssociative) yard = .ok after) :
    after.output.reverse.filter Token.isValue =
      yard.output.reverse.filter Token.isValue ++ tokens.filter Token.isValue := by
  induction tokens generalizing yard with
  | nil =>
    cases h
    rw [List.filter_nil, List.append_nil]
  | cons token rest ih =>
    obtain ⟨next, hstep, hrest⟩ := exists_of_foldlM_cons h
    have htoken : ([token].filter Token.isValue).reverse = [token].filter Token.isValue := by
      cases token <;> rfl
    calc after.output.reverse.filter Token.isValue
        = next.output.reverse.filter Token.isValue ++ rest.filter Token.isValue := ih hrest
      _ = yard.output.reverse.filter Token.isValue ++
            ([token].filter Token.isValue ++ rest.filter Token.isValue) := by
          rw [List.filter_reverse, values_step hstep, List.reverse_append, htoken,
            ← List.filter_reverse, List.append_assoc]
      _ = yard.output.reverse.filter Token.isValue ++ (token :: rest).filter Token.isValue := by
          rw [← List.filter_append, List.singleton_append]

end Yard

open Yard

section Order

variable {α : Type} {leftAssociative : Bool}

/-- What is brought into an order in an empty yard is so above all that admits it. -/
theorem brings_of_ofInfix {tokens order : List (Token α)}
    (h : ofInfix leftAssociative tokens = .ok order) : Brings leftAssociative 1 tokens order := by
  intro output waiting hadmits
  obtain ⟨inner, hrun, hopen, horder⟩ := exists_of_ofInfix h
  have hclose : .closeBracket ∉ inner.waiting := by
    have hfollows := follows_foldlM leftAssociative tidy_empty tokens
    rw [Yard.run] at hrun
    rw [hrun] at hfollows
    cases hfollows with
    | ok hscan htidy hcontents => exact htidy.waiting
  refine ⟨inner.output ++ output, inner.waiting, ?_, ?_, ?_⟩
  · have habove : tokens.foldlM (Yard.step leftAssociative) (empty.above waiting) =
        .ok (inner.above waiting) := foldlM_above hadmits hrun
    calc tokens.foldlM (Yard.step leftAssociative) ⟨output, waiting⟩
        = (tokens.foldlM (Yard.step leftAssociative) (empty.above waiting)).map
            (·.behind output) := foldlM_behind (empty.above waiting) output tokens
      _ = .ok ⟨inner.output ++ output, inner.waiting ++ waiting⟩ := by
          rw [habove]
          rfl
  · rw [← horder, List.reverse_append, List.append_assoc]
  · intro o ho
    cases o with
    | openBracket => exact absurd ho hopen
    | closeBracket => exact absurd ho hclose
    | _ => decide

/-- Tokens that act as an operand: they add an order to the output and leave nothing waiting. -/
def Settles (leftAssociative : Bool) (tokens order : List (Token α)) : Prop :=
  ∀ yard : Yard α, tokens.foldlM (Yard.step leftAssociative) yard =
    .ok { yard with output := order.reverse ++ yard.output }

theorem settles_value (x : α) : Settles leftAssociative [.value x] [.value x] :=
  fun _ ↦ rfl

/-- The tokens of a group. -/
def bracketed (tokens : List (Token α)) : List (Token α) :=
  .operator .openBracket :: tokens ++ [.operator .closeBracket]

theorem settles_bracketed {tokens order : List (Token α)}
    (h : ofInfix leftAssociative tokens = .ok order) :
    Settles leftAssociative (bracketed tokens) order := by
  intro yard
  -- No operator is as tight as the level six, so that no spine can be left above the group.
  have hgroup := brings_group 6 (brings_of_ofInfix h)
  have hadmits : Admits leftAssociative 6 yard.waiting := by
    intro top _ o ho
    exact absurd ho (by cases o <;> decide)
  obtain ⟨output, spine, hrun, hlists, hspine⟩ := hgroup yard.output yard.waiting hadmits
  have hnil : spine = [] := by
    apply List.eq_nil_iff_forall_not_mem.mpr
    intro o ho
    exact absurd (hspine o ho) (by cases o <;> decide)
  subst hnil
  have houtput : output = order.reverse ++ yard.output := by
    apply List.reverse_injective
    simpa using hlists
  rw [← houtput]
  exact hrun

/-- The tokens around an operand decide what comes of it: a fault whatever the operand, or an
order in which its own stands between the values before it and the values behind it. -/
theorem ofInfix_around (leftAssociative : Bool) (front back : List (Token α)) :
    (∃ fault, ∀ tokens order, Settles leftAssociative tokens order →
        ofInfix leftAssociative (front ++ tokens ++ back) = .error fault) ∨
      ∃ before behind, before.filter Token.isValue = front.filter Token.isValue ∧
        behind.filter Token.isValue = back.filter Token.isValue ∧
        ∀ tokens order, Settles leftAssociative tokens order →
          ofInfix leftAssociative (front ++ tokens ++ back) = .ok (before ++ order ++ behind) := by
  cases hfront : front.foldlM (Yard.step leftAssociative) empty with
  | error fault =>
    refine .inl ⟨fault, fun tokens order _ ↦ ?_⟩
    rw [ofInfix, Yard.run, List.append_assoc, List.foldlM_append, hfront]
    rfl
  | ok yard =>
    -- The output of an operand is put aside, so that what follows runs alike for every operand.
    have hrun (tokens order : List (Token α)) (h : Settles leftAssociative tokens order) :
        ofInfix leftAssociative (front ++ tokens ++ back) =
          ((back.foldlM (Yard.step leftAssociative) ⟨[], yard.waiting⟩).map
            (·.behind (order.reverse ++ yard.output))).bind finish := by
      have htokens : (front ++ tokens).foldlM (Yard.step leftAssociative) empty =
          .ok { yard with output := order.reverse ++ yard.output } := by
        rw [foldlM_append_of_ok hfront, h]
      rw [ofInfix, Yard.run, foldlM_append_of_ok htokens, ← foldlM_behind]
      rfl
    cases hback : back.foldlM (Yard.step leftAssociative) (⟨[], yard.waiting⟩ : Yard α) with
    | error fault =>
      refine .inl ⟨fault, fun tokens order h ↦ ?_⟩
      rw [hrun tokens order h, hback]
      rfl
    | ok last =>
      by_cases hopen : .openBracket ∈ last.waiting
      · refine .inl ⟨.unclosedOpening, fun tokens order h ↦ ?_⟩
        rw [hrun tokens order h, hback]
        exact if_pos (List.contains_iff_mem.mpr hopen)
      · have hbefore := values_foldlM hfront
        have hbehind := values_foldlM hback
        refine .inr ⟨yard.output.reverse, last.output.reverse ++ last.waiting.map .operator,
          hbefore, ?_, fun tokens order h ↦ ?_⟩
        · rw [List.filter_append, values_operators, List.append_nil]
          exact hbehind
        · have hfinish : (last.behind (order.reverse ++ yard.output)).finish =
              .ok ((last.output ++ (order.reverse ++ yard.output)).reverse ++
                last.waiting.map .operator) :=
            if_neg (by simpa [behind] using hopen)
          rw [hrun tokens order h, hback]
          refine hfinish.trans (congrArg Except.ok ?_)
          simp

/-- The only faults of an order are those of its brackets. -/
theorem kind_of_ofInfix_error {tokens : List (Token α)} {fault : Fault}
    (h : ofInfix leftAssociative tokens = .error fault) : fault.kind = .brackets := by
  by_cases hbalanced : Bracket.Balanced (Token.brackets tokens)
  · obtain ⟨order, hok, _⟩ := ofInfix_of_balanced leftAssociative hbalanced
    cases h.symm.trans hok
  · obtain ⟨found, herror, hkind⟩ := ofInfix_of_unbalanced leftAssociative hbalanced
    cases h.symm.trans herror
    exact hkind

/-- Tokens that are in order keep it as a group. -/
theorem ofInfix_bracketed {tokens order : List (Token α)}
    (h : ofInfix leftAssociative tokens = .ok order) :
    ofInfix leftAssociative (bracketed tokens) = .ok order := by
  have hrun := settles_bracketed h empty
  rw [ofInfix, Yard.run, hrun]
  simp [empty, finish, bind, Except.bind]

end Order

section Value

variable {α : Type} (A : Arithmetic α)

/-- A step that finds its operands leaves what is below them. -/
theorem step_append {stack after : List α} {token : Token α} (h : step A stack token = .ok after)
    (below : List α) : step A (stack ++ below) token = .ok (after ++ below) := by
  cases token with
  | value x =>
    cases h
    rfl
  | operator o =>
    by_cases hlt : stack.length < o.arity.count
    · rw [step_missing A hlt] at h
      cases h
    · have hle : o.arity.count ≤ stack.length := Nat.le_of_not_lt hlt
      have hlonger : ¬ (stack ++ below).length < o.arity.count := by
        rw [List.length_append]
        omega
      rw [step, if_neg hlt] at h
      rw [step, if_neg hlonger, List.take_append_of_le_length hle, List.drop_append_of_le_length hle]
      cases happly : apply A o (stack.take o.arity.count).reverse with
      | error fault =>
        rw [happly] at h
        cases h
      | ok result =>
        rw [happly] at h
        cases h
        rfl

theorem foldlM_append_below {stack after : List α} {tokens : List (Token α)}
    (h : tokens.foldlM (step A) stack = .ok after) (below : List α) :
    tokens.foldlM (step A) (stack ++ below) = .ok (after ++ below) := by
  induction tokens generalizing stack with
  | nil =>
    cases h
    rfl
  | cons token rest ih =>
    obtain ⟨next, hstep, hrest⟩ := exists_of_foldlM_cons h
    rw [foldlM_cons_of_ok (step_append A hstep below)]
    exact ih hrest

/-- A sequence with a value puts it onto any stack. -/
theorem foldlM_of_evaluate {tokens : List (Token α)} {x : α} (h : evaluate A tokens = .ok x)
    (stack : List α) : tokens.foldlM (step A) stack = .ok (x :: stack) := by
  obtain ⟨after, hrun, hsingle⟩ := exists_of_bind_eq_ok h
  have hafter : after = [x] := by
    unfold single at hsingle
    split at hsingle
    · cases hsingle
      rfl
    · cases hsingle
  subst hafter
  exact foldlM_append_below A hrun stack

/-- A sequence with a value may be replaced by this value, wherever it stands. -/
theorem evaluate_replace {tokens : List (Token α)} {x : α} (h : evaluate A tokens = .ok x)
    (before behind : List (Token α)) :
    evaluate A (before ++ tokens ++ behind) = evaluate A (before ++ [.value x] ++ behind) := by
  have hmiddle (stack : List α) :
      tokens.foldlM (step A) stack = [.value x].foldlM (step A) stack :=
    foldlM_of_evaluate A h stack
  have hrun : run A (before ++ tokens ++ behind) = run A (before ++ [.value x] ++ behind) := by
    simp only [run, List.foldlM_append, hmiddle]
  rw [evaluate, evaluate, hrun]

end Value

end Reckon.Rpn
