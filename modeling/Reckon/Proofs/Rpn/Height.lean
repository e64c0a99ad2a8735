import Mathlib.Data.List.Induction
import Reckon.Rpn.Evaluation

/-!
# Heights of postfix sequences

The height of a sequence is the number of its values less the number of its binary operators.
As long as every operator finds its operands, the stack after a sequence is as high as the
sequence. So whether a sequence has a value, and which fault it ends in otherwise, is decided by
the heights of its fronts alone and not by the arithmetic.
-/

namespace Reckon

namespace Token

variable {α : Type}

def isValue : Token α → Bool
  | .value _ => true
  | .operator _ => false

def isBinary : Token α → Bool
  | .value _ => false
  | .operator o => o.arity = .binary

end Token

namespace Rpn

variable {α : Type}

/-- The number of values less the number of binary operators. -/
def height (tokens : List (Token α)) : Int :=
  tokens.countP Token.isValue - tokens.countP Token.isBinary

theorem height_append (front back : List (Token α)) :
    height (front ++ back) = height front + height back := by
  simp only [height, List.countP_append]
  omega

@[simp] theorem height_value (x : α) : height [Token.value x] = 1 := by
  simp [height, Token.isValue, Token.isBinary]

theorem height_operator (o : Operator) :
    height [(.operator o : Token α)] = if o.arity = .binary then -1 else 0 := by
  cases o <;> simp [height, Token.isValue, Token.isBinary, Operator.arity]

theorem height_perm {tokens others : List (Token α)} (h : tokens.Perm others) :
    height tokens = height others := by
  simp only [height, h.countP_eq]

/-- Some operator finds fewer values than it takes. -/
def Starved (tokens : List (Token α)) : Prop :=
  ∃ front o back, tokens = front ++ .operator o :: back ∧ height front < o.arity.count

theorem Starved.append {front : List (Token α)} (h : Starved front) (back : List (Token α)) :
    Starved (front ++ back) := by
  obtain ⟨first, o, rest, rfl, hlt⟩ := h
  exact ⟨first, o, rest ++ back, by simp, hlt⟩

/-- A sequence is starved in its front or by its last token. -/
theorem starved_concat_iff {tokens : List (Token α)} {token : Token α} :
    Starved (tokens ++ [token]) ↔
      Starved tokens ∨ ∃ o, token = .operator o ∧ height tokens < o.arity.count := by
  constructor
  · rintro ⟨front, o, back, heq, hlt⟩
    rcases List.eq_nil_or_concat back with rfl | ⟨back, last, rfl⟩
    · obtain ⟨rfl, hlast⟩ := List.append_inj' heq rfl
      obtain ⟨rfl, _⟩ := List.cons_eq_cons.mp hlast
      exact .inr ⟨o, rfl, hlt⟩
    · rw [List.concat_eq_append, ← List.cons_append, ← List.append_assoc] at heq
      obtain ⟨rfl, _⟩ := List.append_inj' heq rfl
      exact .inl ⟨front, o, back, rfl, hlt⟩
  · rintro (h | ⟨o, rfl, hlt⟩)
    · exact h.append _
    · exact ⟨tokens, o, [], rfl, hlt⟩

section Steps

variable (A : Arithmetic α) {stack : List α} {o : Operator}

theorem step_missing (h : stack.length < o.arity.count) :
    step A stack (.operator o) = .error (.missingOperands o stack.length) := by
  rw [step, if_pos h]

/-- An operator that finds its operands puts one value in their place. -/
theorem step_operator (hbracket : o.isBracket = false) (h : o.arity.count ≤ stack.length) :
    ∃ x, step A stack (.operator o) = .ok (x :: stack.drop o.arity.count) := by
  have harity := A.arity_meaning o
  cases hmeaning : A.meaning o with
  | none =>
    have hnone : o.isBracket = true := by
      revert hmeaning
      cases o <;> simp [Arithmetic.meaning, Operator.isBracket]
    exact absurd (hnone.symm.trans hbracket) (by decide)
  | unary f =>
    rw [hmeaning] at harity
    rw [← harity] at h
    match stack, h with
    | x :: rest, _ =>
      refine ⟨f x, ?_⟩
      simp [step, apply, ← harity, hmeaning, Meaning.arity, Arity.count, bind, Except.bind, pure,
        Except.pure]
  | binary f =>
    rw [hmeaning] at harity
    rw [← harity] at h
    match stack, h with
    | x :: y :: rest, _ =>
      refine ⟨f y x, ?_⟩
      simp [step, apply, ← harity, hmeaning, Meaning.arity, Arity.count, bind, Except.bind, pure,
        Except.pure]

end Steps

theorem run_concat (A : Arithmetic α) (tokens : List (Token α)) (token : Token α) :
    run A (tokens ++ [token]) = (run A tokens).bind (step A · token) := by
  rw [run, List.foldlM_append]
  change (run A tokens).bind (fun stack ↦ List.foldlM (step A) stack [token]) = _
  cases run A tokens with
  | error fault => rfl
  | ok stack =>
    change step A stack token >>= pure = step A stack token
    exact bind_pure _

/-- What a run without brackets comes to: it stops at the first operator that finds too few
values, or leaves a stack as high as the sequence. -/
inductive Ran (tokens : List (Token α)) : Except Fault (List α) → Prop where
  | starved {front back : List (Token α)} {o : Operator} {present : Nat}
      (hsplit : tokens = front ++ .operator o :: back) (hfed : ¬ Starved front)
      (hpresent : (present : Int) = height front) (hmissing : present < o.arity.count) :
      Ran tokens (.error (.missingOperands o present))
  | fed {stack : List α} (hfed : ¬ Starved tokens) (hheight : (stack.length : Int) = height tokens) :
      Ran tokens (.ok stack)

theorem ran_step (A : Arithmetic α) {tokens : List (Token α)} {stack : List α} {token : Token α}
    (hfed : ¬ Starved tokens) (hheight : (stack.length : Int) = height tokens)
    (hbracket : ∀ o, token = .operator o → o.isBracket = false) :
    Ran (tokens ++ [token]) (step A stack token) := by
  cases token with
  | value x =>
    refine .fed ?_ ?_
    · rw [starved_concat_iff]
      simp [hfed]
    · rw [height_append, height_value, List.length_cons]
      omega
  | operator o =>
    by_cases hlt : stack.length < o.arity.count
    · rw [step_missing A hlt]
      exact .starved rfl hfed hheight hlt
    · have ho := hbracket o rfl
      obtain ⟨x, hstep⟩ := step_operator A ho (Nat.le_of_not_lt hlt)
      have hgain : (1 : Int) - o.arity.count = height [(.operator o : Token α)] := by
        rw [height_operator]
        cases o <;> first | rfl | cases ho
      rw [hstep]
      refine .fed ?_ ?_
      · rw [starved_concat_iff]
        rintro (h | ⟨o', heq, hlt'⟩)
        · exact hfed h
        · cases heq
          omega
      · rw [height_append, ← hgain, List.length_cons, List.length_drop]
        omega

theorem ran_run (A : Arithmetic α) {tokens : List (Token α)}
    (hbracket : ∀ o, .operator o ∈ tokens → o.isBracket = false) : Ran tokens (run A tokens) := by
  induction tokens using List.reverseRecOn with
  | nil => exact .fed (by simp [Starved]) rfl
  | append_singleton tokens token ih =>
    have hfront := ih fun o ho ↦ hbracket o (List.mem_append_left _ ho)
    rw [run_concat]
    generalize run A tokens = outcome at hfront ⊢
    cases hfront with
    | @starved front back o present hsplit hfed hpresent hmissing =>
      have hlonger : tokens ++ [token] = front ++ .operator o :: (back ++ [token]) := by
        rw [hsplit, List.append_assoc, List.cons_append]
      exact .starved hlonger hfed hpresent hmissing
    | fed hfed hheight => exact ran_step A hfed hheight fun o heq ↦ hbracket o (by simp [heq])

/-- How a sequence without brackets ends: at the first operator that finds too few values, with
a number of values other than one, or with its value. -/
inductive Verdict (tokens : List (Token α)) : Except Fault α → Prop where
  | starved {front back : List (Token α)} {o : Operator} {present : Nat}
      (hsplit : tokens = front ++ .operator o :: back) (hfed : ¬ Starved front)
      (hpresent : (present : Int) = height front) (hmissing : present < o.arity.count) :
      Verdict tokens (.error (.missingOperands o present))
  | leftover {count : Nat} (hfed : ¬ Starved tokens) (hcount : (count : Int) = height tokens)
      (hne : count ≠ 1) : Verdict tokens (.error (.leftover count))
  | value {x : α} (hfed : ¬ Starved tokens) (hone : height tokens = 1) : Verdict tokens (.ok x)

theorem verdict_evaluate (A : Arithmetic α) {tokens : List (Token α)}
    (hbracket : ∀ o, .operator o ∈ tokens → o.isBracket = false) :
    Verdict tokens (evaluate A tokens) := by
  have hran := ran_run A hbracket
  rw [evaluate]
  generalize run A tokens = outcome at hran ⊢
  cases hran with
  | starved hsplit hfed hpresent hmissing => exact .starved hsplit hfed hpresent hmissing
  | @fed stack hfed hheight =>
    change Verdict tokens (single stack)
    by_cases hone : stack.length = 1
    · obtain ⟨x, rfl⟩ := List.length_eq_one_iff.mp hone
      exact .value hfed hheight.symm
    · have hleftover : single stack = .error (.leftover stack.length) := by
        rw [single]
        rintro x rfl
        exact hone rfl
      rw [hleftover]
      exact .leftover hfed hheight hone

end Rpn

end Reckon
