import Mathlib.Data.List.Induction
import Reckon.Expr
import Reckon.Proofs.Rpn.Height

/-!
# The trees of postfix sequences

Where operations build trees instead of numbers, a postfix sequence evaluates to a tree, and the
value under any arithmetic is the value of this tree. The sequence is the postorder of the tree,
so exactly the postorders of trees have a value, and none is the postorder of two. Any other
sequence stops at the first bracket or at the first operator that the height before it cannot
feed, or comes to a height other than one.
-/

namespace Reckon

variable {α β γ : Type}

def Token.map (f : α → β) : Token α → Token β
  | .value x => .value (f x)
  | .operator o => .operator o

theorem Token.map_id : Token.map (id : α → α) = id := by
  funext token
  cases token <;> rfl

theorem Token.map_map (g : β → γ) (f : α → β) (tokens : List (Token α)) :
    (tokens.map (Token.map f)).map (Token.map g) = tokens.map (Token.map (g ∘ f)) := by
  rw [List.map_map]
  congr 1
  funext token
  cases token <;> rfl

/-- A map that carries the operations of one arithmetic over to another one. -/
structure Arithmetic.Hom (A : Arithmetic α) (B : Arithmetic β) (f : α → β) : Prop where
  neg (x : α) : f (A.neg x) = B.neg (f x)
  binary (o : BinaryOperator) (x y : α) : f (A.binary o x y) = B.binary o (f x) (f y)

/-- An operator is a bracket, the negation or a binary operator. -/
theorem Operator.forms (o : Operator) :
    o.isBracket = true ∨ o = .negate ∨ ∃ b : BinaryOperator, o = b.toOperator := by
  cases o with
  | openBracket | closeBracket => exact .inl rfl
  | negate => exact .inr (.inl rfl)
  | plus => exact .inr (.inr ⟨.plus, rfl⟩)
  | minus => exact .inr (.inr ⟨.minus, rfl⟩)
  | times => exact .inr (.inr ⟨.times, rfl⟩)
  | divide => exact .inr (.inr ⟨.divide, rfl⟩)
  | power => exact .inr (.inr ⟨.power, rfl⟩)
  | remainder => exact .inr (.inr ⟨.remainder, rfl⟩)

namespace Expr

def map (f : α → β) : Expr α → Expr β
  | value x => value (f x)
  | negate e => negate (e.map f)
  | binary o left right => binary o (left.map f) (right.map f)

/-- The arithmetic whose operations build trees. -/
def arithmetic (α : Type) : Arithmetic (Expr α) where
  add := binary .plus
  sub := binary .minus
  mul := binary .times
  div := binary .divide
  pow := binary .power
  mod := binary .remainder
  neg := negate

theorem binary_arithmetic (o : BinaryOperator) : (arithmetic α).binary o = binary o := by
  cases o <;> rfl

theorem postorder_map (f : α → β) (e : Expr α) :
    (e.map f).postorder = e.postorder.map (Token.map f) := by
  induction e with
  | value x => rfl
  | negate e ih => simp [map, postorder, ih, Token.map]
  | binary o left right ihl ihr => simp [map, postorder, ihl, ihr, Token.map]

theorem hom_eval (A : Arithmetic α) : (arithmetic α).Hom A (eval A) where
  neg _ := rfl
  binary o left right := by rw [binary_arithmetic, eval]

theorem hom_map (f : α → β) : (arithmetic α).Hom (arithmetic β) (map f) where
  neg _ := rfl
  binary o left right := by rw [binary_arithmetic, binary_arithmetic, map]

/-- A tree of leaves builds itself. -/
theorem eval_arithmetic (e : Expr α) : (e.map value).eval (arithmetic α) = e := by
  induction e with
  | value x => rfl
  | negate e ih => exact congrArg negate ih
  | binary o left right ihl ihr => rw [map, eval, binary_arithmetic, ihl, ihr]

end Expr

namespace Rpn

section Steps

variable (A : Arithmetic α)

theorem step_bracket {o : Operator} (h : o.isBracket = true) (stack : List α) :
    step A stack (.operator o) = .error (.notAFunction o) := by
  cases o <;> first | rfl | cases h

theorem step_negate (x : α) (rest : List α) :
    step A (x :: rest) (.operator .negate) = .ok (A.neg x :: rest) :=
  rfl

theorem step_binary (o : BinaryOperator) (x y : α) (rest : List α) :
    step A (y :: x :: rest) (.operator o.toOperator) = .ok (A.binary o x y :: rest) := by
  cases o <;> rfl

/-- An operator finds too few operands, is a bracket, or finds its operands on the top. -/
theorem operands_cases (stack : List α) (o : Operator) :
    stack.length < o.arity.count ∨ o.isBracket = true ∨
      (∃ x rest, o = .negate ∧ stack = x :: rest) ∨
      ∃ (b : BinaryOperator) (x y : α) (rest : List α), o = b.toOperator ∧ stack = y :: x :: rest := by
  by_cases hshort : stack.length < o.arity.count
  · exact .inl hshort
  · have hlong := Nat.le_of_not_lt hshort
    rcases o.forms with hbracket | rfl | ⟨b, rfl⟩
    · exact .inr (.inl hbracket)
    · match stack, hlong with
      | x :: rest, _ => exact .inr (.inr (.inl ⟨x, rest, rfl, rfl⟩))
    · rw [b.arity_toOperator] at hlong
      match stack, hlong with
      | y :: x :: rest, _ => exact .inr (.inr (.inr ⟨b, x, y, rest, rfl, rfl⟩))

end Steps

section Maps

variable {A : Arithmetic α} {B : Arithmetic β} {f : α → β}

theorem step_map (h : A.Hom B f) (stack : List α) (token : Token α) :
    step B (stack.map f) (token.map f) = (step A stack token).map (List.map f) := by
  cases token with
  | value x => rfl
  | operator o =>
    change step B _ (.operator o) = _
    rcases operands_cases stack o with
      hshort | hbracket | ⟨x, rest, rfl, rfl⟩ | ⟨b, x, y, rest, rfl, rfl⟩
    · have hvalues : (stack.map f).length < o.arity.count := by rwa [List.length_map]
      rw [step_missing B hvalues, step_missing A hshort, List.length_map]
      rfl
    · rw [step_bracket B hbracket, step_bracket A hbracket]
      rfl
    · rw [step_negate, List.map_cons, step_negate, ← h.neg]
      rfl
    · rw [step_binary, List.map_cons, List.map_cons, step_binary, ← h.binary]
      rfl

theorem run_map (h : A.Hom B f) (tokens : List (Token α)) :
    run B (tokens.map (Token.map f)) = (run A tokens).map (List.map f) := by
  induction tokens using List.reverseRecOn with
  | nil => rfl
  | append_singleton tokens token ih =>
    rw [List.map_append, List.map_singleton, run_concat, run_concat, ih]
    cases run A tokens with
    | error fault => rfl
    | ok stack => exact step_map h stack token

/-- An evaluation commutes with any map between arithmetics. -/
theorem evaluate_map (h : A.Hom B f) (tokens : List (Token α)) :
    evaluate B (tokens.map (Token.map f)) = (evaluate A tokens).map f := by
  rw [evaluate, evaluate, run_map h]
  cases run A tokens with
  | error fault => rfl
  | ok stack =>
    rcases stack with _ | ⟨x, _ | ⟨y, rest⟩⟩
    · rfl
    · rfl
    · change Except.error (Fault.leftover (((x :: y :: rest).map f).length)) = _
      rw [List.length_map]
      rfl

end Maps

/-- The listings of the trees on a stack, one behind the other. -/
def listing (trees : List (Expr α)) : List (Token α) :=
  trees.reverse.flatMap Expr.postorder

theorem listing_cons (e : Expr α) (rest : List (Expr α)) :
    listing (e :: rest) = listing rest ++ e.postorder := by
  simp [listing]

/-- A step adds its token to the listings. -/
theorem listing_step {trees after : List (Expr α)} {token : Token α}
    (h : step (Expr.arithmetic α) trees (token.map Expr.value) = .ok after) :
    listing after = listing trees ++ [token] := by
  cases token with
  | value x =>
    cases h
    exact listing_cons _ trees
  | operator o =>
    change step _ trees (.operator o) = _ at h
    rcases operands_cases trees o with
      hshort | hbracket | ⟨e, rest, rfl, rfl⟩ | ⟨b, left, right, rest, rfl, rfl⟩
    · rw [step_missing _ hshort] at h
      cases h
    · rw [step_bracket _ hbracket] at h
      cases h
    · rw [step_negate] at h
      cases h
      simp only [listing_cons, Expr.arithmetic, Expr.postorder, List.append_assoc]
    · rw [step_binary, Expr.binary_arithmetic] at h
      cases h
      simp only [listing_cons, Expr.postorder, List.append_assoc]

section Decode

variable (A : Arithmetic α) {tokens : List (Token α)}

theorem listing_run {trees : List (Expr α)}
    (h : run (Expr.arithmetic α) (tokens.map (Token.map .value)) = .ok trees) :
    listing trees = tokens := by
  -- From the end, where each step of the run adds the listing of one token.
  induction tokens using List.reverseRecOn generalizing trees with
  | nil =>
    cases h
    rfl
  | append_singleton tokens token ih =>
    rw [List.map_append, List.map_singleton, run_concat] at h
    cases hfront : run (Expr.arithmetic α) (tokens.map (Token.map .value)) with
    | error fault =>
      rw [hfront] at h
      cases h
    | ok front =>
      rw [hfront] at h
      rw [listing_step h, ih hfront]

/-- The tree of a sequence: its value where operations build trees. -/
def decode (tokens : List (Token α)) : Except Fault (Expr α) :=
  evaluate (Expr.arithmetic α) (tokens.map (Token.map .value))

/-- Under any arithmetic, the value of a sequence is that of its tree. -/
theorem evaluate_eq_decode (tokens : List (Token α)) :
    evaluate A tokens = (decode tokens).map (Expr.eval A) := by
  have hleaf : Expr.eval A ∘ Expr.value = id := rfl
  rw [decode, ← evaluate_map (Expr.hom_eval A), Token.map_map, hleaf, Token.map_id, List.map_id]

/-- Other operands make the same tree with other leaves. -/
theorem decode_map (f : α → β) (tokens : List (Token α)) :
    decode (tokens.map (Token.map f)) = (decode tokens).map (Expr.map f) := by
  have hleaf : Expr.map f ∘ Expr.value = Expr.value ∘ f := rfl
  rw [decode, decode, ← evaluate_map (Expr.hom_map f), Token.map_map, Token.map_map, hleaf]

theorem decode_postorder (e : Expr α) : decode e.postorder = .ok e := by
  rw [decode, ← Expr.postorder_map, Expr.evaluate_postorder, Expr.eval_arithmetic]

/-- The sequences of a tree are the one in postorder. -/
theorem decode_eq_ok_iff {e : Expr α} : decode tokens = .ok e ↔ e.postorder = tokens := by
  constructor
  · intro h
    rw [decode, evaluate] at h
    cases hrun : run (Expr.arithmetic α) (tokens.map (Token.map .value)) with
    | error fault =>
      rw [hrun] at h
      cases h
    | ok trees =>
      rw [hrun] at h
      have hlisting := listing_run hrun
      rcases trees with _ | ⟨found, _ | ⟨next, rest⟩⟩ <;> cases h
      simpa [listing] using hlisting
  · rintro rfl
    exact decode_postorder e

theorem postorder_injective : Function.Injective (Expr.postorder (α := α)) := by
  intro e e' h
  have hdecode := decode_postorder e
  rw [h, decode_postorder] at hdecode
  exact (Except.ok.inj hdecode).symm

theorem evaluate_eq_ok_iff {x : α} :
    evaluate A tokens = .ok x ↔ ∃ e : Expr α, e.postorder = tokens ∧ e.eval A = x := by
  rw [evaluate_eq_decode]
  simp only [← decode_eq_ok_iff]
  cases decode tokens with
  | error fault => simp [Except.map]
  | ok e => simp [Except.map]

end Decode

/-! ## Which token is to blame -/

section Blame

variable (A : Arithmetic α) {tokens front back : List (Token α)} {o : Operator}

/-- An operator that cannot act behind a front: it is a bracket, or finds too few values. -/
def Stuck (front : List (Token α)) (o : Operator) : Prop :=
  o.isBracket = true ∨ height front < o.arity.count

/-- No operator of a sequence is stuck. -/
def Flows (tokens : List (Token α)) : Prop :=
  ∀ front o back, tokens = front ++ .operator o :: back → ¬ Stuck front o

/-- The fault of an operator that is stuck where so many values are present. -/
def blame (o : Operator) (present : Nat) : Fault :=
  if o.isBracket then .notAFunction o else .missingOperands o present

theorem kind_blame (o : Operator) (present : Nat) : (blame o present).kind = .arity := by
  rw [blame]
  split <;> rfl

theorem flows_nil : Flows ([] : List (Token α)) := by
  intro front o back heq
  cases front <;> cases heq

theorem Flows.concat {token : Token α} (h : Flows tokens)
    (hlast : ∀ o, token = .operator o → ¬ Stuck tokens o) : Flows (tokens ++ [token]) := by
  intro front o back heq
  rcases List.eq_nil_or_concat back with rfl | ⟨back, last, rfl⟩
  · obtain ⟨rfl, htoken⟩ := List.append_inj' heq rfl
    exact hlast o (List.cons_eq_cons.mp htoken).1
  · rw [List.concat_eq_append, ← List.cons_append, ← List.append_assoc] at heq
    exact h front o back (List.append_inj' heq rfl).1

/-- A sequence flows, or some operator of it is the first to be stuck. -/
theorem flows_or_stuck (tokens : List (Token α)) :
    Flows tokens ∨ ∃ front o back, tokens = front ++ .operator o :: back ∧
      Flows front ∧ Stuck front o := by
  -- From the end: the first operator that is stuck stays the first, whatever token follows.
  induction tokens using List.reverseRecOn with
  | nil => exact .inl flows_nil
  | append_singleton tokens token ih =>
    rcases ih with hflows | ⟨front, o, back, rfl, hflows, hstuck⟩
    · by_cases hlast : ∀ o, token = .operator o → ¬ Stuck tokens o
      · exact .inl (hflows.concat hlast)
      · push Not at hlast
        obtain ⟨o, rfl, hstuck⟩ := hlast
        exact .inr ⟨tokens, o, [], rfl, hflows, hstuck⟩
    · exact .inr ⟨front, o, back ++ [token], by simp, hflows, hstuck⟩

theorem Flows.isBracket_eq_false (h : Flows tokens) {o : Operator} (ho : .operator o ∈ tokens) :
    o.isBracket = false := by
  obtain ⟨front, back, heq⟩ := List.append_of_mem ho
  exact Bool.eq_false_iff.mpr fun hbracket ↦ h front o back heq (.inl hbracket)

/-- A sequence that flows leaves a stack of its height. -/
theorem Flows.exists_run (h : Flows tokens) :
    ∃ stack, run A tokens = .ok stack ∧ (stack.length : Int) = height tokens := by
  have hran := ran_run A fun _ ↦ h.isBracket_eq_false
  generalize run A tokens = outcome at hran ⊢
  cases hran with
  | @starved front back o present hsplit hfed hpresent hmissing =>
    exact absurd (.inr (by omega)) (h front o back hsplit)
  | fed hfed hheight => exact ⟨_, rfl, hheight⟩

theorem step_stuck {stack : List α} (hheight : (stack.length : Int) = height front)
    (h : Stuck front o) : step A stack (.operator o) = .error (blame o stack.length) := by
  cases hbracket : o.isBracket with
  | true => rw [step_bracket A hbracket, blame, if_pos hbracket]
  | false =>
    have hmissing : stack.length < o.arity.count := by
      rcases h with htrue | hlt
      · cases htrue.symm.trans hbracket
      · omega
    rw [step_missing A hmissing, blame, hbracket, if_neg Bool.false_ne_true]

theorem evaluate_stuck (hflows : Flows front) (hstuck : Stuck front o) (back : List (Token α)) :
    ∃ present : Nat, (present : Int) = height front ∧
      evaluate A (front ++ .operator o :: back) = .error (blame o present) := by
  obtain ⟨stack, hrun, hheight⟩ := hflows.exists_run A
  refine ⟨stack.length, hheight, ?_⟩
  have hall : run A (front ++ .operator o :: back) = .error (blame o stack.length) := by
    rw [run] at hrun
    rw [run, List.foldlM_append, hrun]
    change (step A stack (.operator o) >>= _) = _
    rw [step_stuck A hheight hstuck]
    rfl
  rw [evaluate, hall]
  rfl

/-- How a sequence ends: at the first operator that is stuck, with a number of values other than
one, or with its value. -/
inductive Judged (tokens : List (Token α)) : Except Fault α → Prop where
  | stuck {front back : List (Token α)} {o : Operator} {present : Nat}
      (hsplit : tokens = front ++ .operator o :: back) (hflows : Flows front)
      (hstuck : Stuck front o) (hpresent : (present : Int) = height front) :
      Judged tokens (.error (blame o present))
  | leftover {count : Nat} (hflows : Flows tokens) (hcount : (count : Int) = height tokens)
      (hne : count ≠ 1) : Judged tokens (.error (.leftover count))
  | value {x : α} (hflows : Flows tokens) (hone : height tokens = 1) : Judged tokens (.ok x)

theorem judged_evaluate (tokens : List (Token α)) : Judged tokens (evaluate A tokens) := by
  rcases flows_or_stuck tokens with hflows | ⟨front, o, back, rfl, hflows, hstuck⟩
  · have hverdict := verdict_evaluate A fun _ ↦ hflows.isBracket_eq_false
    generalize evaluate A tokens = outcome at hverdict ⊢
    cases hverdict with
    | @starved front back o present hsplit hfed hpresent hmissing =>
      exact absurd (.inr (by omega)) (hflows front o back hsplit)
    | leftover hfed hcount hne => exact .leftover hflows hcount hne
    | value hfed hone => exact .value hflows hone
  · obtain ⟨present, hpresent, herror⟩ := evaluate_stuck A hflows hstuck back
    rw [herror]
    exact .stuck rfl hflows hstuck hpresent

theorem evaluate_arity_iff {fault : Fault} :
    evaluate A tokens = .error fault ∧ fault.kind = .arity ↔
      ∃ front o back, ∃ present : Nat, tokens = front ++ .operator o :: back ∧ Flows front ∧
        Stuck front o ∧ (present : Int) = height front ∧ fault = blame o present := by
  constructor
  · rintro ⟨hfault, hkind⟩
    have hjudged := judged_evaluate A tokens
    rw [hfault] at hjudged
    cases hjudged with
    | stuck hsplit hflows hstuck hpresent =>
      exact ⟨_, _, _, _, hsplit, hflows, hstuck, hpresent, rfl⟩
    | leftover => cases hkind
  · rintro ⟨front, o, back, present, rfl, hflows, hstuck, hpresent, rfl⟩
    obtain ⟨height, hheight, herror⟩ := evaluate_stuck A hflows hstuck back
    obtain rfl : present = height := by omega
    exact ⟨herror, kind_blame o present⟩

theorem evaluate_leftover_iff {fault : Fault} :
    evaluate A tokens = .error fault ∧ fault.kind ≠ .arity ↔
      ∃ count : Nat, Flows tokens ∧ (count : Int) = height tokens ∧ count ≠ 1 ∧
        fault = .leftover count := by
  have hjudged := judged_evaluate A tokens
  constructor
  · rintro ⟨hfault, hkind⟩
    rw [hfault] at hjudged
    cases hjudged with
    | stuck => exact absurd (kind_blame _ _) hkind
    | leftover hflows hcount hne => exact ⟨_, hflows, hcount, hne, rfl⟩
  · rintro ⟨count, hflows, hcount, hne, rfl⟩
    generalize evaluate A tokens = outcome at hjudged ⊢
    cases hjudged with
    | stuck hsplit _ hstuck _ => exact absurd hstuck (hflows _ _ _ hsplit)
    | @leftover found _ hfound _ =>
      obtain rfl : count = found := by omega
      exact ⟨rfl, nofun⟩
    | value _ hone => exact absurd (by omega) hne

theorem exists_evaluate_iff :
    (∃ x, evaluate A tokens = .ok x) ↔ Flows tokens ∧ height tokens = 1 := by
  have hjudged := judged_evaluate A tokens
  constructor
  · rintro ⟨x, hvalue⟩
    rw [hvalue] at hjudged
    cases hjudged with
    | value hflows hone => exact ⟨hflows, hone⟩
  · rintro ⟨hflows, hone⟩
    generalize evaluate A tokens = outcome at hjudged ⊢
    cases hjudged with
    | stuck hsplit _ hstuck _ => exact absurd hstuck (hflows _ _ _ hsplit)
    | leftover _ hcount hne => exact absurd (by omega) hne
    | value => exact ⟨_, rfl⟩

/-- How the faults of an evaluation are worded. -/
theorem report_blame (o : Operator) (present : Nat) :
    (blame o present).report =
      if o.isBracket then s!"ArityError: Unexpected function: {o.name}"
      else s!"ArityError: Insufficient operands for {o.name}: need {o.arity.count}, have {present}" := by
  rw [blame]
  split <;> rfl

/-- A sequence has a value exactly if it is the postorder of a tree, which is then the only one and
gives the value. Otherwise the first operator that is stuck is to blame, or if there is none the
height of the sequence. -/
theorem evaluate_decodes_or_blames (A : Arithmetic α) (tokens : List (Token α)) :
    (∀ fault, evaluate A tokens = .error fault ∧ fault.kind = .arity ↔
        ∃ front o back, ∃ present : Nat, tokens = front ++ .operator o :: back ∧ Flows front ∧
          Stuck front o ∧ (present : Int) = height front ∧ fault = blame o present) ∧
      (∀ fault, evaluate A tokens = .error fault ∧ fault.kind ≠ .arity ↔
        ∃ count : Nat, Flows tokens ∧ (count : Int) = height tokens ∧ count ≠ 1 ∧
          fault = .leftover count) ∧
      ((∃ x, evaluate A tokens = .ok x) ↔ Flows tokens ∧ height tokens = 1) ∧
      (∀ x, evaluate A tokens = .ok x ↔ ∃ e : Expr α, e.postorder = tokens ∧ e.eval A = x) ∧
      (∀ e e' : Expr α, e.postorder = tokens → e'.postorder = tokens → e = e') ∧
      (∀ o present, (blame o present).report =
        if o.isBracket then s!"ArityError: Unexpected function: {o.name}"
        else s!"ArityError: Insufficient operands for {o.name}: need {o.arity.count}, have {present}") ∧
      ∀ count, (Fault.leftover count).report =
        s!"InternalConsistencyError: Stack has {count} elements after evaluation, expected 1" := by
  refine ⟨fun fault ↦ evaluate_arity_iff A, fun fault ↦ evaluate_leftover_iff A,
    exists_evaluate_iff A, fun x ↦ evaluate_eq_ok_iff A, fun e e' he he' ↦ ?_, report_blame,
    fun count ↦ rfl⟩
  exact postorder_injective (he.trans he'.symm)

end Blame

end Rpn

end Reckon
