import Reckon.Proofs.Grammar.Parsing
import Reckon.Proofs.Rpn.Waiting

/-!
# Where the two readings part

The readings differ in what an operator does that arrives right above an equal one: it waits, or it
sends that one off first. An operator still waits only if nothing looser has come directly behind
it in its group. So without two equal operators of one group and nothing looser directly between
them both readings take the same steps, whether or not the tokens make sense. Where every operation
has brackets of its own, both find the same order.
-/

namespace Reckon

/-- Binary operators of equal priority, powers apart. -/
def Operator.Rivals (o o' : Operator) : Prop :=
  ∃ equals ∈ [[plus, minus], [times, divide], [remainder]], o ∈ equals ∧ o' ∈ equals

instance (o o' : Operator) : Decidable (o.Rivals o') :=
  inferInstanceAs (Decidable (∃ equals ∈ _, _))

theorem Operator.rivals_iff {o o' : Operator} :
    o.Rivals o' ↔ o.priority = o'.priority ∧ o'.isBracket = false ∧
      o'.rightAssociative = false := by
  cases o <;> cases o' <;> decide

/-- Some of the operators that follow in a group is a rival, and none before it is looser. -/
def Operator.MeetsRival (o : Operator) (following : List Operator) : Prop :=
  ∃ between o' behind, following = between ++ o' :: behind ∧ o.Rivals o' ∧
    ∀ p ∈ between, o.priority ≤ p.priority

theorem Operator.not_meetsRival_nil (o : Operator) : ¬ o.MeetsRival [] := by
  rintro ⟨between, o', behind, hsplit, _⟩
  exact List.append_ne_nil_of_right_ne_nil between (List.cons_ne_nil o' behind) hsplit.symm

theorem Operator.meetsRival_cons_iff {o p : Operator} {following : List Operator} :
    o.MeetsRival (p :: following) ↔
      o.Rivals p ∨ o.priority ≤ p.priority ∧ o.MeetsRival following := by
  constructor
  · rintro ⟨between, o', behind, hsplit, hrivals, htighter⟩
    rcases List.cons_eq_append_iff.mp hsplit with ⟨rfl, hlast⟩ | ⟨rest, rfl, hrest⟩
    · obtain ⟨rfl, _⟩ := List.cons_eq_cons.mp hlast
      exact .inl hrivals
    · obtain ⟨hp, hothers⟩ := List.forall_mem_cons.mp htighter
      exact .inr ⟨hp, rest, o', behind, hrest, hrivals, hothers⟩
  · rintro (hrivals | ⟨hp, between, o', behind, rfl, hrivals, htighter⟩)
    · exact ⟨[], p, following, rfl, hrivals, fun q hq ↦ absurd hq List.not_mem_nil⟩
    · exact ⟨p :: between, o', behind, rfl, hrivals, List.forall_mem_cons.mpr ⟨hp, htighter⟩⟩

instance Operator.decidableMeetsRival (o : Operator) :
    (following : List Operator) → Decidable (o.MeetsRival following)
  | [] => .isFalse o.not_meetsRival_nil
  | _ :: following =>
    have := o.decidableMeetsRival following
    decidable_of_iff _ meetsRival_cons_iff.symm

namespace Token

variable {α : Type}

/-- The operators that stand directly in the group in which tokens start, as far as it goes, if so
many brackets are open. -/
def directly : Nat → List (Token α) → List Operator
  | _, [] => []
  | depth, .value _ :: rest => directly depth rest
  | depth, .operator .openBracket :: rest => directly (depth + 1) rest
  | 0, .operator .closeBracket :: _ => []
  | depth + 1, .operator .closeBracket :: rest => directly depth rest
  | 0, .operator o :: rest => o :: directly 0 rest
  | depth + 1, .operator _ :: rest => directly (depth + 1) rest

theorem brackets_operator {o : Operator} (h : o.isBracket = false) (rest : List (Token α)) :
    brackets (.operator o :: rest) = brackets rest := by
  cases o <;> first | rfl | cases h

theorem directly_operator_zero {o : Operator} (h : o.isBracket = false) (rest : List (Token α)) :
    directly 0 (.operator o :: rest) = o :: directly 0 rest := by
  cases o <;> first | rfl | cases h

theorem directly_operator_succ {o : Operator} (h : o.isBracket = false) (depth : Nat)
    (rest : List (Token α)) :
    directly (depth + 1) (.operator o :: rest) = directly (depth + 1) rest := by
  cases o <;> first | rfl | cases h

/-- Behind tokens the group goes on at the depth that they leave. -/
theorem directly_append {depth after : Nat} {front : List (Token α)}
    (h : Bracket.scan depth (brackets front) = some after) (back : List (Token α)) :
    directly depth (front ++ back) = directly depth front ++ directly after back := by
  induction front generalizing depth with
  | nil =>
    cases h
    rfl
  | cons token rest ih =>
    cases token with
    | value x => exact ih h
    | operator o =>
      cases hbracket : o.isBracket with
      | false =>
        rw [brackets_operator hbracket] at h
        rw [List.cons_append]
        cases depth with
        | zero =>
          rw [directly_operator_zero hbracket, directly_operator_zero hbracket, ih h,
            List.cons_append]
        | succ depth =>
          rw [directly_operator_succ hbracket, directly_operator_succ hbracket, ih h]
      | true =>
        cases o with
        | openBracket => exact ih h
        | closeBracket =>
          cases depth with
          | zero => cases h
          | succ depth => exact ih h
        | _ => cases hbracket

theorem mem_directly_singleton {depth : Nat} {o p : Operator}
    (h : p ∈ directly depth [(.operator o : Token α)]) :
    p = o ∧ o.isBracket = false ∧ depth = 0 := by
  cases hbracket : o.isBracket with
  | false =>
    cases depth with
    | zero =>
      rw [directly_operator_zero hbracket] at h
      exact ⟨List.mem_singleton.mp h, rfl, rfl⟩
    | succ depth =>
      rw [directly_operator_succ hbracket] at h
      exact absurd h List.not_mem_nil
  | true =>
    cases o with
    | openBracket => exact absurd h List.not_mem_nil
    | closeBracket => cases depth <;> exact absurd h List.not_mem_nil
    | _ => cases hbracket

theorem mem_of_mem_directly {depth : Nat} {o : Operator} {tokens : List (Token α)}
    (h : o ∈ directly depth tokens) : .operator o ∈ tokens := by
  fun_induction directly depth tokens with
  | case1 | case4 => exact absurd h List.not_mem_nil
  | case6 _ rest _ _ ih =>
    rcases List.mem_cons.mp h with rfl | hrest
    · exact List.mem_cons_self
    · exact List.mem_cons_of_mem _ (ih hrest)
  | case2 _ _ _ ih | case3 _ _ ih | case5 _ _ ih | case7 _ _ _ _ _ ih =>
    exact List.mem_cons_of_mem _ (ih h)

/-- An operator that comes to wait opens a group or leaves the depth as it is. -/
theorem scan_push {o : Operator} (ho : o ≠ .closeBracket) (waiting : List Operator) :
    Bracket.scan (waiting.count .openBracket) (brackets [(.operator o : Token α)]) =
      some ((o :: waiting).count .openBracket) := by
  cases o with
  | openBracket =>
    rw [List.count_cons_self]
    rfl
  | closeBracket => exact absurd rfl ho
  | _ =>
    rw [List.count_cons_of_ne (by decide)]
    rfl

end Token

namespace Rpn

open Yard

variable {α : Type}

/-- Some operator has a rival behind it in its group, and nothing looser stands directly between
the two. -/
def Compete (tokens : List (Token α)) : Prop :=
  ∃ o rest, .operator o :: rest <:+ tokens ∧ o.MeetsRival (Token.directly 0 rest)

theorem not_compete_nil : ¬ Compete ([] : List (Token α)) := by
  rintro ⟨o, rest, hsuffix, _⟩
  exact List.cons_ne_nil _ _ (List.suffix_nil.mp hsuffix)

theorem compete_value_iff {x : α} {rest : List (Token α)} :
    Compete (.value x :: rest) ↔ Compete rest := by
  simp only [Compete, List.suffix_cons_iff, List.cons.injEq, reduceCtorEq, false_and, false_or]

theorem compete_operator_iff {o : Operator} {rest : List (Token α)} :
    Compete (.operator o :: rest) ↔ o.MeetsRival (Token.directly 0 rest) ∨ Compete rest := by
  simp only [Compete, List.suffix_cons_iff, List.cons.injEq, Token.operator.injEq]
  constructor
  · rintro ⟨o', rest', ⟨rfl, rfl⟩ | hsuffix, hmeets⟩
    · exact .inl hmeets
    · exact .inr ⟨o', rest', hsuffix, hmeets⟩
  · rintro (hmeets | ⟨o', rest', hsuffix, hmeets⟩)
    · exact ⟨o, rest, .inl ⟨rfl, rfl⟩, hmeets⟩
    · exact ⟨o', rest', .inr hsuffix, hmeets⟩

instance decidableCompete : (tokens : List (Token α)) → Decidable (Compete tokens)
  | [] => .isFalse not_compete_nil
  | .value _ :: rest =>
    have := decidableCompete rest
    decidable_of_iff _ compete_value_iff.symm
  | .operator _ :: rest =>
    have := decidableCompete rest
    decidable_of_iff _ compete_operator_iff.symm

/-- What an operator that waits has seen since: as many brackets left open as wait above it, and
nothing looser directly in its group. -/
structure Outlasts (o : Operator) (above : List Operator) (since : List (Token α)) : Prop where
  depth : Bracket.scan 0 (Token.brackets since) = some (above.count .openBracket)
  tighter : ∀ p ∈ Token.directly 0 since, o.priority ≤ p.priority

/-- Every operator that waits is one of the tokens and has outlasted all behind it. -/
def Remembers (tokens : List (Token α)) (waiting : List Operator) : Prop :=
  ∀ above o below, waiting = above ++ o :: below → o ≠ .openBracket →
    ∃ before since, tokens = before ++ .operator o :: since ∧ Outlasts o above since

section Steps

variable {leftAssociative : Bool} {yard after : Yard α} {tokens : List (Token α)}

theorem Outlasts.concat {o : Operator} {above above' : List Operator} {since : List (Token α)}
    {token : Token α} (h : Outlasts o above since)
    (hdepth : Bracket.scan (above.count .openBracket) (Token.brackets [token]) =
      some (above'.count .openBracket))
    (htighter : ∀ p ∈ Token.directly (above.count .openBracket) [token],
      o.priority ≤ p.priority) : Outlasts o above' (since ++ [token]) where
  depth := by
    rw [Token.brackets_append, Bracket.scan_append, h.depth]
    exact hdepth
  tighter := by
    rw [Token.directly_append h.depth]
    exact List.forall_mem_append.mpr ⟨h.tighter, htighter⟩

theorem remembers_value (h : Remembers tokens yard.waiting) (x : α) :
    Remembers (tokens ++ [.value x]) yard.waiting := by
  intro above o below hwaiting ho
  obtain ⟨before, since, rfl, houtlasts⟩ := h above o below hwaiting ho
  refine ⟨before, since ++ [.value x], by simp, houtlasts.concat rfl ?_⟩
  exact fun p hp ↦ absurd hp List.not_mem_nil

/-- A group that is closed uncovers what waited below it. -/
theorem remembers_close {sent : List Operator} (h : Remembers tokens yard.waiting)
    (hsent : .openBracket ∉ sent)
    (hwaiting : yard.waiting = sent ++ .openBracket :: after.waiting) :
    Remembers (tokens ++ [.operator .closeBracket]) after.waiting := by
  intro above o below hafter ho
  have hcount : (sent ++ .openBracket :: above).count .openBracket =
      above.count .openBracket + 1 := by
    rw [List.count_append, List.count_eq_zero.mpr hsent, List.count_cons_self, Nat.zero_add]
  have hsplit : yard.waiting = (sent ++ .openBracket :: above) ++ o :: below := by
    rw [hwaiting, hafter, List.append_assoc, List.cons_append]
  obtain ⟨before, since, rfl, houtlasts⟩ := h _ o below hsplit ho
  refine ⟨before, since ++ [.operator .closeBracket], by simp, houtlasts.concat ?_ ?_⟩
  · rw [hcount]
    rfl
  · rw [hcount]
    exact fun p hp ↦ absurd hp List.not_mem_nil

/-- What still waits when an operator has come to wait has outlasted it, too. -/
theorem remembers_push {sent : List Operator} {inner : Yard α} {o : Operator}
    (h : Remembers tokens yard.waiting) (hsent : .openBracket ∉ sent)
    (hwaiting : yard.waiting = sent ++ inner.waiting) (ho : o ≠ .closeBracket)
    (hascends : Ascends leftAssociative (inner.push o).waiting) :
    Remembers (tokens ++ [.operator o]) (inner.push o).waiting := by
  intro above q below hafter hq
  rcases List.cons_eq_append_iff.mp hafter with ⟨rfl, hlast⟩ | ⟨rest, rfl, hinner⟩
  · obtain ⟨rfl, _⟩ := List.cons_eq_cons.mp hlast
    exact ⟨tokens, [], rfl, rfl, fun p hp ↦ absurd hp List.not_mem_nil⟩
  · have hcount : (sent ++ rest).count .openBracket = rest.count .openBracket := by
      rw [List.count_append, List.count_eq_zero.mpr hsent, Nat.zero_add]
    have hsplit : yard.waiting = (sent ++ rest) ++ q :: below := by
      rw [hwaiting, hinner, List.append_assoc]
    obtain ⟨before, since, rfl, houtlasts⟩ := h _ q below hsplit hq
    refine ⟨before, since ++ [.operator o], by simp, houtlasts.concat ?_ fun p hp ↦ ?_⟩
    · rw [hcount]
      exact Token.scan_push ho rest
    · -- Directly behind `q` the operator waits in its group, so it did not send `q` off.
      obtain ⟨rfl, hbracket, hzero⟩ := Token.mem_directly_singleton hp
      have hopen : .openBracket ∉ p :: rest := by
        rw [hcount] at hzero
        rw [List.mem_cons, not_or]
        refine ⟨?_, List.count_eq_zero.mp hzero⟩
        rintro rfl
        cases hbracket
      exact Ascends.priority_le (hafter ▸ hascends) hopen p List.mem_cons_self

theorem remembers_step {token : Token α} (h : Remembers tokens yard.waiting)
    (hstep : Yard.step leftAssociative yard token = .ok after)
    (hascends : Ascends leftAssociative after.waiting) :
    Remembers (tokens ++ [token]) after.waiting := by
  cases token with
  | value x =>
    cases hstep
    exact remembers_value h x
  | operator o =>
    obtain ⟨inner, ⟨sent, hwaiting, hsent, _⟩, hrest⟩ := step_operator_cases hstep
    rcases hrest with ⟨rfl, rfl⟩ | ⟨ho, rfl⟩
    · exact remembers_close h hsent hwaiting
    · exact remembers_push h hsent hwaiting ho hascends

end Steps

/-! ## Both readings side by side -/

section Readings

variable {front rest : List (Token α)} {yard : Yard α}

/-- An operator may wait above what is not tighter and no rival, in both readings. -/
theorem admits_of_no_rival {leftAssociative : Bool} {o : Operator} {waiting : List Operator}
    (hle : ∀ top ∈ waiting.head?, top.priority ≤ o.priority)
    (h : ∀ top ∈ waiting.head?, ¬ top.Rivals o) (ho : o.isBracket = false) :
    Admits leftAssociative o.priority waiting := by
  intro top htop o' ho'
  rcases Nat.lt_or_eq_of_le (hle top htop) with hlt | heq
  · exact stays_of_lt (Nat.lt_of_lt_of_le hlt ho')
  · have hright : o.rightAssociative = true := by
      by_contra hleft
      exact h top htop (Operator.rivals_iff.mpr ⟨heq, ho, by simpa using hleft⟩)
    have htight : Admits leftAssociative top.priority (top :: waiting.tail) :=
      admits_cons_self (.inr ((Operator.rightAssociative_of_priority heq).trans hright)) _
    exact htight top rfl o' (heq ▸ ho')

/-- An operator arrives alike in both readings if no rival is left on top that could go first. -/
theorem arrive_eq_of_no_rival {o : Operator}
    (h : ∀ top ∈ (yard.sendWhile (sends false o)).waiting.head?, ¬ top.Rivals o)
    (ho : o.isBracket = false) : yard.arrive true o = yard.arrive false o := by
  obtain ⟨output, waiting⟩ := yard
  let sent := waiting.takeWhile (sends false o)
  let kept := waiting.dropWhile (sends false o)
  have hlooser : ∀ top ∈ sent, o.priority < top.priority := by
    intro top htop
    simpa [sends] using List.all_eq_true.mp List.all_takeWhile top htop
  have hkept : ∀ top ∈ kept.head?, top.priority ≤ o.priority := by
    intro top htop
    simpa [sends] using @eq_false_of_left _ ⟨output, waiting⟩ _ _ htop
  have harrive (leftAssociative : Bool) :
      arrive leftAssociative o (⟨output, sent ++ kept⟩ : Yard α) =
        ⟨(sent.map .operator).reverse ++ output, o :: kept⟩ :=
    arrive_above sent output (fun top htop ↦ yields_of_lt (hlooser top htop))
      (admits_of_no_rival hkept h ho)
  have hsplit : sent ++ kept = waiting := List.takeWhile_append_dropWhile
  rw [← hsplit, harrive true, harrive false]

/-- A rival on top competes with the operator that arrives. -/
theorem compete_of_rival {o top : Operator} (hremembers : Remembers front yard.waiting)
    (ho : o.isBracket = false)
    (htop : top ∈ (yard.sendWhile (sends false o)).waiting.head?) (hrivals : top.Rivals o) :
    Compete (front ++ .operator o :: rest) := by
  obtain ⟨sent, hsplit, hsent, _⟩ := yard.sendsOff_sendWhile (sends_openBracket false o)
  obtain ⟨below, hbelow⟩ := List.head?_eq_some_iff.mp htop
  rw [hbelow] at hsplit
  have hne : top ≠ .openBracket := by
    rintro rfl
    revert hrivals
    cases o <;> decide
  obtain ⟨before, since, rfl, houtlasts⟩ := hremembers _ top below hsplit hne
  have hdepth : Bracket.scan 0 (Token.brackets since) = some 0 := by
    rw [houtlasts.depth, List.count_eq_zero.mpr hsent]
  refine ⟨top, since ++ .operator o :: rest, ⟨before, by simp⟩, Token.directly 0 since, o,
    Token.directly 0 rest, ?_, hrivals, houtlasts.tighter⟩
  rw [Token.directly_append hdepth, Token.directly_operator_zero ho]

theorem step_eq_or_compete (hremembers : Remembers front yard.waiting) (token : Token α)
    (rest : List (Token α)) :
    Yard.step true yard token = Yard.step false yard token ∨ Compete (front ++ token :: rest) := by
  cases token with
  | value x => exact .inl rfl
  | operator o =>
    cases hbracket : o.isBracket with
    | true =>
      cases o with
      | openBracket | closeBracket => exact .inl rfl
      | _ => cases hbracket
    | false =>
      rw [step_arrive _ hbracket, step_arrive _ hbracket]
      by_cases hrival : ∃ top ∈ (yard.sendWhile (sends false o)).waiting.head?, top.Rivals o
      · obtain ⟨top, htop, hrivals⟩ := hrival
        exact .inr (compete_of_rival hremembers hbracket htop hrivals)
      · refine .inl (congrArg Except.ok (arrive_eq_of_no_rival (fun top htop hrivals ↦ ?_) hbracket))
        exact hrival ⟨top, htop, hrivals⟩

/-- Unless operators compete, both readings go on alike from a yard that they share. -/
theorem foldlM_eq_of_not_compete (hremembers : Remembers front yard.waiting)
    (hascends : Ascends false yard.waiting) (h : ¬ Compete (front ++ rest)) :
    rest.foldlM (Yard.step true) yard = rest.foldlM (Yard.step false) yard := by
  induction rest generalizing front yard with
  | nil => rfl
  | cons token rest ih =>
    have hstep := (step_eq_or_compete hremembers token rest).resolve_right h
    rw [List.foldlM_cons, List.foldlM_cons, hstep]
    cases hnext : Yard.step false yard token with
    | error fault => rfl
    | ok next =>
      have hafter := ascends_step hascends hnext
      have hrest : ¬ Compete ((front ++ [token]) ++ rest) := by
        rwa [List.append_assoc, List.singleton_append]
      exact ih (remembers_step hremembers hnext hafter) hafter hrest

theorem ofInfix_eq_of_not_compete {tokens : List (Token α)} (h : ¬ Compete tokens) :
    ofInfix true tokens = ofInfix false tokens := by
  have hempty : Remembers ([] : List (Token α)) (empty : Yard α).waiting := by
    intro above o below hwaiting
    exact absurd hwaiting.symm (List.append_ne_nil_of_right_ne_nil above (List.cons_ne_nil o below))
  have hrun : Yard.run true tokens = Yard.run false tokens :=
    foldlM_eq_of_not_compete hempty ascends_empty h
  rw [ofInfix, ofInfix, hrun]

end Readings

/-! ## Tokens without rivals -/

section Unrivalled

variable {tokens front back : List (Token α)}

/-- Powers and negations have no rivals. -/
theorem not_compete_of_rightAssociative
    (h : ∀ o, .operator o ∈ tokens → o.isBracket = false → o.rightAssociative = true) :
    ¬ Compete tokens := by
  rintro ⟨o, rest, hsuffix, between, o', behind, hsplit, hrivals, _⟩
  obtain ⟨_, hbracket, hleft⟩ := Operator.rivals_iff.mp hrivals
  have hrest : .operator o' ∈ rest := by
    apply Token.mem_of_mem_directly
    rw [hsplit]
    exact List.mem_append_right between List.mem_cons_self
  have hright := h o' (hsuffix.mem (List.mem_cons_of_mem _ hrest)) hbracket
  rw [hleft] at hright
  cases hright

mutual

/-- An operand all of whose operations have brackets of their own. -/
inductive Enclosed : List (Token α) → Prop where
  | value (x : α) : Enclosed [.value x]
  | negate {tokens : List (Token α)} (h : Enclosed tokens) :
      Enclosed (.operator .negate :: tokens)
  | group {tokens : List (Token α)} (h : FullyBracketed tokens) : Enclosed (bracketed tokens)

/-- Such an operand, or one operation on two of them. -/
inductive FullyBracketed : List (Token α) → Prop where
  | operand {tokens : List (Token α)} (h : Enclosed tokens) : FullyBracketed tokens
  | operation {front back : List (Token α)} (o : BinaryOperator) (hfront : Enclosed front)
      (hback : Enclosed back) : FullyBracketed (front ++ .operator o.toOperator :: back)

end

/-- One operation binds looser than its operands, whichever way equal operators group. -/
theorem brings_operation {leftAssociative : Bool} (o : BinaryOperator)
    {leftOrder rightOrder : List (Token α)} (hfront : Brings leftAssociative 5 front leftOrder)
    (hback : Brings leftAssociative 5 back rightOrder) :
    Brings leftAssociative 1 (front ++ .operator o.toOperator :: back)
      (leftOrder ++ rightOrder ++ [.operator o.toOperator]) := by
  have hlt : o.toOperator.priority < 5 := Grammar.priority_lt_tightest o
  have hbinary := brings_binary o.toOperator_ne_openBracket o.toOperator_ne_closeBracket hfront
    hback (Nat.le_of_lt hlt) (Nat.le_of_lt hlt)
    (fun top htop ↦ yields_of_lt (Nat.lt_of_lt_of_le hlt htop)) (admits_cons_of_lt hlt)
  exact hbinary.loosen o.priority_pos

mutual

theorem Enclosed.exists_order {tokens : List (Token α)} : Enclosed tokens →
    ∃ order, ∀ leftAssociative, Brings leftAssociative 5 tokens order
  | .value x => ⟨[.value x], fun _ ↦ brings_value 5 x⟩
  | .negate h => by
    obtain ⟨order, horder⟩ := h.exists_order
    exact ⟨_, fun leftAssociative ↦ brings_negate (horder leftAssociative)⟩
  | .group h => by
    obtain ⟨order, horder⟩ := h.exists_order
    exact ⟨order, fun leftAssociative ↦ brings_group 5 (horder leftAssociative)⟩

theorem FullyBracketed.exists_order {tokens : List (Token α)} : FullyBracketed tokens →
    ∃ order, ∀ leftAssociative, Brings leftAssociative 1 tokens order
  | .operand h => by
    obtain ⟨order, horder⟩ := h.exists_order
    exact ⟨order, fun leftAssociative ↦ (horder leftAssociative).loosen (by decide)⟩
  | .operation o hfront hback => by
    obtain ⟨leftOrder, hleft⟩ := hfront.exists_order
    obtain ⟨rightOrder, hright⟩ := hback.exists_order
    exact ⟨_, fun leftAssociative ↦
      brings_operation o (hleft leftAssociative) (hright leftAssociative)⟩

end

/-- Both readings end alike, be it in an order or in a fault, unless equal operators compete. So
chains of powers and negations have one order if any, and fully bracketed tokens do have one. -/
theorem ofInfix_eq_unless_compete (tokens : List (Token α)) :
    (¬ Compete tokens → ofInfix true tokens = ofInfix false tokens) ∧
      ((∀ o, .operator o ∈ tokens → o.isBracket = false → o.rightAssociative = true) →
        ofInfix true tokens = ofInfix false tokens) ∧
      (FullyBracketed tokens →
        ∃ order, ∀ leftAssociative, ofInfix leftAssociative tokens = .ok order) := by
  refine ⟨ofInfix_eq_of_not_compete, fun hright ↦ ?_, fun hbracketed ↦ ?_⟩
  · exact ofInfix_eq_of_not_compete (not_compete_of_rightAssociative hright)
  · obtain ⟨order, horder⟩ := hbracketed.exists_order
    exact ⟨order, fun leftAssociative ↦ (horder leftAssociative).ofInfix Nat.one_pos⟩

/-- The tokens of `2*3+4*5`, whose products are kept apart by the sum. -/
def sumOfProducts : List (Token Nat) :=
  [.value 2, .operator .times, .value 3, .operator .plus, .value 4, .operator .times, .value 5]

/-- The tokens of `2^-3^4`. -/
def powers : List (Token Nat) :=
  [.value 2, .operator .power, .operator .negate, .value 3, .operator .power, .value 4]

/-- The tokens of `(2-3)-4`. -/
def differences : List (Token Nat) :=
  bracketed [.value 2, .operator .minus, .value 3] ++ [.operator .minus, .value 4]

theorem fullyBracketed_differences : FullyBracketed differences := by
  have hinner : FullyBracketed ([.value 2, .operator .minus, .value 3] : List (Token Nat)) :=
    .operation .minus (.value 2) (.value 3)
  exact .operation .minus (.group hinner) (.value 4)

theorem ofInfix_eq_unless_compete_instances :
    (¬ Compete sumOfProducts ∧ ofInfix true sumOfProducts = ofInfix false sumOfProducts) ∧
      ofInfix true powers = ofInfix false powers ∧
      FullyBracketed differences ∧
        ∃ order, ∀ leftAssociative, ofInfix leftAssociative differences = .ok order := by
  have hproducts : ¬ Compete sumOfProducts := by decide
  have hpowers : ∀ o, .operator o ∈ powers → o.isBracket = false → o.rightAssociative = true := by
    intro o
    cases o <;> decide
  exact ⟨⟨hproducts, (ofInfix_eq_unless_compete sumOfProducts).1 hproducts⟩,
    (ofInfix_eq_unless_compete powers).2.1 hpowers, fullyBracketed_differences,
    (ofInfix_eq_unless_compete differences).2.2 fullyBracketed_differences⟩

/-- The operators of `2-3+4` compete, and the readings part. -/
example :
    let tokens : List (Token Nat) :=
      [.value 2, .operator .minus, .value 3, .operator .plus, .value 4]
    Compete tokens ∧ ofInfix true tokens ≠ ofInfix false tokens := by
  decide

end Unrivalled

end Rpn

end Reckon
