import Mathlib.Data.List.Perm.Basic
import Reckon.Proofs.Rpn.Group

/-!
# What the postfix order does to the infix order

A value goes to the output as soon as it arrives, so all that is there before it has arrived
before it; only operators are held back. Each step of a yard sends off some of the operators
that wait: an operator can fall behind later values, but it never gets ahead of an earlier one.
Whether there is an order, and which bracket is to blame otherwise, is read off the brackets.
-/

open scoped List

namespace Reckon

namespace Token

variable {α : Type}

/-- The tokens that are no brackets, each with its place; the first place is given. -/
def placed (first : Nat) (tokens : List (Token α)) : List (Token α × Nat) :=
  (tokens.zipIdx first).filter fun entry ↦ entry.1.bracket?.isNone

theorem placed_cons (first : Nat) (token : Token α) (rest : List (Token α)) :
    placed first (token :: rest) = placed first [token] ++ placed (first + 1) rest :=
  List.filter_append [(token, first)] (rest.zipIdx (first + 1))

theorem placed_unbracketed {token : Token α} (h : token.bracket? = none) (place : Nat) :
    placed place [token] = [(token, place)] := by
  simp [placed, h]

theorem placed_bracket {token : Token α} {bracket : Bracket} (h : token.bracket? = some bracket)
    (place : Nat) : placed place [token] = [] := by
  simp [placed, h]

theorem lt_of_mem_placed {token : Token α} {place : Nat} {entry : Token α × Nat}
    (h : entry ∈ placed place [token]) : entry.2 < place + 1 := by
  obtain rfl := List.mem_singleton.mp (List.mem_filter.mp h).1
  exact Nat.lt_succ_self place

/-- What comes before a value stands at an earlier place than the value; so nothing that stands
behind a value comes before it. -/
def Forward (entries : List (Token α × Nat)) : Prop :=
  entries.Pairwise fun earlier later ↦ later.1.isValue = true → earlier.2 < later.2

theorem forward_append_operators {front back : List (Token α × Nat)} (h : Forward front)
    (hback : ∀ entry ∈ back, entry.1.isValue = false) : Forward (front ++ back) := by
  have hvacuous (earlier : Token α × Nat) {later : Token α × Nat} (hlater : later ∈ back) :
      later.1.isValue = true → earlier.2 < later.2 := by
    intro hvalue
    rw [hback later hlater] at hvalue
    cases hvalue
  refine List.pairwise_append.mpr ⟨h, ?_, fun earlier _ later hlater ↦ hvacuous earlier hlater⟩
  exact List.pairwise_of_forall_mem_list fun earlier _ later hlater ↦ hvacuous earlier hlater

theorem forward_concat {front : List (Token α × Nat)} (h : Forward front) (token : Token α)
    {place : Nat} (hplaces : ∀ entry ∈ front, entry.2 < place) :
    Forward (front ++ [(token, place)]) := by
  refine List.pairwise_append.mpr ⟨h, List.pairwise_singleton _ _, ?_⟩
  intro earlier hearlier later hlater _
  rw [List.mem_singleton.mp hlater]
  exact hplaces earlier hearlier

end Token

namespace Rpn

namespace Yard

variable {α : Type} {leftAssociative : Bool} {yard after : Yard α}

/-- Some of the latest operators that wait are sent to the output, none of them an open bracket. -/
def SendsOff (yard inner : Yard α) : Prop :=
  ∃ sent, yard.waiting = sent ++ inner.waiting ∧ .openBracket ∉ sent ∧
    inner.output.reverse = yard.output.reverse ++ sent.map .operator

theorem sendsOff_refl (yard : Yard α) : yard.SendsOff yard :=
  ⟨[], rfl, List.not_mem_nil, (List.append_nil _).symm⟩

theorem sendsOff_sendWhile (yard : Yard α) {test : Operator → Bool}
    (htest : test .openBracket = false) : yard.SendsOff (yard.sendWhile test) := by
  refine ⟨yard.waiting.takeWhile test, List.takeWhile_append_dropWhile.symm, fun hmem ↦ ?_, ?_⟩
  · have hsent := List.all_eq_true.mp List.all_takeWhile _ hmem
    rw [htest] at hsent
    cases hsent
  · rw [sendWhile, List.reverse_append, List.reverse_reverse]

/-- What is left on top failed the test. -/
theorem eq_false_of_left {test : Operator → Bool} {top : Operator}
    (h : top ∈ (yard.sendWhile test).waiting.head?) : test top = false := by
  have hleft := List.head?_dropWhile_not test yard.waiting
  rwa [show (yard.waiting.dropWhile test).head? = some top from h] at hleft

/-- A closing bracket takes the open bracket away that is met first. -/
theorem sendWhile_of_close (h : yard.close = .ok after) :
    yard.sendWhile (· ≠ .openBracket) = after.push .openBracket := by
  have hhead : ∀ top ∈ (yard.sendWhile (· ≠ .openBracket)).waiting.head?, top = .openBracket := by
    intro top htop
    simpa using eq_false_of_left htop
  unfold close at h
  generalize yard.sendWhile (· ≠ .openBracket) = inner at h hhead ⊢
  obtain ⟨output, waiting⟩ := inner
  cases waiting with
  | nil => cases h
  | cons top outer =>
    cases h
    obtain rfl := hhead top rfl
    rfl

theorem sendsOff_of_close (h : yard.close = .ok after) :
    yard.SendsOff (after.push .openBracket) := by
  rw [← sendWhile_of_close h]
  exact yard.sendsOff_sendWhile (by decide)

/-- An operator other than a closing bracket always comes to wait, and may send others off first. -/
theorem exists_sendsOff_step (leftAssociative : Bool) (yard : Yard α) {o : Operator}
    (ho : o ≠ .closeBracket) :
    ∃ inner, yard.SendsOff inner ∧ step leftAssociative yard (.operator o) = .ok (inner.push o) := by
  cases hbracket : o.isBracket with
  | false =>
    rw [step_arrive _ hbracket, arrive_eq]
    exact ⟨_, yard.sendsOff_sendWhile (sends_openBracket leftAssociative o), rfl⟩
  | true =>
    cases o with
    | openBracket => exact ⟨yard, yard.sendsOff_refl, rfl⟩
    | closeBracket => exact absurd rfl ho
    | _ => cases hbracket

/-- An operator that arrives sends off some of those that wait. Then it waits itself, or takes an
open bracket away. -/
theorem step_operator_cases {o : Operator}
    (h : step leftAssociative yard (.operator o) = .ok after) :
    ∃ inner, yard.SendsOff inner ∧
      (o = .closeBracket ∧ inner = after.push .openBracket ∨
        o ≠ .closeBracket ∧ after = inner.push o) := by
  by_cases ho : o = .closeBracket
  · subst ho
    exact ⟨_, sendsOff_of_close h, .inl ⟨rfl, rfl⟩⟩
  · obtain ⟨inner, hsends, hstep⟩ := exists_sendsOff_step leftAssociative yard ho
    cases hstep.symm.trans h
    exact ⟨inner, hsends, .inr ⟨ho, rfl⟩⟩

/-- The operators that wait, as tokens. -/
def held (yard : Yard α) : List (Token α) :=
  (yard.waiting.filter (· ≠ .openBracket)).map .operator

theorem held_of_closed (h : .openBracket ∉ yard.waiting) :
    yard.held = yard.waiting.map .operator := by
  rw [held, filter_ne_openBracket h]

theorem held_push {o : Operator} (h : o ≠ .openBracket) (yard : Yard α) :
    (yard.push o).held = .operator o :: yard.held := by
  rw [held, push, List.filter_cons_of_pos (by simpa using h)]
  rfl

/-- The tokens that arrived at their places were sent to the output or wait. -/
structure Traced (yard : Yard α) (arrived sent waiting : List (Token α × Nat)) : Prop where
  output : sent.map Prod.fst = yard.output.reverse
  held : waiting.map Prod.fst = yard.held
  perm : (sent ++ waiting).Perm arrived
  forward : Token.Forward sent

section Traced

variable {arrived sent waiting : List (Token α × Nat)} {place : Nat}

theorem isValue_of_held (h : waiting.map Prod.fst = yard.held) :
    ∀ entry ∈ waiting, entry.1.isValue = false := by
  intro entry hentry
  have hmem : entry.1 ∈ yard.held := h ▸ List.mem_map_of_mem hentry
  obtain ⟨o, _, ho⟩ := List.mem_map.mp hmem
  rw [← ho]
  rfl

theorem Traced.value (h : yard.Traced arrived sent waiting)
    (hplaces : ∀ entry ∈ arrived, entry.2 < place) (x : α) :
    Traced { yard with output := .value x :: yard.output } (arrived ++ [(.value x, place)])
      (sent ++ [(.value x, place)]) waiting where
  output := by
    rw [List.map_append, h.output]
    exact List.reverse_cons.symm
  held := h.held
  perm := by
    calc sent ++ [(.value x, place)] ++ waiting
      _ ~ sent ++ waiting ++ [(.value x, place)] := by
          rw [List.append_assoc, List.append_assoc]
          exact List.perm_append_comm.append_left sent
      _ ~ arrived ++ [(.value x, place)] := h.perm.append_right _
  forward := by
    refine Token.forward_concat h.forward _ fun entry hentry ↦ hplaces entry ?_
    exact h.perm.mem_iff.mp (List.mem_append_left _ hentry)

theorem Traced.sendOff {inner : Yard α} (h : yard.Traced arrived sent waiting)
    (hsends : yard.SendsOff inner) : ∃ sent' waiting', inner.Traced arrived sent' waiting' := by
  obtain ⟨moved, hwaiting, hmoved, houtput⟩ := hsends
  have hheld : waiting.map Prod.fst = moved.map .operator ++ inner.held := by
    rw [h.held, Yard.held, hwaiting, List.filter_append, filter_ne_openBracket hmoved,
      List.map_append, Yard.held]
  obtain ⟨front, back, rfl, hfront, hback⟩ := List.map_eq_append_iff.mp hheld
  refine ⟨sent ++ front, back, ?_, hback, ?_, ?_⟩
  · rw [List.map_append, h.output, hfront, houtput]
  · rw [List.append_assoc]
    exact h.perm
  · refine Token.forward_append_operators h.forward fun entry hentry ↦ ?_
    exact isValue_of_held h.held entry (List.mem_append_left _ hentry)

theorem Traced.push {o : Operator} (h : yard.Traced arrived sent waiting) (ho : o ≠ .openBracket) :
    (yard.push o).Traced (arrived ++ [(.operator o, place)]) sent ((.operator o, place) :: waiting) where
  output := h.output
  held := by rw [held_push ho, List.map_cons, h.held]
  perm := by
    calc sent ++ (.operator o, place) :: waiting
      _ ~ (.operator o, place) :: (sent ++ waiting) := List.perm_middle
      _ ~ sent ++ waiting ++ [(.operator o, place)] := (List.perm_append_singleton _ _).symm
      _ ~ arrived ++ [(.operator o, place)] := h.perm.append_right _
  forward := h.forward

/-- A step passes a value on, and sends off some of what waits for an operator. -/
theorem Traced.step {token : Token α} (h : yard.Traced arrived sent waiting)
    (hplaces : ∀ entry ∈ arrived, entry.2 < place)
    (hstep : Yard.step leftAssociative yard token = .ok after) :
    ∃ sent' waiting', after.Traced (arrived ++ Token.placed place [token]) sent' waiting' := by
  cases token with
  | value x =>
    cases hstep
    rw [Token.placed_unbracketed rfl]
    exact ⟨_, _, h.value hplaces x⟩
  | operator o =>
    obtain ⟨inner, hsends, hrest⟩ := step_operator_cases hstep
    obtain ⟨sent', waiting', hinner⟩ := h.sendOff hsends
    -- A bracket has no place of its own, so only another operator adds to what waits.
    rcases hrest with ⟨rfl, rfl⟩ | ⟨hclose, rfl⟩
    · rw [@Token.placed_bracket _ _ .closing rfl, List.append_nil]
      exact ⟨sent', waiting', hinner.output, hinner.held, hinner.perm, hinner.forward⟩
    · by_cases hopen : o = .openBracket
      · subst hopen
        rw [@Token.placed_bracket _ _ .opening rfl, List.append_nil]
        exact ⟨sent', waiting', hinner.output, hinner.held, hinner.perm, hinner.forward⟩
      · rw [Token.placed_unbracketed (Token.bracket?_operator hopen hclose)]
        exact ⟨_, _, hinner.push hopen⟩

theorem Traced.run {tokens : List (Token α)} (h : yard.Traced arrived sent waiting)
    (hplaces : ∀ entry ∈ arrived, entry.2 < place)
    (hrun : tokens.foldlM (Yard.step leftAssociative) yard = .ok after) :
    ∃ sent' waiting', after.Traced (arrived ++ Token.placed place tokens) sent' waiting' := by
  induction tokens generalizing yard arrived sent waiting place with
  | nil =>
    cases hrun
    exact ⟨sent, waiting, (List.append_nil arrived).symm ▸ h⟩
  | cons token rest ih =>
    obtain ⟨next, hstep, hrest⟩ := exists_of_foldlM_cons hrun
    obtain ⟨sent', waiting', hnext⟩ := h.step hplaces hstep
    -- What has arrived stands before the next place, which a value needs to come last.
    have hlater : ∀ entry ∈ arrived ++ Token.placed place [token], entry.2 < place + 1 := by
      refine List.forall_mem_append.mpr ⟨fun entry hentry ↦ ?_, fun entry ↦ Token.lt_of_mem_placed⟩
      exact Nat.lt_succ_of_lt (hplaces entry hentry)
    rw [Token.placed_cons, ← List.append_assoc]
    exact ih hnext hlater hrest

end Traced

end Yard

section Order

variable {α : Type} {leftAssociative : Bool} {tokens ordered : List (Token α)}

/-- The order of tokens without their brackets, in which no value overtakes anything. -/
structure Rearranges (tokens ordered : List (Token α)) : Prop where
  unbracketed : ∀ token ∈ ordered, token.bracket? = none
  perm : ordered.Perm (Token.unbracketed tokens)
  values : ordered.filter Token.isValue = tokens.filter Token.isValue
  /-- The tokens of the order at their places before, which tell equal tokens apart. -/
  places : ∃ entries : List (Token α × Nat), entries.map Prod.fst = ordered ∧
    entries.Perm (Token.placed 0 tokens) ∧ Token.Forward entries

theorem rearranges_of_ofInfix (h : ofInfix leftAssociative tokens = .ok ordered) :
    Rearranges tokens ordered := by
  have hbalanced : Bracket.Balanced (Token.brackets tokens) := by
    by_contra hunbalanced
    obtain ⟨fault, herror, _⟩ := ofInfix_of_unbalanced leftAssociative hunbalanced
    cases h.symm.trans herror
  obtain ⟨found, hfound, hperm⟩ := ofInfix_of_balanced leftAssociative hbalanced
  cases hfound.symm.trans h
  obtain ⟨yard, hrun, hopen, rfl⟩ := exists_of_ofInfix h
  refine ⟨fun token htoken ↦ ?_, hperm, ?_, ?_⟩
  · simpa using (List.mem_filter.mp (hperm.mem_iff.mp htoken)).2
  · rw [List.filter_append, Yard.values_operators, List.append_nil]
    exact Yard.values_foldlM hrun
  · have hempty : (Yard.empty : Yard α).Traced [] [] [] :=
      ⟨rfl, rfl, List.Perm.refl _, List.Pairwise.nil⟩
    obtain ⟨sent, waiting, htraced⟩ : ∃ sent waiting, yard.Traced (Token.placed 0 tokens) sent waiting :=
      hempty.run (fun _ hmem ↦ absurd hmem List.not_mem_nil) hrun
    refine ⟨sent ++ waiting, ?_, htraced.perm, ?_⟩
    · rw [List.map_append, htraced.output, htraced.held, Yard.held_of_closed hopen]
    · exact Token.forward_append_operators htraced.forward (Yard.isValue_of_held htraced.held)

/-! ## Which bracket is to blame -/

/-- The scan stops exactly if some front of the tokens closes more brackets than it opens. -/
theorem scan_brackets_eq_none_iff :
    Bracket.scan 0 (Token.brackets tokens) = none ↔
      ∃ front, front <+: tokens ∧
        (Token.brackets front).count .opening < (Token.brackets front).count .closing := by
  rw [Bracket.scan_eq_none_iff]
  constructor
  · rintro ⟨word, hword, hlt⟩
    obtain ⟨front, hfront, rfl⟩ := List.prefix_filterMap_iff.mp hword
    exact ⟨front, hfront, by rwa [Nat.zero_add] at hlt⟩
  · rintro ⟨front, hfront, hlt⟩
    exact ⟨Token.brackets front, hfront.filterMap _, by rwa [Nat.zero_add]⟩

/-- Tokens are brought into an order exactly if their brackets are balanced; otherwise the fault
tells whether a bracket is closed before it is opened or one is left open. The order keeps all
other tokens, the values in their turn and no operator ahead of a value that it followed. -/
theorem ofInfix_rearranges_or_blames (leftAssociative : Bool) (tokens : List (Token α)) :
    ((∃ ordered, ofInfix leftAssociative tokens = .ok ordered) ↔
        Bracket.Balanced (Token.brackets tokens)) ∧
      (ofInfix leftAssociative tokens = .error .strayClosing ↔
        ∃ front, front <+: tokens ∧
          (Token.brackets front).count .opening < (Token.brackets front).count .closing) ∧
      (ofInfix leftAssociative tokens = .error .unclosedOpening ↔
        (∀ front, front <+: tokens →
          (Token.brackets front).count .closing ≤ (Token.brackets front).count .opening) ∧
        (Token.brackets tokens).count .closing < (Token.brackets tokens).count .opening) ∧
      Fault.strayClosing.report =
        "UnbalancedBracketsError: Closing bracket without matching opening bracket" ∧
      Fault.unclosedOpening.report = "UnbalancedBracketsError: Opening bracket is never closed" ∧
      ∀ ordered, ofInfix leftAssociative tokens = .ok ordered → Rearranges tokens ordered := by
  rw [← scan_brackets_eq_none_iff, Bracket.balanced_iff_scan]
  have hfronts : (∀ front, front <+: tokens →
      (Token.brackets front).count .closing ≤ (Token.brackets front).count .opening) ↔
        Bracket.scan 0 (Token.brackets tokens) ≠ none := by
    rw [ne_eq, scan_brackets_eq_none_iff]
    simp only [not_exists, not_and, Nat.not_lt]
  rw [hfronts]
  cases hscan : Bracket.scan 0 (Token.brackets tokens) with
  | none =>
    have herror := @ofInfix_of_stray _ leftAssociative _ hscan
    refine ⟨?_, ?_, ?_, rfl, rfl, fun ordered ↦ rearranges_of_ofInfix⟩ <;> simp [herror]
  | some depth =>
    have hcount := Bracket.count_of_scan hscan
    cases depth with
    | zero =>
      have hbalanced := Bracket.balanced_iff_scan.mpr hscan
      obtain ⟨ordered, hordered, _⟩ := ofInfix_of_balanced leftAssociative hbalanced
      have hequal : ¬ (Token.brackets tokens).count .closing < (Token.brackets tokens).count .opening := by
        omega
      refine ⟨?_, ?_, ?_, rfl, rfl, fun ordered ↦ rearranges_of_ofInfix⟩ <;> simp [hordered, hequal]
    | succ depth =>
      have herror := @ofInfix_of_unclosed _ leftAssociative _ _ hscan
      have hless : (Token.brackets tokens).count .closing < (Token.brackets tokens).count .opening := by
        omega
      refine ⟨?_, ?_, ?_, rfl, rfl, fun ordered ↦ rearranges_of_ofInfix⟩ <;> simp [herror, hless]

end Order

end Rpn

end Reckon
