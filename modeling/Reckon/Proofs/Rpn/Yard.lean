import Mathlib.Data.List.Perm.Basic
import Reckon.Proofs.Bracket
import Reckon.Rpn.Yard

/-!
# What the yard keeps

The waiting operators of a yard hold the brackets that are still open, and together with the
output all other tokens that have arrived. One step changes this only by the token that it takes.
So a sequence can be brought into postfix order exactly if its brackets are balanced, and the
order then holds the same tokens without the brackets.
-/

open scoped List

namespace Reckon.Rpn

section Runs

variable {σ τ : Type} {f : σ → τ → Except Fault σ} {s s' : σ}

theorem foldlM_cons_of_ok {x : τ} (h : f s x = .ok s') (rest : List τ) :
    (x :: rest).foldlM f s = rest.foldlM f s' := by
  rw [List.foldlM_cons, h]
  rfl

theorem foldlM_append_of_ok {front : List τ} (h : front.foldlM f s = .ok s') (back : List τ) :
    (front ++ back).foldlM f s = back.foldlM f s' := by
  rw [List.foldlM_append, h]
  rfl

/-- A sequence of stages that succeeds succeeds in the first stage and in the others. -/
theorem exists_of_bind_eq_ok {α β : Type} {stage : Except Fault α} {rest : α → Except Fault β}
    {result : β} (h : stage.bind rest = .ok result) :
    ∃ x, stage = .ok x ∧ rest x = .ok result := by
  cases stage with
  | error fault => cases h
  | ok x => exact ⟨x, rfl, h⟩

theorem exists_of_foldlM_cons {x : τ} {rest : List τ} (h : (x :: rest).foldlM f s = .ok s') :
    ∃ next, f s x = .ok next ∧ rest.foldlM f next = .ok s' := by
  rw [List.foldlM_cons] at h
  exact exists_of_bind_eq_ok h

end Runs

namespace Yard

variable {α : Type}

/-- The number of brackets that are open. -/
def openings (yard : Yard α) : Nat :=
  yard.waiting.count .openBracket

/-- The tokens in a yard, open brackets apart. -/
def contents (yard : Yard α) : List (Token α) :=
  yard.output ++ (yard.waiting.filter (· ≠ .openBracket)).map .operator

/-- No closing bracket waits, and no bracket is in the output. -/
structure Tidy (yard : Yard α) : Prop where
  waiting : .closeBracket ∉ yard.waiting
  output : ∀ token ∈ yard.output, token.bracket? = none

/-- A step within a group: what is open stays open, and some tokens come in. -/
structure Keeps (yard : Yard α) (tokens : List (Token α)) (after : Yard α) : Prop where
  tidy : after.Tidy
  openings : after.openings = yard.openings
  contents : after.contents.Perm (tokens ++ yard.contents)

theorem tidy_empty : (empty : Yard α).Tidy :=
  ⟨List.not_mem_nil, fun _ h ↦ absurd h List.not_mem_nil⟩

/-- No operator sends an open bracket off. -/
theorem sends_openBracket (leftAssociative : Bool) (o : Operator) :
    sends leftAssociative o .openBracket = false := by
  cases leftAssociative <;> cases o <;> rfl

section Steps

variable {yard : Yard α} (htidy : yard.Tidy)

include htidy

theorem keeps_value (x : α) :
    yard.Keeps [.value x] { yard with output := .value x :: yard.output } where
  tidy := ⟨htidy.waiting, List.forall_mem_cons.mpr ⟨rfl, htidy.output⟩⟩
  openings := rfl
  contents := List.Perm.refl _

theorem keeps_push {o : Operator} (hopen : o ≠ .openBracket) (hclose : o ≠ .closeBracket) :
    yard.Keeps [.operator o] (yard.push o) where
  tidy := ⟨by simp [push, htidy.waiting, hclose.symm], htidy.output⟩
  openings := List.count_cons_of_ne hopen
  contents := by
    simp only [push, contents, List.filter_cons, hopen, ne_eq, not_false_eq_true, decide_true,
      if_true, List.map_cons]
    exact List.perm_middle

/-- Operators that are sent off up to an open bracket move within the contents. -/
theorem keeps_sendWhile {test : Operator → Bool} (htest : test .openBracket = false) :
    yard.Keeps [] (yard.sendWhile test) := by
  have hsent : ∀ o ∈ yard.waiting.takeWhile test, o ≠ .openBracket := by
    rintro o ho rfl
    have := List.all_eq_true.mp List.all_takeWhile _ ho
    simp [htest] at this
  have hsplit : yard.waiting.takeWhile test ++ yard.waiting.dropWhile test = yard.waiting :=
    List.takeWhile_append_dropWhile
  refine ⟨⟨?_, ?_⟩, ?_, ?_⟩
  · exact fun h ↦ htidy.waiting ((List.dropWhile_sublist test).mem h)
  · intro token htoken
    rcases List.mem_append.mp htoken with h | h
    · obtain ⟨o, ho, rfl⟩ := List.mem_map.mp (List.mem_reverse.mp h)
      refine Token.bracket?_operator (hsent o ho) ?_
      rintro rfl
      exact htidy.waiting ((List.takeWhile_sublist test).mem ho)
    · exact htidy.output token h
  · have hcount : (yard.waiting.takeWhile test).count .openBracket = 0 :=
      List.count_eq_zero.mpr fun h ↦ hsent _ h rfl
    have := congrArg (List.count .openBracket) hsplit
    rw [List.count_append, hcount, Nat.zero_add] at this
    exact this
  · have hfilter : (yard.waiting.takeWhile test).filter (· ≠ .openBracket) =
        yard.waiting.takeWhile test :=
      List.filter_eq_self.mpr fun o ho ↦ by simpa using hsent o ho
    have hcontents : yard.contents = yard.output ++
        ((yard.waiting.takeWhile test).map .operator ++
          ((yard.waiting.dropWhile test).filter (· ≠ .openBracket)).map .operator) := by
      rw [contents, ← hsplit, List.filter_append, List.map_append, hfilter, hsplit]
    rw [List.nil_append, hcontents, ← List.append_assoc]
    refine List.Perm.append_right _ ?_
    exact List.perm_append_comm.trans (List.Perm.append_left _ (List.reverse_perm _))

theorem keeps_arrive (leftAssociative : Bool) {o : Operator} (hopen : o ≠ .openBracket)
    (hclose : o ≠ .closeBracket) : yard.Keeps [.operator o] (yard.arrive leftAssociative o) := by
  have hsends := sends_openBracket leftAssociative o
  unfold arrive
  split
  · exact keeps_push htidy hopen hclose
  · split
    · exact keeps_push htidy hopen hclose
    · have hsent := keeps_sendWhile htidy hsends
      have hpush := keeps_push hsent.tidy hopen hclose
      exact ⟨hpush.tidy, hpush.openings.trans hsent.openings,
        hpush.contents.trans (hsent.contents.append_left _)⟩

/-- A closing bracket takes the innermost open one with it, or finds none. -/
theorem close_cases :
    yard.openings = 0 ∧ yard.close = .error .strayClosing ∨
      ∃ after, yard.close = .ok after ∧ after.Tidy ∧ after.openings + 1 = yard.openings ∧
        after.contents.Perm yard.contents := by
  let inner := yard.sendWhile (· ≠ .openBracket)
  have hkeeps : yard.Keeps [] inner := keeps_sendWhile htidy (by decide)
  cases hwaiting : inner.waiting with
  | nil =>
    refine .inl ⟨?_, by simp only [close, inner, hwaiting]⟩
    rw [← hkeeps.openings, Yard.openings, hwaiting, List.count_nil]
  | cons top outer =>
    have htop : top = .openBracket := by
      have hhead := List.head?_dropWhile_not (fun o : Operator ↦ decide (o ≠ .openBracket)) yard.waiting
      have hdrop : yard.waiting.dropWhile (fun o ↦ decide (o ≠ .openBracket)) = top :: outer := hwaiting
      rw [hdrop] at hhead
      simpa using hhead
    subst htop
    have hclosed : .closeBracket ∉ outer := by
      intro h
      exact hkeeps.tidy.waiting (hwaiting ▸ List.mem_cons_of_mem _ h)
    refine .inr ⟨{ inner with waiting := outer }, by simp only [close, inner, hwaiting],
      ⟨hclosed, hkeeps.tidy.output⟩, ?_, ?_⟩
    · rw [← hkeeps.openings, Yard.openings, Yard.openings, hwaiting, List.count_cons_self]
    · have hcontents : inner.contents = Yard.contents { inner with waiting := outer } := by
        simp [Yard.contents, hwaiting]
      exact hcontents ▸ hkeeps.contents

theorem step_unbracketed (leftAssociative : Bool) {token : Token α} (h : token.bracket? = none) :
    ∃ after, step leftAssociative yard token = .ok after ∧ yard.Keeps [token] after := by
  cases token with
  | value x => exact ⟨_, rfl, keeps_value htidy x⟩
  | operator o =>
    have hopen : o ≠ .openBracket := by
      rintro rfl
      cases h
    have hclose : o ≠ .closeBracket := by
      rintro rfl
      cases h
    refine ⟨yard.arrive leftAssociative o, ?_, keeps_arrive htidy leftAssociative hopen hclose⟩
    cases o <;> first | rfl | exact absurd rfl hopen | exact absurd rfl hclose

theorem tidy_push_openBracket : (yard.push .openBracket).Tidy :=
  ⟨by simp [push, htidy.waiting], htidy.output⟩

end Steps

theorem openings_push_openBracket (yard : Yard α) :
    (yard.push .openBracket).openings = yard.openings + 1 :=
  List.count_cons_self

theorem contents_push_openBracket (yard : Yard α) :
    (yard.push .openBracket).contents = yard.contents := by
  simp [push, contents]

/-- What comes of tokens that arrive in a yard agrees with the scan of their brackets. -/
inductive Follows (yard : Yard α) (tokens : List (Token α)) : Except Fault (Yard α) → Prop where
  | stray (hscan : Bracket.scan yard.openings (Token.brackets tokens) = none) :
      Follows yard tokens (.error .strayClosing)
  | ok {after : Yard α}
      (hscan : Bracket.scan yard.openings (Token.brackets tokens) = some after.openings)
      (htidy : after.Tidy)
      (hcontents : after.contents.Perm (Token.unbracketed tokens ++ yard.contents)) :
      Follows yard tokens (.ok after)

theorem follows_step (leftAssociative : Bool) {yard : Yard α} (htidy : yard.Tidy)
    (token : Token α) : yard.Follows [token] (step leftAssociative yard token) := by
  cases hbracket : token.bracket? with
  | none =>
    obtain ⟨after, hstep, hkeeps⟩ := step_unbracketed htidy leftAssociative hbracket
    have hbrackets : Token.brackets [token] = [] := by simp [Token.brackets, hbracket]
    have hunbracketed : Token.unbracketed [token] = [token] := by
      simp [Token.unbracketed, hbracket]
    rw [hstep]
    refine .ok ?_ hkeeps.tidy ?_
    · rw [hbrackets, hkeeps.openings]
      rfl
    · rw [hunbracketed]
      exact hkeeps.contents
  | some bracket =>
    cases bracket with
    | opening =>
      obtain rfl := Token.eq_openBracket hbracket
      refine .ok ?_ (tidy_push_openBracket htidy) ?_
      · exact congrArg some (openings_push_openBracket yard).symm
      · rw [contents_push_openBracket]
        exact List.Perm.refl _
    | closing =>
      obtain rfl := Token.eq_closeBracket hbracket
      change yard.Follows [.operator .closeBracket] yard.close
      rcases close_cases htidy with ⟨hzero, herror⟩ | ⟨after, hclose, hafter, hopenings, hcontents⟩
      · rw [herror]
        refine .stray ?_
        rw [hzero]
        rfl
      · rw [hclose]
        refine .ok ?_ hafter hcontents
        rw [← hopenings]
        rfl

/-- What comes of the rest behind a first token comes of the whole. -/
theorem Follows.cons {yard middle : Yard α} {token : Token α} {tokens : List (Token α)}
    {outcome : Except Fault (Yard α)} (h : middle.Follows tokens outcome)
    (hscan : Bracket.scan yard.openings (Token.brackets [token]) = some middle.openings)
    (hcontents : middle.contents.Perm (Token.unbracketed [token] ++ yard.contents)) :
    yard.Follows (token :: tokens) outcome := by
  have hsplit : Bracket.scan yard.openings (Token.brackets (token :: tokens)) =
      Bracket.scan middle.openings (Token.brackets tokens) := by
    rw [← List.singleton_append, Token.brackets_append, Bracket.scan_append, hscan]
    rfl
  cases h with
  | stray hrest => exact .stray (hsplit.trans hrest)
  | @ok after hrest htidy hafter =>
    refine .ok (hsplit.trans hrest) htidy ?_
    calc after.contents
      _ ~ Token.unbracketed tokens ++ middle.contents := hafter
      _ ~ Token.unbracketed tokens ++ (Token.unbracketed [token] ++ yard.contents) :=
          hcontents.append_left _
      _ ~ Token.unbracketed [token] ++ (Token.unbracketed tokens ++ yard.contents) :=
          List.perm_append_comm_assoc ..
      _ ~ Token.unbracketed (token :: tokens) ++ yard.contents := by
          rw [← List.append_assoc, ← Token.unbracketed_append, List.singleton_append]

/-- A run follows the scan of the brackets, and takes in all other tokens. -/
theorem follows_foldlM (leftAssociative : Bool) {yard : Yard α} (htidy : yard.Tidy)
    (tokens : List (Token α)) :
    yard.Follows tokens (tokens.foldlM (step leftAssociative) yard) := by
  induction tokens generalizing yard with
  | nil => exact .ok rfl htidy (List.Perm.refl _)
  | cons token tokens ih =>
    have hstep := follows_step leftAssociative htidy token
    rw [List.foldlM_cons]
    generalize step leftAssociative yard token = outcome at hstep ⊢
    cases hstep with
    | stray hscan =>
      refine .stray ?_
      rw [← List.singleton_append, Token.brackets_append, Bracket.scan_append, hscan]
      rfl
    | ok hscan hmiddle hcontents => exact (ih hmiddle).cons hscan hcontents

theorem finish_of_open {yard : Yard α} (h : yard.openings ≠ 0) :
    yard.finish = .error .unclosedOpening := by
  have hmem : .openBracket ∈ yard.waiting := by
    by_contra hnot
    exact h (List.count_eq_zero.mpr hnot)
  rw [finish, if_pos (List.contains_iff_mem.mpr hmem)]

theorem finish_eq_ok_iff {yard : Yard α} {order : List (Token α)} :
    yard.finish = .ok order ↔
      .openBracket ∉ yard.waiting ∧ yard.output.reverse ++ yard.waiting.map .operator = order := by
  by_cases hmem : .openBracket ∈ yard.waiting
  · simp [finish, hmem]
  · simp [finish, hmem]

theorem filter_ne_openBracket {operators : List Operator} (h : .openBracket ∉ operators) :
    operators.filter (· ≠ .openBracket) = operators := by
  refine List.filter_eq_self.mpr fun o ho ↦ ?_
  simpa using fun heq : o = .openBracket ↦ h (heq ▸ ho)

theorem finish_of_closed {yard : Yard α} (h : yard.openings = 0) :
    ∃ tokens, yard.finish = .ok tokens ∧ tokens.Perm yard.contents := by
  have hmem : .openBracket ∉ yard.waiting := List.count_eq_zero.mp h
  refine ⟨_, finish_eq_ok_iff.mpr ⟨hmem, rfl⟩, ?_⟩
  rw [contents, filter_ne_openBracket hmem]
  exact List.Perm.append_right _ (List.reverse_perm _)

end Yard

variable {α : Type}

/-- An order is what a run leaves in a yard where no bracket is open. -/
theorem exists_of_ofInfix {leftAssociative : Bool} {tokens order : List (Token α)}
    (h : ofInfix leftAssociative tokens = .ok order) :
    ∃ yard, Yard.run leftAssociative tokens = .ok yard ∧ .openBracket ∉ yard.waiting ∧
      yard.output.reverse ++ yard.waiting.map .operator = order := by
  obtain ⟨yard, hrun, hfinish⟩ := exists_of_bind_eq_ok h
  exact ⟨yard, hrun, Yard.finish_eq_ok_iff.mp hfinish⟩

/-- Tokens with balanced brackets are brought into an order of all but the brackets. -/
theorem ofInfix_of_balanced (leftAssociative : Bool) {tokens : List (Token α)}
    (h : Bracket.Balanced (Token.brackets tokens)) :
    ∃ ordered, ofInfix leftAssociative tokens = .ok ordered ∧
      ordered.Perm (Token.unbracketed tokens) := by
  have hrun := Yard.follows_foldlM leftAssociative Yard.tidy_empty tokens
  have hbalanced := Bracket.balanced_iff_scan.mp h
  rw [ofInfix, Yard.run]
  generalize tokens.foldlM (Yard.step leftAssociative) Yard.empty = outcome at hrun ⊢
  cases hrun with
  | stray hscan => cases hbalanced.symm.trans hscan
  | @ok after hscan htidy hcontents =>
    have hclosed : after.openings = 0 := Option.some.inj (hscan.symm.trans hbalanced)
    obtain ⟨ordered, hfinish, hperm⟩ := Yard.finish_of_closed hclosed
    refine ⟨ordered, hfinish, ?_⟩
    calc ordered
      _ ~ after.contents := hperm
      _ ~ Token.unbracketed tokens ++ [] := hcontents
      _ ~ Token.unbracketed tokens := by rw [List.append_nil]

theorem ofInfix_of_stray {leftAssociative : Bool} {tokens : List (Token α)}
    (h : Bracket.scan 0 (Token.brackets tokens) = none) :
    ofInfix leftAssociative tokens = .error .strayClosing := by
  have hrun := Yard.follows_foldlM leftAssociative Yard.tidy_empty tokens
  rw [ofInfix, Yard.run]
  generalize tokens.foldlM (Yard.step leftAssociative) Yard.empty = outcome at hrun ⊢
  cases hrun with
  | stray hscan => rfl
  | ok hscan htidy hcontents => cases h.symm.trans hscan

theorem ofInfix_of_unclosed {leftAssociative : Bool} {tokens : List (Token α)} {depth : Nat}
    (h : Bracket.scan 0 (Token.brackets tokens) = some (depth + 1)) :
    ofInfix leftAssociative tokens = .error .unclosedOpening := by
  have hrun := Yard.follows_foldlM leftAssociative Yard.tidy_empty tokens
  rw [ofInfix, Yard.run]
  generalize tokens.foldlM (Yard.step leftAssociative) Yard.empty = outcome at hrun ⊢
  cases hrun with
  | stray hscan => cases h.symm.trans hscan
  | @ok after hscan htidy hcontents =>
    have hopenings : after.openings = depth + 1 := Option.some.inj (hscan.symm.trans h)
    refine Yard.finish_of_open ?_
    rw [hopenings]
    exact Nat.succ_ne_zero depth

theorem ofInfix_of_unbalanced (leftAssociative : Bool) {tokens : List (Token α)}
    (h : ¬ Bracket.Balanced (Token.brackets tokens)) :
    ∃ fault, ofInfix leftAssociative tokens = .error fault ∧ fault.kind = .brackets := by
  rw [Bracket.balanced_iff_scan] at h
  cases hscan : Bracket.scan 0 (Token.brackets tokens) with
  | none => exact ⟨.strayClosing, ofInfix_of_stray hscan, rfl⟩
  | some depth =>
    cases depth with
    | zero => exact absurd hscan h
    | succ depth => exact ⟨.unclosedOpening, ofInfix_of_unclosed hscan, rfl⟩

end Reckon.Rpn
