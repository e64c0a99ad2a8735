import Mathlib.Data.List.Basic
import Reckon.Proofs.Rpn.Yard

/-!
# Precedence in the yard

Tokens that are complete at a level leave a spine behind: operators that wait above all that
waited before, none of them looser than the level. The output and the spine together list the
tokens in postfix order. The next operator sends the spine off if it is looser than all of it,
and then waits itself. These are the steps by which the order of a longer sequence is put
together from the orders of its parts, for both readings of equal operators.
-/

namespace Reckon

theorem Operator.rightAssociative_of_priority {o o' : Operator} (h : o.priority = o'.priority) :
    o.rightAssociative = o'.rightAssociative := by
  revert h
  cases o <;> cases o' <;> decide

namespace Rpn

namespace Yard

variable {α : Type} {leftAssociative : Bool}

theorem stays_of_lt {o top : Operator} (h : top.priority < o.priority) :
    stays leftAssociative o top = true := by
  simp [stays, h]

theorem sends_of_stays {o top : Operator} (h : stays leftAssociative o top = true) :
    sends leftAssociative o top = false := by
  simp only [stays, Bool.or_eq_true, decide_eq_true_eq, Bool.and_eq_true, beq_iff_eq,
    Bool.not_eq_true'] at h
  simp only [sends, Bool.or_eq_false_iff, decide_eq_false_iff_not]
  rcases h with hlt | ⟨heq, hright⟩
  · have hne : (top.priority == o.priority) = false := beq_false_of_ne (by omega)
    exact ⟨by omega, by simp [hne]⟩
  · refine ⟨by omega, ?_⟩
    rcases hright with h | h <;> simp [h]

/-- A waiting operator that an arriving one does not stay above, and sends off. -/
def Yields (leftAssociative : Bool) (o top : Operator) : Prop :=
  stays leftAssociative o top = false ∧ sends leftAssociative o top = true

/-- An operator sends off what binds tighter. -/
theorem yields_of_lt {o top : Operator} (h : o.priority < top.priority) :
    Yields leftAssociative o top := by
  have hne : (o.priority == top.priority) = false := beq_false_of_ne (by omega)
  exact ⟨by simp only [stays, hne, Bool.false_and, Bool.or_false]; exact decide_eq_false (by omega),
    by simp [sends, h]⟩

/-- What groups to the left also sends off its equals. -/
theorem yields_of_le {o top : Operator} (hleft : leftAssociative = true)
    (hright : o.rightAssociative = false) (hbracket : top.isBracket = false)
    (h : o.priority ≤ top.priority) : Yields leftAssociative o top := by
  rcases Nat.lt_or_eq_of_le h with hlt | heq
  · exact yields_of_lt hlt
  · exact ⟨by simp [stays, hleft, hright, heq], by simp [sends, hleft, hright, hbracket, heq]⟩

/-- No operator of a level or tighter sends off what waits here. -/
def Admits (leftAssociative : Bool) (level : Nat) (waiting : List Operator) : Prop :=
  ∀ top ∈ waiting.head?, ∀ o : Operator, level ≤ o.priority → stays leftAssociative o top = true

theorem admits_nil (level : Nat) : Admits leftAssociative level [] :=
  fun _ h ↦ by cases h

theorem Admits.mono {level tighter : Nat} {waiting : List Operator}
    (h : Admits leftAssociative level waiting) (hle : level ≤ tighter) :
    Admits leftAssociative tighter waiting :=
  fun top htop o ho ↦ h top htop o (Nat.le_trans hle ho)

theorem admits_cons_of_lt {top : Operator} {level : Nat} (h : top.priority < level)
    (waiting : List Operator) : Admits leftAssociative level (top :: waiting) := by
  rintro _ ⟨⟩ o ho
  exact stays_of_lt (Nat.lt_of_lt_of_le h ho)

/-- Above an operator that groups to the right, its equals wait too. -/
theorem admits_cons_self {top : Operator}
    (h : leftAssociative = false ∨ top.rightAssociative = true) (waiting : List Operator) :
    Admits leftAssociative top.priority (top :: waiting) := by
  rintro _ ⟨⟩ o ho
  rcases Nat.lt_or_eq_of_le ho with hlt | heq
  · exact stays_of_lt hlt
  · have hright := Operator.rightAssociative_of_priority heq
    rcases h with h | h
    · simp [stays, h, heq]
    · simp [stays, ← hright, h, heq]

/-- An operator that may wait here, and that the spine above yields to, comes to wait in its place. -/
theorem arrive_above {o : Operator} {waiting : List Operator} (spine : List Operator)
    (output : List (Token α)) (hspine : ∀ top ∈ spine, Yields leftAssociative o top)
    (hadmits : Admits leftAssociative o.priority waiting) :
    arrive leftAssociative o ⟨output, spine ++ waiting⟩ =
      ⟨(spine.map .operator).reverse ++ output, o :: waiting⟩ := by
  cases spine with
  | nil =>
    cases waiting with
    | nil => rfl
    | cons top rest =>
      simp only [List.nil_append, arrive, hadmits top rfl o (Nat.le_refl _), if_true]
      rfl
  | cons top rest =>
    have hsent : ∀ s ∈ top :: rest, sends leftAssociative o s = true := fun s hs ↦ (hspine s hs).2
    have hkept : waiting.takeWhile (sends leftAssociative o) = [] ∧
        waiting.dropWhile (sends leftAssociative o) = waiting := by
      cases waiting with
      | nil => exact ⟨rfl, rfl⟩
      | cons below outer =>
        have hbelow := sends_of_stays (hadmits below rfl o (Nat.le_refl _))
        simp [hbelow]
    rw [List.cons_append, arrive]
    simp only [(hspine top List.mem_cons_self).1, Bool.false_eq_true, if_false]
    rw [← List.cons_append, sendWhile]
    simp only [List.takeWhile_append_of_pos hsent, List.dropWhile_append_of_pos hsent, hkept.1,
      hkept.2, List.append_nil]
    rfl

end Yard

open Yard

variable {α : Type} {leftAssociative : Bool}

/-- The tokens, complete at a level, are brought into an order, whatever waits below. -/
def Brings (leftAssociative : Bool) (level : Nat) (tokens order : List (Token α)) : Prop :=
  ∀ (output : List (Token α)) (waiting : List Operator), Admits leftAssociative level waiting →
    ∃ output' spine, tokens.foldlM (Yard.step leftAssociative) ⟨output, waiting⟩ =
        .ok ⟨output', spine ++ waiting⟩ ∧
      output'.reverse ++ spine.map .operator = output.reverse ++ order ∧
      ∀ o ∈ spine, level ≤ o.priority

theorem Brings.loosen {level tighter : Nat} {tokens order : List (Token α)}
    (h : Brings leftAssociative tighter tokens order) (hle : level ≤ tighter) :
    Brings leftAssociative level tokens order := by
  intro output waiting hadmits
  obtain ⟨output', spine, hrun, hlists, hspine⟩ := h output waiting (hadmits.mono hle)
  exact ⟨output', spine, hrun, hlists, fun o ho ↦ Nat.le_trans hle (hspine o ho)⟩

theorem brings_value (level : Nat) (x : α) :
    Brings leftAssociative level [.value x] [.value x] := by
  intro output waiting _
  exact ⟨.value x :: output, [], rfl, by simp, by simp⟩

theorem close_above {spine waiting : List Operator} (output : List (Token α))
    (hspine : ∀ o ∈ spine, o ≠ .openBracket) :
    close (⟨output, spine ++ .openBracket :: waiting⟩ : Yard α) =
      .ok ⟨(spine.map .operator).reverse ++ output, waiting⟩ := by
  have hinner : ∀ o ∈ spine, decide (o ≠ .openBracket) = true :=
    fun o ho ↦ decide_eq_true (hspine o ho)
  have htake : (spine ++ .openBracket :: waiting).takeWhile (fun o ↦ decide (o ≠ .openBracket)) =
      spine := by
    rw [List.takeWhile_append_of_pos hinner]
    simp
  have hdrop : (spine ++ .openBracket :: waiting).dropWhile (fun o ↦ decide (o ≠ .openBracket)) =
      .openBracket :: waiting := by
    rw [List.dropWhile_append_of_pos hinner]
    simp
  simp only [close, sendWhile, htake, hdrop]

/-- A group leaves nothing behind that waits. -/
theorem brings_group (level : Nat) {tokens order : List (Token α)}
    (h : Brings leftAssociative 1 tokens order) :
    Brings leftAssociative level
      (.operator .openBracket :: tokens ++ [.operator .closeBracket]) order := by
  intro output waiting _
  have hopen : Admits leftAssociative 1 (.openBracket :: waiting) :=
    admits_cons_of_lt (by decide) waiting
  obtain ⟨output', spine, hrun, hlists, hspine⟩ := h output (.openBracket :: waiting) hopen
  have hinner : ∀ o ∈ spine, o ≠ .openBracket := by
    rintro o ho rfl
    exact absurd (hspine _ ho) (by decide)
  have hstep : Yard.step leftAssociative (⟨output, waiting⟩ : Yard α) (.operator .openBracket) =
      .ok ⟨output, .openBracket :: waiting⟩ := rfl
  have hclose : Yard.step leftAssociative (⟨output', spine ++ .openBracket :: waiting⟩ : Yard α)
      (.operator .closeBracket) = .ok ⟨(spine.map .operator).reverse ++ output', waiting⟩ :=
    close_above output' hinner
  refine ⟨(spine.map .operator).reverse ++ output', [], ?_, ?_, by simp⟩
  · rw [List.cons_append, foldlM_cons_of_ok hstep, foldlM_append_of_ok hrun,
      foldlM_cons_of_ok hclose]
    rfl
  · simpa using hlists

/-- A negation waits until its operand is complete. -/
theorem brings_negate {tokens order : List (Token α)}
    (h : Brings leftAssociative 5 tokens order) :
    Brings leftAssociative 5 (.operator .negate :: tokens) (order ++ [.operator .negate]) := by
  intro output waiting hadmits
  have hnegate : Admits leftAssociative 5 (.negate :: waiting) :=
    admits_cons_self (.inr rfl) waiting
  have hstep : Yard.step leftAssociative (⟨output, waiting⟩ : Yard α) (.operator .negate) =
      .ok ⟨output, .negate :: waiting⟩ :=
    congrArg Except.ok (arrive_above [] output (by simp) hadmits)
  obtain ⟨output', spine, hrun, hlists, hspine⟩ := h output (.negate :: waiting) hnegate
  refine ⟨output', spine ++ [.negate], ?_, ?_, ?_⟩
  · rw [foldlM_cons_of_ok hstep, hrun, List.append_assoc]
    rfl
  · rw [List.map_append, ← List.append_assoc, hlists, List.append_assoc]
    rfl
  · intro o ho
    rcases List.mem_append.mp ho with ho | ho
    · exact hspine o ho
    · rw [List.mem_singleton.mp ho]
      decide

/-- Operands on both sides of an operator are brought into the order of its operation if the
spine of the left one yields to it and it admits the right one. -/
theorem brings_binary {o : Operator} (hopen : o ≠ .openBracket) (hclose : o ≠ .closeBracket)
    {left right : Nat} {front back leftOrder rightOrder : List (Token α)}
    (hfront : Brings leftAssociative left front leftOrder)
    (hback : Brings leftAssociative right back rightOrder)
    (hleft : o.priority ≤ left) (hright : o.priority ≤ right)
    (hyields : ∀ top, left ≤ top.priority → Yields leftAssociative o top)
    (hadmits : ∀ waiting, Admits leftAssociative right (o :: waiting)) :
    Brings leftAssociative o.priority (front ++ .operator o :: back)
      (leftOrder ++ rightOrder ++ [.operator o]) := by
  intro output waiting hwaiting
  obtain ⟨output₁, spine₁, hrun₁, hlists₁, hspine₁⟩ := hfront output waiting (hwaiting.mono hleft)
  have hstep : Yard.step leftAssociative (⟨output₁, spine₁ ++ waiting⟩ : Yard α) (.operator o) =
      .ok ⟨(spine₁.map .operator).reverse ++ output₁, o :: waiting⟩ := by
    rw [← arrive_above spine₁ output₁ (fun top htop ↦ hyields top (hspine₁ top htop)) hwaiting]
    cases o <;> first | rfl | exact absurd rfl hopen | exact absurd rfl hclose
  obtain ⟨output₂, spine₂, hrun₂, hlists₂, hspine₂⟩ :=
    hback ((spine₁.map .operator).reverse ++ output₁) (o :: waiting) (hadmits waiting)
  refine ⟨output₂, spine₂ ++ [o], ?_, ?_, ?_⟩
  · rw [foldlM_append_of_ok hrun₁, foldlM_cons_of_ok hstep, hrun₂, List.append_assoc]
    rfl
  · calc output₂.reverse ++ (spine₂ ++ [o]).map .operator
        = (output₂.reverse ++ spine₂.map .operator) ++ [.operator o] := by simp
      _ = (output₁.reverse ++ spine₁.map .operator) ++ rightOrder ++ [.operator o] := by
          rw [hlists₂]
          simp
      _ = output.reverse ++ (leftOrder ++ rightOrder ++ [.operator o]) := by
          rw [hlists₁]
          simp
  · intro s hs
    rcases List.mem_append.mp hs with hs | hs
    · exact Nat.le_trans hright (hspine₂ s hs)
    · exact Nat.le_of_eq (congrArg Operator.priority (List.mem_singleton.mp hs).symm)

/-- What is complete at a level that no bracket has is the order of the whole. -/
theorem Brings.ofInfix {level : Nat} {tokens order : List (Token α)}
    (h : Brings leftAssociative level tokens order) (hlevel : 0 < level) :
    ofInfix leftAssociative tokens = .ok order := by
  obtain ⟨output, spine, hrun, hlists, hspine⟩ := h [] [] (admits_nil level)
  rw [List.append_nil] at hrun
  have hclosed : .openBracket ∉ spine :=
    fun hmem ↦ absurd (hspine _ hmem) (Nat.not_le_of_lt hlevel)
  rw [Rpn.ofInfix, Yard.run, Yard.empty, hrun]
  exact finish_eq_ok_iff.mpr ⟨hclosed, hlists⟩

end Rpn

end Reckon
