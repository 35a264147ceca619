import Mathlib.Data.List.Perm.Basic

/-! One pass of a bubble sort, over lists of any type: what it keeps, and which lists it puts in order. -/

namespace Comp310.Lib
variable {α : Type}

/-- Which elements have to be behind which others. Those that are not apart may be in either order. -/
structure Precedence (behind : α → α → Bool) : Prop where
  asymm : ∀ a b, behind a b = true → behind b a = false
  cotrans : ∀ a b c, behind a c = true → behind a b = true ∨ behind b c = true

/-- The pass, with the element that is carried along. -/
def bubblePass (behind : α → α → Bool) : α → List α → List α
  | carried, [] => [carried]
  | carried, x :: rest => if behind carried x then x :: bubblePass behind carried rest else carried :: bubblePass behind x rest

def InOrder (behind : α → α → Bool) (list : List α) : Prop := list.Pairwise fun a b => behind a b = false

/-- No element has two before it that have to be behind it. -/
def NearlyInOrder (behind : α → α → Bool) (list : List α) : Prop :=
  ∀ front x back, list = front ++ x :: back → front.countP (fun y => behind y x) ≤ 1

variable {behind : α → α → Bool} {list rest : List α} {a b carried : α}

theorem Precedence.trans {c : α} (precedence : Precedence behind) (first : behind a b = true) (second : behind b c = true) :
    behind a c = true := by
  rcases precedence.cotrans a c b first with done | back
  · exact done
  · rw [precedence.asymm b c second] at back
    cases back

theorem bubblePass_perm (behind : α → α → Bool) (carried : α) (rest : List α) : (bubblePass behind carried rest).Perm (carried :: rest) := by
  induction rest generalizing carried with
  | nil => exact .refl _
  | cons x rest ih =>
    rw [bubblePass]
    split
    · exact ((ih carried).cons x).trans (.swap carried x rest)
    · exact (ih x).cons carried

theorem nearlyInOrder_single : NearlyInOrder behind [a] := by
  intro front x back split
  cases front with
  | nil => exact Nat.zero_le 1
  | cons y front =>
    have none := (List.cons.inj split).2
    cases front <;> cases none

/-- With one more in front, each of the others may have one less before it. -/
theorem nearlyInOrder_cons : NearlyInOrder behind (a :: list) ↔
    ∀ front x back, list = front ++ x :: back → front.countP (fun y => behind y x) + (if behind a x then 1 else 0) ≤ 1 := by
  constructor
  · intro nearly front x back split
    have bound := nearly (a :: front) x back (by rw [split, List.cons_append])
    rwa [List.countP_cons] at bound
  · intro bound front x back split
    cases front with
    | nil => exact Nat.zero_le 1
    | cons y front =>
      obtain ⟨same, split⟩ := List.cons.inj split
      rw [List.countP_cons, ← same]
      exact bound front x back split

theorem nearlyInOrder_cons_cons : NearlyInOrder behind (a :: b :: list) ↔ ∀ front x back, list = front ++ x :: back →
    front.countP (fun y => behind y x) + (if behind b x then 1 else 0) + (if behind a x then 1 else 0) ≤ 1 := by
  rw [nearlyInOrder_cons]
  constructor
  · intro bound front x back split
    have more := bound (b :: front) x back (by rw [split, List.cons_append])
    rwa [List.countP_cons] at more
  · intro bound front x back split
    cases front with
    | nil =>
      rw [List.countP_nil]
      split <;> decide
    | cons y front =>
      obtain ⟨same, split⟩ := List.cons.inj split
      rw [List.countP_cons, ← same]
      exact bound front x back split

/-- One that has to be behind neither of the two in front only asks for the other. -/
theorem nearlyInOrder_skip (least : ∀ x ∈ list, behind b x = false) :
    (NearlyInOrder behind (a :: b :: list) ↔ NearlyInOrder behind (a :: list)) ∧
    (NearlyInOrder behind (b :: a :: list) ↔ NearlyInOrder behind (a :: list)) := by
  rw [nearlyInOrder_cons_cons, nearlyInOrder_cons_cons, nearlyInOrder_cons]
  have none (front : List α) (x : α) (back : List α) (split : list = front ++ x :: back) : behind b x = false := by
    apply least
    rw [split]
    exact List.mem_append_right front List.mem_cons_self
  constructor
  · constructor
    · intro bound front x back split
      have more := bound front x back split
      rwa [none front x back split, if_neg Bool.false_ne_true, Nat.add_zero] at more
    · intro bound front x back split
      rw [none front x back split, if_neg Bool.false_ne_true, Nat.add_zero]
      exact bound front x back split
  · constructor
    · intro bound front x back split
      have more := bound front x back split
      rwa [none front x back split, if_neg Bool.false_ne_true, Nat.add_zero] at more
    · intro bound front x back split
      rw [none front x back split, if_neg Bool.false_ne_true, Nat.add_zero]
      exact bound front x back split

/-- In a list that is nearly in order, what both in front have to be behind is not there. -/
theorem NearlyInOrder.not_both {x : α} (nearly : NearlyInOrder behind (a :: b :: list)) (member : x ∈ list)
    (first : behind a x = true) : behind b x = false := by
  obtain ⟨front, back, split⟩ := List.append_of_mem member
  have bound := nearlyInOrder_cons_cons.mp nearly front x back split
  rw [first, if_pos rfl] at bound
  cases second : behind b x with
  | false => rfl
  | true =>
    rw [second, if_pos rfl] at bound
    omega

theorem bubblePass_inOrder_iff (precedence : Precedence behind) : InOrder behind (bubblePass behind carried rest) ↔ NearlyInOrder behind (carried :: rest) := by
  induction rest generalizing carried with
  | nil => exact iff_of_true (List.pairwise_singleton _ _) nearlyInOrder_single
  | cons x rest ih =>
    rw [bubblePass]
    by_cases carry : behind carried x = true
    · rw [if_pos carry, InOrder, List.pairwise_cons]
      have back := precedence.asymm carried x carry
      constructor
      · rintro ⟨least, ordered⟩
        have none : ∀ y ∈ rest, behind x y = false :=
          fun y member => least y ((bubblePass_perm behind carried rest).mem_iff.mpr (List.mem_cons_of_mem _ member))
        exact (nearlyInOrder_skip none).1.mpr (ih.mp ordered)
      · intro nearly
        have none : ∀ y ∈ rest, behind x y = false := by
          intro y member
          cases later : behind x y with
          | false => rfl
          | true =>
            have both := nearly.not_both member (precedence.trans carry later)
            rw [later] at both
            cases both
        refine ⟨?_, ih.mpr ((nearlyInOrder_skip none).1.mp nearly)⟩
        intro y member
        rcases List.mem_cons.mp ((bubblePass_perm behind carried rest).mem_iff.mp member) with rfl | member
        · exact back
        · exact none y member
    · rw [if_neg carry, InOrder, List.pairwise_cons]
      rw [Bool.not_eq_true] at carry
      constructor
      · rintro ⟨least, ordered⟩
        have none : ∀ y ∈ rest, behind carried y = false :=
          fun y member => least y ((bubblePass_perm behind x rest).mem_iff.mpr (List.mem_cons_of_mem _ member))
        exact (nearlyInOrder_skip none).2.mpr (ih.mp ordered)
      · intro nearly
        have none : ∀ y ∈ rest, behind carried y = false := by
          intro y member
          cases later : behind carried y with
          | false => rfl
          | true =>
            have both := nearly.not_both member later
            rcases precedence.cotrans carried x y later with early | late
            · rw [carry] at early
              cases early
            · rw [late] at both
              cases both
        refine ⟨?_, ih.mpr ((nearlyInOrder_skip none).2.mp nearly)⟩
        intro y member
        rcases List.mem_cons.mp ((bubblePass_perm behind x rest).mem_iff.mp member) with rfl | member
        · exact carry
        · exact none y member

end Comp310.Lib
