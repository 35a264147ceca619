import Mathlib.Data.List.Chain
import Mathlib.Data.List.Nodup
import Comp310.Lib.Linked

/-! Doubly linked cells in a heap, as pieces: in a piece each cell is joined to
the one behind it, in both directions. No cell is in two pieces, so a piece can
be cut anywhere and joined to another at its end, whatever else is in the heap. -/

namespace Comp310.Lib

structure Links (α : Type) where
  prev : α → Option α
  next : α → Option α

variable {α : Type}

namespace Links

def Joined (links : Links α) (a b : α) : Prop := links.next a = some b ∧ links.prev b = some a

variable [DecidableEq α]

def setPrev (links : Links α) (cell : α) (target : Option α) : Links α := { links with prev := relink links.prev cell target }

def setNext (links : Links α) (cell : α) (target : Option α) : Links α := { links with next := relink links.next cell target }

def join (links : Links α) (a b : α) : Links α := (links.setNext a (some b)).setPrev b (some a)

end Links

/-- The heap holds the pieces, apart from each other. -/
structure Pieces (links : Links α) (pieces : List (List α)) : Prop where
  joined : ∀ piece ∈ pieces, piece.IsChain links.Joined
  apart : pieces.flatten.Nodup

variable {links : Links α} {pieces pieces' rest : List (List α)} {piece front back : List α} {a b u v : α}

namespace Pieces

theorem perm (held : Pieces links pieces) (same : pieces.Perm pieces') : Pieces links pieces' :=
  ⟨fun piece member => held.joined piece (same.mem_iff.mpr member), (same.flatten.nodup_iff).mp held.apart⟩

theorem cut (held : Pieces links ((front ++ back) :: rest)) : Pieces links (front :: back :: rest) := by
  have whole := List.isChain_append.mp (held.joined _ List.mem_cons_self)
  constructor
  · intro piece member
    rcases List.mem_cons.mp member with rfl | member
    · exact whole.1
    · rcases List.mem_cons.mp member with rfl | member
      · exact whole.2.1
      · exact held.joined piece (List.mem_cons_of_mem _ member)
  · simpa only [List.flatten_cons, List.append_assoc] using held.apart

theorem drop (held : Pieces links (piece :: rest)) : Pieces links rest :=
  ⟨fun piece member => held.joined piece (List.mem_cons_of_mem _ member), (List.nodup_append.mp held.apart).2.1⟩

theorem single (held : Pieces links rest) (free : a ∉ rest.flatten) : Pieces links ([a] :: rest) := by
  constructor
  · intro piece member
    rcases List.mem_cons.mp member with rfl | member
    · exact .singleton a
    · exact held.joined piece member
  · exact List.nodup_cons.mpr ⟨free, held.apart⟩

theorem empty (held : Pieces links rest) : Pieces links ([] :: rest) := by
  constructor
  · intro piece member
    rcases List.mem_cons.mp member with rfl | member
    · exact .nil
    · exact held.joined piece member
  · exact held.apart

theorem joins (held : Pieces links ((front ++ a :: b :: back) :: rest)) : links.Joined a b := by
  have whole := held.joined _ List.mem_cons_self
  exact (List.isChain_cons_cons.mp (List.isChain_append.mp whole).2.1).1

theorem next (held : Pieces links ((front ++ a :: b :: back) :: rest)) : links.next a = some b := held.joins.1

theorem prev (held : Pieces links ((front ++ a :: b :: back) :: rest)) : links.prev b = some a := held.joins.2

end Pieces

section Joining
variable [DecidableEq α]

theorem setNext_comm (links : Links α) {first second : Option α} (differs : a ≠ b) :
    (links.setNext a first).setNext b second = (links.setNext b second).setNext a first := by
  unfold Links.setNext
  congr 1
  funext cell
  change (if cell = b then second else if cell = a then first else links.next cell) =
    if cell = a then first else if cell = b then second else links.next cell
  by_cases mine : cell = a
  · rw [if_pos mine, if_pos mine, if_neg (fun other => differs (mine.symm.trans other))]
  · rw [if_neg mine, if_neg mine]

theorem setPrev_comm (links : Links α) {first second : Option α} (differs : a ≠ b) :
    (links.setPrev a first).setPrev b second = (links.setPrev b second).setPrev a first := by
  unfold Links.setPrev
  congr 1
  funext cell
  change (if cell = b then second else if cell = a then first else links.prev cell) =
    if cell = a then first else if cell = b then second else links.prev cell
  by_cases mine : cell = a
  · rw [if_pos mine, if_pos mine, if_neg (fun other => differs (mine.symm.trans other))]
  · rw [if_neg mine, if_neg mine]

theorem join_next : (links.join a b).next u = if u = a then some b else links.next u := rfl

theorem join_prev : (links.join a b).prev v = if v = b then some a else links.prev v := rfl

theorem joined_join : (links.join a b).Joined u v ↔ u = a ∧ v = b ∨ u ≠ a ∧ v ≠ b ∧ links.Joined u v := by
  unfold Links.Joined
  rw [join_next, join_prev]
  by_cases first : u = a
  · rw [if_pos first, Option.some_inj]
    constructor
    · exact fun joined => .inl ⟨first, joined.1.symm⟩
    · rintro (⟨_, second⟩ | ⟨other, _⟩)
      · exact ⟨second.symm, by rw [if_pos second, first]⟩
      · exact absurd first other
  · rw [if_neg first]
    by_cases second : v = b
    · rw [if_pos second, Option.some_inj]
      constructor
      · exact fun joined => absurd joined.2.symm first
      · rintro (⟨same, _⟩ | ⟨_, other, _⟩)
        · exact absurd same first
        · exact absurd second other
    · rw [if_neg second]
      constructor
      · exact fun joined => .inr ⟨first, second, joined⟩
      · rintro (⟨same, _⟩ | ⟨_, _, joined⟩)
        · exact absurd same first
        · exact joined

theorem Pieces.setPrev (held : Pieces links pieces) (free : b ∉ pieces.flatten) (target : Option α) : Pieces (links.setPrev b target) pieces := by
  refine ⟨fun piece member => ?_, held.apart⟩
  refine List.IsChain.imp_of_mem_imp (fun u v _ second link => ⟨link.1, (relink_other ?_).trans link.2⟩) (held.joined piece member)
  rintro rfl
  exact free (List.mem_flatten.mpr ⟨piece, member, second⟩)

theorem Pieces.setNext (held : Pieces links pieces) (free : a ∉ pieces.flatten) (target : Option α) : Pieces (links.setNext a target) pieces := by
  refine ⟨fun piece member => ?_, held.apart⟩
  refine List.IsChain.imp_of_mem_imp (fun u v first _ link => ⟨(relink_other ?_).trans link.1, link.2⟩) (held.joined piece member)
  rintro rfl
  exact free (List.mem_flatten.mpr ⟨piece, member, first⟩)

theorem isChain_join (joined : piece.IsChain links.Joined) (first : a ∉ piece.dropLast) (second : b ∉ piece.tail) :
    piece.IsChain (links.join a b).Joined := by
  induction joined with
  | nil => exact .nil
  | singleton u => exact .singleton u
  | cons_cons link joined ih =>
    rename_i u v rest
    rw [List.dropLast_cons_cons, List.mem_cons, not_or] at first
    rw [List.tail_cons, List.mem_cons, not_or] at second
    refine .cons_cons (joined_join.mpr (.inr ⟨Ne.symm first.1, Ne.symm second.1, link⟩)) (ih first.2 ?_)
    rw [List.tail_cons]
    exact second.2

/-- The last cell of one piece is joined to the first of another. -/
theorem Pieces.join (held : Pieces links ((front ++ [a]) :: (b :: back) :: rest)) :
    Pieces (links.join a b) ((front ++ a :: b :: back) :: rest) := by
  obtain ⟨joined, apart⟩ := held
  have before := joined _ List.mem_cons_self
  have behind := joined _ (List.mem_cons_of_mem _ List.mem_cons_self)
  rw [List.flatten_cons, List.flatten_cons] at apart
  obtain ⟨nodup₁, nodup, disjoint⟩ := List.nodup_append.mp apart
  obtain ⟨nodup₂, -, disjoint'⟩ := List.nodup_append.mp nodup
  have lastOnly : a ∉ front := by
    intro member
    exact (List.nodup_append.mp nodup₁).2.2 a member a List.mem_cons_self rfl
  have firstOnly : b ∉ back := (List.nodup_cons.mp nodup₂).1
  have across (cell : α) (left : cell ∈ front ++ [a]) (right : cell ∈ (b :: back) ++ rest.flatten) : False :=
    disjoint cell left cell right rfl
  constructor
  · intro piece member
    rcases List.mem_cons.mp member with rfl | member
    · rw [← List.singleton_append (l := b :: back), ← List.append_assoc, List.isChain_append]
      refine ⟨isChain_join before ?_ ?_, isChain_join behind ?_ ?_, ?_⟩
      · rwa [List.dropLast_concat]
      · intro member
        exact across b (List.mem_of_mem_tail member) (List.mem_append_left _ List.mem_cons_self)
      · intro member
        exact across a (List.mem_append_right _ List.mem_cons_self) (List.mem_append_left _ (List.dropLast_subset _ member))
      · exact firstOnly
      · intro last isLast first isFirst
        rw [List.getLast?_concat] at isLast
        cases isLast
        cases isFirst
        exact joined_join.mpr (.inl ⟨rfl, rfl⟩)
    · refine isChain_join (joined piece (List.mem_cons_of_mem _ (List.mem_cons_of_mem _ member))) ?_ ?_
      · intro inside
        exact across a (List.mem_append_right _ List.mem_cons_self)
          (List.mem_append_right _ (List.mem_flatten.mpr ⟨piece, member, List.dropLast_subset _ inside⟩))
      · intro inside
        exact disjoint' b List.mem_cons_self b (List.mem_flatten.mpr ⟨piece, member, List.mem_of_mem_tail inside⟩) rfl
  · simpa only [List.flatten_cons, List.append_assoc, List.nil_append, List.cons_append] using apart

theorem Pieces.takeOut {range : List α} (held : Pieces links ((front ++ a :: (range ++ b :: back)) :: rest)) :
    Pieces (links.join a b) ((front ++ a :: b :: back) :: range :: rest) := by
  rw [List.append_cons] at held
  have parts := (held.cut.perm (.swap ..)).cut
  have turned := (parts.perm (.swap ..)).perm ((List.Perm.swap ..).cons _)
  exact (turned.perm (.swap ..)).join

theorem Pieces.putIn {range : List α} {first last : α} (isFirst : range.head? = some first) (isLast : range.getLast? = some last)
    (held : Pieces links ((front ++ a :: b :: back) :: range :: rest)) :
    Pieces ((links.join a first).join last b) ((front ++ a :: (range ++ b :: back)) :: rest) := by
  obtain ⟨later, rfl⟩ := List.head?_eq_some_iff.mp isFirst
  obtain ⟨earlier, same⟩ := List.getLast?_eq_some_iff.mp isLast
  rw [List.append_cons] at held
  have parts := held.cut
  have first := (parts.perm ((List.Perm.swap ..).cons _)).join
  rw [same, List.append_cons, ← List.append_assoc] at first
  have both := first.join
  rw [same]
  simpa only [List.append_assoc, List.cons_append, List.nil_append] using both

end Joining

end Comp310.Lib
