import Comp310.Lib.Chains

/-! Lists of doubly linked cells between two cells of their own. A heap holds any number of
such lists, each with its content, and other pieces that are in none of them. -/

namespace Comp310.Lib

/-- The two cells that a list starts and ends with. -/
structure Ends (α : Type) where
  head : α
  tail : α
  deriving DecidableEq

variable {α : Type}

/-- The cells of a list, its own two at the ends. -/
def Ends.nodes (list : Ends α) (cells : List α) : List α := list.head :: (cells ++ [list.tail])

/-- The cell before a position, which has `xs` before it. -/
def Ends.before (list : Ends α) (xs : List α) : α := xs.getLastD list.head

/-- The cell at a position, which has `ys` from there on. -/
def Ends.at (list : Ends α) (ys : List α) : α := ys.headD list.tail

/-- The pointers hold the lists, each with what is in it, and the loose pieces. -/
structure Headed (links : Links α) (lists : List (Ends α × List α)) (loose : List (List α)) : Prop where
  pieces : Pieces links (lists.map (fun entry => entry.1.nodes entry.2) ++ loose)
  front : ∀ list ∈ lists.map (·.1), links.prev list.head = none
  back : ∀ list ∈ lists.map (·.1), links.next list.tail = none

variable {links : Links α} {list : Ends α} {lists lists' rest : List (Ends α × List α)} {loose loose' : List (List α)}
  {cells xs ys range : List α} {a b cell first last : α}

section Places

theorem nodes_range (list : Ends α) (xs range ys : List α) : list.nodes (xs ++ (range ++ ys)) =
    (list.head :: xs).dropLast ++ list.before xs :: (range ++ list.at ys :: (ys ++ [list.tail]).tail) := by
  have behind : ys ++ [list.tail] = list.at ys :: (ys ++ [list.tail]).tail := by
    cases ys <;> rfl
  have ahead : list.head :: xs = (list.head :: xs).dropLast ++ [list.before xs] := by
    rcases List.eq_nil_or_concat' xs with rfl | ⟨front, last, rfl⟩
    · rfl
    · rw [← List.cons_append, List.dropLast_concat, Ends.before, List.getLastD_concat]
  rw [Ends.nodes, List.append_assoc, List.append_assoc, behind, ← List.cons_append, List.tail_cons]
  conv_lhs => rw [ahead]
  rw [List.append_assoc, List.singleton_append]

theorem nodes_split (list : Ends α) (xs ys : List α) : list.nodes (xs ++ ys) =
    (list.head :: xs).dropLast ++ list.before xs :: list.at ys :: (ys ++ [list.tail]).tail := nodes_range list xs [] ys

theorem before_concat (list : Ends α) (xs : List α) (a : α) : list.before (xs ++ [a]) = a := List.getLastD_concat

theorem at_cons : list.at (a :: ys) = a := rfl

end Places

namespace Headed

theorem perm (hold : Headed links lists loose) (same : lists.Perm lists') : Headed links lists' loose := by
  refine ⟨hold.pieces.perm ((same.map _).append_right loose), fun list member => ?_, fun list member => ?_⟩
  · exact hold.front list ((same.map _).mem_iff.mpr member)
  · exact hold.back list ((same.map _).mem_iff.mpr member)

variable (hold : Headed links ((list, xs ++ ys) :: rest) loose)
include hold

theorem joins : links.Joined (list.before xs) (list.at ys) := by
  have pieces := hold.pieces
  rw [List.map_cons, List.cons_append, nodes_split] at pieces
  exact pieces.joins

theorem next : links.next (list.before xs) = some (list.at ys) := hold.joins.1

theorem prev : links.prev (list.at ys) = some (list.before xs) := hold.joins.2

end Headed

section Members

theorem before_mem (list : Ends α) (xs ys : List α) : list.before xs ∈ list.nodes (xs ++ ys) := by
  rw [nodes_split]
  exact List.mem_append_right _ List.mem_cons_self

theorem at_mem (list : Ends α) (xs ys : List α) : list.at ys ∈ list.nodes (xs ++ ys) := by
  rw [nodes_split]
  exact List.mem_append_right _ (List.mem_cons_of_mem _ List.mem_cons_self)

theorem Headed.loose_apart (hold : Headed links lists (range :: loose)) (member : cell ∈ range) (entry : Ends α × List α)
    (listed : entry ∈ lists) : cell ∉ entry.1.nodes entry.2 := by
  intro inside
  have apart := hold.pieces.apart
  rw [List.flatten_append] at apart
  refine (List.nodup_append.mp apart).2.2 cell ?_ cell ?_ rfl
  · exact List.mem_flatten.mpr ⟨_, List.mem_map_of_mem listed, inside⟩
  · exact List.mem_flatten.mpr ⟨range, List.mem_cons_self, member⟩

theorem head_mem (list : Ends α) (cells : List α) : list.head ∈ list.nodes cells := List.mem_cons_self

theorem tail_mem (list : Ends α) (cells : List α) : list.tail ∈ list.nodes cells :=
  List.mem_cons_of_mem _ (List.mem_append_right _ List.mem_cons_self)

theorem Headed.ne_ends (hold : Headed links lists (range :: loose)) (member : cell ∈ range) :
    ∀ list ∈ lists.map (·.1), cell ≠ list.head ∧ cell ≠ list.tail := by
  intro list listed
  obtain ⟨entry, there, rfl⟩ := List.mem_map.mp listed
  have free := hold.loose_apart member entry there
  constructor
  · rintro rfl
    exact free (head_mem _ _)
  · rintro rfl
    exact free (tail_mem _ _)

theorem Headed.ne_head (hold : Headed links lists loose) (linked : links.prev b = some a) : ∀ list ∈ lists.map (·.1), b ≠ list.head := by
  rintro list member rfl
  rw [hold.front list member] at linked
  cases linked

theorem Headed.ne_tail (hold : Headed links lists loose) (linked : links.next a = some b) : ∀ list ∈ lists.map (·.1), a ≠ list.tail := by
  rintro list member rfl
  rw [hold.back list member] at linked
  cases linked

theorem Headed.single (hold : Headed links lists loose) (free : ∀ entry ∈ lists, cell ∉ entry.1.nodes entry.2) (free' : cell ∉ loose.flatten) :
    Headed links lists ([cell] :: loose) := by
  refine ⟨?_, hold.front, hold.back⟩
  refine (hold.pieces.single fun member => ?_).perm List.perm_middle.symm
  rw [List.flatten_append, List.mem_append] at member
  rcases member with member | member
  · obtain ⟨piece, listed, inside⟩ := List.mem_flatten.mp member
    obtain ⟨entry, there, rfl⟩ := List.mem_map.mp listed
    exact free entry there inside
  · exact free' member

theorem Headed.forget (hold : Headed links lists (range :: loose)) : Headed links lists loose :=
  ⟨(hold.pieces.perm List.perm_middle).drop, hold.front, hold.back⟩

end Members

section Joining
variable [DecidableEq α]

/-- A join behind the last cell of no list, and before the first of none, keeps the ends. -/
theorem Headed.join (hold : Headed links lists loose) (first : ∀ list ∈ lists.map (·.1), b ≠ list.head)
    (second : ∀ list ∈ lists.map (·.1), a ≠ list.tail) (same : lists'.map (·.1) = lists.map (·.1))
    (pieces : Pieces (links.join a b) (lists'.map (fun entry => entry.1.nodes entry.2) ++ loose')) :
    Headed (links.join a b) lists' loose' := by
  refine ⟨pieces, fun list member => ?_, fun list member => ?_⟩
  · rw [same] at member
    exact (relink_other (first list member).symm).trans (hold.front list member)
  · rw [same] at member
    exact (relink_other (second list member).symm).trans (hold.back list member)

theorem Headed.takeOut (hold : Headed links ((list, xs ++ (range ++ ys)) :: rest) loose) :
    Headed (links.join (list.before xs) (list.at ys)) ((list, xs ++ ys) :: rest) (range :: loose) := by
  have next := hold.ne_tail hold.next
  have prev := (List.append_assoc xs range ys ▸ hold).prev
  have pieces := hold.pieces
  rw [List.map_cons, List.cons_append, nodes_range] at pieces
  refine hold.join (hold.ne_head prev) next rfl ?_
  rw [List.map_cons, List.cons_append, nodes_split]
  exact pieces.takeOut.perm (List.perm_middle.symm.cons _)

theorem Headed.putIn (hold : Headed links ((list, xs ++ ys) :: rest) (range :: loose)) (isFirst : range.head? = some first)
    (isLast : range.getLast? = some last) :
    Headed ((links.join (list.before xs) first).join last (list.at ys)) ((list, xs ++ (range ++ ys)) :: rest) loose := by
  have firstFree := hold.ne_ends (List.mem_of_mem_head? isFirst)
  have lastFree := hold.ne_ends (List.mem_of_mem_getLast? isLast)
  have pieces := hold.pieces
  rw [List.map_cons, List.cons_append, nodes_split] at pieces
  have joined := (pieces.perm (List.perm_middle.cons _)).putIn isFirst isLast
  refine ⟨?_, fun other member => ?_, fun other member => ?_⟩
  · rw [List.map_cons, List.cons_append, nodes_range]
    exact joined
  · refine (relink_other (hold.ne_head hold.prev other member).symm).trans ?_
    exact (relink_other (firstFree other member).1.symm).trans (hold.front other member)
  · refine (relink_other (lastFree other member).2.symm).trans ?_
    exact (relink_other (hold.ne_tail hold.next other member).symm).trans (hold.back other member)

theorem Headed.init (hold : Headed links lists loose) (differs : list.head ≠ list.tail) (nothing : links.prev list.head = none)
    (headFree : list.head ∉ (lists.map fun entry => entry.1.nodes entry.2).flatten ++ loose.flatten)
    (tailFree : list.tail ∉ (lists.map fun entry => entry.1.nodes entry.2).flatten ++ loose.flatten) :
    Headed ((links.setNext list.tail none).join list.head list.tail) ((list, []) :: lists) loose := by
  rw [← List.flatten_append] at headFree tailFree
  have apart (other : Ends α) (member : other ∈ lists.map (·.1)) : other.head ∈ (lists.map fun entry => entry.1.nodes entry.2).flatten ∧
      other.tail ∈ (lists.map fun entry => entry.1.nodes entry.2).flatten := by
    obtain ⟨entry, there, rfl⟩ := List.mem_map.mp member
    exact ⟨List.mem_flatten.mpr ⟨_, List.mem_map_of_mem there, head_mem _ _⟩,
      List.mem_flatten.mpr ⟨_, List.mem_map_of_mem there, tail_mem _ _⟩⟩
  have written := ((hold.pieces.setNext tailFree none).setNext headFree (some list.tail)).setPrev tailFree (some list.head)
  refine ⟨⟨fun piece member => ?_, ?_⟩, fun other member => ?_, fun other member => ?_⟩
  · rcases List.mem_cons.mp member with rfl | member
    · exact .cons_cons ⟨if_pos rfl, if_pos rfl⟩ (.singleton _)
    · exact written.joined piece member
  · have first : list.head ∉ list.tail :: (lists.map (fun entry => entry.1.nodes entry.2) ++ loose).flatten :=
      List.not_mem_cons_of_ne_of_not_mem differs headFree
    exact List.nodup_cons.mpr ⟨first, List.nodup_cons.mpr ⟨tailFree, hold.pieces.apart⟩⟩
  · rcases List.mem_cons.mp member with rfl | member
    · exact (relink_other differs).trans nothing
    · refine (relink_other ?_).trans (hold.front other member)
      rintro same
      rw [List.flatten_append] at tailFree
      exact tailFree (List.mem_append_left _ (same ▸ (apart other member).1))
  · rcases List.mem_cons.mp member with rfl | member
    · exact (relink_other differs.symm).trans (if_pos rfl)
    · rw [List.flatten_append] at headFree tailFree
      refine (relink_other ?_).trans ((relink_other ?_).trans (hold.back other member))
      · rintro same
        exact headFree (List.mem_append_left _ (same ▸ (apart other member).2))
      · rintro same
        exact tailFree (List.mem_append_left _ (same ▸ (apart other member).2))

end Joining

end Comp310.Lib
