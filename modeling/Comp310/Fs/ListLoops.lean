import Mathlib.Data.List.Sort
import Comp310.Fs.ListSort

/-! The other loops of list.c: they walk along a list, and put in, take out or turn round elements of it. -/

namespace Comp310.Fs
open Comp310.Lib

variable {heap : ListHeap} {links : Links Elem} {panics : Nat} {list : LList} {rest : Lists} {loose : List (List Elem)}
  {cells front xs ys : List Elem} {x y a e : Elem} {less : Elem → Elem → Bool} {fuel : Nat}

section Reversing

/-- The pointers after those of the given elements have changed places. -/
def turned (links : Links Elem) (cells : List Elem) : Links Elem where
  prev e := if e ∈ cells then links.next e else links.prev e
  next e := if e ∈ cells then links.prev e else links.next e

theorem swapElem_run : swapElem e ⟨links, panics⟩ = some (⟨⟩, ⟨turned links [e], panics⟩) := by
  have same : (links.setPrev e (links.next e)).setNext e (links.prev e) = turned links [e] := by
    unfold turned Links.setPrev Links.setNext relink
    congr 1
    all_goals
      funext cell
      simp only [List.mem_singleton]
      split
      next mine => rw [mine]
      next => rfl
  rw [← same]
  rfl

theorem turned_turned (apart : y ∉ ys) : turned (turned links [y]) ys = turned links (y :: ys) := by
  unfold turned
  congr 1
  all_goals
    funext cell
    by_cases first : cell = y
    · simp [first, apart]
    · simp [first]

theorem reverseLoop_run (chain : (ys ++ [list.tail]).IsChain fun a b => links.next a = some b) (nodup : (ys ++ [list.tail]).Nodup)
    (enough : ys.length < fuel) : reverseLoop list fuel (list.at ys) ⟨links, panics⟩ = some (⟨⟩, ⟨turned links ys, panics⟩) := by
  induction ys generalizing links fuel with
  | nil =>
    obtain ⟨fuel, rfl⟩ := Nat.exists_eq_succ_of_ne_zero (Nat.ne_of_gt enough)
    rw [reverseLoop, if_pos (show list.at [] = listEnd list from rfl)]
    rfl
  | cons y ys ih =>
    obtain ⟨fuel, rfl⟩ := Nat.exists_eq_succ_of_ne_zero (Nat.ne_of_gt (Nat.zero_lt_of_lt enough))
    rw [List.cons_append] at chain nodup
    obtain ⟨apart, nodup⟩ := List.nodup_cons.mp nodup
    have going : y ≠ listEnd list := fun same => apart (List.mem_append_right _ (List.mem_singleton.mpr same))
    have notThere : y ∉ ys := fun member => apart (List.mem_append_left _ member)
    have next : links.next y = some (list.at ys) := by
      cases ys with
      | nil => exact (List.isChain_cons_cons.mp chain).1
      | cons z zs => exact (List.isChain_cons_cons.mp chain).1
    have prev : (turned links [y]).prev y = some (list.at ys) := (if_pos (List.mem_singleton_self y)).trans next
    have later : (ys ++ [list.tail]).IsChain fun a b => (turned links [y]).next a = some b := by
      refine List.IsChain.imp_of_mem_imp (fun a b first second link => ?_) (List.IsChain.tail chain)
      refine (if_neg fun same => ?_).trans link
      cases List.mem_singleton.mp same
      exact apart first
    rw [reverseLoop, at_cons, if_neg going, run_bind swapElem_run, run_bind (getPrev_run prev), ih later nodup (Nat.lt_of_succ_lt_succ enough),
      turned_turned notThere]

/-- A piece whose pointers are turned round is a piece from its other end. -/
theorem turned_pieces {pieces : List (List Elem)} (held : Pieces links (cells :: pieces)) : Pieces (turned links cells) (cells.reverse :: pieces) := by
  constructor
  · intro piece member
    rcases List.mem_cons.mp member with rfl | member
    · rw [List.isChain_reverse]
      refine List.IsChain.imp_of_mem_imp (fun a b first second link => ?_) (held.joined cells List.mem_cons_self)
      exact ⟨(if_pos second).trans link.2, (if_pos first).trans link.1⟩
    · have apart (e : Elem) (inside : e ∈ piece) : e ∉ cells := by
        intro there
        exact (List.nodup_append.mp held.apart).2.2 e there e (List.mem_flatten.mpr ⟨piece, member, inside⟩) rfl
      refine List.IsChain.imp_of_mem_imp (fun a b first second link => ?_) (held.joined piece (List.mem_cons_of_mem _ member))
      exact ⟨(if_neg (apart a first)).trans link.1, (if_neg (apart b second)).trans link.2⟩
  · rw [List.flatten_cons]
    exact ((List.reverse_perm cells).append_right _).nodup_iff.mpr held.apart

theorem Hold.listEmpty_run (hold : Hold heap ((list, cells) :: rest) loose) : listEmpty list heap = some (cells.isEmpty, heap) := by
  rw [listEmpty, run_bind hold.listBegin_run]
  cases cells with
  | nil => rw [show (list.at [] == listEnd list) = true from beq_self_eq_true _]; rfl
  | cons y ys =>
    rw [← List.nil_append (y :: ys)] at hold
    rw [show (list.at (y :: ys) == listEnd list) = false from beq_eq_false_iff_ne.mpr hold.ne_tail_cell]
    rfl

theorem Hold.next_head (hold : Hold heap ((list, cells) :: rest) loose) : heap.links.next list.head = some (list.at cells) := by
  have next : heap.links.next (list.before []) = _ := hold.next
  exact next

theorem Hold.prev_tail (hold : Hold heap ((list, cells) :: rest) loose) : heap.links.prev list.tail = some (list.before cells) := by
  rw [← List.append_nil cells] at hold
  have prev : heap.links.prev (list.at []) = _ := hold.prev
  exact prev

/-- An element of a list has one before it and one behind it. -/
theorem Hold.linked (hold : Hold heap ((list, cells) :: rest) loose) (member : e ∈ cells) :
    (∃ p, heap.links.prev e = some p) ∧ ∃ n, heap.links.next e = some n := by
  obtain ⟨xs, ys, rfl⟩ := List.append_of_mem member
  refine ⟨⟨_, hold.prev⟩, ?_⟩
  rw [List.append_cons] at hold
  have next := hold.next
  rw [before_concat] at next
  exact ⟨_, next⟩

theorem swapNextPrev_run (links : Links Elem) (first second : Elem) : swapNextPrev first second ⟨links, panics⟩ =
    some (⟨⟩, ⟨(links.setNext first (links.prev second)).setPrev second (links.next first), panics⟩) := rfl

/-- The ends of a list, joined to what has been turned round between them. -/
theorem Hold.turn {f l : Elem} (hold : Hold ⟨links, panics⟩ ((list, cells) :: rest) loose) (isFirst : cells.head? = some f)
    (isLast : cells.getLast? = some l) :
    Hold ⟨((turned links cells).join list.head l).join f list.tail, panics⟩ ((list, cells.reverse) :: rest) loose := by
  have pieces := hold.pieces
  rw [List.map_cons, List.cons_append, Ends.nodes, ← List.singleton_append (l := cells ++ [list.tail])] at pieces
  have parts := turned_pieces ((pieces.cut.perm (.swap ..)).cut)
  obtain ⟨ds, same⟩ := List.getLast?_eq_some_iff.mp isLast
  obtain ⟨cs, same'⟩ := List.head?_eq_some_iff.mp isFirst
  have ahead : cells.reverse = l :: ds.reverse := by
    rw [same, List.reverse_concat]
  have behind : cells.reverse = cs.reverse ++ [f] := by
    rw [same', List.reverse_cons]
  rw [ahead] at parts
  have order : Pieces (turned links cells) (([] ++ [list.head]) :: (l :: ds.reverse) :: [list.tail] :: _) :=
    (parts.perm ((List.Perm.swap ..).cons _)).perm (.swap ..)
  have first := order.join
  rw [List.nil_append, ← ahead, behind, ← List.cons_append] at first
  have both := first.join
  have firstMember : f ∈ cells := List.mem_of_mem_head? isFirst
  have lastMember : l ∈ cells := List.mem_of_mem_getLast? isLast
  have headFree (other : LList) (member : other ∈ ((list, cells) :: rest).map (·.1)) : other.head ∉ cells ∧ other.head ≠ list.tail := by
    constructor
    · intro inside
      obtain ⟨⟨p, link⟩, -⟩ := hold.linked inside
      exact hold.ne_head link other member rfl
    · exact (hold.ne_head hold.prev_tail other member).symm
  have tailFree (other : LList) (member : other ∈ ((list, cells) :: rest).map (·.1)) : other.tail ∉ cells ∧ other.tail ≠ list.head := by
    constructor
    · intro inside
      obtain ⟨-, n, link⟩ := hold.linked inside
      exact hold.ne_tail link other member rfl
    · exact (hold.ne_tail hold.next_head other member).symm
  refine ⟨⟨?_, fun other member => ?_, fun other member => ?_⟩, hold.quiet⟩
  · rw [List.map_cons, List.cons_append, Ends.nodes, behind, List.append_assoc]
    exact both
  · obtain ⟨apart, differs⟩ := headFree other member
    refine (relink_other differs).trans ((relink_other ?_).trans ((if_neg apart).trans (hold.front other member)))
    rintro rfl
    exact apart lastMember
  · obtain ⟨apart, differs⟩ := tailFree other member
    refine (relink_other ?_).trans ((relink_other differs).trans ((if_neg apart).trans (hold.back other member)))
    rintro rfl
    exact apart firstMember

theorem listReverse_wp (hold : Hold heap ((list, cells) :: rest) loose) (enough : cells.length < fuel) :
    Wp (listReverse fuel list) (fun _ heap' => Hold heap' ((list, cells.reverse) :: rest) loose) heap := by
  rw [listReverse, wp_bind]
  refine .of_eq hold.listEmpty_run ?_
  rcases List.eq_nil_or_concat' cells with rfl | ⟨ds, l, same⟩
  · exact (wp_pure _).mpr hold
  obtain ⟨f, cs, rfl⟩ : ∃ f cs, cells = f :: cs := List.exists_cons_of_ne_nil (by rw [same]; exact List.append_ne_nil_of_right_ne_nil _ (List.cons_ne_nil _ _))
  obtain ⟨links, panics⟩ := heap
  have turn := hold.turn rfl (show (f :: cs).getLast? = some l by rw [same, List.getLast?_concat])
  have nodup : (list.head :: (f :: cs ++ [list.tail])).Nodup := hold.nodup
  obtain ⟨headApart, nodup⟩ := List.nodup_cons.mp nodup
  have chain := (hold.pieces.joined _ List.mem_cons_self).tail
  have tailApart : list.tail ∉ f :: cs := fun member => (List.nodup_append.mp nodup).2.2 _ member _ List.mem_cons_self rfl
  have headApart' : list.head ∉ f :: cs := fun member => headApart (List.mem_append_left _ member)
  have lastMember : l ∈ f :: cs := by
    rw [same]
    exact List.mem_append_right _ List.mem_cons_self
  have prevTail : (turned links (f :: cs)).prev list.tail = some l := by
    refine (if_neg tailApart).trans (hold.prev_tail.trans ?_)
    rw [same, before_concat]
  have nextHead : (turned links (f :: cs)).next list.head = some f := (if_neg headApart').trans hold.next_head
  rw [List.isEmpty_cons, if_neg Bool.false_ne_true, wp_bind]
  refine .of_eq hold.listBegin_run ?_
  rw [wp_bind]
  refine .of_eq (reverseLoop_run (chain.imp fun _ _ => And.left) nodup enough) ?_
  rw [wp_bind]
  refine .of_eq (swapNextPrev_run _ _ _) ?_
  rw [prevTail, nextHead, wp_bind]
  refine .of_eq (getNext_run (b := l) (if_pos rfl)) ?_
  rw [wp_bind]
  refine .of_eq (getPrev_run (a := f) (if_pos rfl)) ?_
  refine .of_eq (swapNextPrev_run _ _ _) ?_
  -- the two ends, in the order in which they were joined
  have firstNext : (((turned links (f :: cs)).setNext list.head (some l)).setPrev list.tail (some f)).next f = some list.head := by
    have ahead : (ListHeap.mk links panics).links.prev (list.at (f :: cs)) = some (list.before []) := hold.prev
    refine (relink_other ?_).trans ((if_pos List.mem_cons_self).trans ahead)
    rintro rfl
    exact headApart' List.mem_cons_self
  have differs : list.tail ≠ l := by
    rintro rfl
    exact tailApart lastMember
  have lastPrev : (((turned links (f :: cs)).setNext list.head (some l)).setPrev list.tail (some f)).prev l = some list.tail := by
    rw [same, ← List.append_nil (ds ++ [l])] at hold
    have behind := hold.next
    rw [before_concat] at behind
    exact (relink_other differs.symm).trans ((if_pos lastMember).trans behind)
  rw [firstNext, lastPrev]
  rw [show ((((turned links (f :: cs)).setNext list.head (some l)).setPrev list.tail (some f)).setNext f (some list.tail)).setPrev l (some list.head) =
    ((turned links (f :: cs)).join list.head l).join f list.tail from
    setPrev_comm (((turned links (f :: cs)).setNext list.head (some l)).setNext f (some list.tail)) differs]
  exact turn

end Reversing

section Walking

theorem sizeLoop_run (cnt : Nat) (hold : Hold heap ((list, xs ++ ys) :: rest) loose) (enough : ys.length < fuel) :
    sizeLoop list fuel (list.at ys) cnt heap = some (cnt + ys.length, heap) := by
  induction ys generalizing xs fuel cnt with
  | nil =>
    obtain ⟨fuel, rfl⟩ := Nat.exists_eq_succ_of_ne_zero (Nat.ne_of_gt enough)
    rw [sizeLoop, if_pos (show list.at [] = listEnd list from rfl)]
    rfl
  | cons y ys ih =>
    obtain ⟨fuel, rfl⟩ := Nat.exists_eq_succ_of_ne_zero (Nat.ne_of_gt (Nat.zero_lt_of_lt enough))
    rw [sizeLoop, at_cons, if_neg (show y ≠ listEnd list from hold.ne_tail_cell), run_bind hold.listNext_run]
    rw [List.append_cons] at hold
    rw [ih (cnt + 1) hold (Nat.lt_of_succ_lt_succ enough), List.length_cons, Nat.add_assoc, Nat.add_comm 1]

theorem listSize_run (hold : Hold heap ((list, cells) :: rest) loose) (enough : cells.length < fuel) :
    listSize fuel list heap = some (cells.length, heap) := by
  have whole : Hold heap ((list, [] ++ cells) :: rest) loose := hold
  rw [listSize, run_bind hold.listBegin_run, sizeLoop_run 0 whole enough, Nat.zero_add]

theorem insertLoop_run {elem : Elem} (hold : Hold heap ((list, xs ++ ys) :: rest) loose) (enough : ys.length < fuel) :
    insertLoop less list elem fuel (list.at ys) heap = some (list.at (ys.dropWhile fun b => ¬ less elem b = true), heap) := by
  induction ys generalizing xs fuel with
  | nil =>
    obtain ⟨fuel, rfl⟩ := Nat.exists_eq_succ_of_ne_zero (Nat.ne_of_gt enough)
    rw [insertLoop, if_pos (show list.at [] = listEnd list from rfl)]
    rfl
  | cons y ys ih =>
    obtain ⟨fuel, rfl⟩ := Nat.exists_eq_succ_of_ne_zero (Nat.ne_of_gt (Nat.zero_lt_of_lt enough))
    rw [insertLoop, at_cons, if_neg (show y ≠ listEnd list from hold.ne_tail_cell), List.dropWhile_cons]
    by_cases order : less elem y = true
    · rw [if_pos order, if_neg (by simpa using order)]
      rfl
    · rw [if_neg order, if_pos (by simpa using order), run_bind hold.listNext_run]
      rw [List.append_cons] at hold
      exact ih hold (Nat.lt_of_succ_lt_succ enough)

theorem listInsertOrdered_wp {elem : Elem} (hold : Hold heap ((list, cells) :: rest) ([elem] :: loose)) (enough : cells.length < fuel) :
    Wp (listInsertOrdered less fuel list elem)
      (fun _ heap' => Hold heap' ((list, cells.orderedInsert (fun a b => less a b = true) elem) :: rest) loose) heap := by
  have whole : Hold heap ((list, [] ++ cells) :: rest) ([elem] :: loose) := hold
  rw [listInsertOrdered, wp_bind]
  refine .of_eq hold.listBegin_run ?_
  rw [wp_bind]
  refine .of_eq (insertLoop_run whole enough) ?_
  rw [List.orderedInsert_eq_take_drop]
  apply listInsert_wp
  rwa [List.takeWhile_append_dropWhile]

/-- The first of the elements that none is better than. -/
def FirstBest (better : Elem → Elem → Bool) (cells : List Elem) (x : Elem) : Prop :=
  ∃ front back, cells = front ++ x :: back ∧ (∀ e ∈ front, better e x = true) ∧ ∀ e ∈ back, better x e = false

theorem FirstBest.next {better : Elem → Elem → Bool} (precedence : Precedence better) (best : FirstBest better xs x) (y : Elem) :
    FirstBest better (xs ++ [y]) (if better x y then y else x) := by
  obtain ⟨front, back, rfl, worse, notBetter⟩ := best
  cases order : better x y with
  | true =>
    rw [if_pos rfl]
    refine ⟨front ++ x :: back, [], rfl, fun e member => ?_, fun e member => nomatch member⟩
    rcases List.mem_append.mp member with member | member
    · exact precedence.trans (worse e member) order
    · rcases List.mem_cons.mp member with rfl | member
      · exact order
      · refine (precedence.cotrans x e y order).resolve_left ?_
        rw [notBetter e member]
        exact Bool.false_ne_true
  | false =>
    rw [if_neg Bool.false_ne_true]
    refine ⟨front, back ++ [y], by rw [List.append_assoc, List.cons_append], worse, fun e member => ?_⟩
    rcases List.mem_append.mp member with member | member
    · exact notBetter e member
    · cases List.mem_singleton.mp member
      exact order

theorem bestLoop_run {better : Elem → Elem → Bool} (precedence : Precedence better) (hold : Hold heap ((list, xs ++ ys) :: rest) loose)
    (best : FirstBest better xs x) (enough : ys.length < fuel) :
    ∃ y, bestLoop better list fuel x (list.at ys) heap = some (y, heap) ∧ FirstBest better (xs ++ ys) y := by
  induction ys generalizing xs x fuel with
  | nil =>
    obtain ⟨fuel, rfl⟩ := Nat.exists_eq_succ_of_ne_zero (Nat.ne_of_gt enough)
    refine ⟨x, ?_, (List.append_nil xs).symm ▸ best⟩
    rw [bestLoop, if_pos (show list.at [] = listEnd list from rfl)]
    rfl
  | cons y ys ih =>
    obtain ⟨fuel, rfl⟩ := Nat.exists_eq_succ_of_ne_zero (Nat.ne_of_gt (Nat.zero_lt_of_lt enough))
    rw [bestLoop, at_cons, if_neg (show y ≠ listEnd list from hold.ne_tail_cell), run_bind hold.listNext_run, List.append_cons]
    rw [List.append_cons] at hold
    exact ih hold (best.next precedence y) (Nat.lt_of_succ_lt_succ enough)

theorem listBest_run {better : Elem → Elem → Bool} (precedence : Precedence better) (hold : Hold heap ((list, cells) :: rest) loose)
    (enough : cells.length < fuel) : ∃ y, listBest fuel better list heap = some (y, heap) ∧
      (cells = [] ∧ y = list.tail ∨ FirstBest better cells y) := by
  rw [listBest, run_bind hold.listBegin_run]
  cases cells with
  | nil => exact ⟨list.tail, if_pos rfl ▸ rfl, .inl ⟨rfl, rfl⟩⟩
  | cons x ys =>
    have whole : Hold heap ((list, [] ++ x :: ys) :: rest) loose := hold
    have one : Hold heap ((list, [x] ++ ys) :: rest) loose := hold
    rw [at_cons, if_neg (show x ≠ listEnd list from whole.ne_tail_cell), run_bind whole.listNext_run]
    obtain ⟨y, ran, best⟩ := bestLoop_run precedence one ⟨[], [], rfl, nofun, nofun⟩ (Nat.lt_of_succ_lt enough)
    exact ⟨y, ran, .inr best⟩

end Walking

section Duplicates

/-- The elements that stay, from one that does on, and those that are taken out. -/
def uniqueOf (less : Elem → Elem → Bool) (kept : Elem) : List Elem → List Elem × List Elem
  | [] => ([kept], [])
  | next :: rest =>
    if alike less kept next then ((uniqueOf less kept rest).1, next :: (uniqueOf less kept rest).2)
    else (kept :: (uniqueOf less next rest).1, (uniqueOf less next rest).2)

/-- The list of duplicates, if there is one, with more at its end. -/
def appendTo (duplicates : Option (LList × List Elem)) (more : List Elem) : Option (LList × List Elem) :=
  duplicates.map fun entry => (entry.1, entry.2 ++ more)

theorem appendTo_append (duplicates : Option (LList × List Elem)) : appendTo (appendTo duplicates xs) ys = appendTo duplicates (xs ++ ys) := by
  cases duplicates <;> simp [appendTo]

theorem appendTo_nil (duplicates : Option (LList × List Elem)) : appendTo duplicates [] = duplicates := by
  cases duplicates <;> simp [appendTo]

theorem listPushBack_wp (hold : Hold heap ((list, cells) :: rest) ([e] :: loose)) :
    Wp (listPushBack list e) (fun _ heap' => Hold heap' ((list, cells ++ [e]) :: rest) loose) heap := by
  rw [← List.append_nil cells] at hold
  exact listInsert_wp hold

theorem Hold.forget (hold : Hold heap ((list, cells) :: rest) ([e] :: loose)) : Hold heap ((list, cells) :: rest) loose :=
  ⟨hold.toHeaded.forget, hold.quiet⟩

/-- What was taken out goes to the end of the list of duplicates. -/
theorem keepDuplicate_wp (duplicates : Option (LList × List Elem))
    (hold : Hold heap ((list, cells) :: (duplicates.toList ++ rest)) ([e] :: loose)) :
    Wp (keepDuplicate (duplicates.map (·.1)) e)
      (fun _ heap' => Hold heap' ((list, cells) :: ((appendTo duplicates [e]).toList ++ rest)) loose) heap := by
  cases duplicates with
  | none => exact (wp_pure _).mpr hold.forget
  | some entry => exact (listPushBack_wp (hold.perm (.swap ..))).mono fun _ _ held => held.perm (.swap ..)

theorem uniqueLoop_wp (duplicates : Option (LList × List Elem))
    (hold : Hold heap ((list, xs ++ x :: ys) :: (duplicates.toList ++ rest)) loose) (enough : ys.length < fuel) :
    Wp (uniqueLoop less list (duplicates.map (·.1)) fuel x) (fun _ heap' =>
      Hold heap' ((list, xs ++ (uniqueOf less x ys).1) :: ((appendTo duplicates (uniqueOf less x ys).2).toList ++ rest)) loose) heap := by
  induction ys generalizing heap duplicates xs x fuel with
  | nil =>
    obtain ⟨fuel, rfl⟩ := Nat.exists_eq_succ_of_ne_zero (Nat.ne_of_gt enough)
    rw [uniqueLoop, wp_bind]
    refine .of_eq hold.listNext_run ?_
    rw [if_pos (show list.at [] = listEnd list from rfl), uniqueOf, appendTo_nil]
    exact (wp_pure _).mpr hold
  | cons y ys ih =>
    obtain ⟨fuel, rfl⟩ := Nat.exists_eq_succ_of_ne_zero (Nat.ne_of_gt (Nat.zero_lt_of_lt enough))
    have next := hold.listNext_run
    rw [List.append_cons] at hold
    rw [uniqueLoop, wp_bind]
    refine .of_eq next ?_
    rw [at_cons, if_neg (show y ≠ listEnd list from hold.ne_tail_cell), uniqueOf]
    by_cases same : alike less x y = true
    · have both : less x y = false ∧ less y x = false := by
        simpa [alike] using same
      rw [if_pos both, if_pos same, wp_bind]
      refine (listRemove_wp hold).mono ?_
      rintro _ removed ⟨-, held⟩
      rw [wp_bind]
      refine (keepDuplicate_wp duplicates held).mono fun _ after held => ?_
      rw [List.append_assoc, List.singleton_append] at held
      have step := ih (appendTo duplicates [y]) held (Nat.lt_of_succ_lt_succ enough)
      rw [appendTo_append, List.singleton_append] at step
      rw [show (appendTo duplicates [y]).map (·.1) = duplicates.map (·.1) by cases duplicates <;> rfl] at step
      exact step
    · have not : ¬ (less x y = false ∧ less y x = false) := by
        simpa [alike] using same
      rw [if_neg not, if_neg same, List.append_cons]
      exact ih duplicates hold (Nat.lt_of_succ_lt_succ enough)

theorem listUnique_wp (duplicates : Option (LList × List Elem))
    (hold : Hold heap ((list, x :: ys) :: (duplicates.toList ++ rest)) loose) (enough : ys.length < fuel) :
    Wp (listUnique less fuel list (duplicates.map (·.1))) (fun _ heap' =>
      Hold heap' ((list, (uniqueOf less x ys).1) :: ((appendTo duplicates (uniqueOf less x ys).2).toList ++ rest)) loose) heap := by
  have whole : Hold heap ((list, [] ++ x :: ys) :: (duplicates.toList ++ rest)) loose := hold
  rw [listUnique, wp_bind]
  refine .of_eq hold.listEmpty_run ?_
  rw [List.isEmpty_cons, if_neg Bool.false_ne_true, wp_bind]
  exact .of_eq hold.listBegin_run (uniqueLoop_wp duplicates whole enough)

end Duplicates

end Comp310.Fs
