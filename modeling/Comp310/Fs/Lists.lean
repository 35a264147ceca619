import Comp310.Fs.List

/-! What the operations of list.c do to the pointers, and to the lists that these hold. -/

namespace Comp310.Fs
open Comp310.Lib

/-- The lists of a program, each with what is in it. -/
abbrev Lists := List (LList × List Elem)

/-- The pointers hold the lists, and other pieces that are in none of them, and no assertion has failed. -/
structure Hold (heap : ListHeap) (lists : Lists) (loose : List (List Elem)) : Prop extends Headed heap.links lists loose where
  quiet : heap.panics = 0

variable {heap : ListHeap} {links : Links Elem} {panics : Nat} {list : LList} {lists lists' rest : Lists}
  {loose : List (List Elem)} {xs ys range : List Elem} {a b p n elem first last before : Elem}

section Pointers

theorem assert_run {condition : ListHeap → Bool} (holds : condition heap = true) : assert condition heap = some (⟨⟩, heap) := by
  change some (PUnit.unit, if condition heap = true then heap else _) = _
  rw [if_pos holds]

theorem getPrev_run (link : heap.links.prev b = some a) : getPrev b heap = some (a, heap) := by
  rw [getPrev, link, Option.map_some]

theorem getNext_run (link : heap.links.next a = some b) : getNext a heap = some (b, heap) := by
  rw [getNext, link, Option.map_some]

theorem setPrev_run (links : Links Elem) (cell : Elem) (target : Option Elem) :
    setPrev cell target ⟨links, panics⟩ = some (⟨⟩, ⟨links.setPrev cell target, panics⟩) := rfl

theorem setNext_run (links : Links Elem) (cell : Elem) (target : Option Elem) :
    setNext cell target ⟨links, panics⟩ = some (⟨⟩, ⟨links.setNext cell target, panics⟩) := rfl

theorem listNext_run (link : heap.links.next a = some b) : listNext a heap = some (b, heap) := by
  have holds : (heap.isHead a || heap.isInterior a) = true := by
    rw [ListHeap.isHead, ListHeap.isInterior, link]
    cases heap.links.prev a <;> rfl
  rw [listNext, run_bind (assert_run holds), getNext_run link]

theorem listPrev_run (link : heap.links.prev b = some a) : listPrev b heap = some (a, heap) := by
  have holds : (heap.isInterior b || heap.isTail b) = true := by
    rw [ListHeap.isInterior, ListHeap.isTail, link]
    cases heap.links.next b <;> rfl
  rw [listPrev, run_bind (assert_run holds), getPrev_run link]

theorem listInsert_run (link : links.prev before = some p) (differs : elem ≠ before) (differs' : elem ≠ p) :
    listInsert before elem ⟨links, panics⟩ = some (⟨⟩, ⟨(links.join p elem).join elem before, panics⟩) := by
  have holds : ((ListHeap.mk links panics).isInterior before || (ListHeap.mk links panics).isTail before) = true := by
    rw [ListHeap.isInterior, ListHeap.isTail, link]
    cases links.next before <;> rfl
  have again : ((links.setPrev elem (some p)).setNext elem (some before)).prev before = some p := by
    exact (relink_other differs.symm).trans link
  have same : ((((links.setPrev elem (some p)).setNext elem (some before)).setNext p (some elem)).setPrev before (some elem)) =
      (links.join p elem).join elem before :=
    congrArg (fun links : Links Elem => (links.setPrev elem (some p)).setPrev before (some elem)) (setNext_comm links differs')
  rw [listInsert, run_bind (assert_run holds), run_bind (getPrev_run link), run_bind (setPrev_run _ _ _), run_bind (setNext_run _ _ _),
    run_bind (getPrev_run again), run_bind (setNext_run _ _ _), setPrev_run, same]

theorem listRemove_run (link : links.prev elem = some p) (link' : links.next elem = some n) (differs : elem ≠ p) :
    listRemove elem ⟨links, panics⟩ = some (n, ⟨links.join p n, panics⟩) := by
  have holds : (ListHeap.mk links panics).isInterior elem = true := by
    rw [ListHeap.isInterior, link, link']
    rfl
  have next : (links.setNext p (some n)).next elem = some n := (relink_other differs).trans link'
  have last : ((links.setNext p (some n)).setPrev n (some p)).next elem = some n := next
  rw [listRemove, run_bind (assert_run holds), run_bind (getPrev_run link), run_bind (getNext_run link'), run_bind (setNext_run _ _ _),
    run_bind (getNext_run next), run_bind (getPrev_run link), run_bind (setPrev_run _ _ _), getNext_run last]
  rfl

theorem listSplice_run {stop q next : Elem} (differs : first ≠ stop) (ends : links.prev stop = some last) (link : links.prev first = some p)
    (inner : links.next first = some next) (link' : links.next last = some stop) (inner' : (links.prev last).isSome) (apart : p ≠ last)
    (place : (links.join p stop).prev before = some q) (there : (links.prev before).isSome) (apart' : before ≠ first) (apart'' : q ≠ last) :
    listSplice before first stop ⟨links, panics⟩ =
      some (⟨⟩, ⟨((links.join p stop).join q first).join last before, panics⟩) := by
  have holds : ((ListHeap.mk links panics).isInterior before || (ListHeap.mk links panics).isTail before) = true := by
    rw [ListHeap.isInterior, ListHeap.isTail, there]
    cases links.next before <;> rfl
  have firstHolds : (ListHeap.mk links panics).isInterior first = true := by
    rw [ListHeap.isInterior, link, inner]
    rfl
  have lastHolds : (ListHeap.mk links panics).isInterior last = true := by
    rw [ListHeap.isInterior, inner', link']
    rfl
  have again : (links.setNext p (some stop)).next last = some stop := (relink_other (Ne.symm apart)).trans link'
  have placeAgain : (((links.join p stop).setPrev first (some q)).setNext last (some before)).prev before = some q :=
    (relink_other apart').trans place
  have same : ((((links.join p stop).setPrev first (some q)).setNext last (some before)).setNext q (some first)).setPrev before (some last) =
      ((links.join p stop).join q first).join last before :=
    congrArg (fun links : Links Elem => (links.setPrev first (some q)).setPrev before (some last)) (setNext_comm (links.join p stop) (Ne.symm apart''))
  rw [listSplice, run_bind (assert_run holds), if_neg differs, run_bind (listPrev_run ends), run_bind (assert_run firstHolds),
    run_bind (assert_run lastHolds), run_bind (getPrev_run link), run_bind (getNext_run link'), run_bind (setNext_run _ _ _),
    run_bind (getNext_run again), run_bind (getPrev_run link), run_bind (setPrev_run _ _ _), run_bind (getPrev_run place),
    run_bind (setPrev_run _ _ _), run_bind (setNext_run _ _ _), run_bind (getPrev_run placeAgain), run_bind (setNext_run _ _ _), setPrev_run]
  rw [← same]
  rfl

end Pointers

namespace Hold

theorem perm (hold : Hold heap lists loose) (same : lists.Perm lists') : Hold heap lists' loose := ⟨hold.toHeaded.perm same, hold.quiet⟩

theorem takeOut (hold : Hold ⟨links, panics⟩ ((list, xs ++ (range ++ ys)) :: rest) loose) :
    Hold ⟨links.join (list.before xs) (list.at ys), panics⟩ ((list, xs ++ ys) :: rest) (range :: loose) := ⟨hold.toHeaded.takeOut, hold.quiet⟩

theorem putIn (hold : Hold ⟨links, panics⟩ ((list, xs ++ ys) :: rest) (range :: loose)) (isFirst : range.head? = some first)
    (isLast : range.getLast? = some last) :
    Hold ⟨(links.join (list.before xs) first).join last (list.at ys), panics⟩ ((list, xs ++ (range ++ ys)) :: rest) loose :=
  ⟨hold.toHeaded.putIn isFirst isLast, hold.quiet⟩

end Hold

section Operations

theorem listInsert_wp (hold : Hold heap ((list, xs ++ ys) :: rest) ([elem] :: loose)) :
    Wp (listInsert (list.at ys) elem) (fun _ heap' => Hold heap' ((list, xs ++ elem :: ys) :: rest) loose) heap := by
  obtain ⟨links, panics⟩ := heap
  have free : elem ∉ list.nodes (xs ++ ys) := hold.loose_apart List.mem_cons_self _ List.mem_cons_self
  refine .of_eq (listInsert_run hold.prev ?_ ?_) (hold.putIn rfl rfl)
  · rintro rfl
    exact free (at_mem list xs ys)
  · rintro rfl
    exact free (before_mem list xs ys)

theorem listRemove_wp (hold : Hold heap ((list, xs ++ elem :: ys) :: rest) loose) :
    Wp (listRemove elem) (fun next heap' => next = list.at ys ∧ Hold heap' ((list, xs ++ ys) :: rest) ([elem] :: loose)) heap := by
  obtain ⟨links, panics⟩ := heap
  have out : Hold ⟨links.join (list.before xs) (list.at ys), panics⟩ ((list, xs ++ ys) :: rest) ([elem] :: loose) := hold.takeOut
  have free : elem ∉ list.nodes (xs ++ ys) := out.loose_apart List.mem_cons_self _ List.mem_cons_self
  have next : links.next elem = some (list.at ys) := by
    rw [List.append_cons] at hold
    rw [← before_concat list xs elem]
    exact hold.next
  refine .of_eq (listRemove_run hold.prev next ?_) ⟨rfl, out⟩
  rintro rfl
  exact free (before_mem list xs ys)

theorem listSplice_wp {target : LList} {us vs : List Elem} {rest' : Lists} (hold : Hold heap ((list, xs ++ (range ++ ys)) :: rest) loose)
    (isFirst : range.head? = some first) (same : ((list, xs ++ ys) :: rest).Perm ((target, us ++ vs) :: rest')) :
    Wp (listSplice (target.at vs) first (list.at ys)) (fun _ heap' => Hold heap' ((target, us ++ (range ++ vs)) :: rest') loose) heap := by
  obtain ⟨links, panics⟩ := heap
  obtain ⟨later, rfl⟩ := List.head?_eq_some_iff.mp isFirst
  obtain ⟨earlier, last, split⟩ : ∃ earlier last, first :: later = earlier ++ [last] :=
    ⟨_, _, (List.dropLast_append_getLast (List.cons_ne_nil first later)).symm⟩
  have isLast : (first :: later).getLast? = some last := by
    rw [split, List.getLast?_concat]
  have out : Hold ⟨links.join (list.before xs) (list.at ys), panics⟩ ((target, us ++ vs) :: rest') ((first :: later) :: loose) :=
    hold.takeOut.perm same
  have member : (list, xs ++ ys) ∈ (target, us ++ vs) :: rest' := same.mem_iff.mp List.mem_cons_self
  have firstFree : ∀ entry ∈ (target, us ++ vs) :: rest', first ∉ entry.1.nodes entry.2 := out.loose_apart List.mem_cons_self
  have lastFree : ∀ entry ∈ (target, us ++ vs) :: rest', last ∉ entry.1.nodes entry.2 :=
    out.loose_apart (List.mem_of_mem_getLast? isLast)
  -- the pointers around the range, and inside it
  have ahead : links.prev first = some (list.before xs) := hold.prev
  have inner : links.next first = some (list.at (later ++ ys)) := by
    have hold := hold
    rw [List.cons_append, List.append_cons] at hold
    rw [← before_concat list xs first]
    exact hold.next
  rw [split, List.append_assoc, ← List.append_assoc] at hold
  have inner' : links.prev last = some (list.before (xs ++ earlier)) := hold.prev
  rw [List.singleton_append, List.append_cons] at hold
  have behind := hold.joins
  rw [before_concat] at behind
  have place := out.prev
  have there : (links.prev (target.at vs)).isSome := by
    rw [join_prev] at place
    split at place
    next here => rw [here, behind.2, Option.isSome_some]
    next => rw [place, Option.isSome_some]
  refine .of_eq (listSplice_run ?_ behind.2 ahead inner behind.1 ?_ ?_ place there ?_ ?_) (out.putIn rfl isLast)
  · rintro rfl
    exact firstFree _ member (at_mem list xs ys)
  · rw [inner', Option.isSome_some]
  · rintro rfl
    exact lastFree _ member (before_mem list xs ys)
  · rintro rfl
    exact firstFree _ List.mem_cons_self (at_mem target us vs)
  · rintro rfl
    exact lastFree _ List.mem_cons_self (before_mem target us vs)

end Operations

end Comp310.Fs
