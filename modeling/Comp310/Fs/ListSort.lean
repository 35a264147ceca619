import Mathlib.Algebra.Ring.Nat
import Comp310.Fs.Lists
import Comp310.Lib.NaturalMerge

/-! `list_sort`: each pass merges the runs of the list in pairs, by moving elements of the second before elements of the first. -/

namespace Comp310.Fs
open Comp310.Lib

variable {heap : ListHeap} {list : LList} {rest : Lists} {loose : List (List Elem)} {cells xs ys zs us left right : List Elem} {x y : Elem}
  {less : Elem → Elem → Bool} {fuel steps : Nat}

section Walking

theorem Hold.nodup (hold : Hold heap ((list, cells) :: rest) loose) : (list.nodes cells).Nodup := by
  have apart := hold.pieces.apart
  rw [List.map_cons, List.cons_append, List.flatten_cons] at apart
  exact (List.nodup_append.mp apart).1

theorem Hold.listNext_run (hold : Hold heap ((list, xs ++ y :: ys) :: rest) loose) : listNext y heap = some (list.at ys, heap) := by
  rw [List.append_cons] at hold
  have next := hold.next
  rw [before_concat] at next
  exact Fs.listNext_run next

theorem Hold.listPrev_run (hold : Hold heap ((list, xs ++ y :: ys) :: rest) loose) : listPrev (list.at ys) heap = some (y, heap) := by
  rw [List.append_cons] at hold
  have prev := hold.prev
  rw [before_concat] at prev
  exact Fs.listPrev_run prev

theorem Hold.ne_at (hold : Hold heap ((list, xs ++ y :: (us ++ ys)) :: rest) loose) : y ≠ list.at ys := by
  have nodup := hold.nodup
  rw [show list.nodes (xs ++ y :: (us ++ ys)) = (list.head :: xs) ++ y :: (us ++ (ys ++ [list.tail])) by
    simp only [Ends.nodes, List.cons_append, List.append_assoc]] at nodup
  rintro rfl
  apply (List.nodup_cons.mp (List.nodup_append.mp nodup).2.1).1
  apply List.mem_append_right
  cases ys with
  | nil => exact List.mem_cons_self
  | cons z zs => exact List.mem_cons_self

theorem Hold.ne_tail_cell (hold : Hold heap ((list, xs ++ y :: ys) :: rest) loose) : y ≠ list.tail := by
  rw [← List.append_nil ys] at hold
  exact hold.ne_at

theorem Hold.listBegin_run (hold : Hold heap ((list, cells) :: rest) loose) : listBegin list heap = some (list.at cells, heap) := by
  have next : heap.links.next (list.before []) = some (list.at cells) := hold.next
  exact getNext_run next

end Walking

section Runs

theorem sortedLoop_run (hold : Hold heap ((list, xs ++ y :: (us ++ ys)) :: rest) loose) (ascending : Ascending less (y :: us))
    (enough : us.length < fuel) : sortedLoop less (list.at ys) fuel y heap = some (true, heap) := by
  induction us generalizing xs y fuel with
  | nil =>
    obtain ⟨fuel, rfl⟩ := Nat.exists_eq_succ_of_ne_zero (Nat.ne_of_gt enough)
    rw [sortedLoop, run_bind hold.listNext_run, List.nil_append, if_pos rfl]
    rfl
  | cons z us ih =>
    obtain ⟨fuel, rfl⟩ := Nat.exists_eq_succ_of_ne_zero (Nat.ne_of_gt (Nat.zero_lt_of_lt enough))
    obtain ⟨first, later⟩ := List.pairwise_cons.mp ascending
    have prev := hold.listPrev_run
    have next := hold.listNext_run
    rw [List.append_cons, List.cons_append] at hold
    rw [List.cons_append, at_cons] at prev next
    rw [sortedLoop, run_bind next, if_neg hold.ne_at, run_bind prev, first z List.mem_cons_self, if_neg Bool.false_ne_true]
    exact ih hold later (Nat.lt_of_succ_lt_succ enough)

theorem isSorted_run (hold : Hold heap ((list, xs ++ (us ++ ys)) :: rest) loose) (ascending : Ascending less us) (enough : us.length < fuel + 1) :
    isSorted less fuel (list.at (us ++ ys)) (list.at ys) heap = some (true, heap) := by
  cases us with
  | nil =>
    rw [List.nil_append, isSorted, if_pos rfl]
    rfl
  | cons y us =>
    rw [List.cons_append, at_cons, isSorted, if_neg hold.ne_at]
    exact sortedLoop_run hold ascending (Nat.lt_of_succ_lt_succ enough)

theorem endOfRunLoop_run {run : List Elem} {others : List (List Elem)} (hold : Hold heap ((list, xs ++ y :: ys) :: rest) loose)
    (found : naturalRuns less (y :: ys) = run :: others) (enough : ys.length < fuel) :
    endOfRunLoop less list.tail fuel y heap = some (list.at others.flatten, heap) := by
  induction ys generalizing xs y fuel run with
  | nil =>
    obtain ⟨fuel, rfl⟩ := Nat.exists_eq_succ_of_ne_zero (Nat.ne_of_gt enough)
    cases found
    rw [endOfRunLoop, run_bind hold.listNext_run, if_pos (show list.at [] = list.tail from rfl)]
    rfl
  | cons z ys ih =>
    obtain ⟨fuel, rfl⟩ := Nat.exists_eq_succ_of_ne_zero (Nat.ne_of_gt (Nat.zero_lt_of_lt enough))
    obtain ⟨run', others', found', split, -⟩ := naturalRuns_cons less z ys
    have prev := hold.listPrev_run
    have next := hold.listNext_run
    rw [List.append_cons] at hold
    rw [at_cons] at prev next
    rw [naturalRuns, found'] at found
    dsimp only at found
    rw [endOfRunLoop, run_bind next, if_neg hold.ne_tail_cell, run_bind prev]
    cases order : less z y with
    | true =>
      rw [order, if_pos rfl] at found
      cases found
      rw [if_pos rfl, List.flatten_cons, List.cons_append, at_cons]
      rfl
    | false =>
      rw [order, if_neg Bool.false_ne_true] at found
      cases found
      rw [if_neg Bool.false_ne_true]
      exact ih hold found' (Nat.lt_of_succ_lt_succ enough)

theorem findEndOfRun_run {run : List Elem} {others : List (List Elem)} (hold : Hold heap ((list, xs ++ ys) :: rest) loose)
    (found : naturalRuns less ys = run :: others) (enough : ys.length < fuel + 1) :
    findEndOfRun less fuel (list.at ys) list.tail heap = some (list.at others.flatten, heap) := by
  cases ys with
  | nil => cases found
  | cons y ys =>
    have differs : (y != list.tail) = true := bne_iff_ne.mpr hold.ne_tail_cell
    rw [at_cons, findEndOfRun, run_bind (assert_run differs)]
    exact endOfRunLoop_run hold found (Nat.lt_of_succ_lt_succ enough)

end Runs

section Merging

/-- The loop moves elements of the right range to where the merge has them. -/
theorem mergeLoop_wp (hold : Hold heap ((list, xs ++ (left ++ (right ++ ys))) :: rest) loose) (enough : left.length + right.length < fuel) :
    Wp (mergeLoop less (list.at ys) fuel (list.at (left ++ (right ++ ys))) (list.at (right ++ ys)))
      (fun _ heap' => Hold heap' ((list, xs ++ (mergeRuns less left right ++ ys)) :: rest) loose) heap := by
  induction fuel generalizing heap xs left right with
  | zero => cases enough
  | succ fuel ih =>
    cases left with
    | nil =>
      rw [mergeLoop, List.nil_append, if_pos (.inl rfl), mergeRuns, List.nil_merge]
      exact (wp_pure _).mpr hold
    | cons x left =>
      cases right with
      | nil =>
        rw [mergeLoop, List.nil_append, if_pos (.inr rfl), mergeRuns, List.merge_right]
        exact (wp_pure _).mpr hold
      | cons y right =>
        simp only [List.cons_append, at_cons] at hold ⊢
        rw [List.length_cons, List.length_cons] at enough
        have behind := hold
        rw [← List.cons_append, ← List.append_assoc] at behind
        have going : ¬ (x = y ∨ y = list.at ys) := by
          rintro (same | same)
          · exact hold.ne_at same
          · exact behind.ne_at same
        rw [mergeLoop, if_neg going, mergeRuns_cons]
        cases order : less y x with
        | false =>
          rw [if_pos rfl, if_neg Bool.false_ne_true, wp_bind]
          refine .of_eq hold.listNext_run ?_
          have on : Hold heap ((list, (xs ++ [x]) ++ (left ++ ((y :: right) ++ ys))) :: rest) loose := by
            rwa [← List.append_cons]
          refine (ih on ?_).mono fun _ after held => ?_
          · rw [List.length_cons]
            omega
          · rwa [List.append_assoc] at held
        | true =>
          rw [if_neg Bool.false_ne_true.symm, if_pos rfl, wp_bind]
          refine .of_eq behind.listNext_run ?_
          rw [wp_bind]
          refine .of_eq behind.listPrev_run ?_
          rw [wp_bind]
          have place : ((list, (xs ++ x :: left) ++ (right ++ ys)) :: rest).Perm ((list, xs ++ x :: (left ++ (right ++ ys))) :: rest) := by
            rw [List.append_assoc, List.cons_append]
          have moves := listSplice_wp (show Hold heap ((list, (xs ++ x :: left) ++ ([y] ++ (right ++ ys))) :: rest) loose from behind)
            (show [y].head? = some y from rfl) place
          refine moves.mono fun _ moved held => ?_
          have on : Hold moved ((list, (xs ++ [y]) ++ ((x :: left) ++ (right ++ ys))) :: rest) loose := by
            rwa [List.append_assoc]
          refine (ih on ?_).mono fun _ after held => ?_
          · rw [List.length_cons]
            omega
          · rwa [List.append_assoc] at held

end Merging

section Sorting

theorem inplaceMerge_wp (hold : Hold heap ((list, xs ++ (left ++ (right ++ ys))) :: rest) loose) (first : Ascending less left)
    (second : Ascending less right) (enough : left.length + right.length < fuel) :
    Wp (inplaceMerge less fuel (list.at (left ++ (right ++ ys))) (list.at (right ++ ys)) (list.at ys))
      (fun _ heap' => Hold heap' ((list, xs ++ (mergeRuns less left right ++ ys)) :: rest) loose) heap := by
  have behind := hold
  rw [← List.append_assoc] at behind
  rw [inplaceMerge, wp_bind]
  refine .of_eq (isSorted_run hold first (by omega)) ?_
  rw [wp_bind]
  refine .of_eq (assert_run rfl) ?_
  rw [wp_bind]
  refine .of_eq (isSorted_run behind second (by omega)) ?_
  rw [wp_bind]
  exact .of_eq (assert_run rfl) (mergeLoop_wp hold enough)

theorem sortPass_wp (precedence : Precedence less) (cnt : Nat) (hold : Hold heap ((list, xs ++ ys) :: rest) loose) (enough : ys.length < fuel)
    (turns : (naturalRuns less ys).length < steps) :
    Wp (sortPass less fuel list steps (list.at ys) cnt) (fun outputRunCnt heap' =>
      outputRunCnt = cnt + (mergePairs less (naturalRuns less ys)).length ∧
        Hold heap' ((list, xs ++ (mergePairs less (naturalRuns less ys)).flatten) :: rest) loose) heap := by
  induction steps generalizing heap xs ys cnt with
  | zero => cases turns
  | succ steps ih =>
    cases ys with
    | nil =>
      rw [sortPass, if_pos (show list.at [] = listEnd list from rfl)]
      exact (wp_pure _).mpr ⟨rfl, hold⟩
    | cons y ys =>
      obtain ⟨run, others, found, -, again⟩ := naturalRuns_cons less y ys
      have whole := naturalRuns_flatten less (y :: ys)
      rw [found, List.flatten_cons] at whole
      rw [sortPass, at_cons, if_neg (show y ≠ listEnd list from hold.ne_tail_cell), wp_bind]
      refine .of_eq (findEndOfRun_run hold found (Nat.lt_succ_of_lt enough)) ?_
      have ascending (part : List Elem) (member : part ∈ (y :: run) :: others) : Ascending less part :=
        naturalRuns_ascending precedence (found ▸ member)
      rw [found] at turns ⊢
      rw [← whole] at hold enough
      cases others with
      | nil =>
        rw [if_pos (show list.at [].flatten = listEnd list from rfl)]
        exact (wp_pure _).mpr ⟨rfl, hold⟩
      | cons run' others =>
        have member : run' ∈ naturalRuns less (run' :: others).flatten := by
          rw [again]
          exact List.mem_cons_self
        obtain ⟨z, zs, rfl⟩ := List.exists_cons_of_ne_nil (naturalRuns_ne_nil member)
        have behind := hold
        rw [← List.append_assoc] at behind
        rw [List.length_append, List.flatten_cons, List.length_append] at enough
        have going : list.at ((z :: zs) :: others).flatten ≠ listEnd list := behind.ne_tail_cell
        rw [if_neg going, wp_bind]
        refine .of_eq (findEndOfRun_run behind again (by rw [List.flatten_cons, List.length_append]; omega)) ?_
        rw [wp_bind]
        have merges := inplaceMerge_wp hold (ascending (y :: run) List.mem_cons_self)
          (ascending (z :: zs) (List.mem_cons_of_mem _ List.mem_cons_self)) (show _ < fuel by omega)
        refine merges.mono fun _ merged held => ?_
        rw [← List.append_assoc] at held
        have rest' := naturalRuns_rest again
        rw [List.length_cons, List.length_cons] at turns
        refine (ih (cnt + 1) held (by omega) (by rw [rest']; omega)).mono fun outputRunCnt after result => ?_
        rw [rest'] at result
        rw [mergePairs, List.length_cons, List.flatten_cons, ← List.append_assoc]
        exact ⟨by omega, result.2⟩

/-- Each pass halves the number of runs, and what it leaves as one run ascends. -/
theorem onePass_wp (precedence : Precedence less) (hold : Hold heap ((list, cells) :: rest) loose) (enough : cells.length < fuel) :
    Wp (sortPass less fuel list fuel (list.at cells) 0) (fun outputRunCnt heap' => ∃ merged, merged.length = cells.length ∧
      outputRunCnt = ((naturalRuns less cells).length + 1) / 2 ∧ (naturalRuns less merged).length ≤ outputRunCnt ∧
      (outputRunCnt ≤ 1 → Ascending less merged) ∧ (∀ a, merged.filter (alike less a) = cells.filter (alike less a)) ∧
      Hold heap' ((list, merged) :: rest) loose) heap := by
  have each (run : List Elem) (member : run ∈ naturalRuns less cells) : Ascending less run := naturalRuns_ascending precedence member
  have merged := mergePairs_ascending precedence each
  have classes := mergePairs_classes precedence each
  have pairs := mergePairs_length less (naturalRuns less cells)
  have elements := mergePairs_elements less (naturalRuns less cells)
  have turns := naturalRuns_length less cells
  rw [naturalRuns_flatten] at classes elements
  have whole : Hold heap ((list, [] ++ cells) :: rest) loose := hold
  refine (sortPass_wp precedence 0 whole enough (by omega)).mono ?_
  rintro _ after ⟨rfl, held⟩
  rw [List.nil_append] at held
  rw [Nat.zero_add]
  refine ⟨_, elements, pairs, naturalRuns_flatten_length merged, fun single => ?_, classes, held⟩
  obtain none | ⟨run, one⟩ : mergePairs less (naturalRuns less cells) = [] ∨ ∃ run, mergePairs less (naturalRuns less cells) = [run] := by
    cases found : mergePairs less (naturalRuns less cells) with
    | nil => exact .inl rfl
    | cons run others =>
      cases others with
      | nil => exact .inr ⟨run, rfl⟩
      | cons second others =>
        rw [found, List.length_cons, List.length_cons] at single
        omega
  · rw [none]
    exact .nil
  · rw [one, List.flatten_singleton]
    exact merged run (one ▸ List.mem_cons_self)

/-- As many passes as it takes to halve the number of runs down to one. -/
theorem sortPasses_wp (precedence : Precedence less) (hold : Hold heap ((list, cells) :: rest) loose) (enough : cells.length < fuel)
    (turns : (naturalRuns less cells).length ≤ 2 ^ steps) :
    Wp (sortPasses less fuel list (steps + 1))
      (fun _ heap' => ∃ sorted, StablySorted less cells sorted ∧ Hold heap' ((list, sorted) :: rest) loose) heap := by
  induction steps generalizing heap cells with
  | zero =>
    rw [sortPasses, wp_bind]
    refine .of_eq hold.listBegin_run ?_
    rw [wp_bind]
    refine (onePass_wp precedence hold enough).mono ?_
    rintro outputRunCnt after ⟨merged, -, count, -, ascending, classes, held⟩
    have single : outputRunCnt ≤ 1 := by omega
    rw [if_neg (by omega)]
    exact (wp_pure _).mpr ⟨merged, ⟨ascending single, classes⟩, held⟩
  | succ steps ih =>
    rw [sortPasses, wp_bind]
    refine .of_eq hold.listBegin_run ?_
    rw [wp_bind]
    refine (onePass_wp precedence hold enough).mono ?_
    rintro outputRunCnt after ⟨merged, length, count, fewer, ascending, classes, held⟩
    by_cases more : outputRunCnt > 1
    · rw [if_pos more]
      refine (ih held (by omega) (by omega)).mono ?_
      rintro _ final ⟨sorted, stable, held⟩
      exact ⟨sorted, ⟨stable.ascending, fun a => (stable.classes a).trans (classes a)⟩, held⟩
    · rw [if_neg more]
      exact (wp_pure _).mpr ⟨merged, ⟨ascending (Nat.le_of_not_lt more), classes⟩, held⟩

theorem listSort_wp (precedence : Precedence less) (hold : Hold heap ((list, cells) :: rest) loose) (enough : cells.length < fuel) :
    Wp (listSort less fuel list) (fun _ heap' => Hold heap' ((list, cells.mergeSort fun a b => !less b a) :: rest) loose) heap := by
  obtain ⟨steps, rfl⟩ := Nat.exists_eq_succ_of_ne_zero (Nat.ne_of_gt (Nat.zero_lt_of_lt enough))
  have turns : (naturalRuns less cells).length ≤ 2 ^ steps := by
    have runs := naturalRuns_length less cells
    have doubled := Nat.lt_two_pow_self (n := steps)
    omega
  rw [listSort, wp_bind]
  refine (sortPasses_wp precedence hold enough turns).mono ?_
  rintro _ after ⟨sorted, stable, held⟩
  rw [wp_bind]
  refine .of_eq held.listBegin_run ?_
  have whole : Hold after ((list, [] ++ (sorted ++ [])) :: rest) loose := by
    rwa [List.nil_append, List.append_nil]
  have length : sorted.length = cells.length := by
    rw [stable.eq_mergeSort precedence, List.length_mergeSort]
  have checked := isSorted_run whole stable.ascending (show _ < steps + 1 + 1 by omega)
  rw [List.append_nil] at checked
  rw [wp_bind]
  refine .of_eq checked ?_
  refine .of_eq (assert_run rfl) ?_
  rwa [← stable.eq_mergeSort precedence]

end Sorting

end Comp310.Fs
