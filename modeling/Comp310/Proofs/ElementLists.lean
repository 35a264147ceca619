import Comp310.Fs.ListCalls

/-! Programs with many lists: whatever they call, the pointers go on holding every list. -/

namespace Comp310.Proofs.ElementLists
open Comp310.Lib Comp310.Fs

variable {less : Elem → Elem → Bool}

/-- What a call that is allowed does to the lists. An element that is put into one must be in none. -/
inductive Effect (less : Elem → Elem → Bool) : ListCall → Lists → ListReply → Lists → Prop
  | init {list lists} (differs : list.head ≠ list.tail)
      (free : ∀ entry ∈ lists, list.head ∉ entry.1.nodes entry.2 ∧ list.tail ∉ entry.1.nodes entry.2) :
      Effect less (.init list) lists .done ((list, []) :: lists)
  | begin {list cells rest} : Effect less (.begin list) ((list, cells) :: rest) (.elem (list.at cells)) ((list, cells) :: rest)
  | rbegin {list cells rest} : Effect less (.rbegin list) ((list, cells) :: rest) (.elem (list.before cells)) ((list, cells) :: rest)
  | next {list xs x ys rest} : Effect less (.next x) ((list, xs ++ x :: ys) :: rest) (.elem (list.at ys)) ((list, xs ++ x :: ys) :: rest)
  | nextHead {list cells rest} : Effect less (.next list.head) ((list, cells) :: rest) (.elem (list.at cells)) ((list, cells) :: rest)
  | prev {list xs ys rest} : Effect less (.prev (list.at ys)) ((list, xs ++ ys) :: rest) (.elem (list.before xs)) ((list, xs ++ ys) :: rest)
  | insert {list xs ys elem rest} (free : ∀ entry ∈ (list, xs ++ ys) :: rest, elem ∉ entry.1.nodes entry.2) :
      Effect less (.insert (list.at ys) elem) ((list, xs ++ ys) :: rest) .done ((list, xs ++ elem :: ys) :: rest)
  | splice {list target first range xs ys us vs rest rest'} (isFirst : range.head? = some first)
      (place : ((list, xs ++ ys) :: rest).Perm ((target, us ++ vs) :: rest')) :
      Effect less (.splice (target.at vs) first (list.at ys)) ((list, xs ++ (range ++ ys)) :: rest) .done
        ((target, us ++ (range ++ vs)) :: rest')
  | spliceNone {list elem xs ys rest} :
      Effect less (.splice (list.at ys) elem elem) ((list, xs ++ ys) :: rest) .done ((list, xs ++ ys) :: rest)
  | pushFront {list cells elem rest} (free : ∀ entry ∈ (list, cells) :: rest, elem ∉ entry.1.nodes entry.2) :
      Effect less (.pushFront list elem) ((list, cells) :: rest) .done ((list, elem :: cells) :: rest)
  | pushBack {list cells elem rest} (free : ∀ entry ∈ (list, cells) :: rest, elem ∉ entry.1.nodes entry.2) :
      Effect less (.pushBack list elem) ((list, cells) :: rest) .done ((list, cells ++ [elem]) :: rest)
  | remove {list xs elem ys rest} :
      Effect less (.remove elem) ((list, xs ++ elem :: ys) :: rest) (.elem (list.at ys)) ((list, xs ++ ys) :: rest)
  | popFront {list x ys rest} : Effect less (.popFront list) ((list, x :: ys) :: rest) (.elem x) ((list, ys) :: rest)
  | popBack {list xs x rest} : Effect less (.popBack list) ((list, xs ++ [x]) :: rest) (.elem x) ((list, xs) :: rest)
  | front {list x ys rest} : Effect less (.front list) ((list, x :: ys) :: rest) (.elem x) ((list, x :: ys) :: rest)
  | back {list xs x rest} : Effect less (.back list) ((list, xs ++ [x]) :: rest) (.elem x) ((list, xs ++ [x]) :: rest)
  | size {list cells rest} : Effect less (.size list) ((list, cells) :: rest) (.count cells.length) ((list, cells) :: rest)
  | empty {list cells rest} : Effect less (.empty list) ((list, cells) :: rest) (.truth cells.isEmpty) ((list, cells) :: rest)
  | reverse {list cells rest} : Effect less (.reverse list) ((list, cells) :: rest) .done ((list, cells.reverse) :: rest)
  | sort {list cells rest} : Effect less (.sort list) ((list, cells) :: rest) .done ((list, cells.mergeSort fun a b => !less b a) :: rest)
  | insertOrdered {list cells elem rest} (free : ∀ entry ∈ (list, cells) :: rest, elem ∉ entry.1.nodes entry.2) :
      Effect less (.insertOrdered list elem) ((list, cells) :: rest) .done
        ((list, cells.orderedInsert (fun a b => less a b = true) elem) :: rest)
  | unique {list x ys rest} (duplicates : Option (LList × List Elem)) :
      Effect less (.unique list (duplicates.map (·.1))) ((list, x :: ys) :: (duplicates.toList ++ rest)) .done
        ((list, (uniqueOf less x ys).1) :: ((appendTo duplicates (uniqueOf less x ys).2).toList ++ rest))
  | uniqueNone {list rest} (duplicates : Option LList) : Effect less (.unique list duplicates) ((list, []) :: rest) .done ((list, []) :: rest)
  | max {list cells x rest} (greatest : FirstBest less cells x) :
      Effect less (.max list) ((list, cells) :: rest) (.elem x) ((list, cells) :: rest)
  | maxNone {list rest} : Effect less (.max list) ((list, []) :: rest) (.elem list.tail) ((list, []) :: rest)
  | min {list cells x rest} (least : FirstBest (fun a b => less b a) cells x) :
      Effect less (.min list) ((list, cells) :: rest) (.elem x) ((list, cells) :: rest)
  | minNone {list rest} : Effect less (.min list) ((list, []) :: rest) (.elem list.tail) ((list, []) :: rest)
  | perm {call lists lists' reply after} (same : lists.Perm lists') (effect : Effect less call lists' reply after) :
      Effect less call lists reply after

/-- What a whole program does to them, in which each call has a comparison of its own. -/
inductive Calls : List ((Elem → Elem → Bool) × ListCall) → Lists → List ListReply → Lists → Prop
  | nil {lists} : Calls [] lists [] lists
  | cons {less call calls lists reply replies middle after} (precedence : Precedence less) (first : Effect less call lists reply middle)
      (later : Calls calls middle replies after) : Calls ((less, call) :: calls) lists (reply :: replies) after

variable {call : ListCall} {calls : List ((Elem → Elem → Bool) × ListCall)} {lists after : Lists} {reply : ListReply} {replies : List ListReply} {heap : ListHeap}

theorem flipped (precedence : Precedence less) : Precedence fun a b => less b a :=
  ⟨fun a b => precedence.asymm b a, fun a b c held => (precedence.cotrans c b a held).symm⟩

theorem listBest_reply {better : Elem → Elem → Bool} {list : LList} {cells : List Elem} {rest : Lists} {x : Elem} {fuel : Nat}
    (precedence : Precedence better) (hold : Hold heap ((list, cells) :: rest) []) (best : FirstBest better cells x)
    (enough : cells.length < fuel) : listBest fuel better list heap = some (x, heap) := by
  obtain ⟨y, ran, ⟨rfl, -⟩ | best'⟩ := listBest_run precedence hold enough
  · obtain ⟨front, back, none, -⟩ := best
    cases front <;> cases none
  · rw [ran, best'.unique best]

theorem listBest_none {better : Elem → Elem → Bool} {list : LList} {rest : Lists} {fuel : Nat}
    (hold : Hold heap ((list, []) :: rest) []) : listBest fuel better list heap = some (list.tail, heap) := by
  rw [listBest, run_bind hold.listBegin_run, if_pos (show list.at [] = listEnd list from rfl)]
  rfl

/-- One call: with fuel for the longest list it comes to its end, and no assertion fails. -/
theorem Effect.keeps (precedence : Precedence less) (effect : Effect less call lists reply after) :
    ∃ enough, ∀ fuel ≥ enough, ∀ heap, Hold heap lists [] →
      Wp (call.run less fuel) (fun reply' heap' => reply' = reply ∧ Hold heap' after []) heap := by
  induction effect with
  | init differs free =>
    refine ⟨0, fun fuel _ heap hold => ?_⟩
    rw [ListCall.run, wp_bind]
    exact (llistInit_wp hold differs free).mono fun _ _ held => (wp_pure _).mpr ⟨rfl, held⟩
  | begin => exact ⟨0, fun fuel _ heap hold => wp_map.mpr (.of_eq hold.listBegin_run ⟨rfl, hold⟩)⟩
  | rbegin => exact ⟨0, fun fuel _ heap hold => wp_map.mpr (.of_eq (listRbegin_run hold) ⟨rfl, hold⟩)⟩
  | next => exact ⟨0, fun fuel _ heap hold => wp_map.mpr (.of_eq hold.listNext_run ⟨rfl, hold⟩)⟩
  | nextHead => exact ⟨0, fun fuel _ heap hold => wp_map.mpr (.of_eq (Fs.listNext_run hold.next_head) ⟨rfl, hold⟩)⟩
  | prev => exact ⟨0, fun fuel _ heap hold => wp_map.mpr (.of_eq (Fs.listPrev_run hold.prev) ⟨rfl, hold⟩)⟩
  | insert free =>
    refine ⟨0, fun fuel _ heap hold => ?_⟩
    rw [ListCall.run, wp_bind]
    exact (listInsert_wp (hold.single free)).mono fun _ _ held => (wp_pure _).mpr ⟨rfl, held⟩
  | splice isFirst place =>
    refine ⟨0, fun fuel _ heap hold => ?_⟩
    rw [ListCall.run, wp_bind]
    exact (listSplice_wp hold isFirst place).mono fun _ _ held => (wp_pure _).mpr ⟨rfl, held⟩
  | spliceNone =>
    refine ⟨0, fun fuel _ heap hold => ?_⟩
    rw [ListCall.run, wp_bind]
    exact .of_eq (listSplice_none hold) ((wp_pure _).mpr ⟨rfl, hold⟩)
  | pushFront free =>
    refine ⟨0, fun fuel _ heap hold => ?_⟩
    rw [ListCall.run, wp_bind]
    exact (listPushFront_wp (hold.single free)).mono fun _ _ held => (wp_pure _).mpr ⟨rfl, held⟩
  | pushBack free =>
    refine ⟨0, fun fuel _ heap hold => ?_⟩
    rw [ListCall.run, wp_bind]
    exact (listPushBack_wp (hold.single free)).mono fun _ _ held => (wp_pure _).mpr ⟨rfl, held⟩
  | remove =>
    refine ⟨0, fun fuel _ heap hold => wp_map.mpr ((listRemove_wp hold).mono ?_)⟩
    rintro _ after ⟨rfl, held⟩
    exact ⟨rfl, held.forget⟩
  | popFront =>
    refine ⟨0, fun fuel _ heap hold => wp_map.mpr ((listPopFront_wp hold).mono ?_)⟩
    rintro _ after ⟨rfl, held⟩
    exact ⟨rfl, held.forget⟩
  | popBack =>
    refine ⟨0, fun fuel _ heap hold => wp_map.mpr ((listPopBack_wp hold).mono ?_)⟩
    rintro _ after ⟨rfl, held⟩
    exact ⟨rfl, held.forget⟩
  | front => exact ⟨0, fun fuel _ heap hold => wp_map.mpr (.of_eq (listFront_run hold) ⟨rfl, hold⟩)⟩
  | back => exact ⟨0, fun fuel _ heap hold => wp_map.mpr (.of_eq (listBack_run hold) ⟨rfl, hold⟩)⟩
  | @size list cells rest =>
    refine ⟨cells.length + 1, fun fuel enough heap hold => ?_⟩
    exact wp_map.mpr (.of_eq (listSize_run hold enough) ⟨rfl, hold⟩)
  | empty => exact ⟨0, fun fuel _ heap hold => wp_map.mpr (.of_eq hold.listEmpty_run ⟨rfl, hold⟩)⟩
  | @reverse list cells rest =>
    refine ⟨cells.length + 1, fun fuel enough heap hold => ?_⟩
    rw [ListCall.run, wp_bind]
    exact (listReverse_wp hold enough).mono fun _ _ held => (wp_pure _).mpr ⟨rfl, held⟩
  | @sort list cells rest =>
    refine ⟨cells.length + 1, fun fuel enough heap hold => ?_⟩
    rw [ListCall.run, wp_bind]
    exact (listSort_wp precedence hold enough).mono fun _ _ held => (wp_pure _).mpr ⟨rfl, held⟩
  | @insertOrdered list cells elem rest free =>
    refine ⟨cells.length + 1, fun fuel enough heap hold => ?_⟩
    rw [ListCall.run, wp_bind]
    exact (listInsertOrdered_wp (hold.single free) enough).mono fun _ _ held => (wp_pure _).mpr ⟨rfl, held⟩
  | @unique list x ys rest duplicates =>
    refine ⟨ys.length + 1, fun fuel enough heap hold => ?_⟩
    rw [ListCall.run, wp_bind]
    exact (listUnique_wp duplicates hold enough).mono fun _ _ held => (wp_pure _).mpr ⟨rfl, held⟩
  | uniqueNone duplicates =>
    refine ⟨0, fun fuel _ heap hold => ?_⟩
    rw [ListCall.run, wp_bind]
    exact .of_eq (listUnique_none duplicates hold) ((wp_pure _).mpr ⟨rfl, hold⟩)
  | @max list cells x rest greatest =>
    refine ⟨cells.length + 1, fun fuel enough heap hold => ?_⟩
    exact wp_map.mpr (.of_eq (listBest_reply precedence hold greatest enough) ⟨rfl, hold⟩)
  | maxNone => exact ⟨0, fun fuel _ heap hold => wp_map.mpr (.of_eq (listBest_none hold) ⟨rfl, hold⟩)⟩
  | @min list cells x rest least =>
    refine ⟨cells.length + 1, fun fuel enough heap hold => ?_⟩
    exact wp_map.mpr (.of_eq (listBest_reply (flipped precedence) hold least enough) ⟨rfl, hold⟩)
  | minNone => exact ⟨0, fun fuel _ heap hold => wp_map.mpr (.of_eq (listBest_none hold) ⟨rfl, hold⟩)⟩
  | perm same _ ih =>
    obtain ⟨enough, runs⟩ := ih
    exact ⟨enough, fun fuel bound heap hold => runs fuel bound heap (hold.perm same)⟩

/-- Whatever program of such calls is run, on any number of lists, it comes to its end without a failed assertion. It answers as
the lists say, and leaves every list linked in both directions, with what the calls put into it. -/
theorem calls_keep (run : Calls calls lists replies after) :
    ∃ enough, ∀ fuel ≥ enough, ∀ heap, Hold heap lists [] →
      ∃ heap', runCalls fuel calls heap = some (replies, heap') ∧ Hold heap' after [] := by
  induction run with
  | nil => exact ⟨0, fun fuel _ heap hold => ⟨heap, rfl, hold⟩⟩
  | cons precedence first later ih =>
    obtain ⟨enough, one⟩ := first.keeps precedence
    obtain ⟨enough', others⟩ := ih
    refine ⟨max enough enough', fun fuel bound heap hold => ?_⟩
    obtain ⟨reply, middle, ran, rfl, held⟩ := one fuel (Nat.max_le.mp bound).1 heap hold
    obtain ⟨heap', ran', held'⟩ := others fuel (Nat.max_le.mp bound).2 middle held
    refine ⟨heap', ?_, held'⟩
    rw [runCalls, run_bind ran, run_bind ran']
    rfl

def smaller (a b : Elem) : Bool := decide (a < b)

theorem smaller_precedence : Precedence smaller := by
  constructor
  · intro a b held
    exact decide_eq_false (Nat.not_lt_of_gt (of_decide_eq_true held))
  · intro a b c held
    have order := of_decide_eq_true held
    rcases Nat.lt_or_ge a b with first | first
    · exact .inl (decide_eq_true first)
    · exact .inr (decide_eq_true (Nat.lt_of_le_of_lt first order))

theorem calls_keep_two : Hold ⟨⟨fun _ => none, fun _ => none⟩, 0⟩ [] [] ∧
    ∃ enough, ∀ fuel ≥ enough, ∀ heap, Hold heap [] [] →
      ∃ heap', runCalls fuel [(smaller, .init ⟨0, 1⟩), (smaller, .init ⟨2, 3⟩), (smaller, .pushBack ⟨2, 3⟩ 17),
          (smaller, .insertOrdered ⟨2, 3⟩ 12), (fun a b => smaller b a, .sort ⟨2, 3⟩), (smaller, .splice 1 12 3),
          (smaller, .popFront ⟨2, 3⟩)] heap = some ([.done, .done, .done, .done, .done, .done, .elem 17], heap') ∧
        Hold heap' [(⟨2, 3⟩, []), (⟨0, 1⟩, [12])] [] := by
  refine ⟨⟨⟨⟨fun _ member => (List.not_mem_nil member).elim, .nil⟩, fun _ member => (List.not_mem_nil member).elim,
    fun _ member => (List.not_mem_nil member).elim⟩, rfl⟩, ?_⟩
  have precedence := smaller_precedence
  have first : ∀ entry ∈ ([] : Lists), (0 : Elem) ∉ entry.1.nodes entry.2 ∧ (1 : Elem) ∉ entry.1.nodes entry.2 :=
    fun _ member => (List.not_mem_nil member).elim
  have turned : ([12, 17] : List Elem).mergeSort (fun a b => !smaller a b) = [17, 12] := by
    simp [List.mergeSort, List.MergeSort.Internal.splitInTwo, smaller]
  have sorted : Effect (fun a b => smaller b a) (.sort ⟨2, 3⟩) [(⟨2, 3⟩, [12, 17]), (⟨0, 1⟩, [])] .done
      [(⟨2, 3⟩, [12, 17].mergeSort fun a b => !smaller a b), (⟨0, 1⟩, [])] := .sort
  rw [turned] at sorted
  have moved : Effect smaller (.splice (Ends.at ⟨0, 1⟩ []) 12 (Ends.at ⟨2, 3⟩ []))
      [(⟨2, 3⟩, [17] ++ ([12] ++ [])), (⟨0, 1⟩, [] ++ [])] .done [(⟨0, 1⟩, [] ++ ([12] ++ [])), (⟨2, 3⟩, [17] ++ [])] :=
    .splice rfl (.swap ..)
  exact calls_keep (.cons precedence (.init (by decide) first) (.cons precedence (.init (by decide) (by decide)) (.cons precedence
    (.pushBack (by decide)) (.cons precedence (.insertOrdered (by decide)) (.cons (flipped precedence) sorted (.cons precedence moved
    (.cons precedence (.perm (.swap ..) .popFront) .nil)))))))

/-- Sorting is stable, it moves elements of this list only, and it passes over the list as often as it takes to halve the
number of its ascending runs down to one. -/
theorem sort_passes {list : LList} {cells : List Elem} {rest : Lists} {loose : List (List Elem)} {fuel passes : Nat}
    (precedence : Precedence less) (hold : Hold heap ((list, cells) :: rest) loose) (enough : cells.length < fuel)
    (turns : (naturalRuns less cells).length ≤ 2 ^ passes) :
    ∃ sorted, sorted.Perm cells ∧ StablySorted less cells sorted ∧
      (∃ heap', listSort less fuel list heap = some (⟨⟩, heap') ∧ Hold heap' ((list, sorted) :: rest) loose) ∧
      ∃ heap', sortPasses less fuel list (passes + 1) heap = some (⟨⟩, heap') ∧ Hold heap' ((list, sorted) :: rest) loose := by
  obtain ⟨_, heap₁, ran₁, held₁⟩ := listSort_wp precedence hold enough
  obtain ⟨_, heap₂, ran₂, sorted, stable, held₂⟩ := sortPasses_wp precedence hold enough turns
  have same := stable.eq_mergeSort precedence
  refine ⟨sorted, ?_, stable, ⟨heap₁, ran₁, ?_⟩, heap₂, ran₂, held₂⟩
  · rw [same]
    exact List.mergeSort_perm cells _
  · rw [same]
    exact held₁

/-- Two runs, so two passes. -/
theorem sort_passes_two : ∃ heap, Hold heap [(⟨0, 1⟩, [5, 7, 6])] [] ∧ ∃ sorted, sorted.Perm [5, 7, 6] ∧
    StablySorted smaller [5, 7, 6] sorted ∧
    (∃ heap', listSort smaller 4 ⟨0, 1⟩ heap = some (⟨⟩, heap') ∧ Hold heap' [(⟨0, 1⟩, sorted)] []) ∧
    ∃ heap', sortPasses smaller 4 ⟨0, 1⟩ 2 heap = some (⟨⟩, heap') ∧ Hold heap' [(⟨0, 1⟩, sorted)] [] := by
  have hold : Hold ⟨⟨fun e => [(5, 0), (7, 5), (6, 7), (1, 6)].lookup e, fun e => [(0, 5), (5, 7), (7, 6), (6, 1)].lookup e⟩, 0⟩
      [(⟨0, 1⟩, [5, 7, 6])] [] := by
    refine ⟨⟨⟨fun piece member => ?_, by decide⟩, by decide, by decide⟩, rfl⟩
    cases List.mem_singleton.mp member
    exact .cons_cons ⟨rfl, rfl⟩ (.cons_cons ⟨rfl, rfl⟩ (.cons_cons ⟨rfl, rfl⟩ (.cons_cons ⟨rfl, rfl⟩ (.singleton _))))
  exact ⟨_, hold, sort_passes smaller_precedence hold (by decide) (show (naturalRuns smaller [5, 7, 6]).length ≤ 2 ^ 1 by decide)⟩

end Comp310.Proofs.ElementLists
