import Comp310.Lib.Bubble
import Comp310.A2.Queued

/-! Which ready queues `sort_ready_queue` puts in order. Its cursor is not set back between the rounds of the outer loop,
so that all rounds together are one pass over the queue. -/

namespace Comp310.Proofs.ReadyOrder
open Comp310.A2 Comp310.Lib

/-- Priority goes first, then the lower score. -/
def Precedes (first second : Pcb) : Prop :=
  (second.priority = true → first.priority = true) ∧ (first.priority = second.priority → first.jobLengthScore ≤ second.jobLengthScore)

/-- The first node has to be behind the second. -/
def behind (queue : ReadyQueue) (node other : Nat) : Bool := ReadyQueue.comesAfter (queue.pcb node) (queue.pcb other)

/-- The sort comes to its end, and leaves a list of the same nodes. -/
def SortKeeps (queue : ReadyQueue) (nodes : List Nat) (holds : List Nat → Prop) : Prop :=
  ∃ enough, ∀ fuel ≥ enough, ∃ queue' nodes', queue.sortReadyQueue fuel = some queue' ∧ Queued queue' nodes' ∧ nodes'.Perm nodes ∧
    queue'.pcb = queue.pcb ∧ holds nodes'

/-- What is popped comes before all others, which stay. -/
def PopsShortest (queue : ReadyQueue) (nodes : List Nat) : Prop :=
  ∃ enough, ∀ fuel ≥ enough, ∃ popped queue', queue.popShortestJob fuel = some (popped, queue') ∧
    match popped with
    | none => nodes = []
    | some node => ∃ rest, Queued queue' rest ∧ (node :: rest).Perm nodes ∧ ∀ other ∈ nodes, Precedes (queue.pcb node) (queue.pcb other)

/-- The queue is sorted, and the shortest job popped from it. -/
def Sorts (queue : ReadyQueue) (nodes : List Nat) : Prop :=
  SortKeeps queue nodes (fun nodes' => nodes'.Pairwise fun node other => Precedes (queue.pcb node) (queue.pcb other)) ∧ PopsShortest queue nodes

variable {queue queue' : ReadyQueue} {nodes front back : List Nat} {cur fuel : Nat} {a b : Pcb}

theorem comesAfter_false : ReadyQueue.comesAfter a b = false ↔ Precedes a b := by
  unfold ReadyQueue.comesAfter Precedes
  cases a.priority <;> cases b.priority <;> simp

theorem comesAfter_precedence : Precedence ReadyQueue.comesAfter := by
  constructor
  · intro a b after
    unfold ReadyQueue.comesAfter at after ⊢
    cases first : a.priority <;> cases second : b.priority <;> simp_all
    all_goals omega
  · intro a b c after
    unfold ReadyQueue.comesAfter at after ⊢
    cases first : a.priority <;> cases second : b.priority <;> cases third : c.priority <;> simp_all
    all_goals omega

theorem behind_precedence : Precedence (behind queue) :=
  ⟨fun _ _ => comesAfter_precedence.asymm _ _, fun _ _ _ => comesAfter_precedence.cotrans _ _ _⟩

theorem sortInner_queued (sorted : Bool) (queued : Queued queue (front ++ cur :: back)) (enough : front.length + 2 * back.length + 2 < fuel) :
    ∃ sorted' last queue', ReadyQueue.sortInner fuel sorted cur queue = some (sorted', last, queue') ∧ queue'.next last = none ∧
      Queued queue' (front ++ bubblePass (behind queue) cur back) ∧ queue'.pcb = queue.pcb := by
  induction back generalizing queue front cur fuel sorted with
  | nil =>
    obtain ⟨fuel, rfl⟩ := Nat.exists_eq_succ_of_ne_zero (Nat.ne_of_gt (Nat.zero_lt_of_lt enough))
    have last : queue.next cur = none := (linked_split.mp queued).2
    exact ⟨sorted, cur, queue, by rw [ReadyQueue.sortInner, last], last, queued, rfl⟩
  | cons second rest ih =>
    obtain ⟨fuel, rfl⟩ := Nat.exists_eq_succ_of_ne_zero (Nat.ne_of_gt (Nat.zero_lt_of_lt enough))
    have link : queue.next cur = some second := (linked_split.mp queued).2.1
    have needed : queue.swapNeeded cur = behind queue cur second := by
      rw [ReadyQueue.swapNeeded, link]
      rfl
    rw [List.length_cons] at enough
    by_cases swap : behind queue cur second = true
    · obtain ⟨swapped, ran, queued', pcbs⟩ := ReadyQueue.swapWithNext_queued queued (show _ < fuel by omega)
      rw [List.append_cons] at queued'
      obtain ⟨sorted', last, queue', inner, ends, queued'', pcbs'⟩ := ih false queued' (show _ < fuel by
        rw [List.length_append, List.length_singleton]
        omega)
      have same : behind swapped = behind queue := by
        unfold behind
        rw [pcbs]
      refine ⟨sorted', last, queue', ?_, ends, ?_, pcbs'.trans pcbs⟩
      · rw [ReadyQueue.sortInner, link]
        dsimp only
        rw [needed, if_pos swap, ran]
        exact inner
      · rw [bubblePass, if_pos swap, List.append_cons, ← same]
        exact queued''
    · rw [List.append_cons] at queued
      obtain ⟨sorted', last, queue', inner, ends, queued', pcbs⟩ := ih sorted queued (show _ < fuel by
        rw [List.length_append, List.length_singleton]
        omega)
      refine ⟨sorted', last, queue', ?_, ends, ?_, pcbs⟩
      · rw [ReadyQueue.sortInner, link]
        dsimp only
        rw [needed, if_neg swap]
        exact inner
      · rw [bubblePass, if_neg swap, List.append_cons]
        exact queued'

theorem sortReadyQueue_queued (queued : Queued queue (cur :: back)) (enough : 2 * back.length + 4 < fuel) :
    ∃ queue', queue.sortReadyQueue fuel = some queue' ∧ Queued queue' (bubblePass (behind queue) cur back) ∧ queue'.pcb = queue.pcb := by
  obtain ⟨fuel, rfl⟩ : ∃ less, fuel = less + 3 := ⟨fuel - 3, by omega⟩
  have start : Queued queue ([] ++ cur :: back) := queued
  obtain ⟨sorted, last, queue', inner, ends, queued', pcbs⟩ := sortInner_queued true start (show _ < fuel + 2 by
    rw [List.length_nil]
    omega)
  refine ⟨queue', ?_, queued', pcbs⟩
  rw [ReadyQueue.sortReadyQueue, queued.1]
  dsimp only
  rw [ReadyQueue.sortOuter, inner, Option.bind_some]
  dsimp only
  cases sorted with
  | true => rw [if_pos rfl]
  | false =>
    -- the cursor is at the end, so that the second round finds nothing to do
    have again : ReadyQueue.sortInner (fuel + 1) true last queue' = some (true, last, queue') := by rw [ReadyQueue.sortInner, ends]
    rw [if_neg Bool.false_ne_true, ReadyQueue.sortOuter, again, Option.bind_some, if_pos rfl]

def onePass (queue : ReadyQueue) : List Nat → List Nat
  | [] => []
  | cur :: back => bubblePass (behind queue) cur back

theorem sort_onePass (queued : Queued queue nodes) (enough : 2 * nodes.length + 4 < fuel) :
    ∃ queue', queue.sortReadyQueue fuel = some queue' ∧ Queued queue' (onePass queue nodes) ∧ queue'.pcb = queue.pcb := by
  cases nodes with
  | nil =>
    have empty : queue.head = none := queued
    exact ⟨queue, by rw [ReadyQueue.sortReadyQueue, empty], queued, rfl⟩
  | cons cur back =>
    rw [List.length_cons] at enough
    exact sortReadyQueue_queued queued (by omega)

/-- A sort that comes to its end has made one pass, with any fuel. -/
theorem sorted_onePass (queued : Queued queue nodes) (ran : queue.sortReadyQueue fuel = some queue') :
    Queued queue' (onePass queue nodes) ∧ queue'.pcb = queue.pcb := by
  obtain ⟨queue'', ran', queued', pcbs⟩ := sort_onePass queued (show _ < fuel + 2 * nodes.length + 5 by omega)
  cases (ReadyQueue.sortReadyQueue_mono (by omega) ran).symm.trans ran'
  exact ⟨queued', pcbs⟩

theorem onePass_perm : (onePass queue nodes).Perm nodes := by
  cases nodes with
  | nil => exact .refl _
  | cons cur back => exact bubblePass_perm _ cur back

theorem onePass_inOrder_iff : InOrder (behind queue) (onePass queue nodes) ↔ NearlyInOrder (behind queue) nodes := by
  cases nodes with
  | nil =>
    refine iff_of_true List.Pairwise.nil ?_
    intro front x back split
    cases front <;> cases split
  | cons cur back => exact bubblePass_inOrder_iff behind_precedence

theorem inOrder_iff : InOrder (behind queue) nodes ↔ nodes.Pairwise fun node other => Precedes (queue.pcb node) (queue.pcb other) := by
  unfold InOrder behind
  simp only [comesAfter_false]

theorem first_precedes {node : Nat} {rest : List Nat} (ordered : InOrder (behind queue) (node :: rest)) (all : (node :: rest).Perm nodes) :
    ∀ other ∈ nodes, Precedes (queue.pcb node) (queue.pcb other) := by
  intro other member
  rcases List.mem_cons.mp (all.mem_iff.mpr member) with rfl | later
  · exact ⟨id, fun _ => Int.le_refl _⟩
  · exact (List.pairwise_cons.mp (inOrder_iff.mp ordered)).1 other later

/-- The sort always ends with the same nodes; it sorts, and the shortest job is popped, just where no process has two
before it that have to be behind it. -/
theorem sorts_iff (queued : Queued queue nodes) :
    SortKeeps queue nodes (fun _ => True) ∧ (Sorts queue nodes ↔ NearlyInOrder (behind queue) nodes) := by
  have keeps {holds : List Nat → Prop} (after : holds (onePass queue nodes)) : SortKeeps queue nodes holds := by
    refine ⟨2 * nodes.length + 5, fun fuel enough => ?_⟩
    obtain ⟨queue', ran, queued', pcbs⟩ := sort_onePass queued (show _ < fuel by omega)
    exact ⟨queue', _, ran, queued', onePass_perm, pcbs, after⟩
  refine ⟨keeps trivial, ?_⟩
  rw [← onePass_inOrder_iff]
  constructor
  · rintro ⟨⟨enough, sorts⟩, _⟩
    obtain ⟨queue', nodes', ran, queued', _, _, ordered⟩ := sorts (enough + 2 * nodes.length + 5) (by omega)
    obtain ⟨queue'', ran', queued'', _⟩ := sort_onePass queued (show _ < enough + 2 * nodes.length + 5 by omega)
    cases ran.symm.trans ran'
    rw [queued''.unique queued']
    exact inOrder_iff.mpr ordered
  · intro ordered
    refine ⟨keeps (inOrder_iff.mp ordered), 2 * nodes.length + 5, fun fuel enough => ?_⟩
    obtain ⟨queue', ran, queued', _⟩ := sort_onePass queued (show _ < fuel by omega)
    refine ⟨queue'.popHead.1, queue'.popHead.2, by rw [ReadyQueue.popShortestJob, ran]; rfl, ?_⟩
    have same : (onePass queue nodes).Perm nodes := onePass_perm
    cases all : onePass queue nodes with
    | nil =>
      rw [all] at queued' same
      have empty : queue'.head = none := queued'
      rw [ReadyQueue.popHead, empty]
      exact same.nil_eq.symm
    | cons node rest =>
      rw [all] at queued' same ordered
      obtain ⟨queue'', popped, behind, _⟩ := ReadyQueue.popHead_queued queued'
      rw [popped]
      exact ⟨rest, behind, same, first_precedes ordered same⟩

section Example

def job (jobLengthScore : Int) : Pcb := ⟨false, 0, 0, 0, 0, jobLengthScore, .replicate 30 ⟨0, 0, false, false, 0⟩, 0, 0, []⟩

/-- Jobs of lengths 3, 2 and 1, of which the first or the second is at the head. -/
def jobs (head : Nat) : ReadyQueue := ⟨some head, fun n => ⟨job (3 - n), if n = 2 then none else some (n + 1)⟩⟩

/-- Two jobs in the wrong order are sorted. -/
theorem sorts_two : Sorts (jobs 1) [1, 2] := by
  have queued : Queued (jobs 1) [1, 2] := ⟨rfl, rfl, rfl⟩
  refine (sorts_iff queued).2.mpr ?_
  rw [nearlyInOrder_cons]
  intro front x back split
  cases front with
  | nil =>
    rw [List.countP_nil, Nat.zero_add]
    split <;> decide
  | cons y front => cases front <;> cases (List.cons.inj split).2

/-- Of three jobs in the wrong order, the last is moved only once. -/
theorem three_not_sorted : Queued (jobs 0) [0, 1, 2] ∧ ¬ Sorts (jobs 0) [0, 1, 2] := by
  have queued : Queued (jobs 0) [0, 1, 2] := ⟨rfl, rfl, rfl, rfl⟩
  refine ⟨queued, ?_⟩
  rintro ⟨⟨enough, sorts⟩, _⟩
  obtain ⟨queue', nodes', ran, queued', _, _, ordered⟩ := sorts (enough + 11) (by omega)
  obtain ⟨queue'', ran', queued'', _⟩ := sort_onePass queued (show _ < enough + 11 by
    rw [List.length_cons, List.length_cons, List.length_cons, List.length_nil]
    omega)
  cases ran.symm.trans ran'
  have pair : onePass (jobs 0) [0, 1, 2] = [1, 2, 0] := by decide
  rw [← queued''.unique queued', pair] at ordered
  have first := ((List.pairwise_cons.mp ordered).1 2 (by decide)).2 rfl
  exact absurd first (by decide)

end Example

end Comp310.Proofs.ReadyOrder
