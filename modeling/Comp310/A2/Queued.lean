import Mathlib.Data.List.Nodup
import Comp310.Lib.Linked
import Comp310.A2.ReadyQueue

/-! What the operations of the ready queue do to the list of its nodes. -/

namespace Comp310.A2
open Comp310.Lib

/-- The nodes of the queue, from its head to its end. -/
def Queued (queue : ReadyQueue) (nodes : List Nat) : Prop := Linked queue.next queue.head nodes none

namespace ReadyQueue

variable {queue queue' : ReadyQueue} {nodes rest front back : List Nat} {node addr last toSwap fuel : Nat} {target : Option Nat}
  {pcb : Pcb}

theorem setNext_next : (queue.setNext addr target).next = relink queue.next addr target := by
  funext other
  by_cases same : other = addr
  · rw [same, relink_self, next, setNext]
    exact congrArg QueueNode.next (if_pos rfl)
  · rw [relink_other same, next, setNext]
    exact congrArg QueueNode.next (if_neg same)

theorem setNext_pcb : (queue.setNext addr target).pcb = queue.pcb := by
  funext other
  unfold ReadyQueue.pcb setNext
  dsimp only
  split
  next same => rw [same]
  next => rfl

theorem setPcb_next : (queue.setPcb addr pcb).next = queue.next := by
  funext other
  unfold ReadyQueue.next setPcb
  dsimp only
  split
  next same => rw [same]
  next => rfl

theorem setPcb_self : (queue.setPcb addr pcb).pcb addr = pcb := congrArg QueueNode.pcb (if_pos rfl)

theorem setPcb_other {other : Nat} (differs : other ≠ addr) : (queue.setPcb addr pcb).pcb other = queue.pcb other :=
  congrArg QueueNode.pcb (if_neg differs)

theorem setPcb_setPcb {pcb' : Pcb} : (queue.setPcb addr pcb).setPcb addr pcb' = queue.setPcb addr pcb' := by
  have node : ((queue.setPcb addr pcb).setPcb addr pcb').node = (queue.setPcb addr pcb').node := by
    funext other
    by_cases same : other = addr
    · simp [setPcb, same]
    · simp [setPcb, same]
  exact congrArg (ReadyQueue.mk queue.head) node

theorem lastFrom_eq {cur : Nat} (linked : Linked queue.next (some cur) (front ++ [last]) none) (enough : front.length < fuel) :
    queue.lastFrom fuel cur = some last := by
  induction front generalizing cur fuel with
  | nil =>
    obtain ⟨fuel, rfl⟩ := Nat.exists_eq_succ_of_ne_zero (Nat.ne_of_gt enough)
    obtain ⟨same, stop⟩ := linked
    cases same
    have stop : queue.next last = none := stop
    rw [lastFrom, stop]
  | cons first rest ih =>
    obtain ⟨fuel, rfl⟩ := Nat.exists_eq_succ_of_ne_zero (Nat.ne_of_gt (Nat.zero_lt_of_lt enough))
    obtain ⟨same, linked⟩ := linked
    cases same
    obtain ⟨second, there⟩ : ∃ second, queue.next first = some second := by
      cases rest with
      | nil => exact ⟨last, linked.1⟩
      | cons second rest => exact ⟨second, linked.1⟩
    rw [lastFrom, there]
    exact ih (there ▸ linked) (Nat.lt_of_succ_lt_succ enough)

theorem exists_last {head : Nat} (start : queue.head = some head) (queued : Queued queue nodes) : ∃ front last, nodes = front ++ [last] := by
  cases nodes with
  | nil =>
    have empty : queue.head = none := queued
    cases start.symm.trans empty
  | cons first rest => exact ⟨_, _, (List.dropLast_concat_getLast (List.cons_ne_nil first rest)).symm⟩

theorem addToTail_queued (queued : Queued queue nodes) (new : node ∉ nodes) (enough : nodes.length ≤ fuel) :
    ∃ queue', queue.addToTail fuel node = some queue' ∧ Queued queue' (nodes ++ [node]) ∧ queue'.pcb = queue.pcb := by
  cases start : queue.head with
  | none =>
    have empty : nodes = [] := by
      have stop : Linked queue.next queue.head [] none := start
      exact Linked.unique queued stop
    subst empty
    refine ⟨{ queue.setNext node none with head := some node }, by rw [addToTail, start], ⟨rfl, ?_⟩, setNext_pcb⟩
    change Linked _ ((queue.setNext node none).next node) [] none
    rw [setNext_next, relink_self]
    rfl
  | some head =>
    obtain ⟨front, last, rfl⟩ := exists_last start queued
    rw [List.length_append, List.length_singleton] at enough
    have linked : Linked queue.next (some head) (front ++ [last]) none := start ▸ queued
    refine ⟨(queue.setNext last (some node)).setNext node none, ?_, ?_, setNext_pcb.trans setNext_pcb⟩
    · rw [addToTail, start]
      dsimp only
      rw [lastFrom_eq linked (by omega)]
      rfl
    have differs : last ≠ node := fun same => new (same ▸ List.mem_append_right front List.mem_cons_self)
    have absent : node ∉ front := fun member => new (List.mem_append_left _ member)
    have once := (List.nodup_append.mp linked.nodup).2.2
    have before : last ∉ front := fun member => once last member last List.mem_cons_self rfl
    obtain ⟨reached, _⟩ := linked_split.mp queued
    unfold Queued
    rw [setNext_next, setNext_next, List.append_assoc]
    refine linked_split.mpr ⟨?_, ?_, ?_⟩
    · exact (reached.relink before).relink absent
    · rw [relink_other differs, relink_self]
    · rw [relink_self]
      rfl

theorem addToHead_queued (queued : Queued queue nodes) (new : node ∉ nodes) :
    Queued (queue.addToHead node) (node :: nodes) ∧ (queue.addToHead node).pcb = queue.pcb := by
  unfold addToHead
  cases start : queue.head with
  | none =>
    have stop : Linked queue.next queue.head [] none := start
    cases queued.unique stop
    refine ⟨⟨rfl, ?_⟩, setNext_pcb⟩
    change Linked _ ((queue.setNext node none).next node) [] none
    rw [setNext_next, relink_self]
    rfl
  | some head =>
    refine ⟨⟨rfl, ?_⟩, setNext_pcb⟩
    change Linked (queue.setNext node (some head)).next ((queue.setNext node (some head)).next node) nodes none
    rw [setNext_next, relink_self]
    rw [Queued, start] at queued
    exact queued.relink new

theorem popHead_queued (queued : Queued queue (node :: rest)) : ∃ queue', queue.popHead = (some node, queue') ∧ Queued queue' rest ∧
    queue'.pcb = queue.pcb := by
  obtain ⟨start, linked⟩ := queued
  exact ⟨{ queue with head := queue.next node }, by rw [popHead, start], linked, rfl⟩

/-- A cell that is not in the list keeps its process, and the others have theirs changed once. -/
theorem decrementFrom_queued {start : Option Nat} (linked : Linked queue.next start nodes none) (enough : nodes.length < fuel) :
    ∃ queue', decrementFrom fuel start queue = some queue' ∧ queue'.next = queue.next ∧ queue'.head = queue.head ∧
      ∀ other, queue'.pcb other = if other ∈ nodes then decrement (queue.pcb other) else queue.pcb other := by
  induction nodes generalizing queue start fuel with
  | nil =>
    obtain ⟨fuel, rfl⟩ := Nat.exists_eq_succ_of_ne_zero (Nat.ne_of_gt enough)
    have stop : start = none := linked
    refine ⟨queue, by rw [stop, decrementFrom], rfl, rfl, ?_⟩
    exact fun other => (if_neg List.not_mem_nil).symm
  | cons first rest ih =>
    obtain ⟨fuel, rfl⟩ := Nat.exists_eq_succ_of_ne_zero (Nat.ne_of_gt (Nat.zero_lt_of_lt enough))
    have once := (List.nodup_cons.mp linked.nodup).1
    obtain ⟨same, linked⟩ := linked
    cases same
    have later : Linked (queue.setPcb first (decrement (queue.pcb first))).next (queue.next first) rest none := by
      rw [setPcb_next]
      exact linked
    obtain ⟨queue', ran, nexts, head, pcbs⟩ := ih later (Nat.lt_of_succ_lt_succ enough)
    refine ⟨queue', by rw [decrementFrom, ran], nexts.trans setPcb_next, head, ?_⟩
    intro other
    rw [pcbs]
    by_cases mine : other = first
    · rw [mine, if_neg once, if_pos List.mem_cons_self, setPcb_self]
    · rw [setPcb_other mine]
      exact if_congr (by rw [List.mem_cons, or_iff_right mine]) rfl rfl

theorem decrement_queued (queued : Queued queue nodes) (enough : nodes.length < fuel) :
    ∃ queue', queue.decrementJobLengthScore fuel = some queue' ∧ Queued queue' nodes ∧
      ∀ other, queue'.pcb other = if other ∈ nodes then decrement (queue.pcb other) else queue.pcb other := by
  obtain ⟨queue', ran, nexts, head, pcbs⟩ := decrementFrom_queued queued enough
  refine ⟨queue', ran, ?_, pcbs⟩
  rw [Queued, nexts, head]
  exact queued

section Shortest

theorem shortestFrom_eq {start : Option Nat} (shortest : Int) (linked : Linked queue.next start nodes none) (enough : nodes.length < fuel) :
    ∃ least, queue.shortestFrom fuel shortest start = some least ∧ least ≤ shortest ∧ (∀ n ∈ nodes, least ≤ (queue.pcb n).jobLengthScore) ∧
      (least = shortest ∨ ∃ n ∈ nodes, (queue.pcb n).jobLengthScore = least) := by
  induction nodes generalizing start shortest fuel with
  | nil =>
    obtain ⟨fuel, rfl⟩ := Nat.exists_eq_succ_of_ne_zero (Nat.ne_of_gt enough)
    have stop : start = none := linked
    exact ⟨shortest, by rw [stop, shortestFrom], Int.le_refl _, fun n member => absurd member List.not_mem_nil, .inl rfl⟩
  | cons first rest ih =>
    obtain ⟨fuel, rfl⟩ := Nat.exists_eq_succ_of_ne_zero (Nat.ne_of_gt (Nat.zero_lt_of_lt enough))
    obtain ⟨rfl, linked⟩ := linked
    obtain ⟨least, ran, below, all, reached⟩ :=
      ih (if (queue.pcb first).jobLengthScore < shortest then (queue.pcb first).jobLengthScore else shortest) linked
        (Nat.lt_of_succ_lt_succ enough)
    refine ⟨least, ran, ?_, ?_, ?_⟩
    · split at below <;> omega
    · rw [List.forall_mem_cons]
      refine ⟨?_, all⟩
      split at below <;> omega
    · rcases reached with same | ⟨n, member, same⟩
      · split at same
        · exact .inr ⟨first, List.mem_cons_self, same.symm⟩
        · exact .inl same
      · exact .inr ⟨n, List.mem_cons_of_mem _ member, same⟩

/-- With less fuel than nodes the loop does not come to its end. -/
theorem shortestFrom_none {start : Option Nat} (shortest : Int) (linked : Linked queue.next start nodes none) (less : fuel ≤ nodes.length) :
    queue.shortestFrom fuel shortest start = none := by
  induction fuel generalizing nodes start shortest with
  | zero => rfl
  | succ fuel ih =>
    cases nodes with
    | nil => cases less
    | cons first rest =>
      obtain ⟨rfl, linked⟩ := linked
      exact ih _ linked (Nat.le_of_succ_le_succ less)

/-- A score that the first node does not have is that of a later one. -/
theorem scored_later {first : Nat} {score : Int} (there : ∃ n ∈ first :: rest, (queue.pcb n).jobLengthScore = score)
    (other : (queue.pcb first).jobLengthScore ≠ score) : ∃ n ∈ rest, (queue.pcb n).jobLengthScore = score := by
  obtain ⟨n, member, same⟩ := there
  rcases List.mem_cons.mp member with rfl | member
  · exact absurd same other
  · exact ⟨n, member, same⟩

theorem scoreFrom_eq {first : Nat} {score : Int} (linked : Linked queue.next (some first) (first :: rest) none)
    (there : ∃ n ∈ rest, (queue.pcb n).jobLengthScore = score) (enough : rest.length < fuel) :
    ∃ front before found back, first :: rest = front ++ before :: found :: back ∧ (queue.pcb found).jobLengthScore = score ∧
      queue.scoreFrom score fuel first = some before := by
  induction rest generalizing first fuel with
  | nil =>
    obtain ⟨n, member, _⟩ := there
    cases member
  | cons second rest ih =>
    obtain ⟨fuel, rfl⟩ := Nat.exists_eq_succ_of_ne_zero (Nat.ne_of_gt (Nat.zero_lt_of_lt enough))
    have link : queue.next first = some second := linked.2.1
    by_cases here : (queue.pcb second).jobLengthScore = score
    · refine ⟨[], first, second, rest, rfl, here, ?_⟩
      rw [scoreFrom, link]
      exact if_pos here
    · have later := scored_later there here
      obtain ⟨front, before, found, back, split, same, ran⟩ := ih (link ▸ linked.2) later (Nat.lt_of_succ_lt_succ enough)
      refine ⟨first :: front, before, found, back, by rw [split]; rfl, same, ?_⟩
      rw [scoreFrom, link]
      exact (if_neg here).trans ran

theorem promote_queued {score : Int} (queued : Queued queue nodes) (there : ∃ n ∈ nodes, (queue.pcb n).jobLengthScore = score)
    (enough : nodes.length ≤ fuel) : ∃ queue' first rest, queue.promote fuel score = some queue' ∧ Queued queue' (first :: rest) ∧
      (first :: rest).Perm nodes ∧ (queue.pcb first).jobLengthScore = score ∧ queue'.pcb = queue.pcb := by
  cases nodes with
  | nil =>
    obtain ⟨n, member, _⟩ := there
    cases member
  | cons head rest =>
    obtain ⟨start, linked⟩ := queued
    by_cases here : (queue.pcb head).jobLengthScore = score
    · refine ⟨queue, head, rest, ?_, ⟨start, linked⟩, .refl _, here, rfl⟩
      rw [promote, start]
      exact if_pos here
    · have later := scored_later there here
      obtain ⟨front, before, found, back, split, same, ran⟩ := scoreFrom_eq ⟨rfl, linked⟩ later enough
      have whole : Linked queue.next (some head) (front ++ before :: found :: back) none := split ▸ ⟨rfl, linked⟩
      have once := whole.nodup
      obtain ⟨reached, link, behind⟩ := linked_split.mp whole
      obtain ⟨_, pair, apart⟩ := List.nodup_append.mp once
      obtain ⟨notBefore, pair⟩ := List.nodup_cons.mp pair
      obtain ⟨notFound, _⟩ := List.nodup_cons.mp pair
      have differs : before ≠ found := fun same => notBefore (same ▸ List.mem_cons_self)
      let promoted : ReadyQueue := { (queue.setNext before (queue.next found)).setNext found (some head) with head := some found }
      have nexts : promoted.next = relink (relink queue.next before (queue.next found)) found (some head) := by
        change ((queue.setNext before (queue.next found)).setNext found (some head)).next = _
        rw [setNext_next, setNext_next]
      refine ⟨promoted, found, front ++ before :: back, ?_, ⟨rfl, ?_⟩, ?_, same, setNext_pcb.trans setNext_pcb⟩
      · rw [promote, start]
        dsimp only
        rw [if_neg here, ran, Option.map_some, link]
        dsimp only
        rw [if_neg (not_not_intro same)]
      · rw [nexts, relink_self]
        have away (n : Nat) (member : n ∈ before :: found :: back) : n ∉ front := fun there => apart n there n member rfl
        refine linked_split.mpr ⟨?_, ?_⟩
        · exact (reached.relink (away before List.mem_cons_self)).relink (away found (List.mem_cons_of_mem _ List.mem_cons_self))
        · rw [relink_other differs, relink_self]
          exact (behind.relink fun member => notBefore (List.mem_cons_of_mem _ member)).relink notFound
      · rw [split]
        have moved : (found :: (front ++ [before] ++ back)).Perm (front ++ [before] ++ found :: back) := List.perm_middle.symm
        rwa [List.append_assoc, List.append_assoc] at moved

end Shortest

section Swap

theorem previousFrom_some {start : Option Nat} {before : Nat} (linked : Linked queue.next start (front ++ before :: toSwap :: back) none)
    (enough : front.length < fuel) : queue.previousFrom toSwap fuel start = some (some before) := by
  induction front generalizing start fuel with
  | nil =>
    obtain ⟨fuel, rfl⟩ := Nat.exists_eq_succ_of_ne_zero (Nat.ne_of_gt enough)
    obtain ⟨rfl, link, _⟩ := linked
    rw [previousFrom, if_pos link]
  | cons first front ih =>
    obtain ⟨fuel, rfl⟩ := Nat.exists_eq_succ_of_ne_zero (Nat.ne_of_gt (Nat.zero_lt_of_lt enough))
    obtain ⟨rfl, linked⟩ := linked
    have other : queue.next first ≠ some toSwap := by
      intro link
      have linked : Linked queue.next (some toSwap) (front ++ before :: toSwap :: back) none := link ▸ linked
      rw [List.append_cons] at linked
      have suffix : Linked queue.next (some toSwap) (toSwap :: back) none := ⟨rfl, (linked_split.mp linked).2⟩
      have length := congrArg List.length (linked.unique suffix)
      rw [List.length_append, List.length_append, List.length_singleton] at length
      omega
    rw [previousFrom, if_neg other]
    exact ih linked (Nat.lt_of_succ_lt_succ enough)

theorem previousFrom_none (linked : Linked queue.next (some toSwap) (toSwap :: back) none) (enough : back.length + 1 < fuel) :
    queue.previousFrom toSwap fuel (some toSwap) = some none := by
  have walk (nodes : List Nat) (start : Option Nat) (fuel : Nat) (linked : Linked queue.next start nodes none) (enough : nodes.length < fuel)
      (other : ∀ n ∈ nodes, queue.next n ≠ some toSwap) : queue.previousFrom toSwap fuel start = some none := by
    induction nodes generalizing start fuel with
    | nil =>
      obtain ⟨fuel, rfl⟩ := Nat.exists_eq_succ_of_ne_zero (Nat.ne_of_gt enough)
      have stop : start = none := linked
      rw [stop, previousFrom]
    | cons first rest ih =>
      obtain ⟨fuel, rfl⟩ := Nat.exists_eq_succ_of_ne_zero (Nat.ne_of_gt (Nat.zero_lt_of_lt enough))
      obtain ⟨rfl, linked⟩ := linked
      rw [previousFrom, if_neg (other first List.mem_cons_self)]
      exact ih _ fuel linked (Nat.lt_of_succ_lt_succ enough) fun n member => other n (List.mem_cons_of_mem _ member)
  apply walk _ _ _ linked enough
  intro n member link
  exact (List.nodup_cons.mp linked.nodup).1 (linked.next_mem member link)

theorem swapWithNext_queued {second : Nat} (queued : Queued queue (front ++ toSwap :: second :: back)) (enough : front.length + back.length + 2 < fuel) :
    ∃ queue', queue.swapWithNext fuel toSwap = some queue' ∧ Queued queue' (front ++ second :: toSwap :: back) ∧ queue'.pcb = queue.pcb := by
  have once : (front ++ toSwap :: second :: back).Nodup := queued.nodup
  obtain ⟨reached, link, behind⟩ := linked_split.mp queued
  obtain ⟨_, pair, apart⟩ := List.nodup_append.mp once
  obtain ⟨notFirst, pair⟩ := List.nodup_cons.mp pair
  obtain ⟨notSecond, _⟩ := List.nodup_cons.mp pair
  have differs : second ≠ toSwap := fun same => notFirst (same ▸ List.mem_cons_self)
  have first : toSwap ∉ back := fun member => notFirst (List.mem_cons_of_mem _ member)
  rcases List.eq_nil_or_concat front with rfl | ⟨front, before, rfl⟩
  · have head : queue.head = some toSwap := reached
    let swapped : ReadyQueue := { (queue.setNext toSwap (queue.next second)).setNext second (some toSwap) with head := some second }
    have nexts : swapped.next = relink (relink queue.next toSwap (queue.next second)) second (some toSwap) := by
      change ((queue.setNext toSwap (queue.next second)).setNext second (some toSwap)).next = _
      rw [setNext_next, setNext_next]
    have linked : Linked swapped.next (some toSwap) (toSwap :: back) none := by
      refine ⟨rfl, ?_⟩
      rw [nexts, relink_other differs.symm, relink_self]
      exact (behind.relink first).relink notSecond
    refine ⟨swapped, ?_, ⟨rfl, ?_⟩, setNext_pcb.trans setNext_pcb⟩
    · have swap : queue.swapHead toSwap = some swapped := by
        rw [swapHead, if_pos head, link]
      rw [swapWithNext, swap, head]
      change (swapped.previousFrom toSwap fuel (some toSwap)).bind (fun cur => swapped.swapBehind toSwap cur) = _
      rw [List.length_nil] at enough
      rw [previousFrom_none linked (by omega)]
      rfl
    · rw [nexts, relink_self, ← nexts]
      exact linked
  · rw [List.concat_eq_append] at *
    have other : queue.head ≠ some toSwap := by
      intro head
      rw [Queued, head] at queued
      have suffix : Linked queue.next (some toSwap) (toSwap :: second :: back) none := ⟨rfl, link, behind⟩
      have length := congrArg List.length (queued.unique suffix)
      rw [List.length_append, List.length_append, List.length_singleton] at length
      omega
    rw [List.length_append, List.length_singleton] at enough
    obtain ⟨start, last⟩ := linked_split.mp reached
    have last : queue.next before = some toSwap := last
    have notBefore : before ≠ toSwap := apart before (List.mem_append_right _ List.mem_cons_self) toSwap List.mem_cons_self
    have notBefore' : before ≠ second := apart before (List.mem_append_right _ List.mem_cons_self) second (List.mem_cons_of_mem _ List.mem_cons_self)
    have away (n : Nat) (member : n ∈ toSwap :: second :: back) : n ∉ front :=
      fun there => apart n (List.mem_append_left _ there) n member rfl
    have once' : before ∉ front := fun there => (List.nodup_append.mp (List.nodup_append.mp once).1).2.2 before there before List.mem_cons_self rfl
    have notBack : before ∉ back :=
      fun there => apart before (List.mem_append_right _ List.mem_cons_self) before (List.mem_cons_of_mem _ (List.mem_cons_of_mem _ there)) rfl
    let swapped := ((queue.setNext before (some second)).setNext second (some toSwap)).setNext toSwap (queue.next second)
    have nexts : swapped.next = relink (relink (relink queue.next before (some second)) second (some toSwap)) toSwap (queue.next second) := by
      rw [setNext_next, setNext_next, setNext_next]
    refine ⟨swapped, ?_, ?_, setNext_pcb.trans (setNext_pcb.trans setNext_pcb)⟩
    · rw [swapWithNext, swapHead, if_neg other]
      change (queue.previousFrom toSwap fuel queue.head).bind (fun cur => queue.swapBehind toSwap cur) = _
      have walked : Linked queue.next queue.head (front ++ before :: toSwap :: second :: back) none := by
        rw [List.append_cons]
        exact queued
      rw [previousFrom_some walked (by omega)]
      change queue.swapBehind toSwap (some before) = _
      rw [swapBehind, link]
    · change Linked swapped.next queue.head (front ++ [before] ++ second :: toSwap :: back) none
      rw [nexts, List.append_assoc, List.singleton_append]
      refine linked_split.mpr ⟨?_, ?_, ?_, ?_⟩
      · exact ((start.relink once').relink (away second (List.mem_cons_of_mem _ List.mem_cons_self))).relink (away toSwap List.mem_cons_self)
      · rw [relink_other notBefore, relink_other notBefore', relink_self]
      · rw [relink_other differs, relink_self]
      · rw [relink_self]
        exact ((behind.relink notBack).relink notSecond).relink first

theorem previousFrom_mono {more : Nat} {start cur : Option Nat} (enough : fuel ≤ more) (ran : queue.previousFrom toSwap fuel start = some cur) :
    queue.previousFrom toSwap more start = some cur := by
  induction fuel generalizing start more with
  | zero => cases ran
  | succ fuel ih =>
    obtain ⟨more, rfl⟩ := Nat.exists_eq_succ_of_ne_zero (Nat.ne_of_gt (Nat.zero_lt_of_lt enough))
    cases start with
    | none => exact ran
    | some first =>
      unfold previousFrom at ran ⊢
      by_cases found : queue.next first = some toSwap
      · rwa [if_pos found] at ran ⊢
      · rw [if_neg found] at ran ⊢
        exact ih (Nat.le_of_succ_le_succ enough) ran

theorem swapWithNext_mono {more : Nat} (enough : fuel ≤ more) (ran : queue.swapWithNext fuel toSwap = some queue') :
    queue.swapWithNext more toSwap = some queue' := by
  obtain ⟨swapped, head, ran⟩ := Option.bind_eq_some_iff.mp ran
  obtain ⟨cur, found, ran⟩ := Option.bind_eq_some_iff.mp ran
  exact Option.bind_eq_some_iff.mpr ⟨swapped, head, Option.bind_eq_some_iff.mpr ⟨cur, previousFrom_mono enough found, ran⟩⟩

theorem sortInner_mono {more cur : Nat} {sorted : Bool} {result : Bool × Nat × ReadyQueue} (enough : fuel ≤ more)
    (ran : sortInner fuel sorted cur queue = some result) : sortInner more sorted cur queue = some result := by
  induction fuel generalizing sorted cur queue more with
  | zero => cases ran
  | succ fuel ih =>
    obtain ⟨more, rfl⟩ := Nat.exists_eq_succ_of_ne_zero (Nat.ne_of_gt (Nat.zero_lt_of_lt enough))
    have less := Nat.le_of_succ_le_succ enough
    unfold sortInner at ran ⊢
    cases link : queue.next cur with
    | none =>
      rw [link] at ran
      exact ran
    | some next =>
      rw [link] at ran
      dsimp only at ran ⊢
      by_cases swap : queue.swapNeeded cur = true
      · rw [if_pos swap] at ran ⊢
        obtain ⟨swapped, first, ran⟩ := Option.bind_eq_some_iff.mp ran
        exact Option.bind_eq_some_iff.mpr ⟨swapped, swapWithNext_mono less first, ih less ran⟩
      · rw [if_neg swap] at ran ⊢
        exact ih less ran

theorem sortOuter_mono {more cur : Nat} (enough : fuel ≤ more) (ran : sortOuter fuel cur queue = some queue') :
    sortOuter more cur queue = some queue' := by
  induction fuel generalizing cur queue more with
  | zero => cases ran
  | succ fuel ih =>
    obtain ⟨more, rfl⟩ := Nat.exists_eq_succ_of_ne_zero (Nat.ne_of_gt (Nat.zero_lt_of_lt enough))
    have less := Nat.le_of_succ_le_succ enough
    obtain ⟨result, inner, ran⟩ := Option.bind_eq_some_iff.mp ran
    refine Option.bind_eq_some_iff.mpr ⟨result, sortInner_mono less inner, ?_⟩
    by_cases sorted : result.1 = true
    · rwa [if_pos sorted] at ran ⊢
    · rw [if_neg sorted] at ran ⊢
      exact ih less ran

theorem sortReadyQueue_mono {more : Nat} (enough : fuel ≤ more) (ran : queue.sortReadyQueue fuel = some queue') :
    queue.sortReadyQueue more = some queue' := by
  unfold sortReadyQueue at ran ⊢
  cases start : queue.head with
  | none =>
    rw [start] at ran
    exact ran
  | some head =>
    rw [start] at ran
    exact sortOuter_mono enough ran

end Swap

end ReadyQueue

end Comp310.A2
