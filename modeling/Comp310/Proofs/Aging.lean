import Comp310.A2.Kernel
import Comp310.Proofs.ReadyOrder

/-! The scheduler that ages the jobs that wait runs a shortest job in every round, and keeps all others in the queue. -/

namespace Comp310.Proofs.Aging
open Comp310.A2 Comp310.Lib
open Comp310.Kernel (CString ShellMemory)

/-- A queue of processes that are in the frame store, with no line that starts a script. -/
structure Calm (frameSize : Nat) (system : System) (nodes : List Nat) : Prop where
  queued : Queued system.queue nodes
  scores : ∀ n ∈ nodes, 0 ≤ (system.queue.pcb n).jobLengthScore ∧ (system.queue.pcb n).jobLengthScore ≤ maxInt
  places : ∀ n ∈ nodes, 0 ≤ (system.queue.pcb n).pc ∧ (system.queue.pcb n).pc < frameSize ∧ (system.queue.pcb n).endAt < frameSize
  lines : ∀ n ∈ nodes, ∀ slot : Nat,
    ((system.queue.pcb n).pc = slot ∨ ((system.queue.pcb n).pc ≤ slot ∧ slot ≤ (system.queue.pcb n).endAt)) →
      QuietLine (system.memory slot).value

section Turns
variable (frameSize varMemSize : Nat) (run : CString → Prog System Int) (exec : List CString → Prog System Int)
  (host : List CString → ShellMemory → Option Int)

/-- One round, with the commands of the shell. -/
def round (fuel : Nat) : Prog System (Nat × Int) :=
  agingTurn frameSize varMemSize (parseInput (interpreter frameSize varMemSize run exec host) fuel) fuel

/-- The states between the rounds, the queue sorted or not. -/
inductive AgingReached (start : System) : System → Prop where
  | start : AgingReached start start
  | sorted {fuel : Nat} {system : System} (ran : onQueue (ReadyQueue.sortReadyQueue fuel) start = some (⟨⟩, system)) : AgingReached start system
  | round {fuel : Nat} {system after : System} {result : Nat × Int} (before : AgingReached start system)
      (ran : Aging.round frameSize varMemSize run exec host fuel system = some (result, after)) : AgingReached start after

/-- The process that is run is a shortest one. The others wait and are one shorter afterwards, and where it has not come
to its end it is at the head of them. -/
structure RunsShortest (system : System) (nodes : List Nat) : Prop where
  taken : ∀ fuel, nodes.length ≤ fuel → ∃ cur taken, takeShortest fuel system = some (some cur, taken) ∧ cur ∈ nodes ∧
    ∀ other ∈ nodes, (system.queue.pcb cur).jobLengthScore ≤ (system.queue.pcb other).jobLengthScore
  ran : ∀ fuel cur done after, round frameSize varMemSize run exec host fuel system = some ((cur, done), after) →
    ∃ waiting, (cur :: waiting).Perm nodes ∧
      (∀ other ∈ waiting, (system.queue.pcb cur).jobLengthScore ≤ (system.queue.pcb other).jobLengthScore) ∧
      (∀ other ∈ waiting, (after.queue.pcb other).jobLengthScore = max ((system.queue.pcb other).jobLengthScore - 1) 0) ∧
      (after.queue.pcb cur).jobLengthScore = (system.queue.pcb cur).jobLengthScore ∧
      (cur :: waiting).Nodup ∧ Queued after.queue (if done = 0 then cur :: waiting else waiting)

end Turns

variable {frameSize varMemSize fuel : Nat} {run : CString → Prog System Int} {exec : List CString → Prog System Int}
  {host : List CString → ShellMemory → Option Int} {start system after : System} {nodes waiting : List Nat} {cur : Nat} {done : Int}

theorem calls_untouched (line : CString) (base : System) (quiet : QuietLine line) :
    Stays (Untouched frameSize base) (parseInput (interpreter frameSize varMemSize run exec host) fuel line) :=
  parseInput_stays (fun _ quiet => interpreter_untouched quiet) quiet

theorem onQueue_some {operation : ReadyQueue → Option ReadyQueue} {queue : ReadyQueue} (ran : operation system.queue = some queue) :
    onQueue operation system = some (⟨⟩, { system with queue }) := by
  rw [onQueue, ran]
  rfl

theorem takeShortest_eq (calm : Calm frameSize system nodes) (some : nodes ≠ []) (enough : nodes.length ≤ fuel) :
    ∃ cur waiting taken, takeShortest fuel system = Option.some (Option.some cur, taken) ∧ Queued taken.queue waiting ∧ (cur :: waiting).Perm nodes ∧
      taken.queue.pcb = system.queue.pcb ∧ taken.memory = system.memory ∧
      ∀ other ∈ nodes, (system.queue.pcb cur).jobLengthScore ≤ (system.queue.pcb other).jobLengthScore := by
  obtain ⟨first, rest, rfl⟩ := List.exists_cons_of_ne_nil some
  obtain ⟨popped, head, queued, pcbs⟩ := ReadyQueue.popHead_queued calm.queued
  obtain ⟨least, found, bounded, below, reached⟩ := ReadyQueue.shortestFrom_eq maxInt queued (show _ < fuel from enough)
  have pop : popHead system = Option.some (Option.some first, { system with queue := popped }) := by
    rw [popHead, head]
  rw [pcbs] at below reached
  have small := (calm.scores first List.mem_cons_self).2
  unfold takeShortest
  rw [run_bind pop]
  dsimp only
  have score : popped.getShortestJobScore fuel = Option.some least := found
  have got : (get : Prog System System) { system with queue := popped } = Option.some ({ system with queue := popped }, { system with queue := popped }) := rfl
  rw [run_bind got]
  dsimp only
  rw [score]
  dsimp only
  rw [pcbs]
  by_cases shorter : least < (system.queue.pcb first).jobLengthScore
  · rw [if_pos shorter]
    have there : ∃ n ∈ rest, (popped.pcb n).jobLengthScore = least := by
      rw [pcbs]
      exact reached.resolve_left fun same => by omega
    obtain ⟨promoted, next, others, ran, queued', moved, same, pcbs'⟩ := ReadyQueue.promote_queued queued there (show _ ≤ fuel by
      rw [List.length_cons] at enough
      omega)
    have once := List.nodup_cons.mp (Linked.nodup calm.queued)
    obtain ⟨tailed, ran', queued'', pcbs''⟩ := ReadyQueue.addToTail_queued queued' (fun member => once.1 (moved.mem_iff.mp member)) (show _ ≤ fuel by
      rw [moved.length_eq]
      rw [List.length_cons] at enough
      omega)
    obtain ⟨taken, head', queued''', pcbs'''⟩ := ReadyQueue.popHead_queued queued''
    rw [pcbs] at same
    have pop' : popHead { system with queue := tailed } = Option.some (Option.some next, { system with queue := taken }) := by
      rw [popHead, head']
    refine ⟨next, others ++ [first], { system with queue := taken }, ?_, queued''', ?_, pcbs'''.trans (pcbs''.trans (pcbs'.trans pcbs)), rfl, ?_⟩
    · rw [run_bind (onQueue_some ran), run_bind (onQueue_some ran')]
      exact pop'
    · exact (List.perm_append_singleton first (next :: others)).trans (moved.cons first)
    · intro other member
      rw [same]
      rcases List.mem_cons.mp member with rfl | member
      · omega
      · exact below other member
  · rw [if_neg shorter]
    refine ⟨first, rest, { system with queue := popped }, rfl, queued, .refl _, pcbs, rfl, ?_⟩
    intro other member
    rcases List.mem_cons.mp member with rfl | member
    · exact Int.le_refl _
    · have bound := below other member
      omega

/-- Without enough fuel for the loop that looks for the shortest score, nothing is taken. -/
theorem takeShortest_none (calm : Calm frameSize system nodes) (less : fuel < nodes.length) : takeShortest fuel system = none := by
  cases nodes with
  | nil => cases less
  | cons first rest =>
    obtain ⟨popped, head, queued, _⟩ := ReadyQueue.popHead_queued calm.queued
    have pop : popHead system = some (some first, { system with queue := popped }) := by
      rw [popHead, head]
    have score : popped.getShortestJobScore fuel = none := ReadyQueue.shortestFrom_none maxInt queued (Nat.le_of_lt_succ less)
    unfold takeShortest
    rw [run_bind pop]
    dsimp only
    have got : (get : Prog System System) { system with queue := popped } = some ({ system with queue := popped }, { system with queue := popped }) := rfl
    rw [run_bind got]
    dsimp only
    rw [score]
    rfl

/-- The process that is run has a shortest job. The others wait, and the queue stays as it has to be. -/
structure Turn (frameSize : Nat) (before after : System) (cur : Nat) (waiting : List Nat) (done : Int) : Prop where
  shortest : ∀ other ∈ waiting, (before.queue.pcb cur).jobLengthScore ≤ (before.queue.pcb other).jobLengthScore
  waits : ∀ other ∈ waiting, after.queue.pcb other = ReadyQueue.decrement (before.queue.pcb other)
  score : (after.queue.pcb cur).jobLengthScore = (before.queue.pcb cur).jobLengthScore
  calm : Calm frameSize after (if done = 0 then cur :: waiting else waiting)

/-- The process has moved on by at most one line, and is not longer. -/
structure Advanced (before after : Pcb) : Prop where
  score : 0 ≤ after.jobLengthScore ∧ after.jobLengthScore ≤ before.jobLengthScore
  endAt : after.endAt = before.endAt
  pc : after.pc = before.pc ∨ after.pc = before.pc + 1 ∧ before.pc + 1 ≤ before.endAt

theorem decrement_advanced {pcb : Pcb} (positive : 0 ≤ pcb.jobLengthScore) : Advanced pcb (ReadyQueue.decrement pcb) := by
  unfold ReadyQueue.decrement
  split
  · refine ⟨⟨?_, ?_⟩, rfl, .inl rfl⟩ <;> dsimp only <;> omega
  · exact ⟨⟨positive, Int.le_refl _⟩, rfl, .inl rfl⟩

/-- What is still in the queue after a round is as calm as it was before. -/
theorem Calm.advance {left : List Nat} (calm : Calm frameSize system nodes) (queued : Queued after.queue left)
    (frames : ∀ slot < frameSize, after.memory slot = system.memory slot) (old : ∀ n ∈ left, n ∈ nodes)
    (each : ∀ n ∈ left, Advanced (system.queue.pcb n) (after.queue.pcb n)) : Calm frameSize after left := by
  refine ⟨queued, ?_, ?_, ?_⟩
  · intro n member
    have before := calm.scores n (old n member)
    have now := (each n member).score
    omega
  · intro n member
    obtain ⟨low, high, last⟩ := calm.places n (old n member)
    rw [(each n member).endAt]
    rcases (each n member).pc with same | ⟨next, within⟩ <;> omega
  · intro n member slot there
    obtain ⟨low, high, last⟩ := calm.places n (old n member)
    rw [(each n member).endAt] at there
    have there' : (system.queue.pcb n).pc = slot ∨ (system.queue.pcb n).pc ≤ slot ∧ slot ≤ (system.queue.pcb n).endAt := by
      rcases (each n member).pc with same | ⟨next, within⟩ <;> omega
    rw [frames slot (by omega)]
    exact calm.lines n (old n member) slot there'

theorem Calm.quiet {line : CString} (calm : Calm frameSize system nodes) (member : cur ∈ nodes)
    (fetched : memGetValueAtLine (frameSize + varMemSize) (system.queue.pcb cur).pc system.memory = some line) : QuietLine line := by
  unfold memGetValueAtLine at fetched
  split at fetched
  · cases fetched
  · cases fetched
    apply calm.lines cur member
    left
    exact (Int.toNat_of_nonneg (calm.places cur member).1).symm

theorem round_turn (calm : Calm frameSize system nodes) (ran : round frameSize varMemSize run exec host fuel system = some ((cur, done), after)) :
    ∃ waiting, (cur :: waiting).Perm nodes ∧ Turn frameSize system after cur waiting done := by
  obtain ⟨found, taken, took, ran⟩ := bind_some ran
  have enough : nodes.length ≤ fuel := by
    apply Nat.le_of_not_lt
    intro less
    rw [takeShortest_none calm less] at took
    cases took
  have nonempty : nodes ≠ [] := by
    intro empty
    have head : system.queue.head = none := (empty ▸ calm.queued : Queued system.queue [])
    have pop : popHead system = some (none, system) := by
      rw [popHead, ReadyQueue.popHead, head]
    rw [takeShortest, run_bind pop] at took
    cases took
    cases ran
  obtain ⟨cur', waiting, taken', took', queued, all, pcbs, memory, shortest⟩ := takeShortest_eq calm nonempty enough
  cases took.symm.trans took'
  have once : (cur' :: waiting).Nodup := all.nodup_iff.mpr calm.queued.nodup
  obtain ⟨absent, _⟩ := List.nodup_cons.mp once
  obtain ⟨queue, decremented, queued', lower⟩ := ReadyQueue.decrement_queued queued (show _ < fuel from by
    have length := all.length_eq
    rw [List.length_cons] at length
    omega)
  obtain ⟨_, lowered, shorter, ran⟩ := bind_some ran
  rw [onQueue_some decremented] at shorter
  cases shorter
  obtain ⟨code, executed, process, ran⟩ := bind_some ran
  rw [pcbs] at lower
  have mine : queue.pcb cur' = system.queue.pcb cur' := by rw [lower, if_neg absent]
  have first : cur' ∈ nodes := all.mem_iff.mp List.mem_cons_self
  have old (n : Nat) (member : n ∈ waiting) : n ∈ nodes := all.mem_iff.mp (List.mem_cons_of_mem _ member)
  obtain ⟨line, within⟩ := executeProcess_run calls_untouched (fun line fetched => calm.quiet first (by
    rw [← memory, ← mine]
    exact fetched)) process
  have waits (n : Nat) (member : n ∈ waiting) : executed.queue.pcb n = ReadyQueue.decrement (system.queue.pcb n) := by
    rw [line.others n fun same => absent (same ▸ member)]
    exact (lower n).trans (if_pos member)
  have later (n : Nat) (member : n ∈ waiting) : Advanced (system.queue.pcb n) (executed.queue.pcb n) := by
    rw [waits n member]
    exact decrement_advanced (calm.scores n (old n member)).1
  have score : (executed.queue.pcb cur').jobLengthScore = (system.queue.pcb cur').jobLengthScore :=
    line.score.trans (congrArg Pcb.jobLengthScore mine)
  have frames : ∀ slot < frameSize, executed.memory slot = system.memory slot := by
    intro slot frame
    rw [line.frames slot frame, memory]
  have rest : Queued executed.queue waiting := by
    rw [Queued, line.head, line.next]
    exact queued'
  by_cases zero : code = 0
  · rw [if_pos zero] at ran
    obtain ⟨_, requeued, back, ran⟩ := bind_some ran
    cases back
    cases ran
    obtain ⟨queued'', same⟩ := ReadyQueue.addToHead_queued rest absent
    refine ⟨waiting, all, fun other member => shortest other (old other member), ?_, ?_, ?_⟩
    · intro other member
      exact (congrFun same other).trans (waits other member)
    · exact (congrArg Pcb.jobLengthScore (congrFun same cur)).trans score
    · rw [if_pos zero]
      refine calm.advance queued'' frames ?_ ?_
      · exact List.forall_mem_cons.mpr ⟨first, old⟩
      · change ∀ n ∈ cur :: waiting, Advanced (system.queue.pcb n) ((executed.queue.addToHead cur).pcb n)
        rw [same, List.forall_mem_cons]
        refine ⟨⟨?_, ?_, .inr ⟨?_, ?_⟩⟩, later⟩
        · exact ⟨score ▸ (calm.scores cur first).1, Int.le_of_eq score⟩
        · exact line.endAt.trans (congrArg Pcb.endAt mine)
        · exact line.pc.trans (congrArg (fun pcb => pcb.pc + 1) mine)
        · rw [← mine]
          exact within zero
  · rw [if_neg zero] at ran
    cases ran
    refine ⟨waiting, all, fun other member => shortest other (old other member), waits, score, ?_⟩
    rw [if_neg zero]
    exact calm.advance rest frames old later

theorem Calm.sorted (calm : Calm frameSize system nodes) (ran : onQueue (ReadyQueue.sortReadyQueue fuel) system = some (⟨⟩, after)) :
    Calm frameSize after (ReadyOrder.onePass system.queue nodes) := by
  obtain ⟨queue, sorted, same⟩ := Option.map_eq_some_iff.mp ran
  cases same
  obtain ⟨queued, pcbs⟩ := ReadyOrder.sorted_onePass calm.queued sorted
  have old (n : Nat) (member : n ∈ ReadyOrder.onePass system.queue nodes) : n ∈ nodes := ReadyOrder.onePass_perm.mem_iff.mp member
  refine calm.advance queued (fun _ _ => rfl) old ?_
  intro n member
  change Advanced _ (queue.pcb n)
  rw [pcbs]
  exact ⟨⟨(calm.scores n (old n member)).1, Int.le_refl _⟩, rfl, .inl rfl⟩

theorem reached_calm (calm : Calm frameSize start nodes) (reached : AgingReached frameSize varMemSize run exec host start system) :
    ∃ nodes', Calm frameSize system nodes' := by
  induction reached with
  | start => exact ⟨nodes, calm⟩
  | sorted ran => exact ⟨_, calm.sorted ran⟩
  | @round fuel system after result before ran ih =>
    obtain ⟨nodes', calm⟩ := ih
    obtain ⟨waiting, _, turn⟩ := round_turn calm (ran : round frameSize varMemSize run exec host fuel system = some ((result.1, result.2), after))
    exact ⟨_, turn.calm⟩

theorem agingLoop_reached {rounds : Nat} (before : AgingReached frameSize varMemSize run exec host start system)
    (ran : agingLoop frameSize varMemSize (parseInput (interpreter frameSize varMemSize run exec host) fuel) fuel rounds system = some (⟨⟩, after)) :
    AgingReached frameSize varMemSize run exec host start after ∧ after.queue.isReadyEmpty = true := by
  induction rounds generalizing system with
  | zero => cases ran
  | succ rounds ih =>
    obtain ⟨_, _, got, ran⟩ := bind_some ran
    cases got
    by_cases empty : system.queue.isReadyEmpty = true
    · rw [if_pos empty] at ran
      cases ran
      exact ⟨before, empty⟩
    · rw [if_neg empty] at ran
      obtain ⟨result, middle, turn, ran⟩ := bind_some ran
      exact ih (before.round turn) ran

theorem schedulerAging_reached
    (ran : schedulerAging frameSize varMemSize (parseInput (interpreter frameSize varMemSize run exec host) fuel) fuel start = some (⟨⟩, after)) :
    AgingReached frameSize varMemSize run exec host start after ∧ after.queue.isReadyEmpty = true := by
  obtain ⟨_, middle, sorted, ran⟩ := bind_some ran
  exact agingLoop_reached (.sorted sorted) ran

/-- In every round a shortest process is run, and no process is lost. -/
theorem aging_shortest (calm : Calm frameSize start nodes) (reached : AgingReached frameSize varMemSize run exec host start system) :
    ∃ nodes', Calm frameSize system nodes' ∧ (nodes' ≠ [] → RunsShortest frameSize varMemSize run exec host system nodes') := by
  obtain ⟨nodes', calm⟩ := reached_calm calm reached
  refine ⟨nodes', calm, fun some => ⟨?_, ?_⟩⟩
  · intro fuel enough
    obtain ⟨cur, waiting, taken, took, _, all, _, _, shortest⟩ := takeShortest_eq calm some enough
    exact ⟨cur, taken, took, all.mem_iff.mp List.mem_cons_self, shortest⟩
  · intro fuel cur done after ran
    obtain ⟨waiting, all, turn⟩ := round_turn calm ran
    refine ⟨waiting, all, turn.shortest, ?_, turn.score, all.nodup_iff.mpr calm.queued.nodup, turn.calm.queued⟩
    intro other member
    have positive := (calm.scores other (all.mem_iff.mp (List.mem_cons_of_mem _ member))).1
    rw [turn.waits other member, ReadyQueue.decrement]
    split
    · dsimp only
      omega
    · omega

section Example

/-- The lines `set x 1`, `set x 2` and `set y 3`. -/
private def pairLines : List CString :=
  [[115, 101, 116, 32, 120, 32, 49], [115, 101, 116, 32, 120, 32, 50], [115, 101, 116, 32, 121, 32, 51]]

private def pairPcb (pid : Nat) (first last score : Int) : Pcb :=
  ⟨false, pid, first, first, last, score, .ofFn fun k => if k.val = 0 then ⟨first, last, true, false, 0⟩ else ⟨0, 0, false, false, 0⟩,
    score, score, []⟩

/-- A process of the first two lines, and one of the third. -/
private def pair : System where
  queue := ⟨some 0, fun n => if n = 0 then ⟨pairPcb 0 0 1 2, some 1⟩ else ⟨pairPcb 1 2 2 1, none⟩⟩
  memory := fun slot => ⟨Kernel.noneText, pairLines.getD slot Kernel.noneText⟩

private theorem pair_quiet (slot : Nat) : QuietLine (pair.memory slot).value := by
  have all : ∀ line ∈ Kernel.noneText :: pairLines, QuietLine line := by
    unfold QuietLine QuietName
    decide
  apply all
  change pairLines.getD slot Kernel.noneText ∈ _
  rw [List.getD_eq_getElem?_getD]
  cases there : pairLines[slot]? with
  | none => exact List.mem_cons_self
  | some line => exact List.mem_cons_of_mem _ (List.mem_of_getElem? there)

private theorem pair_calm : Calm 3 pair [0, 1] :=
  ⟨⟨rfl, rfl, rfl⟩, by decide, by decide, fun _ _ slot _ => pair_quiet slot⟩

/-- The longer job is at the head of the queue before it is sorted; the shorter one comes to its end in the first round,
and has set its variable. -/
theorem aging_shortest_pair : ∃ sorted after, onQueue (ReadyQueue.sortReadyQueue 9) pair = some (⟨⟩, sorted) ∧
    round 3 3 (fun _ => pure 0) (fun _ => pure 0) (fun _ _ => some 0) 9 sorted = some ((1, 1), after) ∧
    after.memory 3 = ⟨[121], [51]⟩ ∧ ∃ nodes', Calm 3 after nodes' ∧
    (nodes' ≠ [] → RunsShortest 3 3 (fun _ => pure 0) (fun _ => pure 0) (fun _ _ => some 0) after nodes') := by
  have ran : ((onQueue (ReadyQueue.sortReadyQueue 9) >>= fun _ =>
      round 3 3 (fun _ => pure 0) (fun _ => pure 0) (fun _ _ => some 0) 9 : Prog System (Nat × Int)) pair).map
        (fun result => (result.1, (result.2.memory 3).var, (result.2.memory 3).value)) = some ((1, 1), [121], [51]) := by decide
  obtain ⟨⟨result, after⟩, ran, same⟩ := Option.map_eq_some_iff.mp ran
  obtain ⟨_, sorted, first, second⟩ := bind_some ran
  cases (Prod.mk.inj same).1
  obtain ⟨var, value⟩ := Prod.mk.inj (Prod.mk.inj same).2
  refine ⟨sorted, after, first, second, ?_, aging_shortest pair_calm (.round (.sorted first) second)⟩
  rw [← var, ← value]

end Example

end Comp310.Proofs.Aging
