import Comp310.Kernel.Paging

/-! A process that has the queue to itself: its turns are tries to run its next line, until no line is left. -/

namespace Comp310.Kernel
open Comp310.Lib

/-- How many lines the process has still to run, as it counts them. -/
def Processes.left (system : Processes) (pid : Nat) : Int := ((system.pcb? pid).map Pcb.size).getD 0

/-- A try to run the next line: either the process is put into the queue again, or the line counts. -/
structure Tried {ω : Type} (pid : Nat) (ret : Int) (before after : KernelState ω) : Prop where
  queue : after.queue = if ret = 1 then before.queue ++ [pid] else before.queue
  left : ret ≠ 1 → after.system.left pid = before.system.left pid - 1

/-- The process waits for its turn, or has come to its end. -/
structure Waits {ω : Type} (pid : Nat) (kernel : KernelState ω) : Prop where
  queue : kernel.queue = [pid] ∨ kernel.queue = [] ∧ kernel.system.left pid ≤ 0

variable {border varStoreSize pid : Nat} {ω : Type} {parseInput : CString → K ω Int} {kernel kernel' after : KernelState ω} {pcb : Pcb} {ret : Int}

theorem left_eq (found : kernel.system.pcb? pid = some pcb) : kernel.system.left pid = pcb.size := by
  rw [Processes.left, found]
  rfl

theorem fetched (found : kernel.system.pcb? pid = some pcb) :
    getPcb pid { kernel with queue := [] } = some (pcb, { kernel with queue := [] }) := getPcb_run found

section Turns
variable (only : kernel.queue = [pid]) (found : kernel.system.pcb? pid = some pcb)
include only found

theorem turnRr_done (done : pcb.size ≤ 0) : turnRr border varStoreSize parseInput kernel = some (⟨⟩, { kernel with queue := [] }) := by
  rw [turnRr, run_bind (get_run _), only]
  refine (run_bind (modify_run _ _) _).trans ((run_bind (fetched found) _).trans ?_)
  rw [if_neg (by omega), if_neg (by omega)]
  rfl

theorem turnRr_stops (more : 0 < pcb.size) (tried : runNext border varStoreSize parseInput pid { kernel with queue := [] } = some (ret, after))
    (stops : ret = 1 ∨ pcb.size = 1) : turnRr border varStoreSize parseInput kernel = some (⟨⟩, after) := by
  rw [turnRr, run_bind (get_run _), only]
  refine (run_bind (modify_run _ _) _).trans ((run_bind (fetched found) _).trans ?_)
  by_cases several : pcb.size > 1
  · have fault : ret = 1 := by omega
    rw [if_pos several, run_bind tried, if_pos fault]
    rfl
  · have last : pcb.size = 1 := by omega
    rw [if_neg several, if_pos last, run_bind tried]
    rfl

theorem turnRr_goes {ret' : Int} (several : 1 < pcb.size)
    (tried : runNext border varStoreSize parseInput pid { kernel with queue := [] } = some (ret, after)) (ordinary : ret ≠ 1)
    (tried' : runNext border varStoreSize parseInput pid after = some (ret', kernel')) :
    turnRr border varStoreSize parseInput kernel = some (⟨⟩, if ret' = 1 then kernel' else { kernel' with queue := kernel'.queue ++ [pid] }) := by
  rw [turnRr, run_bind (get_run _), only]
  refine (run_bind (modify_run _ _) _).trans ((run_bind (fetched found) _).trans ?_)
  rw [if_pos several, run_bind tried, if_neg ordinary, run_bind tried']
  split
  · rfl
  · rfl

theorem turnRr_tries (ran : turnRr border varStoreSize parseInput kernel = some (⟨⟩, kernel')) (more : 0 < pcb.size) :
    ∃ ret after, runNext border varStoreSize parseInput pid { kernel with queue := [] } = some (ret, after) ∧
      ((ret = 1 ∨ pcb.size = 1) ∧ kernel' = after ∨ ret ≠ 1 ∧ 1 < pcb.size ∧ ∃ ret' last,
        runNext border varStoreSize parseInput pid after = some (ret', last) ∧
        kernel' = if ret' = 1 then last else { last with queue := last.queue ++ [pid] }) := by
  rw [turnRr, run_bind (get_run _), only] at ran
  obtain ⟨_, _, changed, ran⟩ := bind_some ran
  cases changed
  obtain ⟨_, _, got, ran⟩ := bind_some ran
  cases (fetched found).symm.trans got
  by_cases several : pcb.size > 1
  · rw [if_pos several] at ran
    obtain ⟨ret, after, tried, ran⟩ := bind_some ran
    by_cases fault : ret = 1
    · rw [if_pos fault] at ran
      cases ran
      exact ⟨ret, _, tried, .inl ⟨.inl fault, rfl⟩⟩
    · rw [if_neg fault] at ran
      obtain ⟨ret', last, tried', ran⟩ := bind_some ran
      refine ⟨ret, after, tried, .inr ⟨fault, several, ret', last, tried', ?_⟩⟩
      split at ran
      next again =>
        cases ran
        rw [if_pos again]
      next again =>
        cases ran
        rw [if_neg again]
  · have last : pcb.size = 1 := by omega
    rw [if_neg several, if_pos last] at ran
    obtain ⟨ret, after, tried, ran⟩ := bind_some ran
    cases ran
    exact ⟨ret, _, tried, .inl ⟨.inr last, rfl⟩⟩

end Turns

section Runs

/-- An invariant of a process that is alone. It does not look at the queue. -/
structure Lone (pid : Nat) (inv : KernelState ω → Prop) : Prop where
  there : ∀ kernel, inv kernel → ∃ pcb, kernel.system.pcb? pid = some pcb ∧ (pcbDone pcb = true → pcb.size ≤ 0)
  all : ∀ kernel, inv kernel → kernel.allPcb = [pid]
  queued : ∀ kernel queue, inv kernel → inv { kernel with queue }

theorem queueDone_alone (found : kernel.system.pcb? pid = some pcb) : queueDone [pid] kernel = some (pcbDone pcb, kernel) := by
  rw [queueDone, run_bind (getPcb_run found)]
  cases pcbDone pcb with
  | true => rfl
  | false => rfl

theorem runProcRr_ends (found : kernel.system.pcb? pid = some pcb) (all : kernel.allPcb = [pid])
    (asked : queueDone kernel.queue kernel = some (true, kernel)) (fuel : Nat) :
    ∃ kernel', runProcRr border varStoreSize parseInput (fuel + 1) kernel = some (⟨⟩, kernel') ∧ kernel'.history = kernel.history := by
  let system : Processes := { kernel.system with
    memory := Kernel.freePcb pcb kernel.system.memory, pcbs := kernel.system.pcbs.filter fun entry => entry.1 != pid }
  have taken : (Call.freePcb pid).take border varStoreSize kernel.system = some system := by
    rw [Call.take, found]
    rfl
  have freed : freeAll border varStoreSize [pid] kernel = some (⟨⟩, { kernel with system }) := run_bind (perform_run taken) _
  refine ⟨{ kernel with system, queue := [], lruCache := [], allPcb := [] }, ?_, rfl⟩
  rw [runProcRr, run_bind (get_run _), run_bind asked, if_pos rfl, all, run_bind freed]
  rfl

theorem runProcRr_turn (asked : queueDone kernel.queue kernel = some (false, kernel))
    (turned : turnRr border varStoreSize parseInput kernel = some (⟨⟩, after)) (fuel : Nat) :
    runProcRr border varStoreSize parseInput (fuel + 1) kernel = runProcRr border varStoreSize parseInput fuel after := by
  rw [runProcRr, run_bind (get_run _), run_bind asked, if_neg (by decide), run_bind turned]

/-- A process that gets nearer to its end with each try comes to it. -/
theorem runProcRr_alone {inv : Nat → KernelState ω → Prop} (lone : ∀ rank, Lone pid (inv rank))
    (step : ∀ rank kernel, inv rank kernel → 0 < kernel.system.left pid → ∃ ret after, ∃ lower < rank,
      runNext border varStoreSize parseInput pid kernel = some (ret, after) ∧ Tried pid ret kernel after ∧ inv lower after)
    {rank fuel : Nat} (kept : inv rank kernel) (waits : Waits pid kernel) (fueled : rank + 1 < fuel) : ∃ last kernel',
    runProcRr border varStoreSize parseInput fuel kernel = some (⟨⟩, kernel') ∧ kernel'.history = last.history ∧
      (∃ rank, inv rank last) ∧ last.system.left pid ≤ 0 := by
  induction rank using Nat.strong_induction_on generalizing kernel fuel with
  | _ rank ih =>
    obtain ⟨fuel, rfl⟩ := Nat.exists_eq_succ_of_ne_zero (Nat.ne_of_gt (Nat.zero_lt_of_lt fueled))
    obtain ⟨pcb, found, ends⟩ := (lone rank).there kernel kept
    have all := (lone rank).all kernel kept
    rcases waits.queue with only | ⟨empty, done⟩
    rotate_left
    · obtain ⟨kernel', ran, same⟩ := runProcRr_ends found all (by rw [empty]; rfl) fuel
      exact ⟨kernel, kernel', ran, same, ⟨rank, kept⟩, done⟩
    have asked : queueDone kernel.queue kernel = some (pcbDone pcb, kernel) := by
      rw [only]
      exact queueDone_alone found
    cases finished : pcbDone pcb with
    | true =>
      rw [finished] at asked
      obtain ⟨kernel', ran, same⟩ := runProcRr_ends found all asked fuel
      exact ⟨kernel, kernel', ran, same, ⟨rank, kept⟩, by rw [left_eq found]; exact ends finished⟩
    | false =>
      rw [finished] at asked
      have dropped := (lone rank).queued kernel [] kept
      by_cases more : 0 < pcb.size
      · have left : ({ kernel with queue := [] } : KernelState ω).system.left pid = pcb.size := left_eq found
        obtain ⟨ret, after, lower, below, tried, outcome, kept'⟩ := step rank _ dropped (by rw [left]; exact more)
        by_cases stops : ret = 1 ∨ pcb.size = 1
        · rw [Nat.succ_eq_add_one, runProcRr_turn asked (turnRr_stops only found more tried stops)]
          refine ih lower below kept' ⟨?_⟩ (by omega)
          by_cases fault : ret = 1
          · exact .inl (outcome.queue.trans (if_pos fault))
          · exact .inr ⟨outcome.queue.trans (if_neg fault), by rw [outcome.left fault, left, stops.resolve_left fault]; exact Int.le_refl 0⟩
        · have ordinary : ret ≠ 1 := fun fault => stops (.inl fault)
          have several : 1 < pcb.size := by omega
          obtain ⟨ret', last, lower', below', tried', outcome', kept''⟩ := step lower after kept' (by rw [outcome.left ordinary, left]; omega)
          rw [Nat.succ_eq_add_one, runProcRr_turn asked (turnRr_goes only found several tried ordinary tried')]
          have empty : after.queue = [] := outcome.queue.trans (if_neg ordinary)
          split
          next again => exact ih lower' (by omega) kept'' ⟨.inl (by rw [outcome'.queue, if_pos again, empty]; rfl)⟩ (by omega)
          next once =>
            refine ih lower' (by omega) ((lone lower').queued _ _ kept'') ⟨.inl ?_⟩ (by omega)
            change last.queue ++ [pid] = [pid]
            rw [outcome'.queue, if_neg once, empty]
            rfl
      · rw [Nat.succ_eq_add_one, runProcRr_turn asked (turnRr_done only found (by omega))]
        obtain ⟨fuel, rfl⟩ := Nat.exists_eq_succ_of_ne_zero (show fuel ≠ 0 by omega)
        let idle : KernelState ω := { kernel with queue := [] }
        have found : idle.system.pcb? pid = some pcb := found
        obtain ⟨kernel', ran, same⟩ := runProcRr_ends found ((lone rank).all _ dropped) rfl fuel
        exact ⟨idle, kernel', ran, same, ⟨rank, dropped⟩, by rw [left_eq found]; omega⟩

/-- What is kept by each try of a run that comes to its end holds there. The history of the run is known beforehand. -/
theorem runProcRr_last {inv : KernelState ω → Prop} {final : KernelState ω} (lone : Lone pid inv)
    (grows : ∀ kernel ret after, runNext border varStoreSize parseInput pid kernel = some (ret, after) → kernel.history <+: after.history)
    (toEnd : ∀ fuel kernel, runProcRr border varStoreSize parseInput fuel kernel = some (⟨⟩, final) → kernel.history <+: final.history)
    (step : ∀ kernel ret after, inv kernel → 0 < kernel.system.left pid →
      runNext border varStoreSize parseInput pid kernel = some (ret, after) → after.history <+: final.history → Tried pid ret kernel after ∧ inv after)
    {fuel : Nat} (kept : inv kernel) (waits : Waits pid kernel) (ran : runProcRr border varStoreSize parseInput fuel kernel = some (⟨⟩, final)) :
    ∃ last, inv last ∧ last.system.left pid ≤ 0 ∧ last.history = final.history := by
  induction fuel generalizing kernel with
  | zero => cases ran
  | succ fuel ih =>
    obtain ⟨pcb, found, ends⟩ := lone.there kernel kept
    have all := lone.all kernel kept
    have atEnd (asked : queueDone kernel.queue kernel = some (true, kernel)) : kernel.history = final.history := by
      obtain ⟨kernel', ran', same⟩ := runProcRr_ends found all asked fuel
      cases ran.symm.trans ran'
      exact same.symm
    rcases waits.queue with only | ⟨empty, done⟩
    rotate_left
    · exact ⟨kernel, kept, done, atEnd (by rw [empty]; rfl)⟩
    have asked : queueDone kernel.queue kernel = some (pcbDone pcb, kernel) := by
      rw [only]
      exact queueDone_alone found
    cases finished : pcbDone pcb with
    | true =>
      rw [finished] at asked
      exact ⟨kernel, kept, by rw [left_eq found]; exact ends finished, atEnd asked⟩
    | false =>
      rw [finished] at asked
      have dropped := lone.queued kernel [] kept
      obtain ⟨middle, turned, ran⟩ : ∃ middle, turnRr border varStoreSize parseInput kernel = some (⟨⟩, middle) ∧
          runProcRr border varStoreSize parseInput fuel middle = some (⟨⟩, final) := by
        rw [runProcRr, run_bind (get_run _), run_bind asked, if_neg (by decide)] at ran
        obtain ⟨_, middle, turned, ran⟩ := bind_some ran
        exact ⟨middle, turned, ran⟩
      have later := toEnd fuel middle ran
      by_cases more : 0 < pcb.size
      · have left : ({ kernel with queue := [] } : KernelState ω).system.left pid = pcb.size := left_eq found
        obtain ⟨ret, after, tried, cases'⟩ := turnRr_tries only found turned more
        rcases cases' with ⟨stops, rfl⟩ | ⟨ordinary, several, ret', last, tried', whole⟩
        · obtain ⟨outcome, kept'⟩ := step _ ret middle dropped (by rw [left]; exact more) tried later
          refine ih kept' ⟨?_⟩ ran
          by_cases fault : ret = 1
          · exact .inl (outcome.queue.trans (if_pos fault))
          · exact .inr ⟨outcome.queue.trans (if_neg fault), by rw [outcome.left fault, left, stops.resolve_left fault]; exact Int.le_refl 0⟩
        · have same : middle.history = last.history := by
            rw [whole]
            split <;> rfl
          rw [same] at later
          obtain ⟨outcome, kept'⟩ := step _ ret after dropped (by rw [left]; exact more) tried ((grows _ _ _ tried').trans later)
          obtain ⟨outcome', kept''⟩ := step after ret' last kept' (by rw [outcome.left ordinary, left]; omega) tried' later
          have empty : after.queue = [] := outcome.queue.trans (if_neg ordinary)
          rw [whole] at ran
          split at ran
          next again => exact ih kept'' ⟨.inl (by rw [outcome'.queue, if_pos again, empty]; rfl)⟩ ran
          next once =>
            refine ih (lone.queued _ _ kept'') ⟨.inl ?_⟩ ran
            change last.queue ++ [pid] = [pid]
            rw [outcome'.queue, if_neg once, empty]
            rfl
      · cases turned.symm.trans (turnRr_done only found (by omega))
        exact ih dropped ⟨.inr ⟨rfl, by rw [left_eq found]; omega⟩⟩ ran

end Runs

end Comp310.Kernel
