import Comp310.Kernel.Course
import Comp310.Kernel.NewProcs

/-! What a new process counts on, whatever its file. -/

namespace Comp310.Kernel
open Comp310.Lib

variable {border varStoreSize : Nat} {ω : Type} {kernel start : KernelState ω} {file : List UInt8} {pcb pcb' : Pcb} {memory memory' : ShellMemory}
  {lines : List (List UInt8)}

theorem loadFirst_keeps (holds : Pcb → ShellMemory → Prop) (one : ∀ i pcb page memory pcb' memory', holds pcb memory →
    pcb.pageTable[i]? = some page → loadPage border i pcb page memory = some (pcb', memory') → holds pcb' memory')
    (pages : List Nat) (kept : holds pcb memory) (loads : loadFirst border pages pcb memory = some (pcb', memory')) : holds pcb' memory' := by
  induction pages generalizing pcb memory with
  | nil =>
    cases loads
    exact kept
  | cons i rest ih =>
    obtain ⟨page, there, loads⟩ := Option.bind_eq_some_iff.mp loads
    obtain ⟨⟨middle, marked⟩, first, loads⟩ := Option.bind_eq_some_iff.mp loads
    exact ih (one i _ page _ _ _ kept there first) loads

/-- The process before any of its pages is loaded. -/
def unloaded (pid : Nat) (file : List UInt8) : Pcb :=
  ⟨pid, countLines file, List.replicate (pageTableSize (countLines file)) 0, (List.range (pageTableSize (countLines file))).map (pageInit pid), file⟩

theorem unloaded_page {pid j : Nat} {page : Page} (there : (unloaded pid file).pageTable[j]? = some page) : page.validBit = .replicate 3 false := by
  rw [unloaded, List.getElem?_map] at there
  obtain ⟨_, _, rfl⟩ := Option.map_eq_some_iff.mp there
  rfl

theorem unloaded_counted (pid : Nat) (file : List UInt8) : Counted border (countLines file) (unloaded pid file) := by
  have bits : ∀ j : Fin 3, (Vector.replicate 3 false).get j = false := by decide
  refine ⟨List.length_replicate, ?_, fun c member => ?_, ?_, Int.natCast_nonneg _, fun page member j valid => ?_⟩
  · rw [unloaded, List.length_map, List.length_range]
  · rw [(List.mem_replicate.mp member).2]
    decide
  · rw [unloaded, List.sum_replicate_nat, Nat.mul_zero]
    exact Int.zero_add _
  · obtain ⟨k, there⟩ := List.getElem?_of_mem member
    rw [unloaded_page there, bits] at valid
    cases valid

theorem unloaded_lacks (pid : Nat) (reads : Reads lines) (counted : countLines lines.flatten = lines.length) :
    (unloaded pid lines.flatten).Lacks 0 lines := by
  have bits : ∀ j : Fin 3, (Vector.replicate 3 false).get j = false := by decide
  have none : (unloaded pid lines.flatten).waiting = 0 := by
    refine List.sum_eq_zero_iff_forall_eq_nat.mpr fun count member => ?_
    obtain ⟨k, there⟩ := List.getElem?_of_mem member
    rw [List.getElem?_zipWith] at there
    cases page : (unloaded pid lines.flatten).pageTable[k]? with
    | none =>
      rw [page] at there
      cases there
    | some page' =>
      cases counter : (unloaded pid lines.flatten).programCounter[k]? with
      | none =>
        rw [page, counter] at there
        cases there
      | some c =>
        rw [page, counter] at there
        cases there
        rw [waiting_eq, unloaded_page page, bits, bits, bits]
        simp
  refine ⟨reads, rfl, ?_, ?_⟩
  · rw [unloaded, List.length_replicate, List.length_map, List.length_range]
  · rw [none]
    change ((0 : Nat) : Int) + lines.length + (0 : Nat) ≤ (countLines lines.flatten : Nat)
    omega

theorem newProc_some (ran : newProc border varStoreSize file kernel = some (⟨⟩, start)) : ∃ pcb memory pages,
    loadFirst border pages (unloaded kernel.system.pidCounter file) kernel.system.memory = some (pcb, memory) ∧
    start.system.pcb? kernel.system.pidCounter = some pcb ∧ start.system.memory = memory ∧
    start.allPcb = kernel.allPcb ++ [kernel.system.pidCounter] ∧ start.queue = kernel.queue ++ [kernel.system.pidCounter] ∧
    kernel.history <+: start.history ∧ passed start.history = passed kernel.history := by
  obtain ⟨_, _, got, ran⟩ := bind_some ran
  cases got
  obtain ⟨_, _, performed, ran⟩ := bind_some ran
  obtain ⟨system, taken, same⟩ := Option.map_eq_some_iff.mp performed
  cases same
  obtain ⟨⟨pcb, memory⟩, init, taken⟩ := Option.bind_eq_some_iff.mp taken
  cases taken
  obtain ⟨pcb', _, got, ran⟩ := bind_some ran
  obtain ⟨found, same⟩ := getPcb_some got
  cases same
  cases ran
  have table : (List.replicate ((List.range (pageTableSize (countLines file))).map (pageInit kernel.system.pidCounter)).length 0 : List Nat) =
      List.replicate (pageTableSize (countLines file)) 0 := by
    rw [List.length_map, List.length_range]
  rw [pcbInit] at init
  rw [table] at init
  refine ⟨pcb, memory, _, init, ?_, rfl, rfl, rfl, List.prefix_append _ _, ?_⟩
  · exact (pcb?_cons ..).trans (if_pos rfl)
  · refine (passed_append ..).trans ?_
    have none : passed ((List.range (if 2 > pcb'.pageTable.length then pcb'.pageTable.length else 2)).map fun i =>
        Event.load kernel.system.pidCounter i) = [] := by
      rw [passed, List.filterMap_map]
      exact List.filterMap_eq_nil_iff.mpr fun _ _ => rfl
    rw [none, List.append_nil]

variable (ran : newProc border varStoreSize file kernel = some (⟨⟩, start))
include ran

theorem newProc_counts (clean : ∀ slot < border, kernel.system.memory slot = blank) (alone : kernel.allPcb = []) (lines : List CString) :
    Counts border kernel.system.pidCounter (countLines file) (passed kernel.history) lines start := by
  obtain ⟨pcb, memory, pages, loads, found, same, all, -, -, history⟩ := newProc_some ran
  have zero : (unloaded kernel.system.pidCounter file).programCounter.sum = 0 := by
    rw [unloaded, List.sum_replicate_nat, Nat.mul_zero]
  obtain ⟨counted, unrun, brisk⟩ : Counted border (countLines file) pcb ∧ pcb.programCounter.sum = 0 ∧ Brisk border memory := by
    refine loadFirst_keeps (fun pcb memory => Counted border (countLines file) pcb ∧ pcb.programCounter.sum = 0 ∧ Brisk border memory)
      (fun i pcb page memory pcb' memory' kept there loads => ?_) pages ⟨unloaded_counted _ _, zero, fun slot inside => ?_⟩ loads
    · obtain ⟨counted, unrun, brisk⟩ := kept
      obtain ⟨counted', counters⟩ := counted.load loads
      exact ⟨counted', by rw [counters, unrun], loadPage_brisk brisk loads⟩
    · rw [clean slot inside]
      exact short_none
  refine ⟨?_, same ▸ brisk, pcb, found, counted, ?_, ?_, ?_⟩
  · rw [all, alone]
    rfl
  · rw [unrun, history]
    exact (List.append_nil _).symm
  · rw [unrun]
    exact Nat.zero_le _
  · rw [unrun]
    exact fun line member => absurd member List.not_mem_nil

theorem newProc_lacking (reads : Reads lines) (whole : file = lines.flatten) (counted : countLines file = lines.length) :
    Lacking kernel.system.pidCounter 0 start := by
  subst whole
  obtain ⟨pcb, memory, pages, loads, found, -⟩ := newProc_some ran
  obtain ⟨lines', lacks⟩ : ∃ lines, pcb.Lacks 0 lines := by
    refine loadFirst_keeps (fun pcb _ => ∃ lines, pcb.Lacks 0 lines) (fun i pcb page memory pcb' memory' kept there loads => ?_) pages
      ⟨lines, unloaded_lacks _ reads counted⟩ loads
    obtain ⟨lines', lacks⟩ := kept
    obtain ⟨c, counter⟩ := lacks.counter there
    exact ⟨_, (lacks.load there counter loads).mono (Nat.zero_le _)⟩
  exact ⟨pcb, lines', found, lacks⟩

end Comp310.Kernel
