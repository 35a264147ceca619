import Comp310.Kernel.Processes

/-! The schedulers (a3/kernel.c and cpu.c). The commands of a script are run by
`parseInput`, which is not part of this file and may run scripts in its turn. To
use a process that was freed is a fault, and so is the end of the shell. -/

namespace Comp310.Kernel
open Comp310.Lib

/-- A page of a process is loaded or evicted, or one of its lines is passed to `parseInput`. -/
inductive Event where
  | load (pid i : Nat)
  | evict (pid i : Nat)
  | line (pid : Nat) (text : CString)
  deriving DecidableEq

/-- The lists hold processes by their ids, and pages by the process and their place in its table. `world` is what commands work on
besides the variables. `history` is a history variable, with the latest event last; no operation reads it. -/
structure KernelState (ω : Type) where
  system : Processes
  queue : List Nat
  lruCache : List (Nat × Nat)
  allPcb : List Nat
  world : ω
  history : List Event

abbrev K (ω : Type) := Prog (KernelState ω)

variable {ω : Type}

def kernelSetup (world : ω) : KernelState ω := ⟨Processes.start, [], [], [], world, []⟩

def note (events : List Event) : K ω PUnit := modify fun kernel => { kernel with history := kernel.history ++ events }

def getPcb (pid : Nat) : K ω Pcb := fun kernel => (kernel.system.pcb? pid).map fun pcb => (pcb, kernel)

def getPage (pid i : Nat) : K ω Page := do
  let pcb ← getPcb pid
  match pcb.pageTable[i]? with
  | none => fault
  | some page => pure page

section Schedulers
variable (border varStoreSize : Nat) (parseInput : CString → K ω Int)

def perform (call : Call) : K ω PUnit := fun kernel =>
  (call.take border varStoreSize kernel.system).map fun system => (⟨⟩, { kernel with system })

/-- load_PAGE, and whether it has found a frame. -/
def loadPageOf (pid i : Nat) : K ω Bool := do
  let pcb ← getPcb pid
  let page ← getPage pid i
  let kernel ← get
  match loadPage border i pcb page kernel.system.memory with
  | none => pure false
  | some _ => do
    perform border varStoreSize (.loadPage pid i)
    note [.load pid i]
    pure true

/-- A result of 1 stands for a page fault, whoever it is from. -/
def cpuRun (pid i : Nat) (j : Fin 3) : K ω Int := do
  let page ← getPage pid i
  if page.validBit.get j = false then pure 1
  else do
    let kernel ← get
    note [.line pid (memGetValueAt (page.index.get j) kernel.system.memory)]
    let ret ← parseInput (memGetValueAt (page.index.get j) kernel.system.memory)
    perform border varStoreSize (.countLine pid i)
    pure ret

/-- The search for the process of a page in ALL_PCB. -/
def findPcb (pid : Nat) : List Nat → K ω PUnit
  | [] => fault
  | other :: rest => do
    let _ ← getPcb other
    if other = pid then pure ⟨⟩ else findPcb pid rest

/-- The first page of a list that starts in the given slot, and the others. -/
def removeElem (start : Nat) : List (Nat × Nat) → K ω ((Nat × Nat) × List (Nat × Nat))
  | [] => fault
  | (pid, i) :: rest => do
    let page ← getPage pid i
    if page.start = start then pure ((pid, i), rest)
    else do
      let (found, rest) ← removeElem start rest
      pure (found, (pid, i) :: rest)

/-- The page that was not used for longest goes, and the other is loaded. -/
def replacePage (pid i : Nat) : K ω PUnit := do
  let kernel ← get
  match kernel.lruCache.getLast? with
  | none => fault
  | some (victimPid, victimIndex) => do
    modify fun kernel => { kernel with lruCache := kernel.lruCache.dropLast }
    let victim ← getPage victimPid victimIndex
    findPcb victim.pagePid kernel.allPcb
    perform border varStoreSize (.pageEvict victim.pagePid victim.pageIndex)
    note [.evict victim.pagePid victim.pageIndex]
    let _ ← loadPageOf border varStoreSize pid i
    pure ⟨⟩

def runProc (pid i : Nat) (j : Fin 3) : K ω Int := do
  let ret ← cpuRun border varStoreSize parseInput pid i j
  if ret = 1 then do
    let loaded ← loadPageOf border varStoreSize pid i
    if loaded then pure ⟨⟩ else replacePage border varStoreSize pid i
    modify fun kernel => { kernel with lruCache := (pid, i) :: kernel.lruCache, queue := kernel.queue ++ [pid] }
    pure 1
  else do
    let page ← getPage pid i
    let kernel ← get
    let (found, rest) ← removeElem page.start kernel.lruCache
    modify fun kernel => { kernel with lruCache := found :: rest }
    pure 0

def newProc (script : List UInt8) : K ω PUnit := do
  let kernel ← get
  let pid := kernel.system.pidCounter
  perform border varStoreSize (.newProc script)
  let pcb ← getPcb pid
  let pageLimit := if 2 > pcb.pageTable.length then pcb.pageTable.length else 2
  modify fun kernel => { kernel with
    allPcb := kernel.allPcb ++ [pid]
    queue := kernel.queue ++ [pid]
    lruCache := ((List.range pageLimit).map fun i => (pid, i)).reverse ++ kernel.lruCache
    history := kernel.history ++ (List.range pageLimit).map fun i => .load pid i }

/-- The first valid line of a page table, from page `i` on. -/
def firstValid (i : Nat) : List Page → Option (Nat × Fin 3)
  | [] => none
  | page :: rest =>
    match ([0, 1, 2] : List (Fin 3)).find? fun j => page.validBit.get j with
    | some j => some (i, j)
    | none => firstValid (i + 1) rest

/-- The inner loop of `run_proc_FIFO`. -/
def runWhole (pid : Nat) : Nat → K ω PUnit
  | 0 => fault
  | fuel + 1 => do
    let curr ← getPcb pid
    if procDone curr.size then pure ⟨⟩
    else match firstValid 0 curr.pageTable with
      | none => fault
      | some (i, j) => do
        let _ ← runProc border varStoreSize parseInput pid i j
        runWhole pid fuel

def runProcFifo : Nat → K ω PUnit
  | 0 => fault
  | fuel + 1 => do
    let kernel ← get
    match kernel.queue with
    | [] => pure ⟨⟩
    | pid :: rest => do
      modify fun kernel => { kernel with queue := rest }
      runWhole border varStoreSize parseInput pid fuel
      perform border varStoreSize (.freePcb pid)
      runProcFifo fuel

def queueDone : List Nat → K ω Bool
  | [] => pure true
  | pid :: rest => do
    let pcb ← getPcb pid
    if pcbDone pcb then queueDone rest else pure false

/-- The next line of the process, on the first page that is not finished. -/
def runNext (pid : Nat) : K ω Int := do
  let curr ← getPcb pid
  let i := curr.programCounter.findIdx (· != 3)
  match curr.programCounter[i]? with
  | none => fault
  | some counter =>
    if inside : counter < 3 then runProc border varStoreSize parseInput pid i ⟨counter, inside⟩ else fault

def freeAll : List Nat → K ω PUnit
  | [] => pure ⟨⟩
  | pid :: rest => do
    perform border varStoreSize (.freePcb pid)
    freeAll rest

/-- One turn of the process at the head of the queue. -/
def turnRr : K ω PUnit := do
  let kernel ← get
  match kernel.queue with
  | [] => fault
  | pid :: rest => do
    modify fun kernel => { kernel with queue := rest }
    let curr ← getPcb pid
    if curr.size > 1 then do
      let ret ← runNext border varStoreSize parseInput pid
      if ret = 1 then pure ⟨⟩
      else do
        let ret ← runNext border varStoreSize parseInput pid
        if ret = 1 then pure ⟨⟩ else modify fun kernel => { kernel with queue := kernel.queue ++ [pid] }
    else if curr.size = 1 then do
      let _ ← runNext border varStoreSize parseInput pid
      pure ⟨⟩
    else pure ⟨⟩

def runProcRr : Nat → K ω PUnit
  | 0 => fault
  | fuel + 1 => do
    let kernel ← get
    let done ← queueDone kernel.queue
    if done then do
      freeAll border varStoreSize kernel.allPcb
      modify fun kernel => { kernel with queue := [], lruCache := [], allPcb := [] }
    else do
      turnRr border varStoreSize parseInput
      runProcRr fuel

end Schedulers

/-- Every run of the program is a run of the steps of the kernel. -/
abbrev Steps (border varStoreSize : Nat) (program : K ω α) : Prop := Traced (Call.take border varStoreSize) KernelState.system program

section Steps
variable {border varStoreSize : Nat} {parseInput : CString → K ω Int}

theorem perform_steps (call : Call) : Steps border varStoreSize (perform border varStoreSize call : K ω PUnit) := by
  intro kernel value after ran
  obtain ⟨system, taken, done⟩ := Option.map_eq_some_iff.mp ran
  cases done
  refine ⟨[call], ?_⟩
  change (call.take border varStoreSize kernel.system).bind _ = _
  rw [taken]
  rfl

theorem getPcb_steps (pid : Nat) : Steps border varStoreSize (getPcb pid : K ω Pcb) := by
  apply Traced.quiet
  intro kernel pcb after ran
  obtain ⟨_, _, done⟩ := Option.map_eq_some_iff.mp ran
  cases done
  rfl

theorem getPage_steps (pid i : Nat) : Steps border varStoreSize (getPage pid i : K ω Page) := by
  apply (getPcb_steps pid).bind
  intro pcb
  split
  · exact .fault
  · exact .pure _

theorem note_steps (events : List Event) : Steps border varStoreSize (note events : K ω PUnit) := .modify fun _ => rfl

theorem loadPageOf_steps (pid i : Nat) : Steps border varStoreSize (loadPageOf border varStoreSize pid i : K ω Bool) := by
  apply (getPcb_steps pid).bind
  intro pcb
  apply (getPage_steps pid i).bind
  intro page
  apply Traced.get.bind
  intro kernel
  split
  · exact .pure _
  · exact (perform_steps _).bind fun _ => (note_steps _).bind fun _ => .pure _

theorem findPcb_steps (pid : Nat) (all : List Nat) : Steps border varStoreSize (findPcb pid all : K ω PUnit) := by
  induction all with
  | nil => exact .fault
  | cons other rest ih => exact (getPcb_steps other).bind fun _ => .ite (.pure _) ih

theorem removeElem_steps (start : Nat) (pages : List (Nat × Nat)) : Steps border varStoreSize (removeElem start pages : K ω ((Nat × Nat) × List (Nat × Nat))) := by
  induction pages with
  | nil => exact .fault
  | cons entry rest ih =>
    apply (getPage_steps entry.1 entry.2).bind
    intro page
    exact .ite (.pure _) (ih.bind fun _ => .pure _)

theorem replacePage_steps (pid i : Nat) : Steps border varStoreSize (replacePage border varStoreSize pid i : K ω PUnit) := by
  apply Traced.get.bind
  intro kernel
  split
  · exact .fault
  · refine Traced.bind (.modify fun _ => rfl) fun _ => ?_
    apply (getPage_steps _ _).bind
    intro victim
    apply (findPcb_steps _ _).bind
    intro _
    apply (perform_steps _).bind
    intro _
    apply (note_steps _).bind
    intro _
    exact (loadPageOf_steps pid i).bind fun _ => .pure _

theorem newProc_steps (script : List UInt8) : Steps border varStoreSize (newProc border varStoreSize script : K ω PUnit) := by
  apply Traced.get.bind
  intro kernel
  apply (perform_steps _).bind
  intro _
  exact (getPcb_steps _).bind fun pcb => .modify fun _ => rfl

theorem queueDone_steps (pids : List Nat) : Steps border varStoreSize (queueDone pids : K ω Bool) := by
  induction pids with
  | nil => exact .pure _
  | cons pid rest ih => exact (getPcb_steps pid).bind fun _ => .ite ih (.pure _)

theorem freeAll_steps (pids : List Nat) : Steps border varStoreSize (freeAll border varStoreSize pids : K ω PUnit) := by
  induction pids with
  | nil => exact .pure _
  | cons pid rest ih => exact (perform_steps _).bind fun _ => ih

variable (lines : ∀ line, Steps border varStoreSize (parseInput line))
include lines

theorem cpuRun_steps (pid i : Nat) (j : Fin 3) : Steps border varStoreSize (cpuRun border varStoreSize parseInput pid i j) := by
  apply (getPage_steps pid i).bind
  intro page
  apply Traced.ite (.pure _)
  apply Traced.get.bind
  intro kernel
  apply (note_steps _).bind
  intro _
  apply (lines _).bind
  intro ret
  exact (perform_steps _).bind fun _ => .pure _

theorem runProc_steps (pid i : Nat) (j : Fin 3) : Steps border varStoreSize (runProc border varStoreSize parseInput pid i j) := by
  apply (cpuRun_steps lines pid i j).bind
  intro ret
  apply Traced.ite
  · apply (loadPageOf_steps pid i).bind
    intro loaded
    have listed : Steps border varStoreSize (do
        modify fun kernel => { kernel with lruCache := (pid, i) :: kernel.lruCache, queue := kernel.queue ++ [pid] }
        pure 1 : K ω Int) := .bind (.modify fun _ => rfl) fun _ => .pure _
    split
    · exact listed
    · exact (replacePage_steps pid i).bind fun _ => listed
  · apply (getPage_steps pid i).bind
    intro page
    apply Traced.get.bind
    intro kernel
    apply (removeElem_steps _ _).bind
    intro found
    exact .bind (.modify fun _ => rfl) fun _ => .pure _

theorem runWhole_steps (pid fuel : Nat) : Steps border varStoreSize (runWhole border varStoreSize parseInput pid fuel) := by
  induction fuel with
  | zero => exact .fault
  | succ fuel ih =>
    apply (getPcb_steps pid).bind
    intro curr
    apply Traced.ite (.pure _)
    split
    · exact .fault
    · exact (runProc_steps lines pid _ _).bind fun _ => ih

/-- FIFO scheduling takes steps of the kernel only. -/
theorem runProcFifo_steps (fuel : Nat) : Steps border varStoreSize (runProcFifo border varStoreSize parseInput fuel) := by
  induction fuel with
  | zero => exact .fault
  | succ fuel ih =>
    apply Traced.get.bind
    intro kernel
    split
    · exact .pure _
    · refine Traced.bind (.modify fun _ => rfl) fun _ => ?_
      apply (runWhole_steps lines _ fuel).bind
      intro _
      exact (perform_steps _).bind fun _ => ih

theorem runNext_steps (pid : Nat) : Steps border varStoreSize (runNext border varStoreSize parseInput pid) := by
  apply (getPcb_steps pid).bind
  intro curr
  dsimp only
  split
  · exact .fault
  · split
    · exact runProc_steps lines pid _ _
    · exact .fault

theorem turnRr_steps : Steps border varStoreSize (turnRr border varStoreSize parseInput) := by
  apply Traced.get.bind
  intro kernel
  split
  · exact .fault
  · refine Traced.bind (.modify fun _ => rfl) fun _ => ?_
    apply (getPcb_steps _).bind
    intro curr
    apply Traced.ite
    · apply (runNext_steps lines _).bind
      intro ret
      apply Traced.ite (.pure _)
      apply (runNext_steps lines _).bind
      intro ret
      exact .ite (.pure _) (.modify fun _ => rfl)
    · exact .ite ((runNext_steps lines _).bind fun _ => .pure _) (.pure _)

theorem runProcRr_steps (fuel : Nat) : Steps border varStoreSize (runProcRr border varStoreSize parseInput fuel) := by
  induction fuel with
  | zero => exact .fault
  | succ fuel ih =>
    apply Traced.get.bind
    intro kernel
    apply (queueDone_steps _).bind
    intro done
    apply Traced.ite
    · exact (freeAll_steps _).bind fun _ => .modify fun _ => rfl
    · exact (turnRr_steps lines).bind fun _ => ih

end Steps

end Comp310.Kernel
