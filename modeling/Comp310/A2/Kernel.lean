import Comp310.A2.Interpreter
import Comp310.A2.Queued

/-! Running a process, and the scheduler that ages the jobs that wait (a2/kernel.c). -/

namespace Comp310.A2
open Comp310.Kernel (CString ShellMemory noneText)
open Comp310.Lib

/-- The number of pages up to the first that is not loaded. -/
def Pcb.loadedPages (pcb : Pcb) : Option Nat := pcb.pt.toList.findIdx? fun page => !page.loaded

/-- A change of each of the first pages. -/
def Pcb.mapPages (count : Nat) (change : Fin 30 → Page → Page) (pcb : Pcb) : Pcb :=
  { pcb with pt := .ofFn fun k : Fin 30 => if k.val < count then change k (pcb.pt.get k) else pcb.pt.get k }

/-- The last of the pages that have the line at `index`. -/
def Pcb.frameNumber (count index : Nat) (pcb : Pcb) : Option (Fin 30) :=
  ((List.finRange 30).filter fun k => decide (k.val < count ∧ (pcb.pt.get k).start ≤ index ∧ (pcb.pt.get k).endAt ≥ index)).getLast?

/-- At its last line a page has been executed; with no bound on the lines, the others have waited. -/
def Pcb.markPages (unbounded : Bool) (count : Nat) (frame : Fin 30) (pcb : Pcb) : Pcb :=
  if (pcb.pt.get frame).endAt = pcb.pc - 1 then
    pcb.mapPages count fun k page =>
      if k = frame then { page with executed := true }
      else if unbounded then { page with lastUsed := page.lastUsed + 1 } else page
  else pcb

/-- The process once its line has been fetched. -/
def Pcb.fetched (unbounded : Bool) (count : Nat) (frame : Fin 30) (pcb : Pcb) : Pcb :=
  { ({ pcb with pc := pcb.pc + 1 } : Pcb).markPages unbounded count frame with priority := false }

/-- The pages that have been executed wait, but for the one of the line. -/
def Pcb.waitPages (count : Nat) (frame : Fin 30) (pcb : Pcb) : Pcb :=
  pcb.mapPages count fun k page => if page.executed = true ∧ frame ≠ k then { page with lastUsed := page.lastUsed + 1 } else page

section Running
variable (frameSize varMemSize : Nat) (parseInput : CString → Prog System Int) (node : Nat)

def setPcb (pcb : Pcb) : Prog System PUnit := modify fun system => { system with queue := system.queue.setPcb node pcb }

/-- What `execute_process` returns after the last line in memory. -/
def lastLine (i : Nat) (frame : Fin 30) : Prog System Int := do
  let system ← get
  let pcb := system.queue.pcb node
  match pcb.loadedPages with
  | none => fault
  | some count =>
    if 5 > frameSize + varMemSize then fault
    else do
      setPcb node (pcb.waitPages count frame)
      let small : Bool := (system.memory 5).var == noneText
      let last : Bool := system.queue.next node == none
      if (i = 0 ∧ pcb.tempSize < pcb.fullSize) ∨ (last = true ∧ pcb.tempSize < pcb.fullSize) ∨
          (small = false ∧ last = true ∧ pcb.tempSize = pcb.fullSize) then
        pure (if i = 0 then 4 else 2)
      else pure 1

/-- The line is run, and what `execute_process` returns if it was the last one. -/
def runLine (i : Nat) (line : CString) (frame : Fin 30) (pcb : Pcb) : Prog System (Option Int) := do
  setPcb node pcb
  let _ ← parseInput line
  if pcb.pc > pcb.endAt then do
    let ret ← lastLine frameSize varMemSize node i frame
    pure (some ret)
  else pure none

/-- One round of the loop of `execute_process`, and what it returns if it does. -/
def executeLine (unbounded : Bool) (i : Nat) : Prog System (Option Int) := do
  let system ← get
  let pcb := system.queue.pcb node
  match memGetValueAtLine (frameSize + varMemSize) pcb.pc system.memory with
  | none => fault
  | some line =>
    match getIndex frameSize line system.memory, pcb.loadedPages with
    | some index, some count =>
      match pcb.frameNumber count index with
      | none => fault
      | some frame => runLine frameSize varMemSize parseInput node i line frame (pcb.fetched unbounded count frame)
    | _, _ => fault

def executeLoop (unbounded : Bool) : Nat → Nat → Prog System Int
  | _, 0 => pure 0
  | i, left + 1 => do
    let ret ← executeLine frameSize varMemSize parseInput node unbounded i
    match ret with
    | some ret => pure ret
    | none => executeLoop unbounded (i + 1) left

def executeProcess (quanta : Nat) : Prog System Int := executeLoop frameSize varMemSize parseInput node (quanta == maxInt.toNat) 0 quanta

end Running

section Aging
variable (frameSize varMemSize : Nat) (parseInput : CString → Prog System Int) (fuel : Nat)

def onQueue (operation : ReadyQueue → Option ReadyQueue) : Prog System PUnit :=
  fun system => (operation system.queue).map fun queue => (⟨⟩, { system with queue })

def popHead : Prog System (Option Nat) := fun system => some (system.queue.popHead.1, { system with queue := system.queue.popHead.2 })

/-- The process that the scheduler takes out of the queue. -/
def takeShortest : Prog System (Option Nat) := do
  let cur ← popHead
  match cur with
  | none => pure none
  | some cur => do
    let system ← get
    match system.queue.getShortestJobScore fuel with
    | none => fault
    | some shortest =>
      if shortest < (system.queue.pcb cur).jobLengthScore then do
        onQueue (ReadyQueue.promote fuel shortest)
        onQueue (ReadyQueue.addToTail fuel cur)
        popHead
      else pure (some cur)

/-- One round of the loop of `scheduler_AGING`, with the process that was run and what came back. -/
def agingTurn : Prog System (Nat × Int) := do
  let cur ← takeShortest fuel
  match cur with
  | none => fault
  | some cur => do
    onQueue (ReadyQueue.decrementJobLengthScore fuel)
    let done ← executeProcess frameSize varMemSize parseInput cur 1
    if done = 0 then modify fun system => { system with queue := system.queue.addToHead cur } else pure ⟨⟩
    pure (cur, done)

def agingLoop : Nat → Prog System PUnit
  | 0 => fault
  | rounds + 1 => do
    let system ← get
    if system.queue.isReadyEmpty then pure ⟨⟩
    else do
      let _ ← agingTurn frameSize varMemSize parseInput fuel
      agingLoop rounds

def schedulerAging : Prog System PUnit := do
  onQueue (ReadyQueue.sortReadyQueue fuel)
  agingLoop frameSize varMemSize parseInput fuel fuel

end Aging

/-- A line of the process was run: besides its counter, only its pages and its priority have changed. -/
structure LineRun (frameSize node : Nat) (before after : System) : Prop where
  head : after.queue.head = before.queue.head
  next : after.queue.next = before.queue.next
  others : ∀ other, other ≠ node → after.queue.pcb other = before.queue.pcb other
  score : (after.queue.pcb node).jobLengthScore = (before.queue.pcb node).jobLengthScore
  endAt : (after.queue.pcb node).endAt = (before.queue.pcb node).endAt
  pc : (after.queue.pcb node).pc = (before.queue.pcb node).pc + 1
  frames : ∀ slot < frameSize, after.memory slot = before.memory slot

section Lemmas
variable {frameSize varMemSize node count i : Nat} {parseInput : CString → Prog System Int} {frame : Fin 30} {system after : System} {pcb : Pcb}
  {ret : Int} {unbounded : Bool}

theorem lastLine_eq (ran : lastLine frameSize varMemSize node i frame system = some (ret, after)) :
    ret ≠ 0 ∧ ∃ count, after = { system with queue := system.queue.setPcb node ((system.queue.pcb node).waitPages count frame) } := by
  obtain ⟨_, _, got, ran⟩ := bind_some ran
  cases got
  dsimp only at ran
  cases loaded : (system.queue.pcb node).loadedPages with
  | none =>
    rw [loaded] at ran
    cases ran
  | some count =>
    rw [loaded] at ran
    dsimp only at ran
    split at ran
    · cases ran
    · obtain ⟨_, _, changed, ran⟩ := bind_some ran
      cases changed
      split at ran
      · cases ran
        refine ⟨?_, count, rfl⟩
        split <;> decide
      · cases ran
        exact ⟨by decide, count, rfl⟩

theorem mapPages_same (change : Fin 30 → Page → Page) : (pcb.mapPages count change).jobLengthScore = pcb.jobLengthScore ∧
    (pcb.mapPages count change).endAt = pcb.endAt ∧ (pcb.mapPages count change).pc = pcb.pc := by
  simp only [Pcb.mapPages, and_self]

theorem fetched_same : (pcb.fetched unbounded count frame).jobLengthScore = pcb.jobLengthScore ∧
    (pcb.fetched unbounded count frame).endAt = pcb.endAt ∧ (pcb.fetched unbounded count frame).pc = pcb.pc + 1 := by
  unfold Pcb.fetched Pcb.markPages
  dsimp only
  split
  · exact mapPages_same _
  · exact ⟨rfl, rfl, rfl⟩

theorem setPcb_run (score : pcb.jobLengthScore = (system.queue.pcb node).jobLengthScore) (endAt : pcb.endAt = (system.queue.pcb node).endAt)
    (pc : pcb.pc = (system.queue.pcb node).pc + 1) (queue : after.queue = system.queue.setPcb node pcb)
    (frames : ∀ slot < frameSize, after.memory slot = system.memory slot) : LineRun frameSize node system after := by
  refine ⟨?_, ?_, ?_, ?_, ?_, ?_, frames⟩
  all_goals rw [queue]
  · rfl
  · exact ReadyQueue.setPcb_next
  · exact fun other differs => ReadyQueue.setPcb_other differs
  all_goals rw [ReadyQueue.setPcb_self]
  · exact score
  · exact endAt
  · exact pc

variable (calls : ∀ line base, QuietLine line → Stays (Untouched frameSize base) (parseInput line))
include calls

theorem runLine_run {ret : Option Int} {line : CString} (quiet : QuietLine line) (score : pcb.jobLengthScore = (system.queue.pcb node).jobLengthScore)
    (endAt : pcb.endAt = (system.queue.pcb node).endAt) (pc : pcb.pc = (system.queue.pcb node).pc + 1)
    (ran : runLine frameSize varMemSize parseInput node i line frame pcb system = some (ret, after)) :
    LineRun frameSize node system after ∧ (ret = none → pcb.pc ≤ pcb.endAt) ∧ ret ≠ some 0 := by
  obtain ⟨_, _, changed, ran⟩ := bind_some ran
  cases changed
  obtain ⟨_, middle, parsed, ran⟩ := bind_some ran
  have same := (calls line { system with queue := system.queue.setPcb node pcb } quiet _ _ _ ⟨rfl, fun _ _ => rfl⟩ parsed).1
  have mine : middle.queue.pcb node = pcb := by
    rw [same.queue]
    exact ReadyQueue.setPcb_self
  split at ran
  · obtain ⟨code, last, finished, ran⟩ := bind_some ran
    cases ran
    obtain ⟨notZero, count, rfl⟩ := lastLine_eq finished
    refine ⟨?_, fun none => absurd none (Option.some_ne_none code), fun zero => notZero (Option.some.inj zero)⟩
    have waits : (pcb.waitPages count frame).jobLengthScore = pcb.jobLengthScore ∧ (pcb.waitPages count frame).endAt = pcb.endAt ∧
        (pcb.waitPages count frame).pc = pcb.pc := mapPages_same _
    obtain ⟨score', endAt', pc'⟩ := waits
    refine setPcb_run (score'.trans score) (endAt'.trans endAt) (pc'.trans pc) ?_ same.frames
    change middle.queue.setPcb node (Pcb.waitPages count frame (middle.queue.pcb node)) = _
    rw [mine, same.queue, ReadyQueue.setPcb_setPcb]
  next within =>
    cases ran
    refine ⟨setPcb_run score endAt pc same.queue same.frames, fun _ => Int.not_lt.mp within, fun none => absurd none.symm (Option.some_ne_none _)⟩

variable (quiet : ∀ line, memGetValueAtLine (frameSize + varMemSize) (system.queue.pcb node).pc system.memory = some line → QuietLine line)
include quiet

theorem executeLine_run {ret : Option Int} (ran : executeLine frameSize varMemSize parseInput node unbounded i system = some (ret, after)) :
    LineRun frameSize node system after ∧ (ret = none → (system.queue.pcb node).pc + 1 ≤ (system.queue.pcb node).endAt) ∧ ret ≠ some 0 := by
  obtain ⟨_, _, got, ran⟩ := bind_some ran
  cases got
  dsimp only at ran
  cases fetched : memGetValueAtLine (frameSize + varMemSize) (system.queue.pcb node).pc system.memory with
  | none =>
    rw [fetched] at ran
    cases ran
  | some line =>
    rw [fetched] at ran
    dsimp only at ran
    cases found : getIndex frameSize line system.memory with
    | none =>
      rw [found] at ran
      cases ran
    | some index =>
      rw [found] at ran
      cases loaded : (system.queue.pcb node).loadedPages with
      | none =>
        rw [loaded] at ran
        cases ran
      | some count =>
        rw [loaded] at ran
        dsimp only at ran
        cases numbered : (system.queue.pcb node).frameNumber count index with
        | none =>
          rw [numbered] at ran
          cases ran
        | some frame =>
          rw [numbered] at ran
          obtain ⟨score, endAt, pc⟩ : ((system.queue.pcb node).fetched unbounded count frame).jobLengthScore = _ ∧ _ := fetched_same
          obtain ⟨run, within, notZero⟩ := runLine_run calls (quiet line fetched) score endAt pc ran
          rw [endAt, pc] at within
          exact ⟨run, within, notZero⟩

/-- A process that is run for one line, and can go on where 0 is returned. -/
theorem executeProcess_run (ran : executeProcess frameSize varMemSize parseInput node 1 system = some (ret, after)) :
    LineRun frameSize node system after ∧ (ret = 0 → (system.queue.pcb node).pc + 1 ≤ (system.queue.pcb node).endAt) := by
  obtain ⟨code, middle, line, ran⟩ := bind_some ran
  obtain ⟨run, within, notZero⟩ := executeLine_run calls quiet line
  cases code with
  | none =>
    cases ran
    exact ⟨run, fun _ => within rfl⟩
  | some code =>
    cases ran
    exact ⟨run, fun zero => absurd (congrArg some zero) notZero⟩

end Lemmas

end Comp310.A2
