import Comp310.Kernel.ShellMemory

/-! The memory of the shell (a2/shellmemory.c): the lines of scripts are in the
first FRAMESIZE slots, and the VARMEMSIZE slots behind them are for variables. -/

namespace Comp310.A2
open Comp310.Kernel (CString ShellMemory MemoryStruct memPut memFreeAt memSetValue noneText)

/-- The value in a slot; `none` where the code returns NULL. -/
def memGetValueAtLine (size : Nat) (index : Int) (memory : ShellMemory) : Option CString :=
  if index < 0 ∨ index > size then none else some (memory index.toNat).value

/-- The first frame slot with the text of the line; without one the code returns nothing defined. -/
def getIndex (frameSize : Nat) (line : CString) (memory : ShellMemory) : Option Nat :=
  (List.range frameSize).find? fun i => (memory i).value == line

/-- `resetvariable`. -/
def resetVariable (index : Nat) (memory : ShellMemory) : ShellMemory :=
  if (memory index).value = noneText then memPut memory index { memory index with var := noneText } else memory

/-- The body of the loop of `resetmem`. -/
def resetSlot (frameSize varMemSize : Nat) (memory : ShellMemory) (i : Nat) : ShellMemory :=
  resetVariable i (if (memory i).value ≠ noneText then memSetValue frameSize varMemSize (memory i).var noneText memory else memory)

def resetmem (frameSize varMemSize : Nat) (memory : ShellMemory) : ShellMemory :=
  (List.range' frameSize varMemSize).foldl (resetSlot frameSize varMemSize) memory

variable {frameSize varMemSize slot : Nat} {memory : ShellMemory} {line : CString}

theorem resetVariable_other {index : Nat} (differs : slot ≠ index) : resetVariable index memory slot = memory slot := by
  unfold resetVariable
  split
  · exact Kernel.memPut_other differs
  · rfl

theorem resetmem_frame (frame : slot < frameSize) : resetmem frameSize varMemSize memory slot = memory slot := by
  have loop (slots : List Nat) (above : ∀ i ∈ slots, frameSize ≤ i) (memory : ShellMemory) :
      slots.foldl (resetSlot frameSize varMemSize) memory slot = memory slot := by
    induction slots generalizing memory with
    | nil => rfl
    | cons i rest ih =>
      refine (ih (fun j member => above j (List.mem_cons_of_mem _ member)) _).trans ?_
      have differs : slot ≠ i := by
        have low := above i List.mem_cons_self
        omega
      have set : (if (memory i).value ≠ noneText then memSetValue frameSize varMemSize (memory i).var noneText memory else memory) slot =
          memory slot := by
        split
        · exact Kernel.memSetValue_frame frame
        · rfl
      exact (resetVariable_other differs).trans set
  apply loop
  intro i member
  exact (List.mem_range'_1.mp member).1

end Comp310.A2
