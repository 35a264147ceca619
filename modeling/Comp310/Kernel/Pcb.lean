import Comp310.Kernel.ShellMemory

/-! Processes and the pages of their scripts (a3/pcb.c). -/

namespace Comp310.Kernel

/-- `PAGE`. -/
structure Page where
  index : Vector Nat 3
  validBit : Vector Bool 3
  pageIndex : Nat
  pagePid : Nat

/-- The slot that pages are told apart by, their first one. -/
def Page.start (page : Page) : Nat := page.index[0]

/-- `PCB`. Of the source file it has the bytes that are still to be read. -/
structure Pcb where
  pid : Nat
  size : Int
  programCounter : List Nat
  pageTable : List Page
  sourceFile : List UInt8

def countFrom (last : UInt8) : List UInt8 → Nat
  | [] => 0
  | c :: rest => (if c = 10 ∧ last ≠ 10 then 1 else 0) + countFrom c rest

/-- The last line does not end in a newline. -/
def countLines (script : List UInt8) : Nat := countFrom 10 script + 1

/-- PAGE_table_size. -/
def pageTableSize (lines : Nat) : Nat := if lines % 3 = 0 then lines / 3 else lines / 3 + 1

/-- The bytes up to a newline, and no more than that many. -/
def lineOf : Nat → List UInt8 → List UInt8
  | 0, _ => []
  | _, [] => []
  | limit + 1, c :: rest => if c = 10 then [c] else c :: lineOf limit rest

/-- The line and what is left of the file; `none` at its end. -/
def fgets (limit : Nat) (file : List UInt8) : Option (List UInt8 × List UInt8) :=
  if file = [] then none else some (lineOf limit file, file.drop (lineOf limit file).length)

/-- A page that has not been loaded. -/
def pageInit (pagePid pageIndex : Nat) : Page := ⟨.replicate 3 1000, .replicate 3 false, pageIndex, pagePid⟩

/-- The loop that puts the next lines of the file into the slots of a page. -/
def loadLines (pid : CString) : List (Fin 3) → Page → List UInt8 → ShellMemory → Page × List UInt8 × ShellMemory
  | [], page, file, memory => (page, file, memory)
  | j :: rest, page, file, memory =>
    match fgets 998 file with
    | none => (page, file, memory)
    | some (line, file) =>
      loadLines pid rest { page with validBit := page.validBit.set j true } file (memSetValueAt page.index[j] pid line memory)

/-- load_PAGE; `none` where it returns 1. -/
def loadPage (border pageIndex : Nat) (pcb : Pcb) (page : Page) (memory : ShellMemory) : Option (Pcb × ShellMemory) := do
  let (start, memory) ← frameAlloc border (decimal pcb.pid) memory
  let page : Page := { page with index := #v[start, start + 1, start + 2], validBit := .replicate 3 false }
  let (page, sourceFile, memory) := loadLines (decimal pcb.pid) [0, 1, 2] page pcb.sourceFile memory
  some ({ pcb with pageTable := pcb.pageTable.set pageIndex page, sourceFile }, memory)

/-- The first pages of a process, each as `loadPage` does it. -/
def loadFirst (border : Nat) : List Nat → Pcb → ShellMemory → Option (Pcb × ShellMemory)
  | [], pcb, memory => some (pcb, memory)
  | i :: rest, pcb, memory => do
    let page ← pcb.pageTable[i]?
    let (pcb, memory) ← loadPage border i pcb page memory
    loadFirst border rest pcb memory

/-- PCB_init with the content of the file; `none` where it exits. -/
def pcbInit (border pid : Nat) (script : List UInt8) (memory : ShellMemory) : Option (Pcb × ShellMemory) :=
  let pageTable := (List.range (pageTableSize (countLines script))).map (pageInit pid)
  let pcb : Pcb := ⟨pid, countLines script, List.replicate pageTable.length 0, pageTable, script⟩
  let pageLimit := if 2 > pageTable.length then pageTable.length else 2
  loadFirst border (List.range pageLimit) pcb memory

/-- PAGE_evict. -/
def pageEvict (page : Page) (memory : ShellMemory) : Page × ShellMemory :=
  ({ page with index := .replicate 3 0, validBit := .replicate 3 false }, page.index.foldl (fun memory pos => memFreeAt pos memory) memory)

/-- free_PCB. -/
def freePcb (pcb : Pcb) (memory : ShellMemory) : ShellMemory :=
  pcb.pageTable.foldl (fun memory page => page.index.foldl (fun memory pos => clearFrame pos memory) memory) memory

/-- PCB_done. -/
def pcbDone (pcb : Pcb) : Bool := pcb.programCounter.all (· == 3)

def procDone (size : Int) : Bool := !decide (size > 0)

/-- The page has three slots of its own: evicted it has slot 0 three times, and before it is loaded slot 1000. -/
def Page.Resident (page : Page) : Prop := page.index[1] = page.index[0] + 1 ∧ page.index[2] = page.index[0] + 2

def Page.Holds (page : Page) (slot : Nat) : Prop := page.Resident ∧ slot ∈ page.index

/-- A slot of a resident page of the process. -/
def Pcb.Holds (pcb : Pcb) (slot : Nat) : Prop := ∃ page ∈ pcb.pageTable, page.Holds slot

/-- A slot that `free_PCB` clears, as part of the frame that it takes each index for. -/
def Pcb.Cleared (pcb : Pcb) (slot : Nat) : Prop := ∃ page ∈ pcb.pageTable, ∃ pos ∈ page.index, pos ≤ slot ∧ slot < pos + 3

variable {border start slot pos : Nat} {pcb pcb' : Pcb} {page page' : Page} {memory memory' : ShellMemory} {pid : CString}
  {file file' : List UInt8}

def blank : MemoryStruct := ⟨noneText, noneText⟩

section Clearing

theorem memFreeAt_apply : memFreeAt pos memory slot = if slot = pos then blank else memory slot := rfl

theorem clearFrame_apply : clearFrame pos memory slot = if pos ≤ slot ∧ slot < pos + 3 then blank else memory slot := by
  rw [clearFrame, memFreeAt_apply, memFreeAt_apply, memFreeAt_apply]
  split
  · rw [if_pos (by omega)]
  · split
    · rw [if_pos (by omega)]
    · split
      · rw [if_pos (by omega)]
      · rw [if_neg (by omega)]

theorem foldl_clears {ι : Type} {clears : ι → ShellMemory → ShellMemory} {cleared : ι → Nat → Prop}
    (one : ∀ i memory slot, (cleared i slot → clears i memory slot = blank) ∧ (¬ cleared i slot → clears i memory slot = memory slot))
    (parts : List ι) (memory : ShellMemory) (slot : Nat) :
    ((∃ i ∈ parts, cleared i slot) → parts.foldl (fun memory i => clears i memory) memory slot = blank) ∧
      ((¬ ∃ i ∈ parts, cleared i slot) → parts.foldl (fun memory i => clears i memory) memory slot = memory slot) := by
  induction parts generalizing memory with
  | nil => exact ⟨fun ⟨_, member, _⟩ => (nomatch member), fun _ => rfl⟩
  | cons first rest ih =>
    obtain ⟨hit, missed⟩ := ih (clears first memory)
    rw [List.foldl_cons]
    constructor
    · rintro ⟨i, member, clear⟩
      by_cases later : ∃ i ∈ rest, cleared i slot
      · exact hit later
      · rcases List.mem_cons.mp member with rfl | member
        · exact (missed later).trans ((one i memory slot).1 clear)
        · exact absurd ⟨i, member, clear⟩ later
    · intro none
      rw [missed fun ⟨i, member, clear⟩ => none ⟨i, List.mem_cons_of_mem _ member, clear⟩]
      exact (one first memory slot).2 fun clear => none ⟨first, List.mem_cons_self, clear⟩

theorem freePcb_clears (pcb : Pcb) (memory : ShellMemory) (slot : Nat) :
    (pcb.Cleared slot → freePcb pcb memory slot = blank) ∧ (¬ pcb.Cleared slot → freePcb pcb memory slot = memory slot) := by
  have frame (pos : Nat) (memory : ShellMemory) (slot : Nat) : (pos ≤ slot ∧ slot < pos + 3 → clearFrame pos memory slot = blank) ∧
      (¬ (pos ≤ slot ∧ slot < pos + 3) → clearFrame pos memory slot = memory slot) := by
    rw [clearFrame_apply]
    exact ⟨fun inside => if_pos inside, fun outside => if_neg outside⟩
  have page (page : Page) (memory : ShellMemory) (slot : Nat) :
      ((∃ pos ∈ page.index, pos ≤ slot ∧ slot < pos + 3) →
        page.index.foldl (fun memory pos => clearFrame pos memory) memory slot = blank) ∧
      ((¬ ∃ pos ∈ page.index, pos ≤ slot ∧ slot < pos + 3) →
        page.index.foldl (fun memory pos => clearFrame pos memory) memory slot = memory slot) := by
    have whole := foldl_clears frame page.index.toList memory slot
    rw [← Vector.foldl_toList]
    simpa only [Vector.mem_toList_iff] using whole
  exact foldl_clears page pcb.pageTable memory slot

theorem pageEvict_clears (page : Page) (memory : ShellMemory) (slot : Nat) :
    (slot ∈ page.index → (pageEvict page memory).2 slot = blank) ∧
      (slot ∉ page.index → (pageEvict page memory).2 slot = memory slot) := by
  have one (pos : Nat) (memory : ShellMemory) (slot : Nat) : (slot = pos → memFreeAt pos memory slot = blank) ∧
      (¬ slot = pos → memFreeAt pos memory slot = memory slot) := by
    rw [memFreeAt_apply]
    exact ⟨fun same => if_pos same, fun differs => if_neg differs⟩
  have whole := foldl_clears one page.index.toList memory slot
  rw [pageEvict, ← Vector.foldl_toList]
  simpa using whole

end Clearing

section Loading

/-- Reading the lines changes no slot but those of the page, and keeps their labels. -/
theorem loadLines_spec (slots : List (Fin 3)) (read : loadLines pid slots page file memory = (page', file', memory')) :
    page'.index = page.index ∧ (∀ slot, slot ∉ page.index → memory' slot = memory slot) ∧
      ∀ slot, (memory slot).var = pid → (memory' slot).var = pid := by
  induction slots generalizing page file memory with
  | nil =>
    cases read
    exact ⟨rfl, fun _ _ => rfl, fun _ => id⟩
  | cons j rest ih =>
    rw [loadLines] at read
    split at read
    · cases read
      exact ⟨rfl, fun _ _ => rfl, fun _ => id⟩
    · obtain ⟨index, others, labels⟩ := ih read
      refine ⟨index, fun slot outside => ?_, fun slot label => ?_⟩
      · have differs : slot ≠ page.index[j] := by
          intro same
          apply outside
          rw [same]
          exact Vector.getElem_mem j.isLt
        exact (others slot outside).trans (memPut_other differs)
      · apply labels
        by_cases same : slot = page.index[j]
        · rw [same, memSetValueAt, memPut_self]
        · rw [memSetValueAt, memPut_other same]
          exact label

/-- A page was given three slots of the frame store that were free. -/
structure Loaded (border i : Nat) (pcb : Pcb) (memory : ShellMemory) (pcb' : Pcb) (memory' : ShellMemory) (page : Page) : Prop where
  pid : pcb'.pid = pcb.pid
  pages : pcb'.pageTable = pcb.pageTable.set i page
  resident : page.Resident
  inside : ∀ slot ∈ page.index, slot < border
  free : ∀ slot ∈ page.index, (memory slot).var = noneText
  mine : ∀ slot ∈ page.index, (memory' slot).var = decimal pcb.pid
  others : ∀ slot, slot ∉ page.index → memory' slot = memory slot

theorem mem_frame : slot ∈ #v[start, start + 1, start + 2] ↔ start ≤ slot ∧ slot < start + 3 := by
  simp only [Vector.mem_mk, List.mem_toArray, List.mem_cons, List.not_mem_nil, or_false]
  omega

theorem loadPage_loaded {i : Nat} (ran : loadPage border i pcb page memory = some (pcb', memory')) :
    ∃ page', Loaded border i pcb memory pcb' memory' page' := by
  obtain ⟨⟨start, marked⟩, found, ran⟩ := Option.bind_eq_some_iff.mp ran
  obtain ⟨free, labels⟩ := frameAlloc_some found
  obtain ⟨inside, free⟩ := frameFree_iff.mp free
  dsimp only at ran
  generalize read : loadLines (decimal pcb.pid) [0, 1, 2] { page with index := #v[start, start + 1, start + 2], validBit := .replicate 3 false }
    pcb.sourceFile marked = result at ran
  obtain ⟨page', file, final⟩ := result
  cases ran
  obtain ⟨index, others, kept⟩ := loadLines_spec _ read
  dsimp only at index others
  refine ⟨page', rfl, rfl, ?_, ?_, ?_, ?_, ?_⟩
  · unfold Page.Resident
    rw [index]
    exact ⟨rfl, rfl⟩
  all_goals rw [index]
  · intro slot member
    have place := mem_frame.mp member
    omega
  · intro slot member
    have place := mem_frame.mp member
    have k := free (slot - start) (by omega)
    rwa [show start + (slot - start) = slot by omega] at k
  · intro slot member
    apply kept
    rw [labels slot, if_pos (mem_frame.mp member)]
  · intro slot outside
    refine (others slot outside).trans ?_
    rw [labels slot, if_neg (fun place => outside (mem_frame.mpr place))]

end Loading

end Comp310.Kernel
