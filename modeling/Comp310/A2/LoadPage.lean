import Comp310.A2.LoadFile
import Comp310.A2.Kernel

/-! Loading the next page of a program (`load_page` of a2/kernel.c). -/

namespace Comp310.A2
open Comp310.Kernel (CString ShellMemory MemoryStruct memPut noneText strdup strdup_whole)

/-- A slot is free to `load_page` by its value. -/
def lineFree (memory : ShellMemory) (i : Nat) : Bool := (memory i).value == noneText

/-- `memFullorNewStart`, with -1 as `none`. -/
def memFullOrNewStart (frameSize : Nat) (memory : ShellMemory) : Option Nat :=
  ((List.range ((frameSize + 2) / 3)).map (· * 3)).find? fun i => lineFree memory i && lineFree memory (i + 1) && lineFree memory (i + 2)

/-- `mem_free_lines_between`, from a slot of the array on. -/
def memFreeLinesBetween (size : Nat) (start endAt : Int) (memory : ShellMemory) : ShellMemory :=
  fun slot => if start ≤ slot ∧ slot ≤ endAt ∧ slot < size then ⟨noneText, noneText⟩ else memory slot

/-- A page table entry of a process. -/
structure PageRef where
  node : Nat
  entry : Fin 30

def ReadyQueue.page (queue : ReadyQueue) (ref : PageRef) : Page := (queue.pcb ref.node).pt.get ref.entry

/-- The variables of `load_page`, and the slots that the lines were stored in, or not at all. -/
structure Paging where
  memory : ShellMemory
  count : Nat
  index : Option Nat
  freed : Bool
  removefrom : Int
  placed : List (Option Nat)

section LoadPage
variable (frameSize varMemSize : Nat) (filename : CString)

/-- `mem_set_line`, with the slot that the line is stored in. -/
def memSetLine (line : CString) (index : Nat) (memory : ShellMemory) : Option Nat × ShellMemory :=
  match (List.range' index 3).find? (lineFree memory) with
  | none => (none, memory)
  | some i => (some i, setLine frameSize varMemSize line (memPut memory i ⟨filename, line⟩))

/-- The line is stored from `index` on, and looked for again. -/
def storeLine (line : CString) (index : Nat) (removefrom : Int) (paging : Paging) : Option Paging :=
  let stored := memSetLine frameSize varMemSize filename line index paging.memory
  (getIndex frameSize line stored.2).map fun index =>
    { paging with memory := stored.2, count := paging.count + 1, index := some index, removefrom, placed := paging.placed ++ [stored.1] }

/-- The page that was not used for longest is freed if there is no room. -/
def freeVictim (removeto : Int) (paging : Paging) : Paging :=
  if memFullOrNewStart frameSize paging.memory = none ∧ paging.freed = false ∧ paging.count = 0 then
    { paging with memory := memFreeLinesBetween (frameSize + varMemSize) paging.removefrom removeto paging.memory, freed := true }
  else paging

/-- A line that was not read before. -/
def pageLine (removeto : Int) (line : CString) (paging : Paging) : Option Paging :=
  let paging := freeVictim frameSize varMemSize removeto paging
  if paging.freed = true then
    if paging.removefrom < 0 then none
    else storeLine frameSize varMemSize filename line paging.removefrom.toNat
      (if paging.count + 1 > 1 then paging.removefrom + 1 else paging.removefrom) paging
  else
    (if paging.count + 1 > 1 then paging.index.map (· + 1) else memFullOrNewStart frameSize paging.memory).bind fun index =>
      storeLine frameSize varMemSize filename line index paging.removefrom paging

/-- The loop over the lines of the file, with `lineNo`. -/
def pageLoop (removeto : Int) (linesAlrRead : Nat) : Nat → Stream → Nat → Paging → Option Paging
  | 0, _, _, _ => none
  | fuel + 1, fp, lineNo, paging =>
    match fgets 101 fp with
    | (none, _) => some paging
    | (some line, fp) =>
      if paging.count ≥ 4 then some paging
      else if lineNo + 1 > linesAlrRead ∧ paging.count < 3 then
        (pageLine frameSize varMemSize filename removeto (strdup line) paging).bind fun paging =>
          pageLoop removeto linesAlrRead fuel fp (lineNo + 1) paging
      else if paging.count ≥ 3 then some paging
      else pageLoop removeto linesAlrRead fuel fp (lineNo + 1) paging

end LoadPage

/-- What is left of the entry of a page that was freed. -/
def Pcb.resetPage (entry : Fin 30) (pcb : Pcb) : Pcb :=
  { pcb with pt := pcb.pt.set entry { pcb.pt.get entry with start := 0, endAt := 0, executed := false, lastUsed := 0 } }

/-- The first entry that is not loaded. -/
def Pcb.freeEntry (pcb : Pcb) : Option (Fin 30) := (List.finRange 30).find? fun k => !(pcb.pt.get k).loaded

def Pcb.fillEntry (entry : Fin 30) (start endAt : Int) (pcb : Pcb) : Pcb :=
  { pcb with
    pt := pcb.pt.set entry { pcb.pt.get entry with start, endAt, loaded := true }
    tempSize := pcb.tempSize + 1
    pc := start
    endAt }

/-- The entry that was filled, where the lines are, and what the page starts and ends with. -/
structure PageResult where
  entry : Fin 30
  placed : List (Option Nat)
  system : System

section LoadPage
variable (frameSize varMemSize : Nat) (file : ProgramFile) (recentsize node : Nat) (lastused : PageRef)

/-- The entry of the page is filled, from what the loop leaves. -/
def finishPage (system : System) (paging : Paging) : Option PageResult :=
  let queue := if paging.freed = true then
    system.queue.setPcb lastused.node ((system.queue.pcb lastused.node).resetPage lastused.entry) else system.queue
  (queue.pcb node).freeEntry.bind fun entry =>
    (if paging.freed = true then some paging.removefrom else paging.index.map Int.ofNat).map fun endAt =>
      { entry
        placed := paging.placed
        system := ⟨queue.setPcb node ((queue.pcb node).fillEntry entry (endAt - paging.count + 1) endAt), paging.memory⟩ }

/-- The file is the one that the process is named after; `finalsize` is not read. -/
def loadPage (system : System) : Option PageResult :=
  let victim := (system.queue.pcb lastused.node).pt.get lastused.entry
  (pageLoop frameSize varMemSize (system.queue.pcb node).filename victim.endAt (recentsize * 3) (file.bytes.length + 1) file.opened 0
    ⟨system.memory, 0, none, false, victim.start, []⟩).bind (finishPage node lastused system)

end LoadPage

section Lines
variable {frameSize varMemSize fuel linesAlrRead lineNo : Nat} {filename line : CString} {removeto removefrom : Int} {lines : List CString}
  {fp : Stream} {ended : Bool} {paging after : Paging} {index slot : Nat} {memory : ShellMemory}

/-- The lines are stored one after the other. -/
def pageLines (frameSize varMemSize : Nat) (filename : CString) (removeto : Int) : List CString → Paging → Option Paging
  | [], paging => some paging
  | line :: rest, paging => (pageLine frameSize varMemSize filename removeto line paging).bind (pageLines frameSize varMemSize filename removeto rest)

theorem storeLine_some (stored : storeLine frameSize varMemSize filename line index removefrom paging = some after) :
    ∃ found, getIndex frameSize line (memSetLine frameSize varMemSize filename line index paging.memory).2 = some found ∧
      after = { paging with
        memory := (memSetLine frameSize varMemSize filename line index paging.memory).2, count := paging.count + 1, index := some found
        removefrom, placed := paging.placed ++ [(memSetLine frameSize varMemSize filename line index paging.memory).1] } := by
  obtain ⟨found, search, same⟩ := Option.map_eq_some_iff.mp stored
  exact ⟨found, search, same.symm⟩

theorem freeVictim_count : (freeVictim frameSize varMemSize removeto paging).count = paging.count ∧
    (freeVictim frameSize varMemSize removeto paging).placed = paging.placed := by
  unfold freeVictim
  split <;> exact ⟨rfl, rfl⟩

theorem pageLine_count (ran : pageLine frameSize varMemSize filename removeto line paging = some after) :
    after.count = paging.count + 1 ∧ ∃ slot, after.placed = paging.placed ++ [slot] := by
  obtain ⟨count, placed⟩ := @freeVictim_count frameSize varMemSize removeto paging
  have stores {index : Nat} {removefrom : Int}
      (stored : storeLine frameSize varMemSize filename line index removefrom (freeVictim frameSize varMemSize removeto paging) = some after) :
      after.count = paging.count + 1 ∧ ∃ slot, after.placed = paging.placed ++ [slot] := by
    obtain ⟨found, _, rfl⟩ := storeLine_some stored
    rw [← count, ← placed]
    exact ⟨rfl, _, rfl⟩
  unfold pageLine at ran
  dsimp only at ran
  split at ran
  · split at ran
    · cases ran
    · exact stores ran
  · obtain ⟨index, _, stored⟩ := Option.bind_eq_some_iff.mp ran
    exact stores stored

theorem pageLoop_eq (gives : Gives ended lines fp) (text : ∀ line ∈ lines, 0 ∉ line) (enough : lines.length < fuel) (few : paging.count ≤ 3)
    (skips : lineNo < linesAlrRead → paging.count = 0) :
    pageLoop frameSize varMemSize filename removeto linesAlrRead fuel fp lineNo paging =
      pageLines frameSize varMemSize filename removeto ((lines.drop (linesAlrRead - lineNo)).take (3 - paging.count)) paging := by
  induction lines generalizing fuel fp lineNo paging with
  | nil =>
    obtain ⟨fuel, rfl⟩ := Nat.exists_eq_succ_of_ne_zero (Nat.ne_of_gt enough)
    rw [pageLoop, fgets_end gives, List.drop_nil, List.take_nil]
    rfl
  | cons line left ih =>
    obtain ⟨fuel, rfl⟩ := Nat.exists_eq_succ_of_ne_zero (Nat.ne_of_gt (Nat.zero_lt_of_lt enough))
    obtain ⟨fp', read, _, gives'⟩ := gives
    have less := Nat.lt_of_succ_lt_succ enough
    have whole : strdup line = line := strdup_whole (text line List.mem_cons_self)
    have text' : ∀ line ∈ left, 0 ∉ line := fun line member => text line (List.mem_cons_of_mem _ member)
    rw [pageLoop, read]
    dsimp only
    rw [if_neg (by omega), whole]
    by_cases new : lineNo + 1 > linesAlrRead ∧ paging.count < 3
    · obtain ⟨first, room⟩ := new
      have one : 3 - paging.count = 3 - (paging.count + 1) + 1 := by omega
      have none : linesAlrRead - lineNo = 0 := by omega
      rw [if_pos ⟨first, room⟩, none, List.drop_zero, one, List.take_succ_cons, pageLines]
      cases ran : pageLine frameSize varMemSize filename removeto line paging with
      | none => rfl
      | some after =>
        have count := (pageLine_count ran).1
        have none : linesAlrRead - (lineNo + 1) = 0 := by omega
        rw [Option.bind_some, Option.bind_some, ih gives' text' less (by omega) (by omega), none, List.drop_zero, count]
    · rw [if_neg new]
      by_cases full : paging.count ≥ 3
      · have none : 3 - paging.count = 0 := by omega
        rw [if_pos full, none, List.take_zero]
        rfl
      · have skip : linesAlrRead - lineNo = linesAlrRead - (lineNo + 1) + 1 := by omega
        rw [if_neg full, ih gives' text' less few (fun _ => skips (by omega)), skip, List.drop_succ_cons]

end Lines

section Entries
variable {queue : ReadyQueue} {pcb : Pcb} {node : Nat} {entry : Fin 30} {page : Page} {ref : PageRef}

theorem page_self (same : pcb.pt = (queue.pcb node).pt.set entry page) : (queue.setPcb node pcb).page ⟨node, entry⟩ = page := by
  rw [ReadyQueue.page, ReadyQueue.setPcb_self, same]
  exact Vector.getElem_set_self entry.isLt

theorem page_other (same : pcb.pt = (queue.pcb node).pt.set entry page) (differs : ref ≠ ⟨node, entry⟩) :
    (queue.setPcb node pcb).page ref = queue.page ref := by
  obtain ⟨other, k⟩ := ref
  by_cases here : other = node
  · subst other
    have apart : entry.val ≠ k.val := fun equal => differs (congrArg (PageRef.mk node) (Fin.ext equal.symm))
    rw [ReadyQueue.page, ReadyQueue.setPcb_self, same]
    exact Vector.getElem_set_ne entry.isLt k.isLt apart
  · rw [ReadyQueue.page, ReadyQueue.setPcb_other here]
    rfl

theorem freeEntry_some (found : pcb.freeEntry = some entry) : (pcb.pt.get entry).loaded = false := by
  have free := List.find?_some found
  rw [Bool.not_eq_true'] at free
  exact free

theorem freeEntry_exists : (∃ entry, pcb.freeEntry = some entry) ↔ ∃ k, (pcb.pt.get k).loaded = false := by
  constructor
  · rintro ⟨entry, found⟩
    exact ⟨entry, freeEntry_some found⟩
  · rintro ⟨k, free⟩
    rw [← Option.isSome_iff_exists, Pcb.freeEntry, List.find?_isSome]
    refine ⟨k, List.mem_finRange k, ?_⟩
    rw [free]
    rfl

end Entries

end Comp310.A2
