import Mathlib.Algebra.Ring.Nat
import Comp310.Kernel.Frames
import Comp310.Kernel.Scheduler
import Comp310.Kernel.Scripts

/-! What the kernel knows of scripts that it runs in turns: how far each of them is, and which of its pages have a frame. -/

namespace Comp310.Kernel
open Comp310.Lib

/-- A script that is run as a process. `count_lines` finds as many lines in the file as `fgets` does. -/
structure Script where
  pid : Nat
  lines : List (List UInt8)
  reads : Reads lines
  counted : countLines lines.flatten = lines.length

namespace Script

/-- A script without blank lines and without a newline at its end. -/
def plain (pid : Nat) (lines : List (List UInt8)) (filled : lines ≠ []) (plain : Plain lines) : Script where
  pid := pid
  lines := fileLines lines
  reads := plain.reads
  counted := countLines_fileOf plain filled

def file (script : Script) : List UInt8 := script.lines.flatten

def texts (script : Script) : List CString := script.lines.map strdup

def size (script : Script) : Nat := script.lines.length

def pages (script : Script) : Nat := pageTableSize script.size

theorem count (script : Script) : countLines script.file = script.size := script.counted

theorem size_pos (script : Script) : 0 < script.size := by
  rw [← script.count, countLines]
  exact Nat.succ_pos _

/-- The page bears its lines of the script. -/
def Bears (script : Script) (j : Nat) (page : Page) (memory : ShellMemory) : Prop :=
  ∀ (k : Fin 3) text, script.texts[3 * j + k]? = some text → page.validBit.get k = true ∧ (memory (page.start + k)).value = text

end Script

/-- The process has run so many lines, and so many of its pages were loaded. -/
structure Progress (script : Script) (ran loaded : Nat) (pcb : Pcb) : Prop where
  pid : pcb.pid = script.pid
  size : pcb.size = (script.size : Int) - ran
  counters : pcb.programCounter = (List.range script.pages).map fun j => min 3 (ran - 3 * j)
  pages : pcb.pageTable.length = script.pages
  named : ∀ (j : Nat) (page : Page), pcb.pageTable[j]? = some page → page.pagePid = script.pid ∧ page.pageIndex = j
  unread : pcb.sourceFile = (script.lines.drop (3 * loaded)).flatten
  unloaded : ∀ (j : Nat) (page : Page), loaded ≤ j → pcb.pageTable[j]? = some page → page.validBit = .replicate 3 false

def Processes.page? (system : Processes) (entry : Nat × Nat) : Option Page := (system.pcb? entry.1).bind fun pcb => pcb.pageTable[entry.2]?

def Processes.pageAt (system : Processes) (entry : Nat × Nat) : Page := (system.page? entry).getD (pageInit entry.1 entry.2)

/-- How many pages were loaded in all. -/
def total (scripts : List Script) (loaded : Nat → Nat) : Nat := (scripts.map fun script => loaded script.pid).sum

/-- The kernel has these processes. The pages with a frame are those in the LRU cache, and a page that was loaded is there
while a line of it is still to be run. -/
structure Shows {ω : Type} (border : Nat) (scripts : List Script) (ran loaded : Nat → Nat) (kernel : KernelState ω) : Prop where
  all : kernel.allPcb = scripts.map Script.pid
  once : (scripts.map Script.pid).Nodup
  procs : ∀ script ∈ scripts, ∃ pcb, kernel.system.pcb? script.pid = some pcb ∧ Progress script (ran script.pid) (loaded script.pid) pcb
  few : ∀ script ∈ scripts, loaded script.pid ≤ script.pages
  frames : Frames border kernel.system.memory (kernel.lruCache.map kernel.system.pageAt)
  compact : ∀ entry ∈ kernel.lruCache, (kernel.system.pageAt entry).start < 3 * total scripts loaded
  listed : ∀ entry ∈ kernel.lruCache, ∃ script ∈ scripts, script.pid = entry.1 ∧ entry.2 < loaded script.pid
  borne : ∀ script ∈ scripts, ∀ j, (script.pid, j) ∈ kernel.lruCache →
    script.Bears j (kernel.system.pageAt (script.pid, j)) kernel.system.memory
  needed : ∀ script ∈ scripts, ∀ j < loaded script.pid, ran script.pid < min script.size (3 * j + 3) → (script.pid, j) ∈ kernel.lruCache
  gone : ∀ script ∈ scripts, ∀ j < loaded script.pid, (script.pid, j) ∉ kernel.lruCache →
    (kernel.system.pageAt (script.pid, j)).index = .replicate 3 0

variable {border varStoreSize start pid i : Nat} {script : Script} {scripts : List Script} {ran loaded : Nat → Nat} {ω : Type} {kernel : KernelState ω}
  {pcb pcb' : Pcb} {page page' : Page} {pages : List Page} {memory memory' : ShellMemory} {system : Processes} {entry : Nat × Nat}
  {label : CString} {lines : List (List UInt8)} {file file' : List UInt8}

theorem lt_pages {count : Nat} (more : count < script.size) : count / 3 < script.pages := by
  rw [Script.pages, pageTableSize]
  split <;> omega

section Lookups

theorem getPcb_run (found : kernel.system.pcb? pid = some pcb) : getPcb pid kernel = some (pcb, kernel) := by
  rw [getPcb, found]
  rfl

theorem getPage_run (found : kernel.system.page? (pid, i) = some page) : getPage pid i kernel = some (page, kernel) := by
  obtain ⟨pcb, found, there⟩ := Option.bind_eq_some_iff.mp found
  rw [getPage, run_bind (getPcb_run found), there]
  rfl

theorem perform_run {call : Call} (taken : call.take border varStoreSize kernel.system = some system) :
    perform border varStoreSize call kernel = some (⟨⟩, { kernel with system }) := by
  rw [perform, taken]
  rfl

theorem queueDone_same {pids : List Nat} {done : Bool} {kernel' : KernelState ω} (ran : queueDone pids kernel = some (done, kernel')) :
    kernel' = kernel := by
  induction pids with
  | nil =>
    cases ran
    rfl
  | cons pid rest ih =>
    obtain ⟨pcb, _, got, ran⟩ := bind_some ran
    obtain ⟨_, _, same⟩ := Option.map_eq_some_iff.mp got
    cases same
    split at ran
    · exact ih ran
    · cases ran
      rfl

theorem page?_eq (found : system.pcb? pid = some pcb) : system.page? (pid, i) = pcb.pageTable[i]? := by
  rw [Processes.page?, found]
  rfl

theorem page?_put (found : system.pcb? pid = some pcb) (inside : i < pcb.pageTable.length)
    (pages : pcb'.pageTable = pcb.pageTable.set i page') (entry : Nat × Nat) :
    (system.put pid pcb' memory).page? entry = if entry = (pid, i) then some page' else system.page? entry := by
  obtain ⟨other, j⟩ := entry
  rw [Processes.page?, Processes.page?, put_pcb? found]
  by_cases mine : other = pid
  · subst mine
    rw [if_pos rfl, Option.bind_some, pages, List.getElem?_set, found, Option.bind_some]
    by_cases this : i = j
    · subst this
      rw [if_pos rfl, if_pos inside, if_pos rfl]
    · rw [if_neg this, if_neg fun same => this (Prod.mk.inj same).2.symm]
  · rw [if_neg mine, if_neg fun same => mine (Prod.mk.inj same).1]

theorem page?_put_same (found : system.pcb? pid = some pcb) (pages : pcb'.pageTable = pcb.pageTable) (entry : Nat × Nat) :
    (system.put pid pcb' memory).page? entry = system.page? entry := by
  rw [Processes.page?, Processes.page?, put_pcb? found]
  split
  next same => rw [same, found, Option.bind_some, Option.bind_some, pages]
  next => rfl

theorem pageAt_eq (found : system.page? entry = some page) : system.pageAt entry = page := by
  rw [Processes.pageAt, found]
  rfl

theorem Progress.there {done loaded : Nat} (progress : Progress script done loaded pcb) (inside : i < script.pages) :
    ∃ page, pcb.pageTable[i]? = some page ∧ page.pagePid = script.pid ∧ page.pageIndex = i := by
  rw [← progress.pages] at inside
  exact ⟨_, List.getElem?_eq_getElem inside, progress.named i _ (List.getElem?_eq_getElem inside)⟩

/-- The page and the place in it from which the next line is run. -/
theorem Progress.next {done loaded : Nat} (progress : Progress script done loaded pcb) (more : done < script.size) :
    pcb.programCounter.findIdx (· != 3) = done / 3 ∧ pcb.programCounter[done / 3]? = some (done % 3) := by
  have inside := lt_pages more
  have counter (j : Nat) (small : j < script.pages) : pcb.programCounter[j]? = some (min 3 (done - 3 * j)) := by
    rw [progress.counters, List.getElem?_map, List.getElem?_range small]
    rfl
  have length : pcb.programCounter.length = script.pages := by
    rw [progress.counters, List.length_map, List.length_range]
  have here : pcb.programCounter[done / 3]? = some (done % 3) := by
    rw [counter _ inside]
    congr 1
    omega
  refine ⟨(List.findIdx_eq (length ▸ inside)).mpr ⟨?_, fun j before => ?_⟩, here⟩
  · have value := (List.getElem?_eq_some_iff.mp here).2
    rw [value]
    have small := Nat.mod_lt done (show 0 < 3 by decide)
    exact bne_iff_ne.mpr (Nat.ne_of_lt small)
  · have value := (List.getElem?_eq_some_iff.mp (counter j (Nat.lt_trans before inside))).2
    rw [value]
    have full : min 3 (done - 3 * j) = 3 := by omega
    rw [full]
    rfl

end Lookups

section Loading

theorem frame_get (start : Nat) (k : Fin 3) : #v[start, start + 1, start + 2].get k = start + k := by
  rcases k with ⟨_ | _ | _ | k, small⟩
  · rfl
  · rfl
  · rfl
  · omega

theorem loadLines_frames (slots : List (Fin 3)) (kept : Frames border memory (page :: pages))
    (read : loadLines (decimal page.pagePid) slots page file memory = (page', file', memory')) : Frames border memory' (page' :: pages) := by
  induction slots generalizing page file memory with
  | nil =>
    cases read
    exact kept
  | cons j rest ih =>
    rw [loadLines] at read
    split at read
    · cases read
      exact kept
    · have front : Frames border memory ([] ++ page :: pages) := kept
      exact ih (front.line j _) read

variable (page memory label) in
theorem loadLines_texts (slots : List (Fin 3)) (once : slots.Nodup) (frame : page.index = #v[start, start + 1, start + 2]) (reads : Reads lines) :
    ∃ page' memory', loadLines label slots page lines.flatten memory = (page', (lines.drop slots.length).flatten, memory') ∧
      page'.pagePid = page.pagePid ∧ page'.pageIndex = page.pageIndex ∧
      (∀ j, j ∉ slots → page'.validBit.get j = page.validBit.get j ∧ memory' (start + j) = memory (start + j)) ∧
      ∀ j text, (j, text) ∈ slots.zip lines → page'.validBit.get j = true ∧ (memory' (start + j)).value = strdup text := by
  induction slots generalizing page memory lines with
  | nil => exact ⟨page, memory, rfl, rfl, rfl, fun _ _ => ⟨rfl, rfl⟩, fun j text member => absurd member List.not_mem_nil⟩
  | cons j rest ih =>
    obtain ⟨fresh, once⟩ := List.nodup_cons.mp once
    cases lines with
    | nil =>
      exact ⟨page, memory, by rw [loadLines, fgets_end, List.drop_nil], rfl, rfl, fun _ _ => ⟨rfl, rfl⟩,
        fun j text member => absurd member List.not_mem_nil⟩
    | cons line later =>
      obtain ⟨read, reads⟩ := reads
      have slot (k : Fin 3) : page.index.get k = start + k := by
        rw [frame]
        exact frame_get start k
      obtain ⟨page', memory', ran, pid, number, others, placed⟩ := ih { page with validBit := page.validBit.set j true }
        (memSetValueAt page.index[j] label line memory) once frame reads
      have bit (k : Fin 3) : (page.validBit.set j true).get k = if j = k then true else page.validBit.get k := by
        simp only [Fin.ext_iff]
        exact Vector.getElem_set j.isLt k.isLt
      refine ⟨page', memory', ?_, pid, number, fun k outside => ?_, fun k text' member => ?_⟩
      · rw [List.flatten_cons, loadLines, read]
        exact ran
      · rw [List.mem_cons, not_or] at outside
        obtain ⟨same, kept⟩ := others k outside.2
        rw [same, kept, bit, if_neg (Ne.symm outside.1)]
        refine ⟨rfl, memPut_other ?_⟩
        have place := slot j
        have differs := Fin.val_ne_of_ne outside.1
        change page.index[j] = start + j at place
        omega
      · rw [List.zip_cons_cons, List.mem_cons] at member
        rcases member with first | member
        · obtain ⟨rfl, rfl⟩ := Prod.mk.inj first
          obtain ⟨same, kept⟩ := others k fresh
          rw [same, kept, bit, if_pos rfl]
          refine ⟨rfl, ?_⟩
          rw [← slot k]
          exact congrArg MemoryStruct.value memPut_self
        · exact placed k text' member

/-- What becomes of a process when a page of it is loaded. -/
structure PageRead (lines : List (List UInt8)) (i : Nat) (pcb pcb' : Pcb) (page' : Page) : Prop where
  pid : pcb'.pid = pcb.pid
  size : pcb'.size = pcb.size
  counters : pcb'.programCounter = pcb.programCounter
  pages : pcb'.pageTable = pcb.pageTable.set i page'
  unread : pcb'.sourceFile = (lines.drop 3).flatten

/-- The page gets a frame and its lines, the next three of the file. -/
theorem loadPage_run {marked : ShellMemory} (kept : Frames border memory pages)
    (found : frameAlloc border (decimal pcb.pid) memory = some (start, marked)) (same : page.pagePid = pcb.pid)
    (unread : pcb.sourceFile = lines.flatten) (reads : Reads lines) :
    ∃ pcb' page' memory', loadPage border i pcb page memory = some (pcb', memory') ∧ PageRead lines i pcb pcb' page' ∧
      page'.index = #v[start, start + 1, start + 2] ∧ page'.pagePid = page.pagePid ∧ page'.pageIndex = page.pageIndex ∧
      Frames border memory' (page' :: pages) ∧ (∀ slot, slot ∉ page'.index → memory' slot = memory slot) ∧
      ∀ (k : Fin 3) text, lines[k.val]? = some text → page'.validBit.get k = true ∧ (memory' (start + k)).value = strdup text := by
  rw [← same] at found
  have allocated := kept.alloc page found
  obtain ⟨_, labels⟩ := frameAlloc_some found
  obtain ⟨page', memory', read, pid, number, -, placed⟩ := loadLines_texts
    { page with index := #v[start, start + 1, start + 2], validBit := .replicate 3 false } marked (decimal page.pagePid) [0, 1, 2] (by decide) rfl reads
  obtain ⟨index, others, -⟩ := loadLines_spec _ read
  have frame : page'.index = #v[start, start + 1, start + 2] := index
  refine ⟨{ pcb with pageTable := pcb.pageTable.set i page', sourceFile := (lines.drop 3).flatten }, page', memory', ?_, ⟨rfl, rfl, rfl, rfl, rfl⟩,
    frame, pid, number, loadLines_frames [0, 1, 2] allocated read, fun slot outside => ?_, fun k text there => ?_⟩
  · rw [loadPage, ← same, found, unread, Option.bind_eq_bind, Option.bind_some]
    dsimp only
    rw [read]
    rfl
  · rw [frame, mem_frame] at outside
    have untouched := others slot fun inside => outside (mem_frame.mp inside)
    rw [untouched, labels slot, if_neg outside]
  · apply placed
    obtain ⟨inside, value⟩ := List.getElem?_eq_some_iff.mp there
    refine List.mem_iff_getElem?.mpr ⟨k, ?_⟩
    rw [List.getElem?_zip_eq_some]
    refine ⟨?_, there⟩
    rcases k with ⟨_ | _ | _ | k, small⟩
    · rfl
    · rfl
    · rfl
    · omega

theorem Progress.load {done loaded : Nat} (progress : Progress script done loaded pcb)
    (read : PageRead (script.lines.drop (3 * loaded)) loaded pcb pcb' page') (named : page'.pagePid = script.pid ∧ page'.pageIndex = loaded) :
    Progress script done (loaded + 1) pcb' := by
  obtain ⟨pid, size, counters, pages, unread⟩ := read
  have entries (j : Nat) (found : Page) (there : pcb'.pageTable[j]? = some found) : j = loaded ∧ found = page' ∨ j ≠ loaded ∧ pcb.pageTable[j]? = some found := by
    rw [pages, List.getElem?_set] at there
    split at there
    next here =>
      split at there
      · exact .inl ⟨here.symm, (Option.some.inj there).symm⟩
      · cases there
    next other => exact .inr ⟨Ne.symm other, there⟩
  refine ⟨pid.trans progress.pid, size.trans progress.size, counters.trans progress.counters, ?_, fun j found there => ?_, ?_,
    fun j found later there => ?_⟩
  · rw [pages, List.length_set, progress.pages]
  · rcases entries j found there with ⟨rfl, rfl⟩ | ⟨_, before⟩
    · exact named
    · exact progress.named j found before
  · rw [unread, List.drop_drop, Nat.mul_succ]
  · rcases entries j found there with ⟨rfl, rfl⟩ | ⟨_, before⟩
    · omega
    · exact progress.unloaded j found (Nat.le_of_succ_le later) before

theorem Script.bears_of {j : Nat} (starts : page.start = start)
    (placed : ∀ (k : Fin 3) text, (script.lines.drop (3 * j))[k.val]? = some text →
      page.validBit.get k = true ∧ (memory (start + k)).value = strdup text) : script.Bears j page memory := by
  intro k text there
  rw [Script.texts, List.getElem?_map, Option.map_eq_some_iff] at there
  obtain ⟨raw, there, rfl⟩ := there
  rw [starts]
  apply placed k raw
  rwa [List.getElem?_drop]

end Loading

section Totals

theorem pid_unique (once : (scripts.map Script.pid).Nodup) (member : script ∈ scripts) {other : Script} (member' : other ∈ scripts)
    (same : other.pid = script.pid) : other = script := unique_key once member' member same

theorem total_other (count : Nat) (absent : ∀ script ∈ scripts, script.pid ≠ pid) :
    total scripts (Function.update loaded pid count) = total scripts loaded := by
  refine congrArg List.sum (List.map_congr_left fun script member => ?_)
  exact Function.update_of_ne (absent script member) ..

theorem total_more (once : (scripts.map Script.pid).Nodup) (member : script ∈ scripts) :
    total scripts (Function.update loaded script.pid (loaded script.pid + 1)) = total scripts loaded + 1 := by
  induction scripts with
  | nil => cases member
  | cons first rest ih =>
    obtain ⟨apart, once⟩ := List.nodup_cons.mp once
    have split (loaded : Nat → Nat) : total (first :: rest) loaded = loaded first.pid + total rest loaded := rfl
    rw [split, split]
    rcases List.mem_cons.mp member with rfl | later
    · rw [Function.update_self, total_other _ fun other member same => apart (List.mem_map.mpr ⟨other, member, same⟩)]
      omega
    · have differs : first.pid ≠ script.pid := fun same => apart (same ▸ List.mem_map_of_mem later)
      rw [Function.update_of_ne differs, ih once later, Nat.add_assoc]

end Totals

end Comp310.Kernel
