import Comp310.Kernel.Frames

/-! The frame allocator. It looks for three free slots from every slot on, and yet its frames start at multiples of three,
so that evictions leave no gap that is too small. -/

namespace Comp310.Proofs.FrameStore
open Comp310.Kernel Comp310.Lib

/-- The memory with the pages that have a frame, as frame_alloc, the loading of lines and PAGE_evict leave them from
mem_init on. A frame_alloc that fails changes nothing. -/
inductive Outstanding (border : Nat) : ShellMemory → List Page → Prop where
  | init : Outstanding border memInit []
  | alloc (before : Outstanding border memory pages) (page : Page)
      (ran : frameAlloc border (decimal page.pagePid) memory = some (start, memory')) :
      Outstanding border memory' ({ page with index := #v[start, start + 1, start + 2], validBit := .replicate 3 false } :: pages)
  | line (before : Outstanding border memory (front ++ page :: rest)) (j : Fin 3) (text : List UInt8) :
      Outstanding border (memSetValueAt (page.index.get j) (decimal page.pagePid) text memory)
        (front ++ { page with validBit := page.validBit.set j true j.isLt } :: rest)
  | evict (before : Outstanding border memory (front ++ page :: rest)) :
      Outstanding border (pageEvict page memory).2 (front ++ rest)

variable {border start slot i : Nat} {memory memory' : ShellMemory} {page : Page} {pages front rest : List Page} {pcb pcb' : Pcb}

section Loading

private theorem loadLines_outstanding {file file' : List UInt8} {page' : Page} (slots : List (Fin 3))
    (run : Outstanding border memory (page :: pages))
    (read : loadLines (decimal page.pagePid) slots page file memory = (page', file', memory')) :
    Outstanding border memory' (page' :: pages) := by
  induction slots generalizing page file memory with
  | nil =>
    cases read
    exact run
  | cons j rest ih =>
    rw [loadLines] at read
    split at read
    · cases read
      exact run
    · exact ih (@Outstanding.line border memory [] page pages run j _) read

/-- load_PAGE is an allocation with the lines that it reads. -/
theorem loadPage_outstanding (run : Outstanding border memory pages) (same : page.pagePid = pcb.pid)
    (ran : loadPage border i pcb page memory = some (pcb', memory')) :
    ∃ page', pcb'.pageTable = pcb.pageTable.set i page' ∧ Outstanding border memory' (page' :: pages) := by
  obtain ⟨⟨start, marked⟩, found, ran⟩ := Option.bind_eq_some_iff.mp ran
  rw [← same] at found ran
  have allocated := run.alloc page found
  dsimp only at ran
  generalize read : loadLines (decimal page.pagePid) [0, 1, 2] { page with index := #v[start, start + 1, start + 2], validBit := .replicate 3 false }
    pcb.sourceFile marked = result at ran
  obtain ⟨page', file, final⟩ := result
  cases ran
  exact ⟨page', rfl, loadLines_outstanding _ allocated read⟩

end Loading

/-- Every page has three slots in a row from a multiple of three on, with its process id, and all other slots are free. -/
structure Framed (border : Nat) (memory : ShellMemory) (pages : List Page) : Prop where
  frames : ∀ page ∈ pages, page.index = #v[page.start, page.start + 1, page.start + 2]
  inside : ∀ page ∈ pages, page.start + 3 ≤ border
  aligned : ∀ page ∈ pages, page.start % 3 = 0
  apart : pages.Pairwise fun first second => ∀ slot ∈ first.index, slot ∉ second.index
  labels : ∀ page ∈ pages, ∀ slot ∈ page.index, (memory slot).var = decimal page.pagePid
  free : ∀ slot < border, (∀ page ∈ pages, slot ∉ page.index) → memory slot = blank

private theorem frames (run : Outstanding border memory pages) : Frames border memory pages := by
  induction run with
  | init => exact ⟨.nil fun _ _ label => label rfl, fun _ => nofun, fun _ => nofun, fun _ _ _ => rfl⟩
  | alloc _ page ran ih => exact ih.alloc page ran
  | line _ j text ih => exact ih.line j text
  | evict _ ih => exact ih.evict

private theorem framed (run : Outstanding border memory pages) : Framed border memory pages := by
  obtain ⟨tiled, frames, labels, clean⟩ := frames run
  have place (page : Page) (member : page ∈ pages) (slot : Nat) : slot ∈ page.index ↔ page.start ≤ slot ∧ slot < page.start + 3 := by
    rw [frames page member]
    exact mem_frame
  refine ⟨frames, fun page member => tiled.inside _ (List.mem_map_of_mem member), fun page member => tiled.aligned _ (List.mem_map_of_mem member),
    ?_, labels, fun slot inside outside => clean slot inside ?_⟩
  · have once := List.pairwise_map.mp tiled.once
    refine once.imp_of_mem fun {first second} member member' differs slot mine yours => differs ?_
    obtain ⟨low, high⟩ := (place first member slot).mp mine
    obtain ⟨low', high'⟩ := (place second member' slot).mp yours
    have aligned := tiled.aligned _ (List.mem_map_of_mem member)
    have aligned' := tiled.aligned _ (List.mem_map_of_mem member')
    omega
  · by_contra label
    obtain ⟨_, block, low, high⟩ := (tiled.cells slot inside).mp label
    obtain ⟨page, member, rfl⟩ := List.mem_map.mp block
    exact outside page member ((place page member slot).mpr ⟨low, high⟩)

/-- In every run the frames are apart and aligned, and an allocation fails just when all frames are outstanding. -/
theorem never_fragments (run : Outstanding border memory pages) :
    Framed border memory pages ∧ ∀ pid, frameAlloc border (decimal pid) memory = none ↔ pages.length = border / 3 :=
  ⟨framed run, fun pid => (frames run).full_iff (decimal pid)⟩

/-- In seven slots there is room for two frames. -/
theorem never_fragments_seven : ∃ memory first second, Outstanding 7 memory [second, first] ∧ Framed 7 memory [second, first] ∧
    frameAlloc 7 (decimal 3) memory = none := by
  have found {memory : ShellMemory} {pages : List Page} (run : Outstanding 7 memory pages) (few : pages.length ≠ 2) (page : Page) :
      ∃ memory' page', Outstanding 7 memory' (page' :: pages) := by
    cases ran : frameAlloc 7 (decimal page.pagePid) memory with
    | none => exact absurd (((never_fragments run).2 page.pagePid).mp ran) few
    | some result => exact ⟨_, _, run.alloc page ran⟩
  obtain ⟨memory₁, first, run₁⟩ := found .init (by decide) (pageInit 1 0)
  obtain ⟨memory₂, second, run₂⟩ := found run₁ (by simp) (pageInit 2 0)
  obtain ⟨framed, full⟩ := never_fragments run₂
  exact ⟨memory₂, first, second, run₂, framed, (full 3).mpr rfl⟩

end Comp310.Proofs.FrameStore
