import Comp310.Kernel.Pcb
import Comp310.Lib.FirstFit

/-! The frame store as the pages that have a frame in it. -/

namespace Comp310.Kernel
open Comp310.Lib

variable {border start slot i : Nat} {memory memory' : ShellMemory} {page page' : Page} {pages front rest : List Page}

def Taken (memory : ShellMemory) (slot : Nat) : Prop := (memory slot).var ≠ noneText

theorem room_iff : Room 3 border (Taken memory) start ↔ frameFree border memory start = true := by
  rw [frameFree_iff, Room]
  simp only [Taken, not_not]

/-- The labelled slots are those of the pages, and the rest of the frame store is blank. -/
structure Frames (border : Nat) (memory : ShellMemory) (pages : List Page) : Prop where
  tiled : Tiled 3 border (Taken memory) (pages.map Page.start)
  frames : ∀ page ∈ pages, page.index = #v[page.start, page.start + 1, page.start + 2]
  labels : ∀ page ∈ pages, ∀ slot ∈ page.index, (memory slot).var = decimal page.pagePid
  clean : ∀ slot < border, (memory slot).var = noneText → memory slot = blank

theorem Frames.alloc (kept : Frames border memory pages) (page : Page)
    (ran : frameAlloc border (decimal page.pagePid) memory = some (start, memory')) :
    Frames border memory' ({ page with index := #v[start, start + 1, start + 2], validBit := .replicate 3 false } :: pages) := by
  obtain ⟨free, labels⟩ := frameAlloc_some ran
  have room : Room 3 border (Taken memory) start := room_iff.mpr free
  have aligned : start % 3 = 0 := kept.tiled.least_aligned (by decide) room fun earlier before => by
    rw [room_iff, frameAlloc_first ran earlier before]
    exact Bool.false_ne_true
  have named : decimal page.pagePid ≠ noneText := decimal_ne_none
  have cells (slot : Nat) : Taken memory' slot ↔ Taken memory slot ∨ start ≤ slot ∧ slot < start + 3 := by
    unfold Taken
    rw [labels slot]
    split
    next inside => exact iff_of_true named (.inr inside)
    next outside => exact (or_iff_left outside).symm
  -- the slots of the other pages have labels already
  have others (other : Page) (member : other ∈ pages) (slot : Nat) (mine : slot ∈ other.index) : memory' slot = memory slot := by
    rw [labels slot, if_neg]
    intro inside
    have taken : Taken memory slot := by
      unfold Taken
      rw [kept.labels other member slot mine]
      exact decimal_ne_none
    have k := room.2 (slot - start) (by omega)
    rw [show start + (slot - start) = slot by omega] at k
    exact k taken
  refine ⟨kept.tiled.put (by decide) aligned room fun slot _ => cells slot, ?_, ?_, fun slot inside unlabelled => ?_⟩
  · exact List.forall_mem_cons.mpr ⟨rfl, kept.frames⟩
  · refine List.forall_mem_cons.mpr ⟨fun slot mine => ?_, fun other member slot mine => ?_⟩
    · rw [labels slot, if_pos (mem_frame.mp mine)]
    · rw [others other member slot mine]
      exact kept.labels other member slot mine
  · have untaken : ¬ Taken memory' slot := not_not.mpr unlabelled
    rw [cells, not_or] at untaken
    rw [labels slot, if_neg untaken.2]
    exact kept.clean slot inside (not_not.mp untaken.1)

theorem Frames.line (kept : Frames border memory (front ++ page :: rest)) (j : Fin 3) (text : List UInt8) :
    Frames border (memSetValueAt (page.index.get j) (decimal page.pagePid) text memory)
      (front ++ { page with validBit := page.validBit.set j true j.isLt } :: rest) := by
  have label := kept.labels page List.mem_append_cons_self (page.index.get j) (Vector.getElem_mem j.isLt)
  -- the slot is labelled as it is
  have vars (slot : Nat) : (memSetValueAt (page.index.get j) (decimal page.pagePid) text memory slot).var = (memory slot).var := by
    by_cases same : slot = page.index.get j
    · rw [same, memSetValueAt, memPut_self, label]
    · rw [memSetValueAt, memPut_other same]
  have taken : Taken (memSetValueAt (page.index.get j) (decimal page.pagePid) text memory) = Taken memory := by
    funext slot
    unfold Taken
    rw [vars]
  have pages {property : Page → Prop} (all : ∀ other ∈ front ++ page :: rest, property other)
      (mine : property page → property { page with validBit := page.validBit.set j true j.isLt }) :
      ∀ other ∈ front ++ { page with validBit := page.validBit.set j true j.isLt } :: rest, property other := by
    rw [List.forall_mem_append, List.forall_mem_cons] at all ⊢
    exact ⟨all.1, mine all.2.1, all.2.2⟩
  refine ⟨?_, pages kept.frames id, pages (fun other member slot mine => ?_) id, fun slot inside unlabelled => ?_⟩
  · rw [taken]
    have tiled := kept.tiled
    rw [List.map_append, List.map_cons] at tiled ⊢
    exact tiled
  · rw [vars]
    exact kept.labels other member slot mine
  · rw [vars] at unlabelled
    have other : slot ≠ page.index.get j := by
      intro same
      rw [same, label] at unlabelled
      exact decimal_ne_none unlabelled
    rw [memSetValueAt, memPut_other other]
    exact kept.clean slot inside unlabelled

theorem Frames.evict (kept : Frames border memory (front ++ page :: rest)) : Frames border (pageEvict page memory).2 (front ++ rest) := by
  have frame := kept.frames page List.mem_append_cons_self
  have mine (slot : Nat) : slot ∈ page.index ↔ page.start ≤ slot ∧ slot < page.start + 3 := by
    rw [frame]
    exact mem_frame
  obtain ⟨tiled, frames, labels, clean⟩ := kept
  rw [List.map_append, List.map_cons] at tiled
  rw [List.forall_mem_append, List.forall_mem_cons] at frames labels
  have cells (slot : Nat) : Taken (pageEvict page memory).2 slot ↔ Taken memory slot ∧ ¬ (page.start ≤ slot ∧ slot < page.start + 3) := by
    unfold Taken
    rw [← mine]
    by_cases inside : slot ∈ page.index
    · rw [(pageEvict_clears page memory slot).1 inside]
      exact iff_of_false (fun label => label rfl) fun both => both.2 inside
    · rw [(pageEvict_clears page memory slot).2 inside]
      exact (and_iff_left inside).symm
  have dropped := tiled.drop fun slot _ => cells slot
  rw [← List.map_append] at dropped
  have frames' : ∀ other ∈ front ++ rest, other.index = #v[other.start, other.start + 1, other.start + 2] :=
    List.forall_mem_append.mpr ⟨frames.1, frames.2.2⟩
  have labels' : ∀ other ∈ front ++ rest, ∀ slot ∈ other.index, (memory slot).var = decimal other.pagePid :=
    List.forall_mem_append.mpr ⟨labels.1, labels.2.2⟩
  refine ⟨dropped, frames', fun other member slot there => ?_, fun slot inside unlabelled => ?_⟩
  · -- the slot is in a block that is left, so not in the page
    have place : other.start ≤ slot ∧ slot < other.start + 3 := by
      rw [frames' other member] at there
      exact mem_frame.mp there
    have block := List.mem_map_of_mem member (f := Page.start)
    have inside := dropped.inside _ block
    have left := (cells slot).mp ((dropped.cells slot (by omega)).mpr ⟨_, block, place⟩)
    rw [← mine] at left
    rw [(pageEvict_clears page memory slot).2 left.2]
    exact labels' other member slot there
  · by_cases here : slot ∈ page.index
    · exact (pageEvict_clears page memory slot).1 here
    · have same := (pageEvict_clears page memory slot).2 here
      rw [same] at unlabelled ⊢
      exact clean slot inside unlabelled

theorem Frames.perm (kept : Frames border memory pages) {pages' : List Page} (same : pages.Perm pages') : Frames border memory pages' := by
  obtain ⟨tiled, frames, labels, clean⟩ := kept
  refine ⟨⟨fun start member => ?_, fun start member => ?_, (same.map _).nodup_iff.mp tiled.once, fun cell inside => ?_⟩, ?_, ?_, clean⟩
  · exact tiled.aligned start ((same.map _).mem_iff.mpr member)
  · exact tiled.inside start ((same.map _).mem_iff.mpr member)
  · rw [tiled.cells cell inside]
    simp only [(same.map Page.start).mem_iff]
  · exact fun page member => frames page (same.mem_iff.mpr member)
  · exact fun page member => labels page (same.mem_iff.mpr member)

theorem Frames.full_iff (kept : Frames border memory pages) (pid : CString) : frameAlloc border pid memory = none ↔ pages.length = border / 3 := by
  have full := kept.tiled.full_iff (by decide)
  rw [List.length_map] at full
  rw [frameAlloc_none, ← full]
  simp only [room_iff, Bool.not_eq_true]

theorem Frames.few (kept : Frames border memory pages) : pages.length ≤ border / 3 := by
  have few := kept.tiled.few (by decide)
  rwa [List.length_map] at few

/-- What the slots of a page have is not in those of another. -/
theorem Frames.apart (kept : Frames border memory (page :: pages)) {other : Page} (member : other ∈ pages) (mine : slot ∈ page.index) :
    slot ∉ other.index := by
  intro yours
  obtain ⟨aligned, _, once, _⟩ := kept.tiled
  have differs : page.start ≠ other.start := by
    intro same
    rw [List.map_cons, List.nodup_cons] at once
    exact once.1 (same ▸ List.mem_map_of_mem member)
  rw [kept.frames page List.mem_cons_self] at mine
  rw [kept.frames other (List.mem_cons_of_mem _ member)] at yours
  have place := mem_frame.mp mine
  have place' := mem_frame.mp yours
  have multiple := aligned page.start (List.mem_map_of_mem List.mem_cons_self)
  have multiple' := aligned other.start (List.mem_map_of_mem (List.mem_cons_of_mem _ member))
  omega

theorem Frames.behind (kept : Frames border memory pages) (same : ∀ slot < border, memory' slot = memory slot) : Frames border memory' pages := by
  obtain ⟨tiled, frames, labels, clean⟩ := kept
  have inside (page : Page) (member : page ∈ pages) (slot : Nat) (mine : slot ∈ page.index) : slot < border := by
    rw [frames page member] at mine
    have place := mem_frame.mp mine
    have bound := tiled.inside page.start (List.mem_map_of_mem member)
    omega
  refine ⟨⟨tiled.aligned, tiled.inside, tiled.once, fun cell bound => ?_⟩, frames, fun page member slot mine => ?_, fun slot bound => ?_⟩
  · rw [← tiled.cells cell bound]
    unfold Taken
    rw [same cell bound]
  · rw [same slot (inside page member slot mine)]
    exact labels page member slot mine
  · rw [same slot bound]
    exact clean slot bound

theorem Frames.congr (kept : Frames border memory (page :: pages)) (index : page'.index = page.index) (pid : page'.pagePid = page.pagePid) :
    Frames border memory (page' :: pages) := by
  obtain ⟨tiled, frames, labels, clean⟩ := kept
  have start : page'.start = page.start := by
    rw [Page.start, Page.start, index]
  rw [List.forall_mem_cons] at frames labels
  refine ⟨?_, List.forall_mem_cons.mpr ⟨?_, frames.2⟩, List.forall_mem_cons.mpr ⟨?_, labels.2⟩, clean⟩
  · rw [List.map_cons, start]
    exact tiled
  · rw [index, start]
    exact frames.1
  · rw [index, pid]
    exact labels.1

end Comp310.Kernel
