import Comp310.A2.PageLines

/-! When `load_page` records where the lines of a page are. They are found again by their text, which can be elsewhere too, and
the page that they replace is still marked loaded, at slot 0. -/

namespace Comp310.Proofs.PageLoading
open Comp310.A2
open Comp310.Kernel (CString ShellMemory noneText)

def newLines (file : ProgramFile) (recentsize : Nat) : List CString := (file.reads.drop (recentsize * 3)).take 3

/-- A page in the frame store. It starts at a multiple of three, and the slots between it and the next are free. -/
structure Resident (frameSize : Nat) (memory : ShellMemory) (page : Page) : Prop where
  loaded : page.loaded = true
  start : 0 ≤ page.start ∧ page.start % 3 = 0
  endAt : page.start ≤ page.endAt ∧ page.endAt ≤ page.start + 2 ∧ page.endAt < frameSize
  free : ∀ slot < frameSize, page.endAt < slot → slot ≤ page.start + 2 → (memory slot).value = noneText

/-- An entry of a page table that has a slot of the page. -/
def Describes (entry page : Page) : Prop := ∃ slot : Int, (entry.start ≤ slot ∧ slot ≤ entry.endAt) ∧ page.start ≤ slot ∧ slot ≤ page.endAt

/-- The entry that was filled has the slots from `start` on, and the lines were stored there. -/
structure RecordedAt (frameSize : Nat) (lines : List CString) (node : Nat) (lastused : PageRef) (before : System) (result : PageResult)
    (start : Nat) : Prop where
  loaded : (result.system.queue.page ⟨node, result.entry⟩).loaded = true
  first : (result.system.queue.page ⟨node, result.entry⟩).start = start
  last : (result.system.queue.page ⟨node, result.entry⟩).endAt = (start : Int) + lines.length - 1
  pc : (result.system.queue.pcb node).pc = start
  endAt : (result.system.queue.pcb node).endAt = (start : Int) + lines.length - 1
  placed : result.placed = inOrder start lines.length
  inside : start + lines.length ≤ frameSize
  lines : ∀ k < lines.length, result.system.memory (start + k) = ⟨(before.queue.pcb node).filename, lines.getD k []⟩
  others : ∀ slot < frameSize, (before.memory slot).value ≠ noneText →
    ¬ (memFullOrNewStart frameSize before.memory = none ∧ (before.queue.page lastused).start ≤ slot ∧ slot ≤ (before.queue.page lastused).endAt) →
    result.system.memory slot = before.memory slot
  evicted : memFullOrNewStart frameSize before.memory = none → ∀ ref, ref ≠ ⟨node, result.entry⟩ →
    (result.system.queue.page ref).loaded = true → ¬ Describes (result.system.queue.page ref) (before.queue.page lastused)

/-- `load_page` records where it puts the lines. -/
def Records (frameSize varMemSize : Nat) (file : ProgramFile) (recentsize node : Nat) (lastused : PageRef) (system : System) : Prop :=
  ∃ result, loadPage frameSize varMemSize file recentsize node lastused system = some result ∧
    ∃ start, RecordedAt frameSize (newLines file recentsize) node lastused system result start

/-- The text of the last line is not in a slot before its own. -/
def LastNew (memory : ShellMemory) (p : Nat) (lines : List CString) : Prop :=
  ∀ line ∈ lines.getLast?, (∀ slot < p, (memory slot).value ≠ line) ∧ line ∉ lines.dropLast

/-- There is an entry for the page. The lines fit where there is room, and their texts are not found elsewhere; or they fit in place of
the other page, which is not at slot 0 and has no slot of another entry. -/
def Recordable (frameSize : Nat) (lines : List CString) (node : Nat) (lastused : PageRef) (system : System) : Prop :=
  (∃ k, (system.queue.page ⟨node, k⟩).loaded = false) ∧
  match memFullOrNewStart frameSize system.memory with
  | some p => p + lines.length ≤ frameSize ∧ AllNear system.memory p 0 lines ∧ LastNew system.memory p lines
  | none => (system.queue.page lastused).start + lines.length ≤ frameSize ∧ (system.queue.page lastused).start ≠ 0 ∧
    ∀ ref, ref ≠ lastused → (system.queue.page ref).loaded = true → ¬ Describes (system.queue.page ref) (system.queue.page lastused)

section Finish
variable {node : Nat} {lastused : PageRef} {system : System} {paging : Paging} {result : PageResult} {endAt : Int}

/-- The entry of the page is filled, and that of the page that was freed is reset. -/
structure Finished (node : Nat) (lastused : PageRef) (before : System) (paging : Paging) (endAt : Int) (result : PageResult) : Prop where
  placed : result.placed = paging.placed
  memory : result.system.memory = paging.memory
  free : (before.queue.page ⟨node, result.entry⟩).loaded = false
  loaded : (result.system.queue.page ⟨node, result.entry⟩).loaded = true
  first : (result.system.queue.page ⟨node, result.entry⟩).start = endAt - paging.count + 1
  last : (result.system.queue.page ⟨node, result.entry⟩).endAt = endAt
  pc : (result.system.queue.pcb node).pc = endAt - paging.count + 1
  endAt : (result.system.queue.pcb node).endAt = endAt
  others : ∀ ref, ref ≠ ⟨node, result.entry⟩ → ref ≠ lastused → result.system.queue.page ref = before.queue.page ref
  reset : paging.freed = true → lastused ≠ ⟨node, result.entry⟩ → (result.system.queue.page lastused).start = 0 ∧
    (result.system.queue.page lastused).endAt = 0 ∧ (result.system.queue.page lastused).loaded = (before.queue.page lastused).loaded

/-- What the last slot of the page is recorded as. -/
def lastSlot (paging : Paging) : Option Int := if paging.freed = true then some paging.removefrom else paging.index.map Int.ofNat

/-- The page tables once the entry of the page that was freed is reset. -/
def resetQueue (lastused : PageRef) (system : System) (freed : Bool) : ReadyQueue :=
  if freed = true then system.queue.setPcb lastused.node ((system.queue.pcb lastused.node).resetPage lastused.entry) else system.queue

theorem reset_others {freed : Bool} {ref : PageRef} (differs : ref ≠ lastused) :
    (resetQueue lastused system freed).page ref = system.queue.page ref := by
  cases freed with
  | false => rfl
  | true => exact page_other rfl differs

theorem reset_loaded (lastused ref : PageRef) (system : System) (freed : Bool) :
    ((resetQueue lastused system freed).page ref).loaded = (system.queue.page ref).loaded := by
  by_cases same : ref = lastused
  · subst same
    cases freed with
    | false => rfl
    | true =>
      rw [resetQueue, if_pos rfl, page_self rfl]
      rfl
  · rw [reset_others same]

theorem finishPage_eq : finishPage node lastused system paging =
    ((resetQueue lastused system paging.freed).pcb node).freeEntry.bind fun entry => (lastSlot paging).map fun endAt =>
      ⟨entry, paging.placed, (resetQueue lastused system paging.freed).setPcb node
        (((resetQueue lastused system paging.freed).pcb node).fillEntry entry (endAt - paging.count + 1) endAt), paging.memory⟩ := rfl

theorem finishPage_finished (ran : finishPage node lastused system paging = some result) :
    ∃ endAt, lastSlot paging = some endAt ∧ Finished node lastused system paging endAt result := by
  rw [finishPage_eq] at ran
  obtain ⟨entry, found, ran⟩ := Option.bind_eq_some_iff.mp ran
  obtain ⟨endAt, slot, rfl⟩ := Option.map_eq_some_iff.mp ran
  have free := (reset_loaded lastused ⟨node, entry⟩ system paging.freed).symm.trans (freeEntry_some found)
  refine ⟨endAt, slot, rfl, rfl, free, ?_, ?_, ?_, ?_, ?_, ?_, ?_⟩
  · rw [page_self rfl]
  · rw [page_self rfl]
  · rw [page_self rfl]
  · rw [ReadyQueue.setPcb_self]
    rfl
  · rw [ReadyQueue.setPcb_self]
    rfl
  · intro ref differs other
    rw [page_other rfl differs]
    exact reset_others other
  · intro freed differs
    rw [page_other rfl differs, freed, resetQueue, if_pos rfl, page_self rfl]
    exact ⟨rfl, rfl, rfl⟩

theorem finishPage_exists (room : ∃ k, (system.queue.page ⟨node, k⟩).loaded = false) (slot : lastSlot paging = some endAt) :
    ∃ result, finishPage node lastused system paging = some result := by
  obtain ⟨k, free⟩ := room
  obtain ⟨entry, found⟩ := freeEntry_exists.mpr ⟨k, (reset_loaded lastused ⟨node, k⟩ system paging.freed).trans free⟩
  rw [finishPage_eq, found, slot]
  exact ⟨_, rfl⟩

end Finish

section Results
variable {frameSize varMemSize : Nat} {file : ProgramFile} {recentsize node p : Nat} {lastused : PageRef} {system : System}
  {paging final : Paging} {result : PageResult} {endAt : Int} {lines rest : List CString} {first : CString} {before : ShellMemory}

/-- The variables of `load_page` before the first line. -/
def initial (lastused : PageRef) (system : System) : Paging := ⟨system.memory, 0, none, false, (system.queue.page lastused).start, []⟩

theorem loadPage_eq : loadPage frameSize varMemSize file recentsize node lastused system =
    (pageLines frameSize varMemSize (system.queue.pcb node).filename (system.queue.page lastused).endAt (newLines file recentsize)
      (initial lastused system)).bind (finishPage node lastused system) := by
  have loop := @pageLoop_eq frameSize varMemSize (file.bytes.length + 1) (recentsize * 3) 0 (system.queue.pcb node).filename
    (system.queue.page lastused).endAt file.reads file.opened file.ended (initial lastused system) file.opened_gives file.reads_text
    (Nat.lt_succ_of_le file.reads_length) (Nat.zero_le 3) fun _ => rfl
  exact congrArg (fun paging => Option.bind paging (finishPage node lastused system)) loop

theorem newLines_some (enough : recentsize * 3 < file.reads.length) : ∃ first rest, newLines file recentsize = first :: rest ∧ rest.length ≤ 2 := by
  have length : (newLines file recentsize).length = min 3 (file.reads.length - recentsize * 3) := by
    rw [newLines, List.length_take, List.length_drop]
  cases lines : newLines file recentsize with
  | nil =>
    rw [lines, List.length_nil] at length
    omega
  | cons first rest =>
    rw [lines, List.length_cons] at length
    exact ⟨first, rest, rfl, by omega⟩

/-- Only the last line of a file can be what is in a free slot. -/
theorem newLines_busy : ∀ line ∈ (newLines file recentsize).dropLast, line ≠ noneText := by
  intro line member none
  obtain ⟨k, inside, same⟩ := List.mem_iff_getElem.mp member
  rw [List.length_dropLast, newLines, List.length_take, List.length_drop] at inside
  have before : recentsize * 3 + k + 1 < file.reads.length := by omega
  have here : (newLines file recentsize)[k]? = some line := by
    rw [← same, List.getElem_dropLast, ← List.getElem?_eq_getElem]
  rw [newLines, List.getElem?_take_of_lt (by omega), List.getElem?_drop] at here
  have read : whole (file.reads.getD (recentsize * 3 + k) []) = true := readAll_whole before
  rw [List.getD_eq_getElem?_getD, here, none] at read
  exact absurd read (by decide)

/-- The slots of a page that starts in `p` are recorded from `p` on. -/
theorem RecordedAt.start (recorded : RecordedAt frameSize (first :: rest) node lastused system result p) {q : Nat} {slots : List (Option Nat)}
    (placed : result.placed = some q :: slots) : p = q := by
  have order := recorded.placed.symm.trans placed
  exact Option.some.inj (List.cons.inj order).1

theorem Finished.recorded (finished : Finished node lastused system paging ((p : Int) + lines.length - 1) result)
    (count : paging.count = lines.length) (placed : paging.placed = inOrder p lines.length) (inside : p + lines.length ≤ frameSize)
    (laid : Laid frameSize (system.queue.pcb node).filename p lines before paging.memory)
    (others : ∀ slot < frameSize, (system.memory slot).value ≠ noneText →
      ¬ (memFullOrNewStart frameSize system.memory = none ∧ (system.queue.page lastused).start ≤ slot ∧ slot ≤ (system.queue.page lastused).endAt) →
      ¬ (p ≤ slot ∧ slot < p + lines.length) ∧ before slot = system.memory slot)
    (evicted : memFullOrNewStart frameSize system.memory = none → ∀ ref, ref ≠ ⟨node, result.entry⟩ →
      (result.system.queue.page ref).loaded = true → ¬ Describes (result.system.queue.page ref) (system.queue.page lastused)) :
    RecordedAt frameSize lines node lastused system result p where
  loaded := finished.loaded
  first := by
    rw [finished.first, count]
    omega
  last := finished.last
  pc := by
    rw [finished.pc, count]
    omega
  endAt := finished.endAt
  placed := finished.placed.trans placed
  inside := inside
  lines := by
    intro k small
    rw [finished.memory]
    exact laid.inside small (by omega)
  others := by
    intro slot frame occupied stays
    obtain ⟨outside, same⟩ := others slot frame occupied stays
    rw [finished.memory, laid.outside frame (by omega), same]
  evicted := evicted

section Room

variable (varMemSize file recentsize node lastused system)

/-- The first line goes where there is room, and the others behind it if their texts are near. -/
theorem room_run (lines : newLines file recentsize = first :: rest) (few : rest.length ≤ 2)
    (room : memFullOrNewStart frameSize system.memory = some p) :
    ∃ mid, mid.placed = [some p] ∧
      loadPage frameSize varMemSize file recentsize node lastused system =
        (pageLines frameSize varMemSize (system.queue.pcb node).filename (system.queue.page lastused).endAt rest mid).bind
          (finishPage node lastused system) ∧
      (p + rest.length < frameSize →
        (AllNear system.memory p 0 (first :: rest) → ∃ after done last,
          pageLines frameSize varMemSize (system.queue.pcb node).filename (system.queue.page lastused).endAt rest mid = some after ∧
          done ++ [last] = first :: rest ∧ Placed frameSize (system.queue.pcb node).filename p system.memory done last after) ∧
        (∀ after, pageLines frameSize varMemSize (system.queue.pcb node).filename (system.queue.page lastused).endAt rest mid = some after →
          after.placed = inOrder p (rest.length + 1) → AllNear system.memory p 0 (first :: rest))) := by
  obtain ⟨_, free⟩ := memFullOrNewStart_some room
  obtain ⟨mid, ran, run⟩ := @Placed.first frameSize varMemSize p (system.queue.pcb node).filename first (system.queue.page lastused).endAt
    system.memory (system.queue.page lastused).start room
  refine ⟨mid, run.placed, ?_, ?_⟩
  · rw [loadPage_eq, lines, pageLines, initial, ran]
    rfl
  · intro inside
    have busy : ∀ line ∈ ([] ++ first :: rest).dropLast, line ≠ noneText := by
      rw [List.nil_append, ← lines]
      exact newLines_busy
    have all := @Placed.run frameSize varMemSize p (system.queue.pcb node).filename (system.queue.page lastused).endAt [] rest system.memory mid
      first run ((Nat.zero_add _).le.trans few) busy (by rw [List.length_nil]; omega) free
    rw [List.length_nil, Nat.zero_add, List.nil_append] at all
    exact all

variable {varMemSize file recentsize node lastused system}

theorem lastNew_iff {done : List CString} {last : CString} (run : Placed frameSize (system.queue.pcb node).filename p system.memory done last paging)
    {found : Nat} (index : paging.index = some found) (inside : p + done.length < frameSize) :
    found = p + done.length ↔ LastNew system.memory p (done ++ [last]) := by
  rw [run.found_iff index inside, LastNew, List.getLast?_concat, List.dropLast_concat]
  constructor
  · intro new line member
    cases Option.mem_some_iff.mp member
    exact new
  · intro new
    exact new last rfl

theorem records_room (lines : newLines file recentsize = first :: rest) (few : rest.length ≤ 2)
    (room : memFullOrNewStart frameSize system.memory = some p) :
    Records frameSize varMemSize file recentsize node lastused system ↔ (∃ k, (system.queue.page ⟨node, k⟩).loaded = false) ∧
      p + (first :: rest).length ≤ frameSize ∧ AllNear system.memory p 0 (first :: rest) ∧ LastNew system.memory p (first :: rest) := by
  obtain ⟨_, free⟩ := memFullOrNewStart_some room
  obtain ⟨mid, here, whole, run⟩ := room_run varMemSize file recentsize node lastused system lines few room
  rw [Records, whole, lines, List.length_cons]
  constructor
  · rintro ⟨result, loaded, start, recorded⟩
    obtain ⟨final, ran, finish⟩ := Option.bind_eq_some_iff.mp loaded
    obtain ⟨endAt, slot, finished⟩ := finishPage_finished finish
    obtain ⟨slots, _, placed⟩ := pageLines_placed ran
    rw [here, ← finished.placed] at placed
    obtain rfl := recorded.start placed
    have inside := recorded.inside
    rw [List.length_cons] at inside
    obtain ⟨goes, came⟩ := run inside
    have near := came final ran (finished.placed.symm.trans recorded.placed)
    obtain ⟨final', done, last, ran', same, run'⟩ := goes near
    cases ran'.symm.trans ran
    have length := congrArg List.length same
    rw [List.length_append, List.length_singleton, List.length_cons] at length
    refine ⟨⟨result.entry, finished.free⟩, inside, near, ?_⟩
    obtain ⟨found, index, _⟩ := run'.index
    rw [lastSlot, run'.freed, if_neg Bool.false_ne_true, index] at slot
    cases slot
    rw [← same, ← lastNew_iff run' index (by omega)]
    have last := finished.last.symm.trans recorded.last
    rw [List.length_cons] at last
    dsimp only [Int.ofNat_eq_natCast] at last
    omega
  · rintro ⟨entry, inside, near, new⟩
    obtain ⟨final, done, last, ran, same, run'⟩ := (run inside).1 near
    have length := congrArg List.length same
    rw [List.length_append, List.length_singleton, List.length_cons] at length
    obtain ⟨found, index, _⟩ := run'.index
    rw [← same, ← lastNew_iff run' index (by omega)] at new
    have slot : lastSlot final = some ((p : Int) + (done ++ [last]).length - 1) := by
      rw [lastSlot, run'.freed, if_neg Bool.false_ne_true, index, new, List.length_append, List.length_singleton, Option.map_some]
      congr 1
      dsimp only [Int.ofNat_eq_natCast]
      omega
    obtain ⟨result, finish⟩ := finishPage_exists entry slot
    obtain ⟨endAt, slot', finished⟩ := finishPage_finished finish
    cases slot'.symm.trans slot
    refine ⟨result, ?_, p, ?_⟩
    · rw [ran]
      exact finish
    · rw [← same]
      apply finished.recorded run'.count run'.placed _ run'.laid
      · intro slot frame occupied _
        refine ⟨?_, rfl⟩
        rintro ⟨low, high⟩
        rw [List.length_append, List.length_singleton] at high
        exact occupied (free slot low (by omega))
      · intro full
        exact absurd (room.symm.trans full) (Option.some_ne_none p)
      · rw [List.length_append, List.length_singleton]
        omega

end Room

section Full

/-- The slots of a page and those behind it up to the next are free once it was freed. -/
theorem cleared_free (resident : Resident frameSize system.memory (system.queue.page lastused)) {slot : Nat} (frame : slot < frameSize)
    (low : (system.queue.page lastused).start ≤ slot) (high : slot ≤ (system.queue.page lastused).start + 2) :
    (memFreeLinesBetween (frameSize + varMemSize) (system.queue.page lastused).start (system.queue.page lastused).endAt system.memory slot).value
      = noneText := by
  unfold memFreeLinesBetween
  split
  · rfl
  next kept => exact resident.free slot frame (by omega) high

variable (varMemSize file recentsize node lastused system)

theorem full_run (lines : newLines file recentsize = first :: rest) (few : rest.length ≤ 2)
    (full : memFullOrNewStart frameSize system.memory = none) (resident : Resident frameSize system.memory (system.queue.page lastused))
    (start : (system.queue.page lastused).start = p) :
    ∃ mid, mid.placed = [some p] ∧
      loadPage frameSize varMemSize file recentsize node lastused system =
        (pageLines frameSize varMemSize (system.queue.pcb node).filename (system.queue.page lastused).endAt rest mid).bind
          (finishPage node lastused system) ∧
      (p + rest.length < frameSize → ∃ after,
        pageLines frameSize varMemSize (system.queue.pcb node).filename (system.queue.page lastused).endAt rest mid = some after ∧
        Freed frameSize (system.queue.pcb node).filename p (memFreeLinesBetween (frameSize + varMemSize) (system.queue.page lastused).start
          (system.queue.page lastused).endAt system.memory) (first :: rest) after) := by
  obtain ⟨order, _, inside⟩ := resident.endAt
  obtain ⟨mid, ran, run⟩ := @Freed.first frameSize varMemSize p (system.queue.pcb node).filename first (system.queue.page lastused).endAt
    system.memory (system.queue.page lastused).start full start (by omega) order
  refine ⟨mid, run.placed, ?_, ?_⟩
  · rw [loadPage_eq, lines, pageLines, initial, ran]
    rfl
  · intro inside
    have busy : ∀ line ∈ ([first] ++ rest).dropLast, line ≠ noneText := by
      rw [List.singleton_append, ← lines]
      exact newLines_busy
    apply run.run _ busy
    · rw [List.singleton_append, List.length_cons]
      omega
    · intro slot frame low high
      exact cleared_free resident frame (by omega) (by omega)
    · rw [List.singleton_append, List.length_cons]
      omega

variable {varMemSize file recentsize node lastused system}

/-- No entry has a slot of the page that was freed, if that page was not at slot 0. -/
theorem evicted_iff (finished : Finished node lastused system paging endAt result) (freed : paging.freed = true)
    (resident : Resident frameSize system.memory (system.queue.page lastused)) :
    (∀ ref, ref ≠ ⟨node, result.entry⟩ → (result.system.queue.page ref).loaded = true →
      ¬ Describes (result.system.queue.page ref) (system.queue.page lastused)) ↔
    (system.queue.page lastused).start ≠ 0 ∧
      ∀ ref, ref ≠ lastused → (system.queue.page ref).loaded = true → ¬ Describes (system.queue.page ref) (system.queue.page lastused) := by
  have other (ref : PageRef) (loaded : (system.queue.page ref).loaded = true) : ref ≠ ⟨node, result.entry⟩ := by
    rintro rfl
    exact Bool.false_ne_true (finished.free.symm.trans loaded)
  obtain ⟨start, endAt, loaded⟩ := finished.reset freed (other lastused resident.loaded)
  constructor
  · intro evicted
    refine ⟨?_, ?_⟩
    · intro zero
      apply evicted lastused (other lastused resident.loaded) (loaded.trans resident.loaded)
      refine ⟨0, ?_, Int.le_of_eq zero, zero ▸ resident.endAt.1⟩
      rw [start, endAt]
      exact ⟨Int.le_refl 0, Int.le_refl 0⟩
    · intro ref differs loaded
      have kept := finished.others ref (other ref loaded) differs
      rw [← kept]
      apply evicted ref (other ref loaded)
      rw [kept, loaded]
  · rintro ⟨positive, evicted⟩ ref differs loaded
    by_cases same : ref = lastused
    · subst same
      rintro ⟨slot, ⟨low, high⟩, above, _⟩
      have nonneg := resident.start.1
      omega
    · have kept := finished.others ref differs same
      rw [kept] at loaded ⊢
      exact evicted ref same loaded

theorem records_full (lines : newLines file recentsize = first :: rest) (few : rest.length ≤ 2)
    (full : memFullOrNewStart frameSize system.memory = none) (resident : Resident frameSize system.memory (system.queue.page lastused)) :
    Records frameSize varMemSize file recentsize node lastused system ↔ (∃ k, (system.queue.page ⟨node, k⟩).loaded = false) ∧
      (system.queue.page lastused).start + (first :: rest).length ≤ frameSize ∧ (system.queue.page lastused).start ≠ 0 ∧
      ∀ ref, ref ≠ lastused → (system.queue.page ref).loaded = true → ¬ Describes (system.queue.page ref) (system.queue.page lastused) := by
  obtain ⟨p, start⟩ := Int.eq_ofNat_of_zero_le resident.start.1
  obtain ⟨mid, here, whole, run⟩ := full_run varMemSize file recentsize node lastused system lines few full resident start
  rw [Records, whole, lines, List.length_cons]
  constructor
  · rintro ⟨result, loaded, first, recorded⟩
    obtain ⟨final, ran, finish⟩ := Option.bind_eq_some_iff.mp loaded
    obtain ⟨endAt, _, finished⟩ := finishPage_finished finish
    obtain ⟨slots, _, placed⟩ := pageLines_placed ran
    rw [here, ← finished.placed] at placed
    obtain rfl := recorded.start placed
    have inside := recorded.inside
    rw [List.length_cons] at inside
    obtain ⟨final', ran', run'⟩ := run inside
    cases ran'.symm.trans ran
    refine ⟨⟨result.entry, finished.free⟩, ?_, ?_⟩
    · omega
    · exact (evicted_iff finished run'.freed resident).mp (recorded.evicted full)
  · rintro ⟨entry, inside, evicted⟩
    obtain ⟨final, ran, run'⟩ := run (by omega)
    have slot : lastSlot final = some ((p : Int) + (first :: rest).length - 1) := by
      rw [lastSlot, run'.freed, if_pos rfl, run'.removefrom, List.length_cons]
      congr 1
      omega
    obtain ⟨result, finish⟩ := finishPage_exists entry slot
    obtain ⟨endAt, slot', finished⟩ := finishPage_finished finish
    cases slot'.symm.trans slot
    refine ⟨result, ?_, p, ?_⟩
    · rw [ran]
      exact finish
    · apply finished.recorded run'.count run'.placed _ run'.laid
      · intro slot frame occupied stays
        have outside := fun range => stays ⟨full, range⟩
        have same : memFreeLinesBetween (frameSize + varMemSize) (system.queue.page lastused).start (system.queue.page lastused).endAt
            system.memory slot = system.memory slot := if_neg fun range => outside ⟨range.1, range.2.1⟩
        refine ⟨?_, same⟩
        rintro ⟨low, high⟩
        rw [List.length_cons] at high
        apply occupied
        rw [← same]
        exact cleared_free resident frame (by omega) (by omega)
      · intro _
        exact (evicted_iff finished run'.freed resident).mpr evicted
      · rw [List.length_cons]
        omega

end Full

/-- The slots of a page are recorded just where there is an entry for it and its lines are found where they are stored, or it replaces a page
that no entry has a slot of, once its own is reset to slot 0. -/
theorem records_iff (enough : recentsize * 3 < file.reads.length) (resident : Resident frameSize system.memory (system.queue.page lastused)) :
    Records frameSize varMemSize file recentsize node lastused system ↔
      Recordable frameSize (newLines file recentsize) node lastused system := by
  obtain ⟨first, rest, lines, few⟩ := newLines_some enough
  cases room : memFullOrNewStart frameSize system.memory with
  | none =>
    rw [records_full lines few room resident, Recordable, room, lines]
  | some p =>
    rw [records_room lines few room, Recordable, room, lines]

end Results

section Example

/-- A process with one page, `a`, `b` and `c`, in a frame store of two. -/
def paged : System where
  queue := ⟨some 0, fun _ => ⟨⟨false, 1, 0, 0, 2, 0, .ofFn fun k => ⟨0, 2, k == 0, false, 0⟩, 1, 2, [112]⟩, none⟩⟩
  memory := fun slot => if slot < 3 then ⟨[112], [97 + .ofNat slot, 10]⟩ else ⟨noneText, noneText⟩

private theorem paged_resident : Resident 6 paged.memory (paged.queue.page ⟨0, 0⟩) :=
  ⟨by decide, by decide, by decide, by decide⟩

/-- The next page is recorded where the fourth line is not one of the first. -/
theorem records_four : Records 6 700 ⟨[97, 10, 98, 10, 99, 10, 100, 10], by decide⟩ 1 0 ⟨0, 0⟩ paged := by
  have recordable : Recordable 6 (newLines ⟨[97, 10, 98, 10, 99, 10, 100, 10], by decide⟩ 1) 0 ⟨0, 0⟩ paged := by
    have lines : newLines ⟨[97, 10, 98, 10, 99, 10, 100, 10], by decide⟩ 1 = [[100, 10]] := by decide
    have room : memFullOrNewStart 6 paged.memory = some 3 := by decide
    rw [Recordable, lines, room]
    refine ⟨⟨1, by decide⟩, by decide, trivial, ?_⟩
    intro line member
    cases Option.mem_some_iff.mp member
    exact ⟨by decide, by decide⟩
  exact (records_iff (by decide) paged_resident).mpr recordable

/-- The lines `a`, `b`, `c` and `c`. -/
def repeated : ProgramFile := ⟨[97, 10, 98, 10, 99, 10, 99, 10], by decide⟩

/-- Where the third line is repeated, the page is recorded at the slot of that one. -/
theorem repeated_line : 1 * 3 < repeated.reads.length ∧ Resident 6 paged.memory (paged.queue.page ⟨0, 0⟩) ∧
    ¬ Records 6 700 repeated 1 0 ⟨0, 0⟩ paged := by
  refine ⟨by decide, paged_resident, ?_⟩
  intro records
  have lines : newLines repeated 1 = [[99, 10]] := by decide
  have room : memFullOrNewStart 6 paged.memory = some 3 := by decide
  obtain ⟨_, _, _, new⟩ := (records_room lines (Nat.zero_le 2) room).mp records
  exact (new [99, 10] rfl).1 2 (by decide) (by decide)

end Example

end Comp310.Proofs.PageLoading
