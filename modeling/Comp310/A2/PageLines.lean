import Mathlib.Data.List.GetD
import Comp310.A2.LoadPage

/-! Where the lines of a page go. They are found again by their text. -/

namespace Comp310.A2
open Comp310.Kernel (CString ShellMemory MemoryStruct memPut noneText)

/-- The frame store has the lines from slot `p` on, and is as before elsewhere. -/
def Laid (frameSize : Nat) (filename : CString) (p : Nat) (lines : List CString) (before memory : ShellMemory) : Prop :=
  ∀ slot < frameSize, memory slot = if p ≤ slot ∧ slot < p + lines.length then ⟨filename, lines.getD (slot - p) []⟩ else before slot

def inOrder (p count : Nat) : List (Option Nat) := (List.range' p count).map some

variable {frameSize varMemSize p index slot count : Nat} {filename line : CString} {removeto : Int} {lines done rest : List CString}
  {before memory : ShellMemory} {paging after : Paging}

theorem lineFree_iff : lineFree memory slot = true ↔ (memory slot).value = noneText := beq_iff_eq

theorem inOrder_succ : inOrder p (count + 1) = inOrder p count ++ [some (p + count)] := by
  rw [inOrder, List.range'_1_concat, List.map_append]
  rfl

theorem getIndex_some : getIndex frameSize line memory = some slot ↔
    slot < frameSize ∧ (memory slot).value = line ∧ ∀ other < slot, (memory other).value ≠ line := by
  rw [getIndex, List.find?_range_eq_some]
  simp only [beq_iff_eq, List.mem_range, Bool.not_eq_true', beq_eq_false_iff_ne]
  exact and_left_comm

theorem getIndex_found (inside : slot < frameSize) (there : (memory slot).value = line) :
    ∃ found ≤ slot, getIndex frameSize line memory = some found := by
  cases search : getIndex frameSize line memory with
  | none =>
    have missing := List.find?_eq_none.mp search slot (List.mem_range.mpr inside)
    exact absurd (beq_iff_eq.mpr there) missing
  | some found =>
    refine ⟨found, ?_, rfl⟩
    apply Nat.le_of_not_lt
    intro less
    exact (getIndex_some.mp search).2.2 slot less there

theorem memSetLine_some : (memSetLine frameSize varMemSize filename line index memory).1 = some slot ↔
    index ≤ slot ∧ slot < index + 3 ∧ (memory slot).value = noneText ∧
      ∀ other, index ≤ other → other < slot → (memory other).value ≠ noneText := by
  have search : (memSetLine frameSize varMemSize filename line index memory).1 = (List.range' index 3).find? (lineFree memory) := by
    rw [memSetLine]
    split
    next none => exact none.symm
    next some => exact some.symm
  rw [search, List.find?_range'_eq_some]
  constructor
  · rintro ⟨free, member, taken⟩
    obtain ⟨low, high⟩ := List.mem_range'_1.mp member
    refine ⟨low, high, lineFree_iff.mp free, ?_⟩
    intro other above below
    have busy := taken other above below
    intro free'
    rw [lineFree_iff.mpr free'] at busy
    cases busy
  · rintro ⟨low, high, free, taken⟩
    refine ⟨lineFree_iff.mpr free, List.mem_range'_1.mpr ⟨low, high⟩, ?_⟩
    intro other above below
    rw [Bool.not_eq_true', ← Bool.not_eq_true]
    exact fun free' => taken other above below (lineFree_iff.mp free')

theorem memSetLine_memory (stored : (memSetLine frameSize varMemSize filename line index memory).1 = some slot) :
    (memSetLine frameSize varMemSize filename line index memory).2 = setLine frameSize varMemSize line (memPut memory slot ⟨filename, line⟩) := by
  unfold memSetLine at stored ⊢
  split at stored
  · cases stored
  · cases stored
    rfl

theorem Laid.nil (same : ∀ slot < frameSize, memory slot = before slot) : Laid frameSize filename p [] before memory := by
  intro slot frame
  refine (same slot frame).trans (if_neg ?_).symm
  rw [List.length_nil]
  omega

theorem Laid.snoc (laid : Laid frameSize filename p lines before memory) : Laid frameSize filename p (lines ++ [line]) before
    (setLine frameSize varMemSize line (memPut memory (p + lines.length) ⟨filename, line⟩)) := by
  intro slot frame
  rw [setLine_frame frame, List.length_append, List.length_singleton]
  by_cases here : slot = p + lines.length
  · rw [here, Kernel.memPut_self, if_pos (by omega), Nat.add_sub_cancel_left, List.getD_append_right _ _ _ _ (Nat.le_refl _), Nat.sub_self]
    rfl
  · rw [Kernel.memPut_other here, laid slot frame]
    by_cases inside : p ≤ slot ∧ slot < p + lines.length
    · rw [if_pos inside, if_pos (by omega), List.getD_append _ _ _ _ (by omega)]
    · rw [if_neg inside, if_neg (by omega)]

theorem Laid.inside (laid : Laid frameSize filename p lines before memory) {k : Nat} (here : k < lines.length) (frame : p + k < frameSize) :
    memory (p + k) = ⟨filename, lines.getD k []⟩ := by
  rw [laid (p + k) frame, if_pos (by omega), Nat.add_sub_cancel_left]

theorem Laid.outside (laid : Laid frameSize filename p lines before memory) (frame : slot < frameSize)
    (other : slot < p ∨ p + lines.length ≤ slot) : memory slot = before slot := by
  rw [laid slot frame, if_neg (by omega)]

/-- The line is stored in a slot of the frame store, so that its text is found. -/
theorem storeLine_eq (removefrom : Int) (stored : (memSetLine frameSize varMemSize filename line index paging.memory).1 = some slot)
    (inside : slot < frameSize) (laid : Laid frameSize filename p done before paging.memory) (here : slot = p + done.length) :
    ∃ after found, storeLine frameSize varMemSize filename line index removefrom paging = some after ∧
      getIndex frameSize line after.memory = some found ∧ found ≤ slot ∧ Laid frameSize filename p (done ++ [line]) before after.memory ∧
      after.count = paging.count + 1 ∧ after.index = some found ∧ after.freed = paging.freed ∧ after.removefrom = removefrom ∧
      after.placed = paging.placed ++ [some slot] := by
  have memory := memSetLine_memory stored
  have laid' : Laid frameSize filename p (done ++ [line]) before (memSetLine frameSize varMemSize filename line index paging.memory).2 := by
    rw [memory, here]
    exact laid.snoc
  have there : ((memSetLine frameSize varMemSize filename line index paging.memory).2 slot).value = line := by
    rw [memory, setLine_frame inside, Kernel.memPut_self]
  obtain ⟨found, before, search⟩ := getIndex_found inside there
  have ran : storeLine frameSize varMemSize filename line index removefrom paging = _ := congrArg (Option.map _) search
  refine ⟨_, found, ran, search, before, laid', rfl, rfl, rfl, rfl, ?_⟩
  dsimp only
  rw [stored]

section Freed

/-- Lines that were stored in place of a page, from its slot `p` on. -/
structure Freed (frameSize : Nat) (filename : CString) (p : Nat) (before : ShellMemory) (done : List CString) (paging : Paging) : Prop where
  freed : paging.freed = true
  count : paging.count = done.length
  removefrom : paging.removefrom = ((p + (done.length - 1) : Nat) : Int)
  placed : paging.placed = inOrder p done.length
  laid : Laid frameSize filename p done before paging.memory

/-- The first line goes to the first slot of the page that is freed. -/
theorem Freed.first {removefrom : Int} (full : memFullOrNewStart frameSize memory = none) (start : removefrom = p) (inside : p < frameSize)
    (some : removefrom ≤ removeto) :
    ∃ after, pageLine frameSize varMemSize filename removeto line ⟨memory, 0, none, false, removefrom, []⟩ = Option.some after ∧
      Freed frameSize filename p (memFreeLinesBetween (frameSize + varMemSize) removefrom removeto memory) [line] after := by
  let cleared : Paging := ⟨memFreeLinesBetween (frameSize + varMemSize) removefrom removeto memory, 0, none, true, removefrom, []⟩
  have freed : freeVictim frameSize varMemSize removeto ⟨memory, 0, none, false, removefrom, []⟩ = cleared := if_pos ⟨full, rfl, rfl⟩
  have free : (cleared.memory p).value = noneText :=
    congrArg MemoryStruct.value (if_pos ⟨Int.le_of_eq start, start ▸ some, Nat.lt_add_right varMemSize inside⟩)
  have stored : (memSetLine frameSize varMemSize filename line p cleared.memory).1 = Option.some p :=
    memSetLine_some.mpr ⟨Nat.le_refl p, by omega, free, fun other low high => by omega⟩
  have laid : Laid frameSize filename p [] cleared.memory cleared.memory := .nil fun _ _ => rfl
  obtain ⟨after, found, ran, _, _, laid', count, _, freed', removefrom', placed⟩ := storeLine_eq removefrom stored inside laid rfl
  refine ⟨after, ?_, freed', count, removefrom'.trans start, placed, laid'⟩
  have nonneg : ¬ removefrom < 0 := by omega
  have index : removefrom.toNat = p := by omega
  rw [pageLine, freed]
  dsimp only [cleared]
  rw [if_pos rfl, if_neg nonneg, index]
  exact ran

theorem Freed.next (run : Freed frameSize filename p before done paging) (busy : ∀ line ∈ done, line ≠ noneText) (few : done.length ≤ 2)
    (inside : p + done.length < frameSize) (free : (before (p + done.length)).value = noneText) :
    ∃ after, pageLine frameSize varMemSize filename removeto line paging = some after ∧
      Freed frameSize filename p before (done ++ [line]) after := by
  have same : freeVictim frameSize varMemSize removeto paging = paging := if_neg fun full => Bool.false_ne_true (full.2.1.symm.trans run.freed)
  have stored : (memSetLine frameSize varMemSize filename line (p + (done.length - 1)) paging.memory).1 = some (p + done.length) := by
    refine memSetLine_some.mpr ⟨by omega, by omega, ?_, ?_⟩
    · rw [run.laid.outside inside (.inr (Nat.le_refl _)), free]
    · intro other low high
      have last : other = p + (done.length - 1) := by omega
      have short : done.length - 1 < done.length := by omega
      rw [last, run.laid.inside short (by omega), List.getD_eq_getElem?_getD, List.getElem?_eq_getElem short]
      exact busy _ (List.getElem_mem short)
  obtain ⟨after, found, ran, _, _, laid, count, _, freed, removefrom, placed⟩ :=
    storeLine_eq (if paging.count + 1 > 1 then paging.removefrom + 1 else paging.removefrom) stored inside run.laid rfl
  refine ⟨after, ?_, freed.trans run.freed, ?_, ?_, ?_, laid⟩
  · have nonneg : ¬ paging.removefrom < 0 := by
      rw [run.removefrom]
      omega
    rw [pageLine, same, if_pos run.freed, if_neg nonneg, run.removefrom, Int.toNat_natCast, ← run.removefrom]
    exact ran
  · rw [count, run.count, List.length_append, List.length_singleton]
  · rw [removefrom, run.count, run.removefrom, List.length_append, List.length_singleton]
    split <;> omega
  · rw [placed, run.placed, List.length_append, List.length_singleton, inOrder_succ]

theorem Freed.run (run : Freed frameSize filename p before done paging) (few : (done ++ rest).length ≤ 3)
    (busy : ∀ line ∈ (done ++ rest).dropLast, line ≠ noneText) (inside : p + (done ++ rest).length ≤ frameSize)
    (free : ∀ slot < frameSize, p ≤ slot → slot < p + 3 → (before slot).value = noneText) :
    ∃ after, pageLines frameSize varMemSize filename removeto rest paging = some after ∧
      Freed frameSize filename p before (done ++ rest) after := by
  induction rest generalizing done paging with
  | nil =>
    rw [List.append_nil]
    exact ⟨paging, rfl, run⟩
  | cons line rest ih =>
    have length : (done ++ line :: rest).length = done.length + rest.length + 1 := List.length_append
    have earlier : ∀ line ∈ done, line ≠ noneText := by
      intro early member
      apply busy
      rw [List.dropLast_append_of_ne_nil (List.cons_ne_nil line rest)]
      exact List.mem_append_left _ member
    obtain ⟨after, ran, run'⟩ := @Freed.next frameSize varMemSize p filename line removeto done before paging run earlier (by omega) (by omega)
      (free _ (by omega) (by omega) (by omega))
    rw [List.append_cons] at few busy inside ⊢
    obtain ⟨final, ran', run''⟩ := ih run' few busy inside
    refine ⟨final, ?_, run''⟩
    rw [pageLines, ran]
    exact ran'

end Freed

section Placed

/-- The text of the line that was stored in slot `p + k` is not found too early: before its own slot only two slots before at most, and with no
free slot between. -/
def Near (before : ShellMemory) (p k : Nat) (line : CString) : Prop :=
  ∀ slot < p, (before slot).value = line → p + k ≤ slot + 2 ∧ ∀ other, slot < other → other < p → (before other).value ≠ noneText

/-- Lines that were stored in free slots, from `p` on. -/
structure Placed (frameSize : Nat) (filename : CString) (p : Nat) (before : ShellMemory) (done : List CString) (last : CString)
    (paging : Paging) : Prop where
  freed : paging.freed = false
  count : paging.count = (done ++ [last]).length
  placed : paging.placed = inOrder p (done ++ [last]).length
  laid : Laid frameSize filename p (done ++ [last]) before paging.memory
  index : ∃ found, paging.index = some found ∧ getIndex frameSize last paging.memory = some found ∧ found ≤ p + done.length

variable {last : CString} {found : Nat}

theorem memFullOrNewStart_some (found : memFullOrNewStart frameSize memory = some p) : p < frameSize ∧
    ∀ slot, p ≤ slot → slot < p + 3 → (memory slot).value = noneText := by
  have free := List.find?_some found
  obtain ⟨i, inside, rfl⟩ := List.mem_map.mp (List.mem_of_find?_eq_some found)
  have bound := List.mem_range.mp inside
  simp only [Bool.and_eq_true, lineFree_iff] at free
  refine ⟨by omega, ?_⟩
  intro slot low high
  obtain rfl | rfl | rfl : slot = i * 3 ∨ slot = i * 3 + 1 ∨ slot = i * 3 + 2 := by omega
  · exact free.1.1
  · exact free.1.2
  · exact free.2

/-- The first line goes to the first slot that is free with two more. -/
theorem Placed.first {removefrom : Int} (room : memFullOrNewStart frameSize memory = some p) :
    ∃ after, pageLine frameSize varMemSize filename removeto line ⟨memory, 0, none, false, removefrom, []⟩ = some after ∧
      Placed frameSize filename p memory [] line after := by
  obtain ⟨inside, free⟩ := memFullOrNewStart_some room
  let start : Paging := ⟨memory, 0, none, false, removefrom, []⟩
  have same : freeVictim frameSize varMemSize removeto start = start := if_neg fun full => Option.some_ne_none p (room.symm.trans full.1)
  have stored : (memSetLine frameSize varMemSize filename line p start.memory).1 = some p :=
    memSetLine_some.mpr ⟨Nat.le_refl p, by omega, free p (Nat.le_refl p) (by omega), fun other low high => by omega⟩
  have laid : Laid frameSize filename p [] memory start.memory := .nil fun _ _ => rfl
  obtain ⟨after, found, ran, search, early, laid', count, index, freed, _, placed⟩ := storeLine_eq removefrom stored inside laid rfl
  refine ⟨after, ?_, freed, count, placed, laid', found, index, search, early⟩
  change pageLine frameSize varMemSize filename removeto line start = some after
  rw [pageLine, same]
  exact (congrArg (fun target => Option.bind target _) room).trans ran

theorem Placed.search (run : Placed frameSize filename p before done last paging) (index : paging.index = some found) :
    found < frameSize ∧ (paging.memory found).value = last ∧ (∀ other < found, (paging.memory other).value ≠ last) ∧ found ≤ p + done.length := by
  obtain ⟨found', same, search, early⟩ := run.index
  cases index.symm.trans same
  obtain ⟨frame, there, first⟩ := getIndex_some.mp search
  exact ⟨frame, there, first, early⟩

theorem Placed.old (run : Placed frameSize filename p before done last paging) (inside : p < frameSize) (low : slot < p) :
    paging.memory slot = before slot := run.laid.outside (Nat.lt_trans low inside) (.inl low)

theorem Placed.slot_iff (run : Placed frameSize filename p before done last paging) (index : paging.index = some found)
    (busy : ∀ line ∈ done ++ [last], line ≠ noneText) (few : done.length ≤ 1) (inside : p + (done.length + 1) < frameSize)
    (free : (before (p + (done.length + 1))).value = noneText) :
    (memSetLine frameSize varMemSize filename line (found + 1) paging.memory).1 = some (p + (done.length + 1)) ↔ Near before p done.length last := by
  have length : (done ++ [last]).length = done.length + 1 := by rw [List.length_append, List.length_singleton]
  obtain ⟨frame, there, first, early⟩ := run.search index
  have old (slot : Nat) (low : slot < p) : paging.memory slot = before slot := run.old (by omega) low
  rw [memSetLine_some]
  constructor
  · rintro ⟨low, high, _, taken⟩ slot below text
    have reached : found ≤ slot := by
      apply Nat.le_of_not_lt
      intro less
      apply first slot less
      rw [old slot below, text]
    refine ⟨by omega, ?_⟩
    intro other above under
    rw [← old other under]
    exact taken other (by omega) (by omega)
  · intro near
    have close : p + done.length ≤ found + 2 ∧ ∀ other, found < other → other < p → (before other).value ≠ noneText := by
      rcases Nat.lt_or_ge found p with low | high
      · apply near found low
        rw [← old found low, there]
      · exact ⟨by omega, fun other above below => by omega⟩
    refine ⟨by omega, by omega, ?_, ?_⟩
    · rw [run.laid.outside inside (.inr (by rw [length])), free]
    · intro other above below
      rcases Nat.lt_or_ge other p with low | high
      · rw [old other low]
        exact close.2 other above low
      · obtain ⟨k, rfl⟩ := Nat.exists_eq_add_of_le high
        have short : k < (done ++ [last]).length := by omega
        rw [run.laid.inside short (by omega), List.getD_eq_getElem?_getD, List.getElem?_eq_getElem short]
        exact busy _ (List.getElem_mem short)

/-- The next line is stored behind the last one just where its text is near. -/
theorem Placed.next (run : Placed frameSize filename p before done last paging)
    (busy : ∀ line ∈ done ++ [last], line ≠ noneText) (few : done.length ≤ 1) (inside : p + (done.length + 1) < frameSize)
    (free : (before (p + (done.length + 1))).value = noneText) :
    (Near before p done.length last → ∃ after, pageLine frameSize varMemSize filename removeto line paging = some after ∧
      Placed frameSize filename p before (done ++ [last]) line after) ∧
    (∀ after, pageLine frameSize varMemSize filename removeto line paging = some after → after.placed = inOrder p (done.length + 2) →
      Near before p done.length last) := by
  have length : (done ++ [last]).length = done.length + 1 := by rw [List.length_append, List.length_singleton]
  have more : (done ++ [last] ++ [line]).length = done.length + 2 := by
    rw [List.length_append, length]
    rfl
  obtain ⟨found, index, search, early⟩ := run.index
  have started : paging.count ≠ 0 := by
    rw [run.count, length]
    exact Nat.succ_ne_zero _
  have same : freeVictim frameSize varMemSize removeto paging = paging := if_neg fun full => started full.2.2
  have target : pageLine frameSize varMemSize filename removeto line paging =
      storeLine frameSize varMemSize filename line (found + 1) paging.removefrom paging := by
    rw [pageLine, same, run.freed, if_neg Bool.false_ne_true, if_pos (by omega), index]
    rfl
  have slot := @Placed.slot_iff frameSize varMemSize p filename line done before paging last found run index busy few inside free
  rw [target]
  constructor
  · intro near
    obtain ⟨after, found', ran, search', early', laid, count, index', freed, _, placed⟩ :=
      storeLine_eq paging.removefrom (slot.mpr near) inside run.laid (by rw [length])
    refine ⟨after, ran, freed.trans run.freed, ?_, ?_, laid, found', index', search', ?_⟩
    · rw [count, run.count, more, length]
    · rw [placed, run.placed, more, length]
      exact inOrder_succ.symm
    · rw [length]
      exact early'
  · intro after ran order
    obtain ⟨found', _, rfl⟩ := storeLine_some ran
    dsimp only at order
    rw [run.placed, length] at order
    have last := List.append_cancel_left (order.trans inOrder_succ)
    exact slot.mp (List.cons.inj last).1

/-- The last line is found in its own slot just where its text is not in a slot before. -/
theorem Placed.found_iff (run : Placed frameSize filename p before done last paging) (index : paging.index = some found)
    (inside : p + done.length < frameSize) :
    found = p + done.length ↔ (∀ slot < p, (before slot).value ≠ last) ∧ last ∉ done := by
  have length : (done ++ [last]).length = done.length + 1 := by rw [List.length_append, List.length_singleton]
  obtain ⟨frame, there, first, early⟩ := run.search index
  have old (slot : Nat) (low : slot < p) : paging.memory slot = before slot := run.old (by omega) low
  have new (k : Nat) (low : k < done.length) : (paging.memory (p + k)).value = done.getD k [] := by
    rw [run.laid.inside (by omega) (by omega), List.getD_append _ _ _ _ low]
  constructor
  · rintro rfl
    refine ⟨?_, ?_⟩
    · intro slot low text
      apply first slot (by omega)
      rw [old slot low, text]
    · intro member
      obtain ⟨k, low, text⟩ := List.mem_iff_getElem.mp member
      apply first (p + k) (by omega)
      rw [new k low, List.getD_eq_getElem?_getD, List.getElem?_eq_getElem low, Option.getD_some, text]
  · rintro ⟨missing, once⟩
    apply Nat.le_antisymm early
    apply Nat.le_of_not_lt
    intro less
    rcases Nat.lt_or_ge found p with low | high
    · apply missing found low
      rw [← old found low, there]
    · obtain ⟨k, rfl⟩ := Nat.exists_eq_add_of_le high
      have low : k < done.length := by omega
      rw [new k low, List.getD_eq_getElem?_getD, List.getElem?_eq_getElem low, Option.getD_some] at there
      exact once (there ▸ List.getElem_mem low)

theorem pageLines_placed (ran : pageLines frameSize varMemSize filename removeto lines paging = some after) :
    ∃ slots, slots.length = lines.length ∧ after.placed = paging.placed ++ slots := by
  induction lines generalizing paging with
  | nil =>
    cases ran
    exact ⟨[], rfl, (List.append_nil _).symm⟩
  | cons line rest ih =>
    obtain ⟨mid, first, others⟩ := Option.bind_eq_some_iff.mp ran
    obtain ⟨_, slot, placed⟩ := pageLine_count first
    obtain ⟨slots, length, placed'⟩ := ih others
    refine ⟨slot :: slots, congrArg Nat.succ length, ?_⟩
    rw [placed', placed, List.append_assoc]
    rfl

/-- The texts of the lines from `k` on are near, but for the last one. -/
def AllNear (before : ShellMemory) (p : Nat) : Nat → List CString → Prop
  | _, [] => True
  | _, [_] => True
  | k, line :: next :: rest => Near before p k line ∧ AllNear before p (k + 1) (next :: rest)

/-- The lines are stored one behind the other just where their texts are near. -/
theorem Placed.run (run : Placed frameSize filename p before done last paging) (few : done.length + rest.length ≤ 2)
    (busy : ∀ line ∈ (done ++ last :: rest).dropLast, line ≠ noneText) (inside : p + (done.length + rest.length) < frameSize)
    (free : ∀ slot, p ≤ slot → slot < p + 3 → (before slot).value = noneText) :
    (AllNear before p done.length (last :: rest) → ∃ after done' last', pageLines frameSize varMemSize filename removeto rest paging = some after ∧
      done' ++ [last'] = done ++ last :: rest ∧ Placed frameSize filename p before done' last' after) ∧
    (∀ after, pageLines frameSize varMemSize filename removeto rest paging = some after →
      after.placed = inOrder p (done.length + rest.length + 1) → AllNear before p done.length (last :: rest)) := by
  induction rest generalizing done last paging with
  | nil => exact ⟨fun _ => ⟨paging, done, last, rfl, rfl, run⟩, fun _ _ _ => trivial⟩
  | cons line rest ih =>
    rw [List.length_cons] at few inside
    have length : (done ++ [last]).length = done.length + 1 := by rw [List.length_append, List.length_singleton]
    have same : done ++ last :: line :: rest = (done ++ [last]) ++ line :: rest := (List.append_cons done last (line :: rest))
    have earlier : ∀ text ∈ done ++ [last], text ≠ noneText := by
      intro text member
      apply busy
      rw [same, List.dropLast_append_of_ne_nil (List.cons_ne_nil line rest)]
      exact List.mem_append_left _ member
    obtain ⟨goes, came⟩ := @Placed.next frameSize varMemSize p filename line removeto done before paging last run earlier (by omega) (by omega)
      (free _ (by omega) (by omega))
    have later {mid : Paging} (run' : Placed frameSize filename p before (done ++ [last]) line mid) :=
      ih run' (by omega) (by rw [← same]; exact busy) (by omega)
    rw [length] at later
    constructor
    · rintro ⟨near, others⟩
      obtain ⟨mid, ran, run'⟩ := goes near
      obtain ⟨after, done', last', ran', lines, run''⟩ := (later run').1 others
      refine ⟨after, done', last', ?_, lines.trans same.symm, run''⟩
      rw [pageLines, ran]
      exact ran'
    · intro after ran order
      obtain ⟨mid, first, others⟩ := Option.bind_eq_some_iff.mp ran
      obtain ⟨slots, count, placed⟩ := pageLines_placed others
      obtain ⟨_, slot, placed'⟩ := pageLine_count first
      have total : inOrder p (done.length + (rest.length + 1) + 1) = inOrder p (done.length + 2) ++ inOrder (p + (done.length + 2)) rest.length := by
        rw [inOrder, inOrder, inOrder, ← List.map_append, List.range'_append_1]
        congr 2
        omega
      have front : mid.placed = inOrder p (done.length + 2) := by
        rw [placed, List.length_cons, total] at order
        apply List.append_inj_left order
        rw [placed', run.placed, length, List.length_append, inOrder, inOrder, List.length_map, List.length_map, List.length_range', List.length_range']
        rfl
      have near := came mid first front
      obtain ⟨mid', first', run'⟩ := goes near
      cases first'.symm.trans first
      refine ⟨near, (later run').2 after others ?_⟩
      rw [order, List.length_cons]
      congr 1
      omega

end Placed

end Comp310.A2
