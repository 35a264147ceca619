import Comp310.A2.LoadFile

/-! For which files and frame stores `load_file` does what it is for. It counts the end of the file as a line where
the last one has a newline, sets no end where there is nothing to read into, and leaves the lines of a file that does
not fit. -/

namespace Comp310.Proofs.FileLoading
open Comp310.A2
open Comp310.Kernel (CString ShellMemory noneText)

/-- The slots from `*pStart` to `*pEnd` were free and have the first lines of the file. -/
structure Loaded (frameSize : Nat) (filename : CString) (file : ProgramFile) (before after : ShellMemory) (pStart pEnd : Int) : Prop where
  inside : 0 ≤ pStart ∧ pStart ≤ pEnd ∧ pEnd < frameSize
  page : pStart % 3 = 0
  free : ∀ slot : Nat, pStart ≤ slot → slot ≤ pEnd → (before slot).var = noneText
  lines : ∀ slot : Nat, pStart ≤ slot → slot ≤ pEnd → file.reads[((slot : Int) - pStart).toNat]? = some (after slot).value
  labels : ∀ slot : Nat, pStart ≤ slot → slot ≤ pEnd → (after slot).var = filename
  others : ∀ slot < frameSize, ¬ (pStart ≤ slot ∧ slot ≤ pEnd) → after slot = before slot

/-- The program is loaded, or there is an error and the frame store is as before, whatever was in `*pStart` and `*pEnd`. -/
def LoadsCorrectly (frameSize varMemSize : Nat) (filename : CString) (file : ProgramFile) (memory : ShellMemory) : Prop :=
  ∀ pStart pEnd : Int, ∃ result, loadFile frameSize varMemSize filename file.opened pStart pEnd memory = some result ∧
    (result.errorCode = 0 → Loaded frameSize filename file memory result.memory result.pStart result.pEnd) ∧
    (result.errorCode ≠ 0 → ∀ slot < frameSize, result.memory slot = memory slot)

/-- No three slots in a row are free. -/
def NoGap (frameSize : Nat) (memory : ShellMemory) : Prop := ∀ slot < frameSize, ¬ ThreeFree memory slot

/-- The file has at least six lines or its end is met with the last one, and its first six lines fit behind all that is taken. -/
def Fits (frameSize : Nat) (file : ProgramFile) (memory : ShellMemory) : Prop :=
  (6 ≤ file.reads.length ∨ file.ended = false) ∧
    ∃ slot, FreeBehind frameSize memory slot ∧ roundUp slot + min file.reads.length 6 ≤ frameSize

/-- The file does not fit, but it is called `none` as free slots are, and they have its lines already. -/
def Unnoticed (frameSize : Nat) (filename : CString) (file : ProgramFile) (memory : ShellMemory) : Prop :=
  filename = noneText ∧ ∃ slot, FreeBehind frameSize memory slot ∧ (∀ other, FreeBehind frameSize memory other → slot ≤ other) ∧
    (roundUp slot < frameSize ∧ frameSize < roundUp slot + 6 ∧
      (frameSize < roundUp slot + file.reads.length ∨ frameSize = roundUp slot + file.reads.length ∧ file.ended = true)) ∧
    (∀ other, roundUp slot ≤ other → other < frameSize → other ≠ 1 → (memory other).value = file.reads.getD (other - roundUp slot) []) ∧
    (1 < frameSize → memory 1 = ⟨noneText, noneText⟩)

section Results
variable {frameSize varMemSize : Nat} {filename : CString} {file : ProgramFile} {memory : ShellMemory} {pStart pEnd : Int}
  {candidate slot : Nat} {start : Option Nat}

theorem roundUp_page : roundUp slot % 3 = 0 := by
  unfold roundUp
  omega

theorem roundUp_mono {other : Nat} (least : slot ≤ other) : roundUp slot ≤ roundUp other := by
  unfold roundUp
  omega

theorem roundUp_bounds : slot ≤ roundUp slot ∧ roundUp slot < slot + 3 := by
  unfold roundUp
  omega

theorem search_eq (frameSize : Nat) (memory : ShellMemory) : ∃ candidate start,
    searchLoop frameSize memory (frameSize + 1) 0 none = some (candidate, start) ∧ (start = none ↔ NoGap frameSize memory) ∧
      (candidate = frameSize ∨ FreeBehind frameSize memory candidate ∧ start = some candidate) ∧
      ∀ other, FreeBehind frameSize memory other → candidate ≤ other := by
  obtain ⟨candidate, start, ran, space, ends, least⟩ := @searchLoop_eq frameSize (frameSize + 1) memory 0 none (Nat.zero_le _) (Nat.lt_succ_self _)
  refine ⟨candidate, start, ran, space.trans ?_, ends, fun other => least other (Nat.zero_le _)⟩
  rw [eq_self, true_and]
  exact ⟨fun none slot inside => none slot (Nat.zero_le _) inside, fun none slot _ inside => none slot inside⟩

theorem load_full (ran : searchLoop frameSize memory (frameSize + 1) 0 none = some (candidate, none)) :
    loadFile frameSize varMemSize filename file.opened pStart pEnd memory = some ⟨21, pStart, pEnd, memory⟩ := by
  rw [loadFile, ran]
  rfl

theorem load_reads (varMemSize : Nat) (filename : CString) (file : ProgramFile) (pStart pEnd : Int) {first : Nat}
    (ran : searchLoop frameSize memory (frameSize + 1) 0 none = some (candidate, some first)) :
    ∃ steps loaded, steps = min (frameSize - roundUp candidate) (min 6 (file.reads.length + file.ended.toNat)) ∧
      ReadResult frameSize filename file.reads file.ended (roundUp candidate) steps (frameSize - roundUp candidate)
        ⟨file.opened, 0, pEnd, memory⟩ loaded ∧
      loadFile frameSize varMemSize filename file.opened pStart pEnd memory = some
        (if loaded.fp.eof = false ∧ loaded.linesRead < 6 ∧ loaded.pEnd = (frameSize : Int) - 1 then
          ⟨21, if candidate % 3 ≠ 0 then roundUp candidate else first, loaded.pEnd,
            cleanUp frameSize varMemSize (roundUp candidate) loaded.memory⟩
        else ⟨0, if candidate % 3 ≠ 0 then roundUp candidate else first, loaded.pEnd, loaded.memory⟩) := by
  let opened : Loading := ⟨file.opened, 0, pEnd, memory⟩
  refine ⟨_, readLoop frameSize varMemSize filename (frameSize - roundUp candidate) (roundUp candidate) opened, rfl, ?_, ?_⟩
  · have few : opened.linesRead ≤ 6 := Nat.zero_le 6
    exact readLoop_result file.opened_gives file.reads_text rfl ProgramFile.reads_nil few rfl
  · rw [loadFile, ran]
    rfl

/-- The error, where the lines that were read do not end the file. -/
theorem load_error {first : Nat} (ran : searchLoop frameSize memory (frameSize + 1) 0 none = some (candidate, some first))
    (some : roundUp candidate < frameSize) (few : frameSize < roundUp candidate + 6)
    (long : frameSize < roundUp candidate + file.reads.length ∨ frameSize = roundUp candidate + file.reads.length ∧ file.ended = true) :
    ∃ result, loadFile frameSize varMemSize filename file.opened pStart pEnd memory = Option.some result ∧ result.errorCode = 21 ∧
      ∀ slot < frameSize, result.memory slot = if slot = 1 then ⟨noneText, noneText⟩
        else if roundUp candidate ≤ slot then ⟨filename, file.reads.getD (slot - roundUp candidate) []⟩ else memory slot := by
  obtain ⟨steps, loaded, count, reads, result⟩ := load_reads varMemSize filename file pStart pEnd ran
  have ended : frameSize = roundUp candidate + file.reads.length → file.ended.toNat = 1 := by
    intro same
    have last := (long.resolve_left (by omega)).2
    rw [last]
    rfl
  have all : steps = frameSize - roundUp candidate := by omega
  have shown : loaded.fp.eof = false ∧ loaded.linesRead < 6 ∧ loaded.pEnd = (frameSize : Int) - 1 := by
    refine ⟨?_, ?_, ?_⟩
    · rw [← Bool.not_eq_true, reads.eof]
      omega
    · rw [reads.linesRead]
      dsimp only
      omega
    · rw [reads.pEnd, if_pos (by omega)]
      omega
  rw [if_pos shown] at result
  refine ⟨_, result, rfl, ?_⟩
  intro slot frame
  dsimp only
  rw [cleanUp_slot (by omega), reads.memory slot frame]
  refine if_congr .rfl rfl (if_congr ?_ rfl rfl)
  omega

theorem start_eq : (if candidate % 3 ≠ 0 then (roundUp candidate : Int) else candidate) = roundUp candidate := by
  unfold roundUp
  split <;> omega

theorem reads_some (whole : 6 ≤ file.reads.length ∨ file.ended = false) : 0 < file.reads.length := by
  rcases whole with many | last
  · omega
  · apply List.length_pos_of_ne_nil
    intro empty
    exact Bool.false_ne_true (last.symm.trans (ProgramFile.reads_nil empty))

theorem load_done (ran : searchLoop frameSize memory (frameSize + 1) 0 none = some (candidate, some candidate))
    (behind : FreeBehind frameSize memory candidate) (whole : 6 ≤ file.reads.length ∨ file.ended = false)
    (fits : roundUp candidate + min file.reads.length 6 ≤ frameSize) :
    ∃ result, loadFile frameSize varMemSize filename file.opened pStart pEnd memory = some result ∧ result.errorCode = 0 ∧
      Loaded frameSize filename file memory result.memory result.pStart result.pEnd := by
  obtain ⟨steps, loaded, count, reads, result⟩ := load_reads varMemSize filename file pStart pEnd ran
  have some := reads_some whole
  have ended : file.reads.length < 6 → file.ended.toNat = 0 := by
    intro few
    have last := whole.resolve_left (by omega)
    rw [last]
    rfl
  have all : steps = min file.reads.length 6 := by omega
  have notShown : ¬ (loaded.fp.eof = false ∧ loaded.linesRead < 6 ∧ loaded.pEnd = (frameSize : Int) - 1) := by
    rintro ⟨more, few, _⟩
    rw [← Bool.not_eq_true, reads.eof] at more
    rw [reads.linesRead] at few
    dsimp only at few
    omega
  rw [if_neg notShown, start_eq] at result
  have last : loaded.pEnd = roundUp candidate + steps - 1 := by
    rw [reads.pEnd, if_pos (by omega)]
  refine ⟨_, result, rfl, ?_⟩
  dsimp only
  rw [last]
  have page := @roundUp_page candidate
  have there (slot : Nat) (low : (roundUp candidate : Int) ≤ slot) (high : (slot : Int) ≤ roundUp candidate + steps - 1) :
      loaded.memory slot = ⟨filename, file.reads.getD (slot - roundUp candidate) []⟩ := by
    rw [reads.memory slot (by omega), if_pos (by omega)]
  refine ⟨by omega, by omega, ?_, ?_, ?_, ?_⟩
  · intro slot low high
    have above := (@roundUp_bounds candidate).1
    exact behind.all slot (by omega) (by omega)
  · intro slot low high
    have place : ((slot : Int) - roundUp candidate).toNat = slot - roundUp candidate := by omega
    rw [there slot low high, place, List.getD_eq_getElem?_getD, List.getElem?_eq_getElem (by omega), Option.getD_some]
  · intro slot low high
    rw [there slot low high]
  · intro slot frame outside
    rw [reads.memory slot frame, if_neg (by omega)]

/-- Where nothing can be read into, `*pEnd` stays as it was. -/
theorem load_nowhere {first : Nat} (ran : searchLoop frameSize memory (frameSize + 1) 0 none = some (candidate, some first))
    (nowhere : frameSize ≤ roundUp candidate) : ¬ LoadsCorrectly frameSize varMemSize filename file memory := by
  intro correct
  obtain ⟨result, loads, done, _⟩ := correct 0 frameSize
  obtain ⟨steps, loaded, count, reads, same⟩ := load_reads varMemSize filename file 0 frameSize ran
  have last : loaded.pEnd = frameSize := by rw [reads.pEnd, if_neg (by omega)]
  rw [if_neg (by omega)] at same
  cases same.symm.trans loads
  have inside := (done rfl).inside.2.2
  dsimp only at inside
  omega

theorem load_past (ran : searchLoop frameSize memory (frameSize + 1) 0 none = some (candidate, some candidate))
    (few : file.reads.length < 6) (ended : file.ended = true) (inside : roundUp candidate + file.reads.length < frameSize) :
    ¬ LoadsCorrectly frameSize varMemSize filename file memory := by
  intro correct
  obtain ⟨result, loads, done, _⟩ := correct 0 (roundUp candidate + file.reads.length)
  obtain ⟨steps, loaded, count, reads, same⟩ :=
    load_reads varMemSize filename file 0 (roundUp candidate + file.reads.length) ran
  rw [ended, Bool.toNat_true] at count
  have all : steps = file.reads.length + 1 := by omega
  have met : loaded.fp.eof = true := by
    rw [reads.eof, ended]
    exact all
  have last : loaded.pEnd = roundUp candidate + file.reads.length := by
    rw [reads.pEnd, all]
    dsimp only
    split <;> omega
  rw [if_neg fun shown => Bool.false_ne_true (shown.1.symm.trans met), start_eq] at same
  cases same.symm.trans loads
  have line := (done rfl).lines (roundUp candidate + file.reads.length)
  dsimp only at line
  rw [last] at line
  have nothing := line (by omega) (by omega)
  rw [List.getElem?_eq_none (by omega)] at nothing
  cases nothing

/-- A file that does not fit is left in the frame store, and one slot is cleared. -/
theorem load_left (ran : searchLoop frameSize memory (frameSize + 1) 0 none = some (candidate, some candidate))
    (behind : FreeBehind frameSize memory candidate) (least : ∀ other, FreeBehind frameSize memory other → candidate ≤ other)
    (some : roundUp candidate < frameSize) (few : frameSize < roundUp candidate + 6)
    (long : frameSize < roundUp candidate + file.reads.length ∨ frameSize = roundUp candidate + file.reads.length ∧ file.ended = true) :
    LoadsCorrectly frameSize varMemSize filename file memory ↔ Unnoticed frameSize filename file memory := by
  have page := @roundUp_page candidate
  have above := (@roundUp_bounds candidate).1
  constructor
  · intro correct
    obtain ⟨result, loads, _, failed⟩ := correct 0 0
    obtain ⟨result', loads', code, slots⟩ := @load_error frameSize varMemSize filename file memory 0 0 candidate candidate ran some few long
    cases loads'.symm.trans loads
    have same (slot : Nat) (frame : slot < frameSize) := (slots slot frame).symm.trans (failed (by rw [code]; decide) slot frame)
    refine ⟨?_, candidate, behind, least, ⟨some, few, long⟩, ?_, ?_⟩
    · have first := same (roundUp candidate) some
      rw [if_neg (by omega), if_pos (Nat.le_refl _)] at first
      rw [← behind.all (roundUp candidate) above some, ← first]
    · intro other low frame differs
      have here := same other frame
      rw [if_neg differs, if_pos low] at here
      rw [← here]
    · intro second
      have here := same 1 second
      rw [if_pos rfl] at here
      exact here.symm
  · rintro ⟨rfl, slot, behind', least', _, lines, cleared⟩ pStart pEnd
    obtain rfl := Nat.le_antisymm (least slot behind') (least' candidate behind)
    obtain ⟨result, loads, code, slots⟩ := load_error ran some few long
    refine ⟨result, loads, fun zero => ?_, fun _ slot frame => ?_⟩
    · rw [code] at zero
      cases zero
    · rw [slots slot frame]
      split
      next one =>
        subst one
        exact (cleared frame).symm
      next other =>
        split
        next low =>
          rw [← lines slot low frame other, ← behind.all slot (by omega) frame]
        next => rfl

/-- Where the file fits it fits from the first slots on that are free behind all that is taken. -/
theorem Fits.least (fits : Fits frameSize file memory) (least : ∀ other, FreeBehind frameSize memory other → candidate ≤ other) :
    (6 ≤ file.reads.length ∨ file.ended = false) ∧ roundUp candidate + min file.reads.length 6 ≤ frameSize := by
  obtain ⟨whole, slot, behind, room⟩ := fits
  have before := roundUp_mono (least slot behind)
  exact ⟨whole, by omega⟩

theorem Unnoticed.least (left : Unnoticed frameSize filename file memory) (behind : FreeBehind frameSize memory candidate)
    (least : ∀ other, FreeBehind frameSize memory other → candidate ≤ other) : roundUp candidate < frameSize ∧
      (frameSize < roundUp candidate + file.reads.length ∨ frameSize = roundUp candidate + file.reads.length ∧ file.ended = true) := by
  obtain ⟨_, slot, behind', least', ⟨some, _, long⟩, _⟩ := left
  obtain rfl := Nat.le_antisymm (least slot behind') (least' candidate behind)
  exact ⟨some, long⟩

/-- The file is read from the first slots on that are free behind all that is taken. -/
theorem load_behind (ran : searchLoop frameSize memory (frameSize + 1) 0 none = some (candidate, some candidate))
    (behind : FreeBehind frameSize memory candidate) (least : ∀ other, FreeBehind frameSize memory other → candidate ≤ other) :
    LoadsCorrectly frameSize varMemSize filename file memory ↔
      Fits frameSize file memory ∨ Unnoticed frameSize filename file memory := by
  by_cases nowhere : frameSize ≤ roundUp candidate
  · refine iff_of_false (load_nowhere ran nowhere) ?_
    rintro (fits | left)
    · obtain ⟨whole, room⟩ := fits.least least
      have some := reads_some whole
      omega
    · have some := (left.least behind least).1
      omega
  by_cases fits : (6 ≤ file.reads.length ∨ file.ended = false) ∧ roundUp candidate + min file.reads.length 6 ≤ frameSize
  · refine iff_of_true ?_ (.inl ⟨fits.1, candidate, behind, fits.2⟩)
    intro pStart pEnd
    obtain ⟨result, loads, code, done⟩ := load_done ran behind fits.1 fits.2
    exact ⟨result, loads, fun _ => done, fun error => absurd code error⟩
  have missing : ¬ Fits frameSize file memory := fun there => fits (there.least least)
  by_cases past : file.reads.length < 6 ∧ file.ended = true ∧ roundUp candidate + file.reads.length < frameSize
  · refine iff_of_false (load_past ran past.1 past.2.1 past.2.2) ?_
    rintro (there | left)
    · exact missing there
    · have long := (left.least behind least).2
      omega
  -- the lines that are read end in the last slot of the frame store, or do not fit
  have short (room : roundUp candidate + min file.reads.length 6 ≤ frameSize) : file.reads.length < 6 ∧ file.ended = true ∧
      frameSize ≤ roundUp candidate + file.reads.length := by
    obtain ⟨less, ended⟩ := not_or.mp fun whole => fits ⟨whole, room⟩
    have ended := eq_true_of_ne_false ended
    exact ⟨Nat.lt_of_not_le less, ended, Nat.le_of_not_lt fun inside => past ⟨Nat.lt_of_not_le less, ended, inside⟩⟩
  have few : frameSize < roundUp candidate + 6 := by
    apply Nat.lt_of_not_le
    intro room
    have less := short (by omega)
    omega
  have long : frameSize < roundUp candidate + file.reads.length ∨ frameSize = roundUp candidate + file.reads.length ∧ file.ended = true := by
    rcases Nat.lt_or_ge frameSize (roundUp candidate + file.reads.length) with less | room
    · exact .inl less
    · obtain ⟨_, ended, bound⟩ := short (by omega)
      exact .inr ⟨Nat.le_antisymm bound room, ended⟩
  rw [or_iff_right missing]
  exact load_left ran behind least (Nat.lt_of_not_le nowhere) few long

/-- A program is loaded as it has to be, or not at all, just where the frame store is full, or the program is long enough
or ends without a newline and fits behind all that is taken, or the lines that are left behind make no difference. -/
theorem loads_iff : LoadsCorrectly frameSize varMemSize filename file memory ↔
    NoGap frameSize memory ∨ Fits frameSize file memory ∨ Unnoticed frameSize filename file memory := by
  obtain ⟨candidate, start, ran, space, ends, least⟩ := search_eq frameSize memory
  cases start with
  | none =>
    refine iff_of_true ?_ (.inl (space.mp rfl))
    intro pStart pEnd
    refine ⟨_, load_full ran, fun zero => ?_, fun _ _ _ => rfl⟩
    cases zero
  | some first =>
    have gap : ¬ NoGap frameSize memory := fun full => Option.some_ne_none first (space.mpr full)
    rw [or_iff_right gap]
    rcases ends with rfl | ⟨behind, same⟩
    · have nowhere (other : Nat) (behind : FreeBehind candidate memory other) : False :=
        Nat.not_lt_of_le (least other behind) behind.inside
      refine iff_of_false (load_nowhere ran (@roundUp_bounds candidate).1) ?_
      rintro (⟨_, other, behind, _⟩ | ⟨_, other, behind, _⟩)
      · exact nowhere other behind
      · exact nowhere other behind
    · cases same
      exact load_behind ran behind least

end Results

section Example

/-- Four lines `a`, each with its newline. -/
def four : ProgramFile := ⟨[97, 10, 97, 10, 97, 10, 97, 10], by decide⟩

/-- A free frame store of three slots gets the first lines of a program of four. They stay there but for one of them, although there is an error. -/
theorem lines_left : ¬ LoadsCorrectly 3 700 [112] four Kernel.memInit := by
  intro correct
  obtain ⟨result, loads, _, failed⟩ := correct 0 0
  have behind : FreeBehind 3 Kernel.memInit 0 := ⟨by decide, fun _ _ => rfl, fun _ _ _ => rfl⟩
  have search : searchLoop 3 Kernel.memInit (3 + 1) 0 none = some (0, some 0) := by decide
  obtain ⟨result', loads', code, slots⟩ := @load_error 3 700 [112] four Kernel.memInit 0 0 0 0 search (by decide) (by decide) (.inl (by decide))
  cases loads'.symm.trans loads
  have first := (slots 0 (by decide)).symm.trans (failed (by rw [code]; decide) 0 (by decide))
  exact absurd first (by decide)

end Example

end Comp310.Proofs.FileLoading
