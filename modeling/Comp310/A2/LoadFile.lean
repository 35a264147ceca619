import Comp310.A2.ShellMemory
import Comp310.A2.Stdio

/-! Loading a program into the frame store (`load_file` of a2/shellmemory.c). What
is behind the array is read as it is. -/

namespace Comp310.A2
open Comp310.Kernel (CString ShellMemory MemoryStruct memPut memSetValue noneText strdup strdup_whole)

def isSpace (c : UInt8) : Bool := c == 32 || (9 ≤ c && c ≤ 13)

/-- `%150s` of `sscanf`, and what is behind it. -/
def scanWord (text : CString) : CString × CString :=
  let text := text.dropWhile isSpace
  let word := (text.takeWhile fun c => !isSpace c).take 150
  (word, text.drop word.length)

/-- The variable of a line that starts with `set`. -/
def setLine (frameSize varMemSize : Nat) (line : CString) (memory : ShellMemory) : ShellMemory :=
  if line.take 4 = [115, 101, 116, 32] then
    let var := scanWord (line.drop 3)
    let val := scanWord var.2
    if var.1 = [] ∨ val.1 = [] then memory else memSetValue frameSize varMemSize var.1 val.1 memory
  else memory

def slotFree (memory : ShellMemory) (i : Nat) : Bool := (memory i).var == noneText

section LoadFile
variable (frameSize varMemSize : Nat) (filename : CString)

/-- The first loop of the search, from `i` on. -/
def findThree (memory : ShellMemory) (i : Nat) : Option Nat :=
  (List.range' i (frameSize - i)).find? fun i => slotFree memory i && slotFree memory (i + 1) && slotFree memory (i + 2)

/-- The second loop. -/
def findTaken (memory : ShellMemory) (i : Nat) : Option Nat := (List.range' i (frameSize - i)).find? fun i => !slotFree memory i

/-- The search, with `candidate` and what is in `*pStart` if there is space left. -/
def searchLoop (memory : ShellMemory) : Nat → Nat → Option Nat → Option (Nat × Option Nat)
  | 0, _, _ => none
  | fuel + 1, i, start =>
    let three := findThree frameSize memory i
    let candidate := three.getD frameSize
    let start := three.or start
    match findTaken frameSize memory candidate with
    | some i => searchLoop memory fuel i start
    | none => some (candidate, start)

/-- `while(i % 3 != 0) i++` -/
def roundUp (i : Nat) : Nat := (i + 2) / 3 * 3

structure Loading where
  fp : Stream
  linesRead : Nat
  pEnd : Int
  memory : ShellMemory

/-- The loop that reads, for the slots that are left from `j` on. -/
def readLoop : Nat → Nat → Loading → Loading
  | 0, _, loading => loading
  | left + 1, j, loading =>
    if loading.fp.eof = true ∨ loading.linesRead = 6 then { loading with pEnd := (j : Int) - 1 }
    else
      match fgets 101 loading.fp with
      | (none, fp) => readLoop left (j + 1) { loading with fp, linesRead := loading.linesRead + 1 }
      | (some line, fp) =>
        let memory := setLine frameSize varMemSize line (memPut loading.memory j ⟨filename, strdup line⟩)
        let loading := { loading with fp, linesRead := loading.linesRead + 1, memory }
        if j = frameSize - 1 then { loading with pEnd := j } else readLoop left (j + 1) loading

/-- The loop that is to clean up: it counts in `i` and clears at `j`. -/
def cleanUp (i : Nat) (memory : ShellMemory) : ShellMemory :=
  (List.range' i (frameSize + varMemSize + 1 - i)).foldl (fun memory _ => memPut memory 1 ⟨noneText, noneText⟩) memory

structure LoadResult where
  errorCode : Int
  pStart : Int
  pEnd : Int
  memory : ShellMemory

/-- What was in `*pStart` and `*pEnd` before comes with them; `lines_read` starts at 0. -/
def loadFile (fp : Stream) (pStart pEnd : Int) (memory : ShellMemory) : Option LoadResult :=
  (searchLoop frameSize memory (frameSize + 1) 0 none).map fun found =>
    match found.2 with
    | none => ⟨21, pStart, pEnd, memory⟩
    | some start =>
      let i := roundUp found.1
      let pStart : Int := if found.1 % 3 ≠ 0 then i else start
      let loaded := readLoop frameSize varMemSize filename (frameSize - i) i ⟨fp, 0, pEnd, memory⟩
      if loaded.fp.eof = false ∧ loaded.linesRead < 6 ∧ loaded.pEnd = (frameSize : Int) - 1 then
        ⟨21, pStart, loaded.pEnd, cleanUp frameSize varMemSize i loaded.memory⟩
      else ⟨0, pStart, loaded.pEnd, loaded.memory⟩

end LoadFile

/-- The slot and the two behind it are free. -/
def ThreeFree (memory : ShellMemory) (slot : Nat) : Prop := ∀ k < 3, (memory (slot + k)).var = noneText

/-- The first of three free slots, with none taken behind it. -/
structure FreeBehind (frameSize : Nat) (memory : ShellMemory) (slot : Nat) : Prop where
  inside : slot < frameSize
  three : ThreeFree memory slot
  all : ∀ other, slot ≤ other → other < frameSize → (memory other).var = noneText

section Search
variable {frameSize fuel : Nat} {memory : ShellMemory} {i slot : Nat} {start : Option Nat}

theorem slotFree_iff : slotFree memory i = true ↔ (memory i).var = noneText := beq_iff_eq

theorem threeFree_iff : (slotFree memory i && slotFree memory (i + 1) && slotFree memory (i + 2)) = true ↔ ThreeFree memory i := by
  simp only [Bool.and_eq_true, slotFree_iff]
  constructor
  · rintro ⟨⟨first, second⟩, third⟩ k small
    obtain rfl | rfl | rfl : k = 0 ∨ k = 1 ∨ k = 2 := by omega
    · exact first
    · exact second
    · exact third
  · intro free
    exact ⟨⟨free 0 (by decide), free 1 (by decide)⟩, free 2 (by decide)⟩

theorem findThree_some (found : findThree frameSize memory i = some slot) : i ≤ slot ∧ slot < frameSize ∧ ThreeFree memory slot ∧
    ∀ other, i ≤ other → other < slot → ¬ ThreeFree memory other := by
  obtain ⟨three, member, before⟩ := List.find?_range'_eq_some.mp found
  obtain ⟨low, high⟩ := List.mem_range'_1.mp member
  refine ⟨low, by omega, threeFree_iff.mp three, ?_⟩
  intro other above below free
  have taken := before other above below
  rw [threeFree_iff.mpr free] at taken
  cases taken

theorem findThree_none : findThree frameSize memory i = none ↔ ∀ other, i ≤ other → other < frameSize → ¬ ThreeFree memory other := by
  rw [findThree, List.find?_eq_none]
  constructor
  · intro none other above inside free
    exact none other (List.mem_range'_1.mpr ⟨above, by omega⟩) (threeFree_iff.mpr free)
  · intro none other member free
    obtain ⟨above, inside⟩ := List.mem_range'_1.mp member
    exact none other above (by omega) (threeFree_iff.mp free)

theorem findTaken_some (found : findTaken frameSize memory i = some slot) : i ≤ slot ∧ slot < frameSize ∧ (memory slot).var ≠ noneText := by
  obtain ⟨taken, member, _⟩ := List.find?_range'_eq_some.mp found
  obtain ⟨low, high⟩ := List.mem_range'_1.mp member
  refine ⟨low, by omega, ?_⟩
  intro free
  rw [slotFree_iff.mpr free] at taken
  cases taken

theorem findTaken_none (none : findTaken frameSize memory i = none) : ∀ other, i ≤ other → other < frameSize → (memory other).var = noneText := by
  intro other above inside
  have free := List.find?_eq_none.mp none other (List.mem_range'_1.mpr ⟨above, by omega⟩)
  rw [Bool.not_eq_true, Bool.not_eq_false'] at free
  exact slotFree_iff.mp free

/-- The search ends at the first free slots behind all that are taken, if there are any. -/
theorem searchLoop_eq (inside : i ≤ frameSize) (enough : frameSize < fuel + i) :
    ∃ candidate start', searchLoop frameSize memory fuel i start = some (candidate, start') ∧
      (start' = none ↔ start = none ∧ ∀ other, i ≤ other → other < frameSize → ¬ ThreeFree memory other) ∧
      (candidate = frameSize ∨ FreeBehind frameSize memory candidate ∧ start' = some candidate) ∧
      ∀ other, i ≤ other → FreeBehind frameSize memory other → candidate ≤ other := by
  induction fuel generalizing i start with
  | zero => omega
  | succ fuel ih =>
    rw [searchLoop]
    cases three : findThree frameSize memory i with
    | none =>
      have nothing := findThree_none.mp three
      have stop : findTaken frameSize memory frameSize = none := by
        rw [findTaken, Nat.sub_self]
        rfl
      refine ⟨frameSize, start, ?_, ?_, .inl rfl, ?_⟩
      · rw [Option.getD_none, stop]
        rfl
      · rw [iff_self_and]
        exact fun _ => nothing
      · intro other above behind
        exact absurd behind.three (nothing other above behind.inside)
    | some slot =>
      obtain ⟨above, below, free, before⟩ := findThree_some three
      rw [Option.getD_some, Option.some_or]
      cases taken : findTaken frameSize memory slot with
      | none =>
        refine ⟨slot, some slot, rfl, ?_, .inr ⟨⟨below, free, findTaken_none taken⟩, rfl⟩, ?_⟩
        · refine iff_of_false (Option.some_ne_none slot) ?_
          rintro ⟨_, nothing⟩
          exact nothing slot above below free
        · intro other above' behind
          apply Nat.le_of_not_lt
          intro less
          exact before other above' less behind.three
      | some next =>
        obtain ⟨after, inside', occupied⟩ := findTaken_some taken
        have differs : next ≠ slot := by
          intro same
          exact occupied (same ▸ free 0 (by decide))
        obtain ⟨candidate, start', ran, space, ends, least⟩ := @ih next (some slot) (Nat.le_of_lt inside') (by omega)
        refine ⟨candidate, start', ran, ?_, ends, ?_⟩
        · refine iff_of_false ?_ ?_
          · intro none
            exact Option.some_ne_none slot (space.mp none).1
          · rintro ⟨_, nothing⟩
            exact nothing slot above below free
        · intro other above' behind
          apply least other _ behind
          apply Nat.le_of_not_lt
          intro less
          exact occupied (behind.all next (Nat.le_of_lt less) inside')

end Search

section Reading
variable {frameSize varMemSize : Nat} {filename line : CString} {memory : ShellMemory} {i slot : Nat}

theorem setLine_frame (frame : slot < frameSize) : setLine frameSize varMemSize line memory slot = memory slot := by
  unfold setLine
  split
  · dsimp only
    split
    · rfl
    · exact Kernel.memSetValue_frame frame
  · rfl

/-- Whatever `i` counts to, one slot is cleared. -/
theorem cleanUp_slot (below : i ≤ frameSize + varMemSize) :
    cleanUp frameSize varMemSize i memory slot = if slot = 1 then ⟨noneText, noneText⟩ else memory slot := by
  have loop (count : List Nat) (memory : ShellMemory) : (count.foldl (fun memory _ => memPut memory 1 ⟨noneText, noneText⟩) memory) slot =
      if count ≠ [] ∧ slot = 1 then ⟨noneText, noneText⟩ else memory slot := by
    induction count generalizing memory with
    | nil => simp
    | cons first rest ih =>
      rw [List.foldl_cons, ih]
      by_cases here : slot = 1 <;> simp [here, memPut]
  have some : List.range' i (frameSize + varMemSize + 1 - i) ≠ [] := by
    rw [Ne, List.range'_eq_nil_iff]
    omega
  rw [cleanUp, loop]
  exact if_congr (and_iff_right some) rfl rfl

/-- How often the loop that reads is run through, with room for so many lines. -/
def readSteps (room linesRead : Nat) (lines : List CString) (ended : Bool) : Nat := min room (min (6 - linesRead) (lines.length + ended.toNat))

/-- What the loop leaves. Where it is not stopped before the end of the frame store, `*pEnd` is set by the last line that is read. -/
structure ReadResult (frameSize : Nat) (filename : CString) (lines : List CString) (ended : Bool) (j steps room : Nat)
    (before after : Loading) : Prop where
  linesRead : after.linesRead = before.linesRead + steps
  eof : after.fp.eof = true ↔ steps = lines.length + ended.toNat
  pEnd : after.pEnd = if steps < room ∨ 0 < steps ∧ steps ≤ lines.length then (j : Int) + steps - 1 else before.pEnd
  memory : ∀ slot < frameSize, after.memory slot =
    if j ≤ slot ∧ slot < j + min steps lines.length then ⟨filename, lines.getD (slot - j) []⟩ else before.memory slot

variable {room j : Nat} {loading : Loading} {lines : List CString} {ended : Bool}

theorem readLoop_stopped (stop : loading.fp.eof = true ∨ loading.linesRead = 6) : readLoop frameSize varMemSize filename room j loading =
    { loading with pEnd := if room = 0 then loading.pEnd else (j : Int) - 1 } := by
  cases room with
  | zero => rfl
  | succ room => exact if_pos stop

theorem ReadResult.cons {before' after : Loading} {left : List CString} {steps : Nat}
    (tail : ReadResult frameSize filename left ended (j + 1) steps room before' after)
    (linesRead : before'.linesRead = loading.linesRead + 1)
    (memory : ∀ slot < frameSize, before'.memory slot = if slot = j then ⟨filename, line⟩ else loading.memory slot)
    (last : room = 0 → steps = 0 ∧ before'.pEnd = j) (other : 0 < room → before'.pEnd = loading.pEnd) :
    ReadResult frameSize filename (line :: left) ended j (steps + 1) (room + 1) loading after := by
  refine ⟨?_, ?_, ?_, ?_⟩
  · have read := tail.linesRead
    omega
  · rw [tail.eof, List.length_cons]
    omega
  · rw [tail.pEnd, List.length_cons]
    rcases Nat.eq_zero_or_pos room with rfl | positive
    · obtain ⟨rfl, pEnd⟩ := last rfl
      rw [if_neg (by omega), if_pos (by omega), pEnd]
      omega
    · rw [other positive]
      split <;> split <;> omega
  · intro slot frame
    rw [tail.memory slot frame, memory slot frame, List.length_cons]
    by_cases first : slot = j
    · rw [if_neg (by omega), if_pos first, if_pos (by omega), first, Nat.sub_self, List.getD_cons_zero]
    · by_cases later : j + 1 ≤ slot ∧ slot < j + 1 + min steps left.length
      · have next : slot - j = slot - (j + 1) + 1 := by omega
        rw [if_pos later, if_pos (by omega), next, List.getD_cons_succ]
      · rw [if_neg later, if_neg first, if_neg (by omega)]

/-- Nothing is read. The loop sets `*pEnd` if there is room. -/
theorem ReadResult.stopped {pEnd : Int} (ends : loading.fp.eof = true ↔ 0 = lines.length + ended.toNat)
    (keeps : room = 0 → pEnd = loading.pEnd) (sets : 0 < room → pEnd = (j : Int) - 1) :
    ReadResult frameSize filename lines ended j 0 room loading { loading with pEnd } := by
  refine ⟨rfl, ends, ?_, ?_⟩
  · split
    next before => exact (sets (by omega)).trans (by omega)
    next after => exact keeps (by omega)
  · intro slot _
    refine (if_neg ?_).symm
    omega

theorem ReadResult.past {fp : Stream} (eof : fp.eof = true) :
    ReadResult frameSize filename [] true j 1 (room + 1) loading
      { loading with fp, linesRead := loading.linesRead + 1, pEnd := if room = 0 then loading.pEnd else ((j + 1 : Nat) : Int) - 1 } := by
  refine ⟨rfl, iff_of_true eof rfl, ?_, ?_⟩
  · dsimp only
    rw [List.length_nil]
    split <;> split <;> omega
  · intro slot _
    refine (if_neg ?_).symm
    rw [List.length_nil]
    omega

theorem readLoop_result (gives : Gives ended lines loading.fp) (text : ∀ line ∈ lines, 0 ∉ line) (more : loading.fp.eof = false)
    (nonempty : lines = [] → ended = true) (few : loading.linesRead ≤ 6) (size : room = frameSize - j) :
    ReadResult frameSize filename lines ended j (readSteps room loading.linesRead lines ended) room loading
      (readLoop frameSize varMemSize filename room j loading) := by
  have notEnded : loading.fp.eof = true ↔ 0 = lines.length + ended.toNat := by
    rw [more]
    refine iff_of_false Bool.false_ne_true ?_
    cases lines with
    | nil => rw [nonempty rfl]; decide
    | cons line lines => rw [List.length_cons]; omega
  induction room generalizing j loading lines with
  | zero =>
    have none : readSteps 0 loading.linesRead lines ended = 0 := Nat.zero_min _
    rw [none]
    exact .stopped notEnded (fun _ => rfl) fun some => absurd some (Nat.lt_irrefl 0)
  | succ room ih =>
    by_cases six : loading.linesRead = 6
    · have none : readSteps (room + 1) loading.linesRead lines ended = 0 := by
        rw [readSteps, six, Nat.sub_self, Nat.zero_min, Nat.min_zero]
      rw [none, readLoop_stopped (.inr six), if_neg (Nat.succ_ne_zero room)]
      exact .stopped notEnded (fun none => absurd none (Nat.succ_ne_zero room)) fun _ => rfl
    have going : ¬ (loading.fp.eof = true ∨ loading.linesRead = 6) := by
      rintro (eof | same)
      · exact Bool.false_ne_true (more.symm.trans eof)
      · exact six same
    rw [readLoop, if_neg going]
    cases lines with
    | nil =>
      obtain rfl := nonempty rfl
      have one : readSteps (room + 1) loading.linesRead [] true = 1 := by
        rw [readSteps, List.length_nil, Bool.toNat_true]
        omega
      rw [one, fgets_end gives]
      dsimp only
      rw [readLoop_stopped (.inl rfl)]
      exact .past rfl
    | cons line left =>
      obtain ⟨fp', read, eof, gives'⟩ := gives
      rw [more, Bool.false_or] at eof
      rw [read]
      dsimp only
      rw [strdup_whole (text line List.mem_cons_self)]
      have stored (slot : Nat) (frame : slot < frameSize) :
          setLine frameSize varMemSize line (memPut loading.memory j ⟨filename, line⟩) slot =
            if slot = j then ⟨filename, line⟩ else loading.memory slot := setLine_frame frame
      generalize setLine frameSize varMemSize line (memPut loading.memory j ⟨filename, line⟩) = memory at stored ⊢
      have linesRead : loading.linesRead + 1 ≤ 6 := by omega
      have ends : fp'.eof = true ↔ 0 = left.length + ended.toNat := by
        rw [eof]
        cases left <;> cases ended <;> simp
      rcases Nat.eq_zero_or_pos room with rfl | positive
      · have one : readSteps (0 + 1) loading.linesRead (line :: left) ended = 0 + 1 := by
          rw [readSteps, List.length_cons]
          omega
        rw [one, if_pos (by omega)]
        have last : ReadResult frameSize filename left ended (j + 1) 0 0 ⟨fp', loading.linesRead + 1, j, memory⟩
            ⟨fp', loading.linesRead + 1, j, memory⟩ := .stopped ends (fun _ => rfl) fun some => absurd some (Nat.lt_irrefl 0)
        exact last.cons rfl stored (fun _ => ⟨rfl, rfl⟩) fun some => absurd some (Nat.lt_irrefl 0)
      have later : 0 < room → loading.pEnd = loading.pEnd := fun _ => rfl
      have inside : room ≠ 0 := Nat.ne_of_gt positive
      rw [if_neg (by omega)]
      by_cases met : fp'.eof = true
      · have nothing := ends.mp met
        have one : readSteps (room + 1) loading.linesRead (line :: left) ended = 0 + 1 := by
          rw [readSteps, List.length_cons]
          omega
        rw [one, readLoop_stopped (.inl met), if_neg inside]
        have stops : ReadResult frameSize filename left ended (j + 1) 0 room ⟨fp', loading.linesRead + 1, loading.pEnd, memory⟩
            ⟨fp', loading.linesRead + 1, ((j + 1 : Nat) : Int) - 1, memory⟩ := .stopped ends (fun none => absurd none inside) fun _ => rfl
        exact stops.cons rfl stored (fun none => absurd none inside) later
      · have one : readSteps (room + 1) loading.linesRead (line :: left) ended = readSteps room (loading.linesRead + 1) left ended + 1 := by
          rw [readSteps, readSteps, List.length_cons]
          omega
        have rest : left = [] → ended = true := by
          rintro rfl
          rw [ends] at met
          cases ended with
          | false => exact absurd rfl met
          | true => rfl
        rw [one]
        have tail := @ih (j + 1) ⟨fp', loading.linesRead + 1, loading.pEnd, memory⟩ left gives'
          (fun line member => text line (List.mem_cons_of_mem _ member)) (eq_false_of_ne_true met) rest linesRead (by omega) ends
        exact tail.cons rfl stored (fun none => absurd none inside) later

end Reading

end Comp310.A2
