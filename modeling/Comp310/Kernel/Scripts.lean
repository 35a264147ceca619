import Comp310.Kernel.Pcb

/-! Scripts as the lines that they are written in, and how pages come by them. -/

namespace Comp310.Kernel

/-- The lines as they are read: each but the last has its newline. -/
def fileLines : List (List UInt8) → List (List UInt8)
  | [] => []
  | [line] => [line]
  | line :: next :: rest => (line ++ [10]) :: fileLines (next :: rest)

/-- A file of these lines. -/
def fileOf (lines : List (List UInt8)) : List UInt8 := (fileLines lines).flatten

/-- No line is blank or, with its newline, too long for the buffer. -/
def Plain (lines : List (List UInt8)) : Prop := (∀ line ∈ lines, line ≠ [] ∧ 10 ∉ line) ∧ ∀ line ∈ fileLines lines, line.length ≤ 998

/-- `fgets` reads these lines from their file, one after another. -/
def Reads : List (List UInt8) → Prop
  | [] => True
  | line :: rest => fgets 998 (line ++ rest.flatten) = some (line, rest.flatten) ∧ Reads rest

/-- The lines of a file, each with its newline if it has one. -/
def textLines : List UInt8 → List (List UInt8)
  | [] => []
  | c :: rest =>
    if c = 10 then [10] :: textLines rest
    else match textLines rest with
      | [] => [[c]]
      | line :: lines => (c :: line) :: lines

/-- A blank line, or one without a newline, which `count_lines` does not count. -/
def uncounted (line : List UInt8) : Bool := decide (line = [10] ∨ 10 ∉ line)

/-- What `fgets` and `strdup` bring of the line is all of it. -/
def Short (line : List UInt8) : Prop := line.length ≤ 998 ∧ 0 ∉ line

/-- What a slot has of each line. -/
def lineTexts (lines : List (List UInt8)) : List CString := (fileLines lines).map strdup

variable {lines : List (List UInt8)} {line file : List UInt8}

section Reading

variable (file) in
theorem textLines_text {c : UInt8} (text : c ≠ 10) : ∃ line lines, textLines (c :: file) = (c :: line) :: lines ∧
    (textLines file = line :: lines ∧ line ≠ [] ∨ file = [] ∧ line = [] ∧ lines = []) := by
  cases file with
  | nil =>
    refine ⟨[], [], ?_, .inr ⟨rfl, rfl, rfl⟩⟩
    rw [textLines, if_neg text]
    rfl
  | cons next rest =>
    obtain ⟨line, lines, whole, some⟩ : ∃ line lines, textLines (next :: rest) = line :: lines ∧ line ≠ [] := by
      rw [textLines]
      split
      · exact ⟨_, _, rfl, List.cons_ne_nil _ _⟩
      · split
        · exact ⟨_, _, rfl, List.cons_ne_nil _ _⟩
        · exact ⟨_, _, rfl, List.cons_ne_nil _ _⟩
    refine ⟨line, lines, ?_, .inl ⟨whole, some⟩⟩
    rw [textLines, if_neg text, whole]

theorem textLines_flatten (file : List UInt8) : (textLines file).flatten = file := by
  induction file with
  | nil => rfl
  | cons c rest ih =>
    by_cases ends : c = 10
    · rw [textLines, if_pos ends, List.flatten_cons, ih, ends]
      rfl
    · obtain ⟨line, lines, whole, ⟨later, -⟩ | ⟨rfl, rfl, rfl⟩⟩ := textLines_text rest ends
      · rw [later] at ih
        rw [whole, ← ih]
        rfl
      · rw [whole]
        rfl

theorem textLines_first (limit : Nat) (whole : textLines file = line :: lines) :
    (line.length ≤ limit → lineOf limit file = line) ∧ textLines lines.flatten = lines := by
  induction file generalizing line lines limit with
  | nil => cases whole
  | cons c rest ih =>
    by_cases ends : c = 10
    · rw [textLines, if_pos ends] at whole
      cases whole
      refine ⟨fun short => ?_, by rw [textLines_flatten]⟩
      obtain ⟨limit, rfl⟩ := Nat.exists_eq_succ_of_ne_zero (Nat.ne_of_gt short)
      rw [lineOf, if_pos ends, ends]
    · obtain ⟨line', lines', whole', later⟩ := textLines_text rest ends
      cases whole.symm.trans whole'
      rcases later with ⟨later, -⟩ | ⟨rfl, rfl, rfl⟩
      · refine ⟨fun short => ?_, (ih limit later).2⟩
        rw [List.length_cons] at short
        obtain ⟨limit, rfl⟩ := Nat.exists_eq_succ_of_ne_zero (Nat.ne_of_gt (Nat.lt_of_lt_of_le (Nat.succ_pos _) short))
        rw [lineOf, if_neg ends, (ih limit later).1 (Nat.le_of_succ_le_succ short)]
      · refine ⟨fun short => ?_, rfl⟩
        obtain ⟨limit, rfl⟩ := Nat.exists_eq_succ_of_ne_zero (Nat.ne_of_gt short)
        rw [lineOf, if_neg ends]
        cases limit <;> rfl

theorem textLines_reads (short : ∀ line ∈ textLines file, line.length ≤ 998) : Reads (textLines file) := by
  generalize whole : textLines file = lines at short
  induction lines generalizing file with
  | nil => trivial
  | cons line rest ih =>
    obtain ⟨read, tail⟩ := textLines_first 998 whole
    refine ⟨?_, ih tail fun other member => short other (List.mem_cons_of_mem _ member)⟩
    have flat := textLines_flatten file
    rw [whole, List.flatten_cons] at flat
    have some : file ≠ [] := by
      rintro rfl
      cases whole
    rw [flat, fgets, if_neg some, read (short line List.mem_cons_self), ← flat, List.drop_left]

theorem Reads.drop (reads : Reads lines) (count : Nat) : Reads (lines.drop count) := by
  induction count generalizing lines with
  | zero => exact reads
  | succ count ih =>
    cases lines with
    | nil => exact reads
    | cons line rest => exact ih reads.2

theorem fgets_end : fgets 998 ([] : List (List UInt8)).flatten = none := rfl

end Reading

section Counting

/-- `count_lines` counts one line more than there are newlines behind a text. -/
theorem countFrom_textLines (last : UInt8) (file : List UInt8) : countFrom last file + (textLines (if last = 10 then file else last :: file)).countP uncounted =
    (textLines (if last = 10 then file else last :: file)).length := by
  induction file generalizing last with
  | nil =>
    by_cases start : last = 10
    · rw [if_pos start]
      rfl
    · obtain ⟨line, lines, whole, ⟨later, -⟩ | ⟨-, rfl, rfl⟩⟩ := textLines_text [] start
      · cases later
      · have lone : uncounted [last] = true := decide_eq_true (.inr (by rw [List.mem_singleton]; exact Ne.symm start))
        rw [if_neg start, whole, List.countP_cons, lone]
        rfl
  | cons c rest ih =>
    have later := ih c
    by_cases start : last = 10
    · rw [if_pos start, countFrom, if_neg (fun both => both.2 start), Nat.zero_add]
      by_cases ends : c = 10
      · have empty : uncounted [10] = true := by decide
        rw [if_pos ends] at later
        rw [textLines, if_pos ends, List.countP_cons, empty, if_pos rfl, List.length_cons, ← later]
        omega
      · rwa [if_neg ends] at later
    · rw [if_neg start, countFrom]
      by_cases ends : c = 10
      · have filled : uncounted [last, 10] = false := decide_eq_false (by simp)
        have whole : textLines (last :: c :: rest) = [last, 10] :: textLines rest := by
          rw [textLines, if_neg start, textLines, if_pos ends]
        rw [if_pos ends] at later
        rw [whole, List.countP_cons, filled, if_pos ⟨ends, start⟩, List.length_cons, ← later, if_neg Bool.false_ne_true]
        omega
      · obtain ⟨line, lines, first, -⟩ := textLines_text rest ends
        have whole : textLines (last :: c :: rest) = (last :: c :: line) :: lines := by
          rw [textLines, if_neg start, first]
        have same : uncounted (last :: c :: line) = uncounted (c :: line) := by
          simp [uncounted, Ne.symm start, ends]
        rw [if_neg ends, first, List.countP_cons, List.length_cons] at later
        rw [whole, List.countP_cons, List.length_cons, same, if_neg (fun both => ends both.1), Nat.zero_add, later]

theorem countLines_eq_iff (file : List UInt8) : countLines file = (textLines file).length ↔ (textLines file).countP uncounted = 1 := by
  have counted := countFrom_textLines 10 file
  rw [if_pos rfl] at counted
  rw [countLines]
  omega

end Counting

section Files

theorem textLines_line (text : 10 ∉ line) : textLines (line ++ 10 :: file) = (line ++ [10]) :: textLines file := by
  induction line with
  | nil => rfl
  | cons c rest ih =>
    rw [List.mem_cons, not_or] at text
    rw [List.cons_append, textLines, if_neg (Ne.symm text.1), ih text.2]
    rfl

theorem textLines_last (text : 10 ∉ line) (filled : line ≠ []) : textLines line = [line] := by
  induction line with
  | nil => exact absurd rfl filled
  | cons c rest ih =>
    rw [List.mem_cons, not_or] at text
    rw [textLines, if_neg (Ne.symm text.1)]
    by_cases ends : rest = []
    · rw [ends]
      rfl
    · rw [ih text.2 ends]

theorem textLines_fileOf (plain : ∀ line ∈ lines, line ≠ [] ∧ 10 ∉ line) : textLines (fileOf lines) = fileLines lines := by
  induction lines with
  | nil => rfl
  | cons line rest ih =>
    obtain ⟨⟨filled, text⟩, plain⟩ := List.forall_mem_cons.mp plain
    cases rest with
    | nil => exact (congrArg textLines (List.append_nil line)).trans (textLines_last text filled)
    | cons next rest =>
      have whole : fileOf (line :: next :: rest) = line ++ 10 :: fileOf (next :: rest) := by
        rw [fileOf, fileLines, List.flatten_cons, List.append_assoc]
        rfl
      rw [whole, textLines_line text, ih plain]
      rfl

theorem Plain.reads (plain : Plain lines) : Reads (fileLines lines) := by
  have same := textLines_fileOf plain.1
  rw [← same]
  exact textLines_reads (same ▸ plain.2)

theorem fileLines_uncounted (plain : ∀ line ∈ lines, line ≠ [] ∧ 10 ∉ line) (some : lines ≠ []) : (fileLines lines).countP uncounted = 1 := by
  induction lines with
  | nil => exact absurd rfl some
  | cons line rest ih =>
    obtain ⟨⟨filled, text⟩, plain⟩ := List.forall_mem_cons.mp plain
    cases rest with
    | nil =>
      have last : uncounted line = true := decide_eq_true (.inr text)
      rw [fileLines, List.countP_singleton, if_pos last]
    | cons next rest =>
      have ended : ¬ uncounted (line ++ [10]) = true := by
        rw [uncounted, decide_eq_true_eq]
        rintro (blank | none)
        · exact filled (List.append_cancel_right blank)
        · exact none (List.mem_append_right _ List.mem_cons_self)
      rw [fileLines, List.countP_cons_of_neg ended, ih plain (List.cons_ne_nil _ _)]

theorem countLines_fileOf (plain : Plain lines) (some : lines ≠ []) : countLines (fileOf lines) = (fileLines lines).length := by
  have same := textLines_fileOf plain.1
  rw [← same, countLines_eq_iff, same]
  exact fileLines_uncounted plain.1 some

end Files

end Comp310.Kernel
