import Mathlib.Data.List.Basic
import Comp310.Kernel.ShellMemory

/-! Reading the lines of a program file, as fgets does. -/

namespace Comp310.A2
open Comp310.Kernel (CString)

/-- What is still to be read of a file, and whether its end was met. -/
structure Stream where
  rest : List UInt8
  eof : Bool

/-- The bytes up to a newline, at most `room` of them; those behind; and whether the end was met. -/
def takeLine : Nat → List UInt8 → List UInt8 × List UInt8 × Bool
  | 0, rest => ([], rest, false)
  | _ + 1, [] => ([], [], true)
  | room + 1, c :: rest =>
    if c = 10 then ([c], rest, false)
    else
      let line := takeLine room rest
      (c :: line.1, line.2)

def fgets (size : Nat) (fp : Stream) : Option (List UInt8) × Stream :=
  let line := takeLine (size - 1) fp.rest
  (if line.1 = [] then none else some line.1, ⟨line.2.1, fp.eof || line.2.2⟩)

/-- A line that is read with its newline, or as far as it fits. The end of the file is not met with it. -/
def whole (line : CString) : Bool := line.getLast? == some 10 || line.length == 100

structure ProgramFile where
  bytes : List UInt8
  text : 0 ∉ bytes

/-- The lines as they are read. What is longer than a hundred bytes comes in pieces. -/
def readAll : Nat → List UInt8 → List CString
  | 0, _ => []
  | _ + 1, [] => []
  | fuel + 1, c :: rest =>
    let line := takeLine 100 (c :: rest)
    line.1 :: readAll fuel line.2.1

namespace ProgramFile

def reads (file : ProgramFile) : List CString := readAll file.bytes.length file.bytes

def opened (file : ProgramFile) : Stream := ⟨file.bytes, false⟩

/-- The end is met behind the last line only. -/
def ended (file : ProgramFile) : Bool := file.reads.getLast?.all whole

end ProgramFile

variable {line rest : List UInt8} {room fuel : Nat} {fp fp' : Stream} {lines : List CString}

theorem takeLine_append (room : Nat) (rest : List UInt8) : (takeLine room rest).1 ++ (takeLine room rest).2.1 = rest := by
  induction room generalizing rest with
  | zero => rfl
  | succ room ih =>
    cases rest with
    | nil => rfl
    | cons c rest =>
      rw [takeLine]
      split
      · rfl
      · exact congrArg (c :: ·) (ih rest)

theorem takeLine_nonempty (c : UInt8) (rest : List UInt8) : (takeLine 100 (c :: rest)).1 ≠ [] := by
  rw [takeLine]
  split <;> exact List.cons_ne_nil _ _

/-- The end is met where there is nothing behind, and the line is not whole. -/
theorem takeLine_met (room : Nat) (rest : List UInt8) : ((takeLine room rest).2.2 = true → (takeLine room rest).2.1 = []) ∧
    ((takeLine room rest).2.2 = false ↔ (takeLine room rest).1.getLast? = some 10 ∨ (takeLine room rest).1.length = room) := by
  induction room generalizing rest with
  | zero => exact ⟨fun met => absurd met Bool.false_ne_true, iff_of_true rfl (.inr rfl)⟩
  | succ room ih =>
    cases rest with
    | nil => exact ⟨fun _ => rfl, iff_of_false (Bool.false_ne_true ∘ Eq.symm) (by simp [takeLine])⟩
    | cons c rest =>
      rw [takeLine]
      split
      next newline =>
        subst newline
        exact ⟨fun met => absurd met Bool.false_ne_true, iff_of_true rfl (.inl rfl)⟩
      next other =>
        obtain ⟨nothing, same⟩ := ih rest
        refine ⟨nothing, same.trans ?_⟩
        dsimp only
        rw [List.length_cons, Nat.succ_inj, List.getLast?_cons]
        cases (takeLine room rest).1.getLast? with
        | none => simp [other]
        | some last => rfl

/-- These are the lines that are still to be read. The end is met with the last of them if it has no newline. -/
def Gives (ended : Bool) : List CString → Stream → Prop
  | [], fp => fp.rest = []
  | line :: left, fp => ∃ fp', fgets 101 fp = (some line, fp') ∧ fp'.eof = (fp.eof || (left.isEmpty && !ended)) ∧ Gives ended left fp'

theorem fgets_end (none : fp.rest = []) : fgets 101 fp = (Option.none, ⟨[], true⟩) := by
  rw [fgets, none]
  simp [takeLine]

theorem whole_met (met : (takeLine 100 rest).2.2 = false) : whole (takeLine 100 rest).1 = true := by
  rw [whole, Bool.or_eq_true, beq_iff_eq, beq_iff_eq]
  exact (takeLine_met 100 rest).2.mp met

theorem readAll_nil (enough : rest.length ≤ fuel) : readAll fuel rest = [] ↔ rest = [] := by
  cases rest with
  | nil => exact iff_of_true (by cases fuel <;> rfl) rfl
  | cons c rest =>
    obtain ⟨fuel, rfl⟩ := Nat.exists_eq_succ_of_ne_zero (Nat.ne_of_gt (Nat.zero_lt_of_lt enough))
    exact iff_of_false (List.cons_ne_nil _ _) (List.cons_ne_nil _ _)

theorem readAll_gives (enough : rest.length ≤ fuel) (eof : Bool) : Gives ((readAll fuel rest).getLast?.all whole) (readAll fuel rest) ⟨rest, eof⟩ := by
  induction fuel generalizing rest eof with
  | zero => exact List.length_eq_zero_iff.mp (Nat.le_zero.mp enough)
  | succ fuel ih =>
    cases rest with
    | nil => rfl
    | cons c rest =>
      have split := congrArg List.length (takeLine_append 100 (c :: rest))
      have some := List.length_pos_of_ne_nil (takeLine_nonempty c rest)
      obtain ⟨nothing, same⟩ := takeLine_met 100 (c :: rest)
      rw [List.length_append] at split
      have read : fgets 101 ⟨c :: rest, eof⟩ = (Option.some (takeLine 100 (c :: rest)).1,
          ⟨(takeLine 100 (c :: rest)).2.1, eof || (takeLine 100 (c :: rest)).2.2⟩) := by
        rw [fgets, if_neg (takeLine_nonempty c rest)]
      have less : (takeLine 100 (c :: rest)).2.1.length ≤ fuel := by omega
      have left := @readAll_nil (takeLine 100 (c :: rest)).2.1 fuel less
      have later := ih less (eof || (takeLine 100 (c :: rest)).2.2)
      rw [readAll]
      generalize takeLine 100 (c :: rest) = line at *
      refine ⟨_, read, ?_, ?_⟩
      · cases behind : readAll fuel line.2.1 with
        | nil =>
          have whole : whole line.1 = !line.2.2 := by
            cases met : line.2.2 with
            | false => simpa [A2.whole] using same.mp met
            | true => simpa [A2.whole, met] using same
          simp [whole]
        | cons next behind =>
          cases met : line.2.2 with
          | false => simp
          | true => exact absurd (behind.symm.trans (left.mpr (nothing met))) (List.cons_ne_nil _ _)
      · cases behind : readAll fuel line.2.1 with
        | nil => exact left.mp behind
        | cons next others =>
          rw [behind] at later
          rw [List.getLast?_cons_cons]
          exact later

/-- All lines of a program file are read, and then its end is met. -/
theorem ProgramFile.opened_gives (file : ProgramFile) : Gives file.ended file.reads file.opened := readAll_gives (Nat.le_refl _) false

theorem readAll_mem (member : line ∈ readAll fuel rest) : ∀ c ∈ line, c ∈ rest := by
  induction fuel generalizing rest with
  | zero => cases member
  | succ fuel ih =>
    cases rest with
    | nil => cases member
    | cons first rest =>
      intro c here
      rw [← takeLine_append 100 (first :: rest), List.mem_append]
      rcases List.mem_cons.mp member with rfl | later
      · exact .inl here
      · exact .inr (ih later c here)

theorem ProgramFile.reads_text (file : ProgramFile) : ∀ line ∈ file.reads, 0 ∉ line :=
  fun _ member zero => file.text (readAll_mem member 0 zero)

theorem ProgramFile.reads_nil {file : ProgramFile} (none : file.reads = []) : file.ended = true := by rw [ended, none]; rfl

theorem readAll_length (fuel : Nat) (rest : List UInt8) : (readAll fuel rest).length ≤ fuel := by
  induction fuel generalizing rest with
  | zero => exact Nat.le_refl 0
  | succ fuel ih =>
    cases rest with
    | nil => exact Nat.zero_le _
    | cons c rest => exact Nat.succ_le_succ (ih _)

theorem ProgramFile.reads_length (file : ProgramFile) : file.reads.length ≤ file.bytes.length := readAll_length _ _

theorem readAll_whole {k : Nat} (before : k + 1 < (readAll fuel rest).length) : whole ((readAll fuel rest).getD k []) = true := by
  induction fuel generalizing rest k with
  | zero => cases before
  | succ fuel ih =>
    cases rest with
    | nil => cases before
    | cons c rest =>
      have later := Nat.lt_of_succ_lt_succ before
      cases k with
      | succ k => exact ih later
      | zero =>
        apply whole_met
        apply eq_false_of_ne_true
        intro met
        rw [(takeLine_met 100 (c :: rest)).1 met] at later
        cases fuel <;> cases later

end Comp310.A2
