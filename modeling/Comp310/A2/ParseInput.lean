import Comp310.Lib.Fields
import Comp310.Lib.Wp
import Comp310.Kernel.ShellMemory

/-! A line of input is split into commands, and each of them into words
(a2/shell.c). A line is shorter than MAX_USER_INPUT, so the bound of the index is
behind its end. -/

namespace Comp310.A2
open Comp310.Kernel (CString)
open Comp310.Lib

/-- A word ends at a `;`, a newline or a space. -/
def wordChar (c : UInt8) : Bool := c != 59 && c != 10 && c != 32

def skipSpaces (ui : CString) : CString := ui.dropWhile (· == 32)

section Parsing
variable {σ : Type} (interpreter : List CString → Prog σ Int)

/-- The loop, with the words of the command so far. To write behind the end of `tmp` or `words` is a fault. -/
def parseWords : Nat → CString → List CString → Prog σ Int
  | 0, _, _ => fault
  | fuel + 1, ui, words =>
    if ui.head? = none ∨ ui.head? = some 10 then interpreter words
    else if skipSpaces ui = [] then interpreter words
    else
      let tmp := (skipSpaces ui).takeWhile wordChar
      let rest := (skipSpaces ui).dropWhile wordChar
      if tmp = [] then parseWords fuel (skipSpaces ui) words
      else if 200 ≤ tmp.length ∨ 100 ≤ words.length then fault
      else if rest.head? = some 59 then do
        let errorCode ← interpreter (words ++ [tmp])
        if errorCode = -1 then pure errorCode else parseWords fuel (skipSpaces rest.tail) []
      else parseWords fuel rest.tail (words ++ [tmp])

def parseInput (fuel : Nat) (ui : CString) : Prog σ Int := parseWords interpreter fuel (skipSpaces ui) []

end Parsing

def wordsOf (command : CString) : List CString := fields 32 command

section Lemmas
variable {σ : Type} {interpreter : List CString → Prog σ Int} {fuel : Nat} {ui part rest ending : CString} {words : List CString}

theorem skipSpaces_space : skipSpaces (32 :: rest) = skipSpaces rest := rfl

theorem skipSpaces_char {c : UInt8} (other : c ≠ 32) : skipSpaces (c :: rest) = c :: rest := by
  rw [skipSpaces, List.dropWhile_cons_of_neg]
  exact fun same => other (eq_of_beq same)

theorem wordChar_iff {c : UInt8} : wordChar c = true ↔ c ≠ 59 ∧ c ≠ 10 ∧ c ≠ 32 := by
  simp only [wordChar, Bool.and_eq_true, bne_iff_ne, and_assoc]

theorem parseWords_end (ends : ui.head? = none ∨ ui.head? = some 10) :
    parseWords interpreter (fuel + 1) ui words = interpreter words := by
  rw [parseWords, if_pos ends]

theorem parseWords_space (next : rest.head? ≠ some 10) :
    parseWords interpreter (fuel + 1) (32 :: rest) words = parseWords interpreter (fuel + 1) rest words := by
  have first : ¬ ((32 :: rest).head? = none ∨ (32 :: rest).head? = some 10) := by
    rw [List.head?_cons]
    decide
  cases rest with
  | nil =>
    rw [parseWords, if_neg first, skipSpaces_space, if_pos (show skipSpaces [] = [] from rfl), parseWords_end (.inl rfl)]
  | cons c more =>
    have second : ¬ ((c :: more).head? = none ∨ (c :: more).head? = some 10) := fun ends => ends.elim (Option.some_ne_none c) next
    rw [parseWords, if_neg first, skipSpaces_space, parseWords, if_neg second]

theorem parseWords_spaces : parseWords interpreter (fuel + 2) (32 :: rest) words = parseWords interpreter (fuel + 2) rest words := by
  by_cases next : rest.head? = some 10
  · obtain ⟨more, rfl⟩ : ∃ more, rest = 10 :: more := by
      cases rest with
      | nil => cases next
      | cons c more =>
        cases next
        exact ⟨more, rfl⟩
    have first : ¬ ((32 :: 10 :: more : CString).head? = none ∨ (32 :: 10 :: more : CString).head? = some 10) := by
      rw [List.head?_cons]
      decide
    have newline : (10 : UInt8) ≠ 32 := by decide
    have stays : skipSpaces (32 :: 10 :: more) = 10 :: more := skipSpaces_char newline
    have none : (10 :: more : CString).takeWhile wordChar = [] := List.takeWhile_cons_of_neg (by decide)
    rw [parseWords, if_neg first, stays, if_neg (List.cons_ne_nil _ _)]
    dsimp only
    rw [if_pos none, parseWords_end (.inr rfl), parseWords_end (.inr rfl)]
  · exact parseWords_space next

theorem parseWords_skipSpaces (ui : CString) :
    parseWords interpreter (fuel + 2) (skipSpaces ui) words = parseWords interpreter (fuel + 2) ui words := by
  induction ui with
  | nil => rfl
  | cons c rest ih =>
    by_cases space : c = 32
    · subst space
      rw [skipSpaces_space, ih, parseWords_spaces]
    · rw [skipSpaces_char space]

/-- A `;` where a word should be is never passed. -/
theorem parseWords_stuck : parseWords interpreter fuel (59 :: rest) words = fault := by
  induction fuel with
  | zero => rfl
  | succ fuel ih =>
    have first : ¬ ((59 :: rest).head? = none ∨ (59 :: rest).head? = some 10) := by
      rw [List.head?_cons]
      decide
    have stays : skipSpaces (59 :: rest) = 59 :: rest := skipSpaces_char (by decide)
    have none : (59 :: rest : CString).takeWhile wordChar = [] := List.takeWhile_cons_of_neg (by decide)
    rw [parseWords, if_neg first, stays, if_neg (List.cons_ne_nil _ _)]
    dsimp only
    rw [if_pos none, ih]

section Words
variable {word : CString} (nonempty : word ≠ []) (plain : ∀ c ∈ word, wordChar c = true) (short : word.length < 200)
  (few : words.length < 100)
include nonempty plain short few

theorem parseWords_copy (ends : ∀ c, rest.head? = some c → wordChar c = false) :
    parseWords interpreter (fuel + 1) (word ++ rest) words =
      if rest.head? = some 59 then do
        let errorCode ← interpreter (words ++ [word])
        if errorCode = -1 then pure errorCode else parseWords interpreter fuel (skipSpaces rest.tail) []
      else parseWords interpreter fuel rest.tail (words ++ [word]) := by
  obtain ⟨c, more, rfl⟩ := List.exists_cons_of_ne_nil nonempty
  obtain ⟨_, notNewline, notSpace⟩ := wordChar_iff.mp (plain c List.mem_cons_self)
  have first : ¬ ((c :: more ++ rest).head? = none ∨ (c :: more ++ rest).head? = some 10) := by
    rw [List.cons_append, List.head?_cons]
    rintro (missing | newline)
    · exact Option.some_ne_none c missing
    · exact notNewline (Option.some.inj newline)
  have some : c :: more ++ rest ≠ [] := List.cons_ne_nil _ _
  have stays : skipSpaces (c :: more ++ rest) = c :: more ++ rest := skipSpaces_char notSpace
  have taken : (c :: more ++ rest).takeWhile wordChar = c :: more := by
    rw [List.takeWhile_append_of_pos plain]
    cases rest with
    | nil => rw [List.takeWhile_nil, List.append_nil]
    | cons d rest => rw [List.takeWhile_cons_of_neg (by rw [ends d rfl]; exact Bool.false_ne_true), List.append_nil]
  have left : (c :: more ++ rest).dropWhile wordChar = rest := by
    rw [List.dropWhile_append_of_pos plain]
    cases rest with
    | nil => rfl
    | cons d rest => rw [List.dropWhile_cons_of_neg (by rw [ends d rfl]; exact Bool.false_ne_true)]
  rw [parseWords, if_neg first, stays, if_neg some]
  dsimp only
  rw [taken, left, if_neg (List.cons_ne_nil _ _), if_neg (by omega)]

theorem parseWords_word (ends : ∀ c, rest.head? = some c → wordChar c = false) (other : rest.head? ≠ some 59) :
    parseWords interpreter (fuel + 1) (word ++ rest) words = parseWords interpreter fuel rest.tail (words ++ [word]) := by
  rw [parseWords_copy nonempty plain short few ends, if_neg other]

theorem parseWords_command : parseWords interpreter (fuel + 1) (word ++ 59 :: rest) words = (do
      let errorCode ← interpreter (words ++ [word])
      if errorCode = -1 then pure errorCode else parseWords interpreter fuel (skipSpaces rest) []) := by
  refine (parseWords_copy nonempty plain short few ?_).trans (if_pos rfl)
  intro c same
  cases same
  decide

end Words

end Lemmas

end Comp310.A2
