import Comp310.Lib.Bytes
import Comp310.Fs.Fsutil

/-! The `write` command of the shell (interpreter.c). -/

namespace Comp310.Fs
open Comp310.Lib

/-- A word up to its first `\r` or newline. -/
def strip (word : CString) : CString := word.takeWhile fun c => c != 13 && c != 10

/-- `strcpy` to a position of a buffer, with the NUL. -/
def strcpy (buf : List UInt8) (start : Nat) (word : CString) : List UInt8 := overwrite buf start (word ++ [0])

/-- The loop that copies the words, with `current_ind` and `buf`. -/
def copyWords : List CString → Nat → List UInt8 → Nat × List UInt8
  | [], currentInd, buf => (currentInd, buf)
  | word :: rest, currentInd, buf => copyWords rest (currentInd + word.length + 1) (strcpy (strcpy buf currentInd word) (currentInd + word.length) [32])

/-- `size`; the name of the command and the name of the file are no words of the text. -/
def writeSize (words : List CString) : Nat := (words.map List.length).sum + (words.length + 2 - 1)

def writeBuffer (words : List CString) : List UInt8 :=
  let copied := copyWords words 0 (List.replicate (writeSize words) 0)
  copied.2.set (copied.1 - 1) 0

/-- What the command reports. -/
inductive WriteReply where
  | tooFewTokens
  | fileWriteError
  | warning (bytesWritten size : Int)
  | done

def writeWords (args : List CString) : List CString := (args.map strip).drop 2

/-- The `write` branch of `interpreter`. The size is an `int`, which must not overflow. -/
def writeCommand (args : List CString) : M WriteReply :=
  if args.length < 3 then pure .tooFewTokens
  else if 2147483648 ≤ writeSize (writeWords args) then fault
  else do
    let bytesWritten ← fsutilWrite ((args.map strip).getD 1 []) (writeBuffer (writeWords args))
    if bytesWritten = -1 then pure .fileWriteError
    else if bytesWritten ≠ writeSize (writeWords args) then pure (.warning bytesWritten (writeSize (writeWords args)))
    else pure .done

/-- The words as they were typed, with one space between them. -/
def joinWords (words : List CString) : CString := List.intercalate [32] words

variable {word front : CString} {words : List CString} {room : Nat}

/-- Each word with the space behind it. -/
def spaced (words : List CString) : CString := words.flatMap fun word => word ++ [32]

/-- A word is copied behind what is in the buffer, before a rest of zeros. -/
theorem strcpy_zeros (fits : word.length < room) :
    strcpy (front ++ List.replicate room 0) front.length word = front ++ word ++ List.replicate (room - word.length) 0 := by
  have ends : room - word.length = room - (word ++ [(0 : UInt8)]).length + 1 := by
    rw [List.length_append, List.length_singleton]
    omega
  rw [strcpy, overwrite_append, List.drop_replicate, ends, List.replicate_succ]
  simp only [List.append_assoc, List.singleton_append]

theorem copyWords_zeros (fits : (spaced words).length < room) : copyWords words front.length (front ++ List.replicate room 0) =
    ((front ++ spaced words).length, front ++ spaced words ++ List.replicate (room - (spaced words).length) 0) := by
  induction words generalizing front room with
  | nil => simp [copyWords, spaced]
  | cons word rest ih =>
    have all : spaced (word :: rest) = word ++ [32] ++ spaced rest := rfl
    have length : (word ++ [32] ++ spaced rest).length = word.length + 1 + (spaced rest).length := by
      rw [List.length_append, List.length_append, List.length_singleton]
    rw [all, length] at fits
    have place : front.length + word.length = (front ++ word).length := List.length_append.symm
    have space : (front ++ word).length + 1 = (front ++ word ++ [32]).length := by
      rw [← List.length_singleton (a := (32 : UInt8))]
      exact List.length_append.symm
    have left : room - word.length - [(32 : UInt8)].length - (spaced rest).length = room - (word ++ [32] ++ spaced rest).length := by
      rw [length, List.length_singleton]
      omega
    rw [copyWords, strcpy_zeros (by omega), place, strcpy_zeros (by rw [List.length_singleton]; omega), space,
      ih (by rw [List.length_singleton]; omega), left, all]
    simp only [List.append_assoc]

theorem spaced_length (words : List CString) : (spaced words).length = (words.map List.length).sum + words.length := by
  induction words with
  | nil => rfl
  | cons word rest ih =>
    have all : spaced (word :: rest) = word ++ [32] ++ spaced rest := rfl
    rw [all, List.length_append, List.length_append, List.length_singleton, ih, List.map_cons, List.sum_cons, List.length_cons]
    omega

theorem spaced_joinWords (some : words ≠ []) : spaced words = joinWords words ++ [32] := by
  obtain ⟨word, rest, rfl⟩ := List.exists_cons_of_ne_nil some
  induction rest generalizing word with
  | nil => simp [spaced, joinWords]
  | cons second rest ih =>
    have all : spaced (word :: second :: rest) = word ++ [32] ++ spaced (second :: rest) := rfl
    have joined : joinWords (word :: second :: rest) = word ++ [32] ++ joinWords (second :: rest) := by
      simp [joinWords, List.intercalate]
    rw [all, ih second (List.cons_ne_nil _ _), joined, List.append_assoc _ _ [32]]

/-- The buffer is the text with two NULs behind it. -/
theorem writeBuffer_eq (some : words ≠ []) : writeBuffer words = joinWords words ++ [0, 0] ∧
    writeSize words = (joinWords words).length + 2 := by
  have text := spaced_joinWords some
  have length := spaced_length words
  have size : writeSize words = (spaced words).length + 1 := by
    rw [length, writeSize]
    omega
  have copied : copyWords words ([] : CString).length ([] ++ List.replicate (writeSize words) 0) = _ :=
    copyWords_zeros (show _ < writeSize words by omega)
  rw [List.length_nil, List.nil_append] at copied
  constructor
  · rw [writeBuffer, copied, size, Nat.add_sub_cancel_left, List.nil_append, text]
    dsimp only
    rw [List.length_append, List.length_singleton, Nat.add_sub_cancel, List.append_assoc, List.set_append_right _ _ (Nat.le_refl _),
      Nat.sub_self]
    rfl
  · rw [size, text, List.length_append, List.length_singleton]

end Comp310.Fs
