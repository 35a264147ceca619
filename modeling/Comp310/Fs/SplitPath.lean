import Comp310.Lib.Bytes
import Comp310.Fs.Paths

/-! `split_path_filename` of directory.c with the bytes that it stores into the buffers of its callers. -/

namespace Comp310.Fs
open Comp310.Lib

/-- `strtok_r` with the delimiter `/`: the token, and where it goes on from. -/
def strtokR (p : CString) : Option (CString × CString) := nextField 47 p

/-- What has been stored into `directory`, and the offset of `dir` in it. -/
structure DirBuffer where
  directory : List UInt8
  dir : Nat

/-- The last token goes into the directory, with a slash behind it. -/
def DirBuffer.append (buffer : DirBuffer) (lastToken : CString) : DirBuffer :=
  let tl := lastToken.length
  if 0 < tl then ⟨overwrite (overwrite buffer.directory buffer.dir lastToken) (buffer.dir + tl) [47], buffer.dir + (tl + 1)⟩
  else buffer

/-- The loop over the tokens: each goes into the directory once there is another behind it. -/
def splitLoop (p lastToken : CString) (buffer : DirBuffer) : CString × DirBuffer :=
  match _found : strtokR p with
  | none => (lastToken, buffer)
  | some (token, rest) => splitLoop rest token (buffer.append lastToken)
termination_by p.length
decreasing_by exact nextField_shorter _found

/-- split_path_filename, with the bytes that are stored into `directory` and into `filename`. No caller passes a null pointer
for `directory`. -/
def splitInto (path : CString) : List UInt8 × List UInt8 :=
  let start : DirBuffer := if path.head? = some 47 then ⟨overwrite [] 0 [47], 1⟩ else ⟨[], 0⟩
  let (lastToken, buffer) := splitLoop path [] start
  (overwrite buffer.directory buffer.dir [0], overwrite [] 0 (lastToken ++ [0]))

variable {path text lastToken p : CString}

theorem tokens_eq (path : CString) : tokens path = fields 47 path := by
  unfold tokens fields
  congr 1
  funext part
  cases part <;> rfl

/-- A buffer with this text, and `dir` at its end. -/
def DirBuffer.holding (text : CString) : DirBuffer := ⟨text, text.length⟩

/-- The token that waits to be put into the directory; before the first there is none. -/
def delayed (lastToken : CString) : List CString := if lastToken = [] then [] else [lastToken]

private theorem overwrite_end (text bytes : List UInt8) : overwrite text text.length bytes = text ++ bytes := by
  have whole : overwrite (text ++ []) text.length bytes = text ++ bytes ++ List.drop bytes.length [] := overwrite_append text []
  rwa [List.drop_nil, List.append_nil, List.append_nil] at whole

private theorem append_holding : (DirBuffer.holding text).append lastToken =
    .holding (text ++ (delayed lastToken).flatMap (· ++ [47])) := by
  unfold DirBuffer.append DirBuffer.holding delayed
  cases lastToken with
  | nil => simp
  | cons c rest =>
    have second := overwrite_end (text ++ c :: rest) [47]
    rw [List.length_append] at second
    simp only [overwrite_end, second]
    simp

/-- The loop invariant: the directory has all tokens but the last, which waits. -/
theorem splitLoop_eq (p lastToken text : CString) : splitLoop p lastToken (.holding text) =
    ((delayed lastToken ++ tokens p).getLast?.getD [],
      .holding (text ++ (delayed lastToken ++ tokens p).dropLast.flatMap (· ++ [47]))) := by
  generalize size : p.length = length
  induction length using Nat.strongRecOn generalizing p lastToken text with
  | ind length ih =>
    rw [splitLoop]
    split
    next found =>
      have nothing : tokens p = [] := by
        rw [tokens_eq]
        exact nextField_none.mp found
      rw [nothing, List.append_nil]
      cases lastToken with
      | nil => simp [delayed]
      | cons c rest => simp [delayed]
    next token rest found =>
      have shorter := nextField_shorter found
      have more : tokens p = token :: tokens rest := by
        rw [tokens_eq, tokens_eq]
        exact nextField_some found
      have nonempty : token ≠ [] := (tokens_parts (show token ∈ tokens p by rw [more]; exact List.mem_cons_self)).1
      have waits : delayed token = [token] := if_neg nonempty
      rw [append_holding, ih rest.length (by omega) rest token _ rfl, more, waits, List.singleton_append]
      have last : (delayed lastToken ++ token :: tokens rest).getLast? = (token :: tokens rest).getLast? := by
        rw [List.getLast?_append, List.getLast?_cons, Option.some_or]
      rw [last, List.dropLast_append_of_ne_nil (List.cons_ne_nil token _), List.flatMap_append, List.append_assoc]

/-- The buffers hold the two parts of the path and their NULs. -/
theorem splitInto_eq (path : CString) : splitInto path = ((splitPathFilename path).1 ++ [0], (splitPathFilename path).2 ++ [0]) := by
  have start : (if path.head? = some 47 then ⟨overwrite [] 0 [47], 1⟩ else ⟨[], 0⟩ : DirBuffer) =
      .holding (if path.head? = some 47 then [47] else []) := by
    split
    · rfl
    · rfl
  have stored (lastToken : CString) : overwrite [] 0 (lastToken ++ [0]) = lastToken ++ [0] := overwrite_end [] _
  unfold splitInto
  dsimp only
  rw [start, splitLoop_eq]
  simp only [DirBuffer.holding, overwrite_end, stored]
  rfl

end Comp310.Fs
