import Comp310.Lib.Fields
import Comp310.Lib.Wp
import Comp310.Kernel.ShellMemory

/-! A line of input and its sections (a3/shell.c). `strtok` keeps its place in one
variable for all callers, and a command may feed the lines of a script to
`parseInput` while the sections of another line are waiting. -/

namespace Comp310.Kernel
open Comp310.Lib

/-- Where `strtok` goes on: in one of the strings that it was given, which are numbered as they are made. -/
structure Cursor where
  buffer : Nat
  rest : CString

/-- The next token, if there is one, and the new place. -/
def strtok (cursor : Cursor) : Option CString × Cursor :=
  let rest := cursor.rest.dropWhile (· == 59)
  if rest = [] then (none, { cursor with rest := [] })
  else (some (rest.takeWhile (· != 59)), { cursor with rest := (rest.dropWhile (· != 59)).tail })

/-- The inner loops, with the word that is being copied. A space at the end of the section ends the last word. -/
def copyWords (tmp : CString) : CString → List CString
  | [] => [tmp]
  | c :: rest =>
    if c = 32 then if rest = [] then [tmp] else tmp :: copyWords [] rest
    else copyWords (tmp ++ [c]) rest

/-- The words of a section. Between two spaces there is an empty one. -/
def sectionWords (token : CString) : List CString :=
  let token := token.dropWhile (· == 32)
  if token = [] then [] else copyWords [] token

/-- What a command does: it comes to its end, or it feeds a line to `parseInput` and goes on with the result. -/
inductive Command (σ : Type) where
  | done (ret : Int) (state : σ)
  | feed (line : CString) (state : σ) (resume : Int → σ → Command σ)

/-- What commands work on, with the place of `strtok` and the number of strings so far. -/
structure Session (σ : Type) where
  state : σ
  cursor : Cursor
  buffers : Nat

/-- A call of `interpreter`, with the string that the section is from. -/
abbrev SectionCall := Nat × List CString

section Parsing
variable {σ : Type}

/-- The command with the lines that it feeds. -/
def Command.perform (feed : CString → Prog (Session σ) Int) : Command σ → Prog (Session σ) Int
  | .done ret state => do
    modify fun session => { session with state }
    pure ret
  | .feed line state resume => do
    modify fun session => { session with state }
    let ret ← feed line
    let session ← get
    (resume ret session.state).perform feed

/-- The next section, and `strtok` behind it. -/
def nextSection : Prog (Session σ) (Option CString) := do
  let session ← get
  let (token, cursor) := strtok session.cursor
  set { session with cursor }
  pure token

variable (interpreter : List CString → σ → Command σ)

/-- The loop over the sections, with the calls that it makes. To write behind the end of `token` or `words` is a fault. -/
def sectionLoop (feed : CString → Prog (Session σ) Int) : Nat → Int → Option CString → Prog (Session σ) (Int × List SectionCall)
  | 0, _, _ => fault
  | _ + 1, ret, none => pure (ret, [])
  | fuel + 1, _, some token => do
    let session ← get
    if 1000 ≤ token.length ∨ 100 < (sectionWords token).length then fault
    else do
      let ret ← (interpreter (sectionWords token) session.state).perform feed
      let next ← nextSection
      if ret = -1 then pure (ret, [(session.cursor.buffer, sectionWords token)])
      else do
        let (last, calls) ← sectionLoop feed fuel ret next
        pure (last, (session.cursor.buffer, sectionWords token) :: calls)

/-- parseInput of a string that starts at `ui`. A line of a script is a new string. -/
def parseInput : Nat → Cursor → Prog (Session σ) (Int × List SectionCall)
  | 0, _ => fault
  | fuel + 1, ui => do
    modify fun session => { session with cursor := ui }
    let token ← nextSection
    sectionLoop interpreter (fun line => do
      let session ← get
      set { session with buffers := session.buffers + 1 }
      let result ← parseInput fuel ⟨session.buffers, line⟩
      pure result.1) (fuel + 1) 0 token

end Parsing

section Lemmas
variable {cursor : Cursor} {token : CString}

private theorem strtok_eq : strtok cursor = match nextField 59 cursor.rest with
    | none => (none, { cursor with rest := [] })
    | some (token, rest) => (some token, { cursor with rest }) := by
  unfold strtok nextField
  dsimp only
  cases cursor.rest.dropWhile (· == 59) with
  | nil => rfl
  | cons c rest => rfl

theorem strtok_buffer : (strtok cursor).2.buffer = cursor.buffer := by
  unfold strtok
  dsimp only
  split
  · rfl
  · rfl

theorem strtok_none : (strtok cursor).1 = none ↔ fields 59 cursor.rest = [] := by
  rw [← nextField_none, strtok_eq]
  cases nextField 59 cursor.rest with
  | none => exact iff_of_true rfl rfl
  | some next => exact iff_of_false (Option.some_ne_none _) (Option.some_ne_none _)

theorem strtok_some (found : (strtok cursor).1 = some token) : fields 59 cursor.rest = token :: fields 59 (strtok cursor).2.rest := by
  rw [strtok_eq] at found ⊢
  cases next : nextField 59 cursor.rest with
  | none =>
    rw [next] at found
    cases found
  | some pair =>
    rw [next] at found
    cases found
    exact nextField_some next

end Lemmas

end Comp310.Kernel
