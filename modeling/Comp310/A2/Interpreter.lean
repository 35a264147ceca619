import Comp310.Lib.Preserves
import Comp310.A2.ParseInput
import Comp310.A2.ReadyQueue
import Comp310.A2.ShellMemory

/-! The commands of the shell (a2/interpreter.c), as far as they change the memory
or the ready queue. `quit` does not return. -/

namespace Comp310.A2
open Comp310.Kernel (CString ShellMemory memSetValue)
open Comp310.Lib

structure System where
  queue : ReadyQueue
  memory : ShellMemory

inductive Error where
  | noError
  | fileDoesNotExist
  | fileError
  | noMemSpace
  | readyQueueFull
  | schedulingError
  | tooManyTokens
  | tooFewTokens
  | nonAlphanumericToken
  | badCommand
  | errorCd
  | errorMkdir

def Error.code (error : Error) : Int := error.ctorIdx

def handleError (error : Error) : Prog System Int := pure error.code

/-- A word up to its first `\r` or newline. -/
def strip (word : CString) : CString := word.takeWhile fun c => c != 13 && c != 10

/-- `run` -/
def runText : CString := [114, 117, 110]

/-- `exec` -/
def execText : CString := [101, 120, 101, 99]

section Interpreter
variable (frameSize varMemSize : Nat) (run : CString → Prog System Int) (exec : List CString → Prog System Int)
  (host : List CString → ShellMemory → Option Int)

/-- What the host or the words of an earlier command decide. -/
def onHost (args : List CString) : Prog System Int := fun system => (host args system.memory).map fun errorCode => (errorCode, system)

/-- The names of the commands in the order of the comparisons. -/
def interpreter (words : List CString) : Prog System Int :=
  if words.length < 1 then handleError .tooFewTokens
  else if words.length > 7 then handleError .tooManyTokens
  else
    let args := words.map strip
    let size := args.length
    let name := args.headD []
    -- `help`
    if name = [104, 101, 108, 112] then if size > 1 then handleError .tooManyTokens else pure 0
    -- `quit` and `exit`
    else if name = [113, 117, 105, 116] ∨ name = [101, 120, 105, 116] then if size > 1 then handleError .tooManyTokens else fault
    -- `set`
    else if name = [115, 101, 116] then
      if size < 3 then handleError .tooFewTokens
      else do
        modify fun system => { system with
          memory := memSetValue frameSize varMemSize (args.getD 1 []) (List.intercalate [32] (args.drop 2)) system.memory }
        pure 0
    -- `print`
    else if name = [112, 114, 105, 110, 116] then
      if size < 2 then handleError .tooFewTokens else if size > 2 then handleError .tooManyTokens else pure 0
    else if name = runText then
      if size < 2 then handleError .tooFewTokens else if size > 2 then handleError .tooManyTokens else run (args.getD 1 [])
    -- `echo`: without a word to print, it takes what an earlier command has left
    else if name = [101, 99, 104, 111] then
      if size > 2 then handleError .tooManyTokens else if size = 2 then pure 0 else onHost host args
    -- `my_ls`
    else if name = [109, 121, 95, 108, 115] then if size > 1 then handleError .tooManyTokens else onHost host args
    -- `my_mkdir`, `my_touch` and `my_cd`
    else if name = [109, 121, 95, 109, 107, 100, 105, 114] ∨ name = [109, 121, 95, 116, 111, 117, 99, 104] ∨
        name = [109, 121, 95, 99, 100] then
      if size > 2 then handleError .tooManyTokens else onHost host args
    else if name = execText then
      if size ≤ 1 then handleError .tooFewTokens
      else if size > 5 then handleError .tooManyTokens
      else if size ≤ 4 then exec args.tail
      else handleError .badCommand
    -- `resetmem`
    else if name = [114, 101, 115, 101, 116, 109, 101, 109] then
      if size > 1 then handleError .tooManyTokens
      else do
        modify fun system => { system with memory := resetmem frameSize varMemSize system.memory }
        pure 1
    -- `mem` goes on to the end after it has printed
    else if name = [109, 101, 109] ∧ size > 1 then handleError .tooManyTokens
    else handleError .badCommand

end Interpreter

/-- The word is not the name of a command that starts a script. -/
def QuietName (word : CString) : Prop := strip word ≠ runText ∧ strip word ≠ execText

/-- The word that a section starts with. -/
def commandName (part : CString) : CString := (skipSpaces part).takeWhile wordChar

/-- No section of the line is a `run` or `exec` command. -/
def QuietLine (line : CString) : Prop := ∀ part ∈ line.splitOn 59, QuietName (commandName part)

/-- The ready queue and the lines of scripts are as in `base`. -/
structure Untouched (frameSize : Nat) (base system : System) : Prop where
  queue : system.queue = base.queue
  frames : ∀ slot < frameSize, system.memory slot = base.memory slot

variable {frameSize varMemSize fuel : Nat} {run : CString → Prog System Int} {exec : List CString → Prog System Int}
  {host : List CString → ShellMemory → Option Int} {base : System} {words : List CString} {c : UInt8} {ui rest : CString}

theorem untouched_memory {change : ShellMemory → ShellMemory} (frames : ∀ memory, ∀ slot < frameSize, change memory slot = memory slot) :
    Stays (Untouched frameSize base) (modify fun system => { system with memory := change system.memory } : Prog System PUnit) := by
  apply Preserves.modify
  intro system untouched
  exact ⟨untouched.queue, fun slot frame => (frames system.memory slot frame).trans (untouched.frames slot frame)⟩

theorem onHost_untouched {args : List CString} : Stays (Untouched frameSize base) (onHost host args) := by
  intro system value after untouched ran
  obtain ⟨_, _, same⟩ := Option.map_eq_some_iff.mp ran
  cases same
  exact ⟨untouched, trivial⟩

/-- A command that starts no script leaves the queue and the lines of scripts alone. -/
theorem interpreter_untouched (quiet : ∀ word, words.head? = some word → QuietName word) :
    Stays (Untouched frameSize base) (interpreter frameSize varMemSize run exec host words) := by
  have error (e : Error) : Stays (Untouched frameSize base) (handleError e) := .done
  have name (nonempty : ¬ words.length < 1) : (words.map strip).headD [] ≠ runText ∧ (words.map strip).headD [] ≠ execText := by
    cases words with
    | nil => exact absurd Nat.zero_lt_one nonempty
    | cons word rest => exact quiet word rfl
  unfold interpreter
  refine .ite (fun _ => error _) fun nonempty => .ite (fun _ => error _) fun _ => ?_
  dsimp only
  refine .ite (fun _ => .ite (fun _ => error _) fun _ => .done) fun _ => ?_
  refine .ite (fun _ => .ite (fun _ => error _) fun _ => .fault) fun _ => ?_
  refine .ite (fun _ => .ite (fun _ => error _) fun _ => ?_) fun _ => ?_
  · exact .next (untouched_memory fun _ _ frame => Kernel.memSetValue_frame frame) fun _ => .done
  refine .ite (fun _ => .ite (fun _ => error _) fun _ => .ite (fun _ => error _) fun _ => .done) fun _ => ?_
  refine .ite (fun starts => absurd starts (name nonempty).1) fun _ => ?_
  refine .ite (fun _ => .ite (fun _ => error _) fun _ => .ite (fun _ => .done) fun _ => onHost_untouched) fun _ => ?_
  refine .ite (fun _ => .ite (fun _ => error _) fun _ => onHost_untouched) fun _ => ?_
  refine .ite (fun _ => .ite (fun _ => error _) fun _ => onHost_untouched) fun _ => ?_
  refine .ite (fun starts => absurd starts (name nonempty).2) fun _ => ?_
  refine .ite (fun _ => .ite (fun _ => error _) fun _ => ?_) fun _ => ?_
  · exact .next (untouched_memory fun _ _ frame => resetmem_frame frame) fun _ => .done
  exact .ite (fun _ => error _) fun _ => error _

/-- The sections behind the first `;`. -/
def laterSections (ui : CString) : List CString := (ui.splitOn 59).tail

theorem laterSections_char (other : c ≠ 59) : laterSections (c :: rest) = laterSections rest := by
  unfold laterSections
  rw [List.splitOn_cons_eq_if_modifyHead, if_neg fun same => other (eq_of_beq same)]
  cases rest.splitOn 59 <;> rfl

theorem laterSections_semicolon : laterSections (59 :: rest) = rest.splitOn 59 := by
  unfold laterSections
  rw [List.splitOn_cons_eq_if_modifyHead, if_pos BEq.rfl]
  rfl

theorem laterSections_append {front : CString} (absent : 59 ∉ front) : laterSections (front ++ rest) = laterSections rest := by
  induction front with
  | nil => rfl
  | cons c front ih =>
    rw [List.mem_cons, not_or] at absent
    rw [List.cons_append, laterSections_char (Ne.symm absent.1), ih absent.2]

theorem laterSections_skipSpaces : laterSections (skipSpaces ui) = laterSections ui := by
  induction ui with
  | nil => rfl
  | cons c rest ih =>
    by_cases space : c = 32
    · rw [space, skipSpaces_space, ih, laterSections_char (by decide)]
    · rw [skipSpaces_char space]

theorem commandName_skipSpaces : commandName (skipSpaces ui) = commandName ui := by
  induction ui with
  | nil => rfl
  | cons c rest ih =>
    by_cases space : c = 32
    · rw [space, skipSpaces_space, ih]
      rfl
    · rw [skipSpaces_char space]

/-- The name of a section does not depend on what is behind it. -/
theorem commandName_append {part : CString} (rest : CString) : commandName (part ++ 59 :: rest) = commandName part := by
  unfold commandName
  induction part with
  | nil => rfl
  | cons c part ih =>
    by_cases space : c = 32
    · rw [space, List.cons_append, skipSpaces_space, skipSpaces_space, ih]
    · rw [List.cons_append, skipSpaces_char space, skipSpaces_char space, ← List.cons_append, List.takeWhile_append]
      split
      next whole =>
        have stop : List.takeWhile wordChar (59 :: rest) = [] := List.takeWhile_cons_of_neg (by decide)
        rw [stop, List.append_nil, (List.takeWhile_prefix wordChar).eq_of_length whole]
      next => rfl

/-- None of the commands that are still to be read starts a script. -/
structure QuietFrom (words : List CString) (ui : CString) : Prop where
  first : words = [] → QuietName (commandName ui)
  head : ∀ word, words.head? = some word → QuietName word
  later : ∀ part ∈ laterSections ui, QuietName (commandName part)

theorem QuietLine.start (quiet : QuietLine ui) : QuietFrom [] ui := by
  rcases split_first 59 ui with absent | ⟨part, rest, rfl, absent⟩
  · have alone := List.splitOn_eq_singleton absent
    refine ⟨fun _ => quiet ui (alone ▸ List.mem_cons_self), fun word none => absurd none.symm (Option.some_ne_none word), ?_⟩
    rw [laterSections, alone]
    exact fun part member => absurd member List.not_mem_nil
  · rw [QuietLine, List.splitOn_append_cons_self_of_not_mem absent] at quiet
    refine ⟨fun _ => ?_, fun word none => absurd none.symm (Option.some_ne_none word), ?_⟩
    · rw [commandName_append]
      exact quiet part List.mem_cons_self
    · rw [laterSections_append absent, laterSections_semicolon]
      exact fun part member => quiet part (List.mem_cons_of_mem _ member)

theorem QuietFrom.skip (quiet : QuietFrom words ui) : QuietFrom words (skipSpaces ui) := by
  refine ⟨?_, quiet.head, ?_⟩
  · rw [commandName_skipSpaces]
    exact quiet.first
  · rw [laterSections_skipSpaces]
    exact quiet.later

theorem parseWords_stays {σ : Type} {invariant : σ → Prop} {interpreter : List CString → Prog σ Int}
    (calls : ∀ words, (∀ word, words.head? = some word → QuietName word) → Stays invariant (interpreter words)) (quiet : QuietFrom words ui) :
    Stays invariant (parseWords interpreter fuel ui words) := by
  induction fuel generalizing words ui with
  | zero => exact .fault
  | succ fuel ih =>
    have clean : 59 ∉ (skipSpaces ui).takeWhile wordChar := fun member => absurd (List.mem_takeWhile_imp member) (by decide)
    have split : (skipSpaces ui).takeWhile wordChar ++ (skipSpaces ui).dropWhile wordChar = skipSpaces ui := List.takeWhile_append_dropWhile
    have later : laterSections ((skipSpaces ui).dropWhile wordChar) = laterSections ui := by
      rw [← laterSections_append clean, split, laterSections_skipSpaces]
    have head : ∀ word, (words ++ [(skipSpaces ui).takeWhile wordChar]).head? = some word → QuietName word := by
      intro word same
      cases words with
      | nil =>
        cases same
        exact quiet.first rfl
      | cons name words =>
        cases same
        exact quiet.head _ rfl
    rw [parseWords]
    refine .ite (fun _ => calls words quiet.head) fun _ => .ite (fun _ => calls words quiet.head) fun _ => ?_
    dsimp only
    refine .ite (fun _ => ih quiet.skip) fun _ => .ite (fun _ => .fault) fun _ => .ite (fun semicolon => ?_) fun other => ?_
    · refine .next (calls _ head) fun errorCode => .ite (fun _ => .done) fun _ => ih ?_
      apply QuietFrom.skip
      apply QuietLine.start
      cases rest : (skipSpaces ui).dropWhile wordChar with
      | nil =>
        rw [rest] at semicolon
        cases semicolon
      | cons c rest' =>
        rw [rest] at semicolon later
        cases semicolon
        rw [laterSections_semicolon] at later
        rw [List.tail_cons, QuietLine, later]
        exact quiet.later
    · refine ih ⟨fun none => absurd none (List.concat_ne_nil _ _), head, ?_⟩
      have behind : laterSections ((skipSpaces ui).dropWhile wordChar).tail = laterSections ui := by
        cases rest : (skipSpaces ui).dropWhile wordChar with
        | nil =>
          rw [rest] at later
          exact later
        | cons c rest' =>
          rw [rest] at later other
          rw [List.tail_cons, ← later, laterSections_char fun same => other (congrArg some same)]
      rw [behind]
      exact quiet.later

theorem parseInput_stays {σ : Type} {invariant : σ → Prop} {interpreter : List CString → Prog σ Int}
    (calls : ∀ words, (∀ word, words.head? = some word → QuietName word) → Stays invariant (interpreter words)) (quiet : QuietLine ui) :
    Stays invariant (parseInput interpreter fuel ui) := parseWords_stays calls quiet.start.skip

end Comp310.A2
