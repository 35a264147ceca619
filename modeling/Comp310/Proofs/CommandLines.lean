import Comp310.A2.ParseInput

/-! Which lines of input are taken apart into their commands. The loop does not move on where it finds a `;` in the
place of a word, and at the end of the line it takes what it has for one more command. -/

namespace Comp310.Proofs.CommandLines
open Comp310.A2 Comp310.Lib
open Comp310.Kernel (CString)

/-- A line without its newline, if it has one. The words fit into the buffers that they are copied to. -/
structure InputLine where
  text : CString
  newline : Bool
  plain : 10 ∉ text
  short : ∀ command ∈ text.splitOn 59, ∀ word ∈ wordsOf command, word.length < 200
  few : ∀ command ∈ text.splitOn 59, (wordsOf command).length < 100

def ending (newline : Bool) : CString := if newline then [10] else []

/-- The commands that have a word, each by its words. -/
def commands (text : CString) : List (List CString) := ((text.splitOn 59).map wordsOf).filter fun words => !words.isEmpty

/-- The commands are interpreted in their order. -/
def callAll {σ : Type} (interpreter : List CString → Prog σ Int) : List (List CString) → Prog σ PUnit
  | [] => pure ⟨⟩
  | words :: rest => do
    let _ ← interpreter words
    callAll interpreter rest

/-- The command comes to its end and is not one that ends the shell. -/
def Returns {σ : Type} (command : Prog σ Int) : Prop := ∀ state, ∃ errorCode after, command state = some (errorCode, after) ∧ errorCode ≠ -1

/-- For every interpreter, to parse the line is to interpret its commands. -/
def TakenApart (line : InputLine) : Prop :=
  ∀ (σ : Type) (interpreter : List CString → Prog σ Int), (∀ words ∈ commands line.text, Returns (interpreter words)) →
    ∀ state, ∃ fuel errorCode after, callAll interpreter (commands line.text) state = some (⟨⟩, after) ∧
      ∀ more ≥ fuel, parseInput interpreter more (line.text ++ ending line.newline) state = some (errorCode, after)

def EndsInWord (command : CString) : Prop := ∃ c, command.getLast? = some c ∧ c ≠ 32

/-- Each `;` is right behind a word, and there is a word behind the last of them. -/
def Tidy (text : CString) : Prop :=
  (∀ command ∈ (text.splitOn 59).dropLast, EndsInWord command) ∧ ∀ command, (text.splitOn 59).getLast? = some command → wordsOf command ≠ []

/-- An interpreter that only notes down what it is called with. -/
def noteDown (words : List CString) : Prog (List (List CString)) Int := fun calls => some (0, calls ++ [words])

variable {σ : Type} {interpreter : List CString → Prog σ Int} {fuel : Nat} {text part rest word : CString} {words : List CString}
  {newline : Bool} {calls : List (List CString)}

theorem ending_head : ∀ c, (ending newline).head? = some c → wordChar c = false := by
  cases newline with
  | false =>
    intro c same
    cases same
  | true =>
    intro c same
    cases same
    decide

theorem ending_end : (ending newline).head? = none ∨ (ending newline).head? = some 10 := by
  cases newline with
  | false => exact .inl rfl
  | true => exact .inr rfl

theorem ending_tail : (ending newline).tail = [] := by
  cases newline <;> rfl

theorem wordsOf_space : wordsOf (32 :: rest) = wordsOf rest := fields_separator

theorem wordsOf_word (nonempty : word ≠ []) (plain : 32 ∉ word) : wordsOf (word ++ 32 :: rest) = word :: wordsOf rest := by
  rw [wordsOf, fields_append, fields_single nonempty plain]
  rfl

theorem wordsOf_single (nonempty : word ≠ []) (plain : 32 ∉ word) : wordsOf word = [word] := fields_single nonempty plain

theorem wordChars (noSpace : 32 ∉ word) (noSemicolon : 59 ∉ word) (noNewline : 10 ∉ word) : ∀ c ∈ word, wordChar c = true := by
  intro c member
  refine wordChar_iff.mpr ⟨?_, ?_, ?_⟩
  · exact fun same => noSemicolon (same ▸ member)
  · exact fun same => noNewline (same ▸ member)
  · exact fun same => noSpace (same ▸ member)

theorem ending_ne : (ending newline).head? ≠ some 59 := by
  cases newline <;> decide

theorem endsInWord_space : EndsInWord (word ++ 32 :: rest) ↔ EndsInWord rest := by
  cases rest with
  | nil =>
    rw [EndsInWord, List.getLast?_concat]
    constructor
    · rintro ⟨c, same, other⟩
      exact absurd (Option.some.inj same).symm other
    · rintro ⟨c, none, _⟩
      cases none
  | cons c more =>
    obtain ⟨last, same⟩ : ∃ last, (c :: more).getLast? = some last := ⟨_, List.getLast?_eq_some_getLast (List.cons_ne_nil c more)⟩
    rw [EndsInWord, EndsInWord, List.append_cons, List.getLast?_append, same, Option.some_or]

theorem endsInWord_of_not_mem (noSpace : 32 ∉ part) : EndsInWord part ↔ part ≠ [] := by
  constructor
  · rintro ⟨c, last, _⟩ rfl
    cases last
  · intro nonempty
    refine ⟨part.getLast nonempty, List.getLast?_eq_some_getLast nonempty, ?_⟩
    exact fun same => noSpace (same ▸ List.getLast_mem nonempty)

/-- A command whose words can be put behind those that there are. -/
structure Readable (words : List CString) (part : CString) : Prop where
  noSemicolon : 59 ∉ part
  noNewline : 10 ∉ part
  short : ∀ word ∈ wordsOf part, word.length < 200
  few : words.length + (wordsOf part).length ≤ 100

/-- The loop reads the words up to the last space of the command. -/
theorem Readable.read (interpreter : List CString → Prog σ Int) (behind : CString) (readable : Readable words part) (enough : part.length + 1 < fuel) :
    ∃ ws w left, wordsOf part = ws ++ wordsOf w ∧ 32 ∉ w ∧ (EndsInWord part ↔ w ≠ []) ∧ Readable (words ++ ws) w ∧
      fuel + w.length ≤ left + part.length ∧
      parseWords interpreter fuel (part ++ behind) words = parseWords interpreter left (w ++ behind) (words ++ ws) := by
  generalize size : part.length = length at enough ⊢
  induction length using Nat.strongRecOn generalizing part words fuel with
  | ind length ih =>
    rcases split_first 32 part with noSpace | ⟨word, rest, rfl, noSpace⟩
    · refine ⟨[], part, fuel, rfl, noSpace, endsInWord_of_not_mem noSpace, ?_, by omega, ?_⟩
      · rw [List.append_nil]
        exact readable
      · rw [List.append_nil]
    · obtain ⟨noSemicolon, noNewline, short, few⟩ := readable
      rw [List.mem_append, not_or, List.mem_cons, not_or] at noSemicolon noNewline
      rw [List.length_append, List.length_cons] at size
      obtain ⟨fuel, rfl⟩ : ∃ more, fuel = more + 2 := ⟨fuel - 2, by omega⟩
      rw [endsInWord_space]
      by_cases empty : word = []
      · subst empty
        rw [List.nil_append, wordsOf_space] at short few ⊢
        have readable : Readable words rest := ⟨noSemicolon.2.2, noNewline.2.2, short, few⟩
        obtain ⟨ws, w, left, split, plain, ends, after, bound, equal⟩ := ih rest.length (by omega) readable rfl (show _ < fuel + 2 by omega)
        refine ⟨ws, w, left, split, plain, ends, after, by omega, ?_⟩
        rw [List.cons_append, parseWords_spaces, equal]
      · have split : wordsOf (word ++ 32 :: rest) = word :: wordsOf rest := wordsOf_word empty noSpace
        have positive := List.length_pos_iff.mpr empty
        rw [split] at short few ⊢
        rw [List.length_cons] at few
        have readable : Readable (words ++ [word]) rest := by
          refine ⟨noSemicolon.2.2, noNewline.2.2, fun w there => short w (List.mem_cons_of_mem _ there), ?_⟩
          rw [List.length_append, List.length_singleton]
          omega
        obtain ⟨ws, w, left, split', plain, ends, after, bound, equal⟩ := ih rest.length (by omega) readable rfl (show _ < fuel + 1 by omega)
        rw [List.append_assoc, List.singleton_append] at after equal
        refine ⟨word :: ws, w, left, by rw [split', List.cons_append], plain, ends, after, by omega, ?_⟩
        have chars := wordChars noSpace noSemicolon.1 noNewline.1
        have space : ∀ c, (32 :: (rest ++ behind)).head? = some c → wordChar c = false := by
          intro c same
          cases same
          decide
        have other : (32 :: (rest ++ behind)).head? ≠ some 59 := by
          rw [List.head?_cons]
          decide
        rw [List.append_assoc, List.cons_append, parseWords_word empty chars (short word List.mem_cons_self) (by omega) space other,
          List.tail_cons, equal]

theorem Readable.single (readable : Readable words word) (nonempty : word ≠ []) (noSpace : 32 ∉ word) :
    (∀ c ∈ word, wordChar c = true) ∧ word.length < 200 ∧ words.length < 100 := by
  obtain ⟨noSemicolon, noNewline, short, few⟩ := readable
  rw [wordsOf_single nonempty noSpace] at short few
  exact ⟨wordChars noSpace noSemicolon noNewline, short word List.mem_cons_self, few⟩

section Command
variable (readable : Readable words part)
include readable

/-- A command at the end of the line is interpreted, whatever words it has. -/
theorem Readable.last (enough : part.length + 1 < fuel) :
    parseWords interpreter fuel (part ++ ending newline) words = interpreter (words ++ wordsOf part) := by
  obtain ⟨ws, w, left, split, noSpace, _, after, bound, equal⟩ := readable.read interpreter (ending newline) enough
  obtain ⟨left, rfl⟩ : ∃ more, left = more + 2 := ⟨left - 2, by omega⟩
  rw [equal, split, ← List.append_assoc]
  by_cases empty : w = []
  · rw [empty, List.nil_append, parseWords_end ending_end, wordsOf, fields_nil, List.append_nil]
  · obtain ⟨chars, short, few⟩ := after.single empty noSpace
    rw [parseWords_word empty chars short few ending_head ending_ne, ending_tail, parseWords_end (.inl rfl), wordsOf_single empty noSpace]

/-- A command that ends in a word is interpreted at its `;`, and the loop goes on behind that. -/
theorem Readable.closed (interpreter : List CString → Prog σ Int) (rest : CString) (last : EndsInWord part) (enough : part.length + 1 < fuel) :
    wordsOf part ≠ [] ∧ ∃ left, fuel ≤ left + part.length ∧ parseWords interpreter fuel (part ++ 59 :: rest) words = (do
      let errorCode ← interpreter (words ++ wordsOf part)
      if errorCode = -1 then pure errorCode else parseWords interpreter left (skipSpaces rest) []) := by
  obtain ⟨ws, w, left, split, noSpace, ends, after, bound, equal⟩ := readable.read interpreter (59 :: rest) enough
  have nonempty := ends.mp last
  have positive := List.length_pos_iff.mpr nonempty
  obtain ⟨left, rfl⟩ : ∃ more, left = more + 1 := ⟨left - 1, by omega⟩
  obtain ⟨chars, short, few⟩ := after.single nonempty noSpace
  rw [split, wordsOf_single nonempty noSpace]
  refine ⟨List.concat_ne_nil w ws, left, by omega, ?_⟩
  rw [equal, parseWords_command nonempty chars short few, List.append_assoc]

/-- Behind anything but a word, the loop stays at the `;`. -/
theorem Readable.stuck (last : ¬ EndsInWord part) (enough : part.length + 1 < fuel) :
    parseWords interpreter fuel (part ++ 59 :: rest) words = fault := by
  obtain ⟨ws, w, left, _, _, ends, _, _, equal⟩ := readable.read interpreter (59 :: rest) enough
  have empty : w = [] := Decidable.byContradiction fun nonempty => last (ends.mpr nonempty)
  rw [equal, empty]
  exact parseWords_stuck

end Command

section Line

theorem filter_words (words : List CString) (others : List (List CString)) : (words :: others).filter (fun words => !words.isEmpty) =
    (if words = [] then [] else [words]) ++ others.filter fun words => !words.isEmpty := by
  cases words with
  | nil => rfl
  | cons _ _ => rfl

theorem commands_cons (noSemicolon : 59 ∉ part) :
    commands (part ++ 59 :: rest) = (if wordsOf part = [] then [] else [wordsOf part]) ++ commands rest := by
  rw [commands, List.splitOn_append_cons_self_of_not_mem noSemicolon, List.map_cons, filter_words]
  rfl

theorem commands_single (noSemicolon : 59 ∉ text) : commands text = if wordsOf text = [] then [] else [wordsOf text] := by
  rw [commands, List.splitOn_eq_singleton noSemicolon, List.map_singleton, filter_words]
  exact List.append_nil _

theorem tidy_cons (noSemicolon : 59 ∉ part) : Tidy (part ++ 59 :: rest) ↔ EndsInWord part ∧ Tidy rest := by
  obtain ⟨first, more, split⟩ := List.exists_cons_of_ne_nil (List.splitOn_ne_nil 59 rest)
  rw [Tidy, Tidy, List.splitOn_append_cons_self_of_not_mem noSemicolon, split, List.dropLast_cons_cons, List.forall_mem_cons,
    List.getLast?_cons_cons, and_assoc]

theorem tidy_single (noSemicolon : 59 ∉ text) : Tidy text ↔ wordsOf text ≠ [] := by
  rw [Tidy, List.splitOn_eq_singleton noSemicolon]
  constructor
  · intro tidy
    exact tidy.2 text rfl
  · intro some
    refine ⟨fun command member => absurd member List.not_mem_nil, ?_⟩
    intro command same
    cases same
    exact some

/-- The commands of a text can all be read. -/
def Fits (text : CString) : Prop := ∀ command ∈ text.splitOn 59, Readable [] command

theorem InputLine.fits (line : InputLine) : Fits line.text := by
  intro command member
  obtain ⟨noSemicolon, within⟩ := splitOn_parts 59 line.text command member
  have few := line.few command member
  refine ⟨noSemicolon, fun newline => line.plain (within 10 newline), line.short command member, ?_⟩
  rw [List.length_nil]
  omega

theorem Fits.cons (noSemicolon : 59 ∉ part) (fits : Fits (part ++ 59 :: rest)) : Readable [] part ∧ Fits rest := by
  rw [Fits, List.splitOn_append_cons_self_of_not_mem noSemicolon, List.forall_mem_cons] at fits
  exact fits

theorem Fits.single (noSemicolon : 59 ∉ text) (fits : Fits text) : Readable [] text := by
  rw [Fits, List.splitOn_eq_singleton noSemicolon] at fits
  exact fits text List.mem_cons_self

theorem parse_tidy (tidy : Tidy text) (fits : Fits text) (returns : ∀ words ∈ commands text, Returns (interpreter words)) (state : σ) :
    ∃ errorCode after, callAll interpreter (commands text) state = some (⟨⟩, after) ∧
      ∀ fuel, text.length + 1 < fuel → parseWords interpreter fuel (text ++ ending newline) [] state = some (errorCode, after) := by
  generalize size : text.length = length
  induction length using Nat.strongRecOn generalizing text state with
  | ind length ih =>
    rcases split_first 59 text with noSemicolon | ⟨part, rest, rfl, noSemicolon⟩
    · rw [tidy_single noSemicolon] at tidy
      rw [commands_single noSemicolon, if_neg tidy] at returns ⊢
      obtain ⟨errorCode, after, ran, _⟩ := returns _ List.mem_cons_self state
      refine ⟨errorCode, after, run_bind ran _, ?_⟩
      intro fuel enough
      rw [(fits.single noSemicolon).last (by omega)]
      exact ran
    · rw [tidy_cons noSemicolon] at tidy
      obtain ⟨readable, fits⟩ := fits.cons noSemicolon
      rw [List.length_append, List.length_cons] at size
      have some : wordsOf part ≠ [] := (readable.closed interpreter [] tidy.1 (Nat.lt_succ_self _)).1
      rw [commands_cons noSemicolon, if_neg some] at returns ⊢
      obtain ⟨errorCode, middle, ran, notQuit⟩ := returns _ List.mem_cons_self state
      obtain ⟨last, after, calls, parses⟩ := ih rest.length (by omega) tidy.2 fits
        (fun words member => returns words (List.mem_cons_of_mem _ member)) middle rfl
      refine ⟨last, after, (run_bind ran _).trans calls, ?_⟩
      intro fuel enough
      obtain ⟨_, left, bound, equal⟩ := readable.closed interpreter (rest ++ ending newline) tidy.1 (show _ < fuel by omega)
      obtain ⟨left, rfl⟩ : ∃ more, left = more + 2 := ⟨left - 2, by omega⟩
      rw [List.append_assoc, List.cons_append, equal, List.nil_append, run_bind ran, if_neg notQuit, parseWords_skipSpaces]
      exact parses (left + 2) (by omega)

theorem callAll_noteDown (list : List (List CString)) : callAll noteDown list calls = some (⟨⟩, calls ++ list) := by
  induction list generalizing calls with
  | nil => rw [List.append_nil]; rfl
  | cons words rest ih =>
    refine (run_bind rfl _).trans ((@ih (calls ++ [words])).trans ?_)
    rw [List.append_assoc]
    rfl

/-- The loop does not end, or it ends with a command that has no word. -/
theorem parse_untidy (untidy : ¬ Tidy text) (fits : Fits text) (enough : text.length + 1 < fuel) :
    parseWords noteDown fuel (text ++ ending newline) [] calls = none ∨
    parseWords noteDown fuel (text ++ ending newline) [] calls = some (0, calls ++ commands text ++ [[]]) := by
  generalize size : text.length = length at enough
  induction length using Nat.strongRecOn generalizing text fuel calls with
  | ind length ih =>
    rcases split_first 59 text with noSemicolon | ⟨part, rest, rfl, noSemicolon⟩
    · rw [tidy_single noSemicolon, ne_eq, Decidable.not_not] at untidy
      right
      rw [(fits.single noSemicolon).last (by omega), commands_single noSemicolon, untidy, if_pos rfl, List.append_nil, List.append_nil]
      rfl
    · rw [tidy_cons noSemicolon] at untidy
      obtain ⟨readable, fits⟩ := fits.cons noSemicolon
      rw [List.length_append, List.length_cons] at size
      rw [List.append_assoc, List.cons_append]
      by_cases closed : EndsInWord part
      · obtain ⟨some, left, bound, equal⟩ := readable.closed noteDown (rest ++ ending newline) closed (show _ < fuel by omega)
        obtain ⟨left, rfl⟩ : ∃ more, left = more + 2 := ⟨left - 2, by omega⟩
        have noted : noteDown (wordsOf part) calls = Option.some (0, calls ++ [wordsOf part]) := rfl
        rw [equal, List.nil_append, run_bind noted, if_neg (by decide), parseWords_skipSpaces,
          commands_cons noSemicolon, if_neg some, ← List.append_assoc calls]
        exact ih rest.length (by omega) (fun tidy => untidy ⟨closed, tidy⟩) fits rfl (by omega)
      · left
        rw [readable.stuck closed (by omega)]
        rfl

/-- A line is taken apart into its commands just when each `;` is right behind a word and the last command has one. -/
theorem takenApart_iff (line : InputLine) : TakenApart line ↔ Tidy line.text := by
  constructor
  · intro apart
    apply Classical.byContradiction
    intro untidy
    obtain ⟨fuel, errorCode, after, called, parses⟩ := apart _ noteDown (fun _ _ _ => ⟨0, _, rfl, by decide⟩) []
    rw [callAll_noteDown, List.nil_append] at called
    cases called
    have ran := parses (fuel + line.text.length + 2) (by omega)
    rw [parseInput, parseWords_skipSpaces] at ran
    rcases parse_untidy untidy line.fits (show line.text.length + 1 < fuel + line.text.length + 2 by omega) with hangs | extra
    · rw [hangs] at ran
      cases ran
    · rw [extra] at ran
      have same := (Prod.mk.inj (Option.some.inj ran)).2
      rw [List.nil_append] at same
      have longer := congrArg List.length same
      rw [List.length_append, List.length_singleton] at longer
      omega
  · intro tidy σ interpreter returns state
    obtain ⟨errorCode, after, called, parses⟩ := parse_tidy tidy line.fits returns state
    refine ⟨line.text.length + 2, errorCode, after, called, ?_⟩
    intro more enough
    obtain ⟨more, rfl⟩ : ∃ left, more = left + 2 := ⟨more - 2, by omega⟩
    rw [parseInput, parseWords_skipSpaces]
    exact parses (more + 2) (by omega)

/-- The line `a ;b` is never left. -/
theorem spaced_semicolon_hangs : ∃ line : InputLine, line.text = [97, 32, 59, 98] ∧ ¬ TakenApart line := by
  refine ⟨⟨[97, 32, 59, 98], true, by decide, by decide, by decide⟩, rfl, ?_⟩
  intro apart
  obtain ⟨fuel, errorCode, after, _, parses⟩ := apart _ noteDown (fun _ _ _ => ⟨0, _, rfl, by decide⟩) []
  have ran := parses (fuel + 4) (Nat.le_add_right fuel 4)
  have readable : Readable [] [97, 32] := ⟨by decide, by decide, by decide, by decide⟩
  have noWord : ¬ EndsInWord ([97] ++ 32 :: []) := by
    rw [endsInWord_space, endsInWord_of_not_mem List.not_mem_nil]
    exact fun some => some rfl
  have stuck : parseWords noteDown (fuel + 4) ([97, 32] ++ 59 :: ([98] ++ ending true)) [] = fault :=
    readable.stuck noWord (Nat.le_add_left 4 fuel)
  cases (congrFun stuck []).symm.trans ran

end Line

end Comp310.Proofs.CommandLines
