import Comp310.Kernel.ParseInput

/-! Which sections of a line are interpreted. When a section feeds a line of a script to `parseInput`, `strtok` goes on in
that line, and not in the one that the section is from. -/

namespace Comp310.Proofs.ChainedCommands
open Comp310.Kernel Comp310.Lib

variable {σ : Type}

/-- Whatever comes back to it, the command does not end the shell. -/
def NeverQuits : Command σ → Prop
  | .done ret _ => ret ≠ -1
  | .feed _ _ resume => ∀ ret state, NeverQuits (resume ret state)

/-- One call for each section that is not empty. -/
def callsOf (own : Nat) (sections : List CString) : List SectionCall := sections.map fun token => (own, sectionWords token)

/-- The state in which the first of the sections is interpreted. -/
def advance (session : Session σ) : Session σ := { session with cursor := (strtok session.cursor).2 }

/-- The section fits the arrays `token` and `words`. -/
def Fits (token : CString) : Prop := token.length < 1000 ∧ (sectionWords token).length ≤ 100

/-- Every section fits its arrays and no section feeds a line but the last, and that one comes to its end and leaves no
section behind the place of `strtok`: the lines that it feeds are read to their ends, which a `quit` in one of them can prevent. -/
def UndisturbedBy (interpreter : List CString → σ → Command σ) (ends : Command σ → Session σ → Prop) : List CString → Session σ → Prop
  | [], _ => True
  | [last], session => Fits last ∧ ends (interpreter (sectionWords last) session.state) (advance session)
  | token :: next :: rest, session => Fits token ∧ ∃ ret state, interpreter (sectionWords token) session.state = .done ret state ∧
      UndisturbedBy interpreter ends (next :: rest) { advance session with state }

/-- The command comes to its end and leaves no section behind the place of `strtok`. -/
def EndsWith (feed : CString → Prog (Session σ) Int) (command : Command σ) (session : Session σ) : Prop :=
  ∃ ret after, command.perform feed session = some (ret, after) ∧ fields 59 after.cursor.rest = []

/-- How the lines of scripts are parsed. -/
def feedLine (interpreter : List CString → σ → Command σ) (fuel : Nat) (line : CString) : Prog (Session σ) Int := do
  let session ← get
  set { session with buffers := session.buffers + 1 }
  let result ← parseInput interpreter fuel ⟨session.buffers, line⟩
  pure result.1

/-- The section is not disturbed, however deep the scripts of the last section lead. -/
def Undisturbed (interpreter : List CString → σ → Command σ) : List CString → Session σ → Prop :=
  UndisturbedBy interpreter fun command session => ∃ fuel, EndsWith (feedLine interpreter fuel) command session

variable {interpreter : List CString → σ → Command σ} {feed : CString → Prog (Session σ) Int} {fuel own : Nat}
  {session after : Session σ} {ret last : Int} {calls : List SectionCall} {command : Command σ} {token : Option CString}

/-- A line is a new string, and after it `strtok` is there or in one that is newer still. -/
def Strays (feed : CString → Prog (Session σ) Int) : Prop :=
  ∀ line session ret after, feed line session = some (ret, after) → session.buffers ≤ after.buffers ∧ session.buffers ≤ after.cursor.buffer

/-- A command goes on from where the line that it feeds has led. -/
theorem perform_feed {line : CString} {state : σ} {resume : Int → σ → Command σ}
    (ran : (Command.feed line state resume).perform feed session = some (ret, after)) :
    ∃ result middle, feed line { session with state } = some (result, middle) ∧
      (resume result middle.state).perform feed middle = some (ret, after) := by
  obtain ⟨_, _, changed, ran⟩ := bind_some ran
  cases changed
  obtain ⟨result, middle, fed, ran⟩ := bind_some ran
  obtain ⟨_, _, got, ran⟩ := bind_some ran
  cases got
  exact ⟨result, middle, fed, ran⟩

/-- A command leaves `strtok` alone, or feeds a line and leaves it in a newer string. -/
theorem perform_frame (strays : Strays feed) (ran : command.perform feed session = some (ret, after)) :
    session.buffers ≤ after.buffers ∧
      ((∃ state, command = .done ret state ∧ after = { session with state }) ∨ session.buffers ≤ after.cursor.buffer) := by
  induction command generalizing session with
  | done ret state =>
    cases ran
    exact ⟨Nat.le_refl _, .inl ⟨state, rfl, rfl⟩⟩
  | feed line state resume ih =>
    obtain ⟨result, middle, fed, ran⟩ := perform_feed ran
    obtain ⟨more, newer⟩ := strays _ _ _ _ fed
    obtain ⟨more', place⟩ := ih result middle.state ran
    refine ⟨Nat.le_trans more more', .inr ?_⟩
    rcases place with ⟨state, _, rfl⟩ | newest
    · exact newer
    · exact Nat.le_trans more newest

theorem perform_notQuit (never : NeverQuits command) (ran : command.perform feed session = some (ret, after)) : ret ≠ -1 := by
  induction command generalizing session with
  | done ret state =>
    cases ran
    exact never
  | feed line state resume ih =>
    obtain ⟨result, middle, fed, ran⟩ := perform_feed ran
    exact ih result middle.state (never result middle.state) ran

theorem loop_some {text : CString} (ran : sectionLoop interpreter feed (fuel + 1) ret (some text) session = some ((last, calls), after)) :
    Fits text ∧ ∃ ret' middle, (interpreter (sectionWords text) session.state).perform feed session = some (ret', middle) ∧
      ((ret' = -1 ∧ last = ret' ∧ after = advance middle ∧ calls = [(session.cursor.buffer, sectionWords text)]) ∨
       ret' ≠ -1 ∧ ∃ rest, sectionLoop interpreter feed fuel ret' (strtok middle.cursor).1 (advance middle) = some ((last, rest), after) ∧
        calls = (session.cursor.buffer, sectionWords text) :: rest) := by
  obtain ⟨_, _, got, ran⟩ := bind_some ran
  cases got
  split at ran
  next => cases ran
  next small =>
    obtain ⟨ret', middle, performed, ran⟩ := bind_some ran
    obtain ⟨_, _, moved, ran⟩ := bind_some ran
    cases moved
    refine ⟨⟨by omega, by omega⟩, ret', middle, performed, ?_⟩
    split at ran
    next quit =>
      cases ran
      exact .inl ⟨quit, rfl, rfl, rfl⟩
    next other =>
      obtain ⟨⟨_, rest⟩, _, looped, ran⟩ := bind_some ran
      cases ran
      exact .inr ⟨other, rest, looped, rfl⟩

theorem loop_none (ran : sectionLoop interpreter feed fuel ret none session = some ((last, calls), after)) : after = session ∧ calls = [] := by
  cases fuel with
  | zero => cases ran
  | succ fuel =>
    cases ran
    exact ⟨rfl, rfl⟩

/-- Where there is a token, there is a call, for the string that `strtok` is in. -/
theorem loop_first (ran : sectionLoop interpreter feed fuel ret token session = some ((last, calls), after)) :
    (token = none ∧ calls = []) ∨ ∃ text rest, token = some text ∧ calls = (session.cursor.buffer, sectionWords text) :: rest := by
  cases token with
  | none => exact .inl ⟨rfl, (loop_none ran).2⟩
  | some text =>
    cases fuel with
    | zero => cases ran
    | succ fuel =>
      obtain ⟨_, _, _, _, ⟨_, _, _, rfl⟩ | ⟨_, rest, _, rfl⟩⟩ := loop_some ran
      · exact .inr ⟨text, [], rfl, rfl⟩
      · exact .inr ⟨text, rest, rfl, rfl⟩

/-- The loop leaves `strtok` in its own string or in a newer one. -/
theorem loop_frame (strays : Strays feed) {base : Nat} (old : base ≤ session.buffers) (place : session.cursor.buffer = own ∨ base ≤ session.cursor.buffer)
    (ran : sectionLoop interpreter feed fuel ret token session = some ((last, calls), after)) :
    base ≤ after.buffers ∧ (after.cursor.buffer = own ∨ base ≤ after.cursor.buffer) := by
  induction fuel generalizing session ret token calls with
  | zero => cases ran
  | succ fuel ih =>
    cases token with
    | none =>
      obtain ⟨rfl, _⟩ := loop_none ran
      exact ⟨old, place⟩
    | some text =>
      obtain ⟨_, ret', middle, performed, ends⟩ := loop_some ran
      obtain ⟨more, place'⟩ := perform_frame strays performed
      have there : (advance middle).cursor.buffer = own ∨ base ≤ (advance middle).cursor.buffer := by
        rw [advance, strtok_buffer]
        rcases place' with ⟨state, _, rfl⟩ | newer
        · exact place
        · exact .inr (Nat.le_trans old newer)
      rcases ends with ⟨_, _, rfl, _⟩ | ⟨_, rest, looped, _⟩
      · exact ⟨Nat.le_trans old more, there⟩
      · have old' : base ≤ (advance middle).buffers := Nat.le_trans old more
        exact ih old' there looped

theorem feedLine_strays : Strays (feedLine interpreter fuel) := by
  induction fuel with
  | zero =>
    intro line session ret after ran
    obtain ⟨_, _, got, ran⟩ := bind_some ran
    cases got
    obtain ⟨_, _, changed, ran⟩ := bind_some ran
    cases changed
    obtain ⟨_, _, parsed, _⟩ := bind_some ran
    cases parsed
  | succ fuel ih =>
    intro line session ret after ran
    obtain ⟨_, _, got, ran⟩ := bind_some ran
    cases got
    obtain ⟨_, _, changed, ran⟩ := bind_some ran
    cases changed
    obtain ⟨⟨last, calls⟩, _, parsed, ran⟩ := bind_some ran
    cases ran
    obtain ⟨_, _, placed, parsed⟩ := bind_some parsed
    cases placed
    obtain ⟨token, _, moved, parsed⟩ := bind_some parsed
    cases moved
    have frame : session.buffers ≤ after.buffers ∧ (after.cursor.buffer = session.buffers ∨ session.buffers ≤ after.cursor.buffer) :=
      loop_frame ih (Nat.le_succ _) (.inl strtok_buffer) parsed
    exact ⟨frame.1, frame.2.elim (fun same => Nat.le_of_eq same.symm) id⟩

/-- A loop that has made the calls of its sections has not been disturbed. -/
theorem loop_undisturbed (strays : Strays feed) (mine : session.cursor.buffer = own) (older : own < session.buffers)
    (noQuit : ∀ text ∈ fields 59 session.cursor.rest, ∀ state, NeverQuits (interpreter (sectionWords text) state))
    (ran : sectionLoop interpreter feed fuel ret (strtok session.cursor).1 (advance session) = some ((last, calls), after))
    (called : calls = callsOf own (fields 59 session.cursor.rest)) :
    UndisturbedBy interpreter (EndsWith feed) (fields 59 session.cursor.rest) session := by
  induction fuel generalizing session ret calls with
  | zero => cases ran
  | succ fuel ih =>
    cases next : (strtok session.cursor).1 with
    | none =>
      rw [strtok_none.mp next]
      trivial
    | some text =>
      have sections := strtok_some next
      rw [next] at ran
      obtain ⟨small, ret', middle, performed, ends⟩ := loop_some ran
      have notQuit : ret' ≠ -1 := by
        refine perform_notQuit (noQuit text ?_ _) performed
        rw [sections]
        exact List.mem_cons_self
      obtain ⟨_, rest, looped, rfl⟩ := ends.resolve_left fun quit => notQuit quit.1
      have mine' : (advance session).cursor.buffer = own := strtok_buffer.trans mine
      rw [sections, mine', callsOf, List.map_cons] at called
      have called' := (List.cons.inj called).2
      rw [sections]
      cases left : fields 59 (strtok session.cursor).2.rest with
      | nil =>
        rw [left] at called'
        refine ⟨small, ret', middle, performed, ?_⟩
        rcases loop_first looped with ⟨empty, _⟩ | ⟨_, _, _, some⟩
        · exact strtok_none.mp empty
        · rw [called'] at some
          cases some
      | cons first others =>
        obtain ⟨more, ⟨state, same, rfl⟩ | newer⟩ := perform_frame strays performed
        · -- the section was done without a line of a script
          let quiet : Session σ := { advance session with state }
          have kept : quiet.cursor.buffer = own := mine'
          have later : UndisturbedBy interpreter (EndsWith feed) (fields 59 quiet.cursor.rest) quiet := by
            refine ih kept older (fun text member => noQuit text ?_) looped called'
            rw [sections]
            exact List.mem_cons_of_mem _ member
          exact ⟨small, ret', state, same, left ▸ later⟩
        · -- `strtok` is in a line of a script, and the next call is not for this line
          have bound : session.buffers ≤ middle.cursor.buffer := newer
          have there : (advance middle).cursor.buffer = middle.cursor.buffer := strtok_buffer
          rw [left] at called'
          rcases loop_first looped with ⟨_, none⟩ | ⟨_, _, _, some⟩
          · rw [none] at called'
            cases called'
          · have same := (Prod.mk.inj (List.cons.inj (some.symm.trans called')).1).1
            omega

section Fuel

/-- What runs through with the one runs through with the other, to the same end. -/
def Extends (feed feed' : CString → Prog (Session σ) Int) : Prop :=
  ∀ line session result, feed line session = some result → feed' line session = some result

variable {feed' : CString → Prog (Session σ) Int} {fuel' : Nat}

theorem perform_extends (extends' : Extends feed feed') (ran : command.perform feed session = some (ret, after)) :
    command.perform feed' session = some (ret, after) := by
  induction command generalizing session with
  | done ret state => exact ran
  | feed line state resume ih =>
    obtain ⟨result, middle, fed, ran⟩ := perform_feed ran
    have changed : (modify fun session => { session with state } : Prog (Session σ) PUnit) session = some (⟨⟩, { session with state }) := rfl
    have current : (get : Prog (Session σ) (Session σ)) middle = some (middle, middle) := rfl
    rw [Command.perform, run_bind changed, run_bind (extends' _ _ _ fed), run_bind current]
    exact ih result middle.state ran

/-- A round of the loop for a section that fits and whose command comes to its end. -/
theorem loop_performed {text : CString} {middle : Session σ} (small : Fits text) (first : Int)
    (performed : (interpreter (sectionWords text) session.state).perform feed session = some (ret, middle)) :
    sectionLoop interpreter feed (fuel + 1) first (some text) session =
      (if ret = -1 then pure (ret, [(session.cursor.buffer, sectionWords text)])
      else do
        let (last, calls) ← sectionLoop interpreter feed fuel ret (strtok middle.cursor).1
        pure (last, (session.cursor.buffer, sectionWords text) :: calls)) (advance middle) := by
  obtain ⟨short, few⟩ := small
  have current : (get : Prog (Session σ) (Session σ)) session = some (session, session) := rfl
  have moved : nextSection middle = some ((strtok middle.cursor).1, advance middle) := rfl
  rw [sectionLoop, run_bind current, if_neg (by omega), run_bind performed, run_bind moved]

theorem loop_extends (extends' : Extends feed feed') (more : fuel ≤ fuel')
    (ran : sectionLoop interpreter feed fuel ret token session = some ((last, calls), after)) :
    sectionLoop interpreter feed' fuel' ret token session = some ((last, calls), after) := by
  induction fuel generalizing fuel' session ret token calls with
  | zero => cases ran
  | succ fuel ih =>
    obtain ⟨fuel', rfl⟩ := Nat.exists_eq_succ_of_ne_zero (show fuel' ≠ 0 by omega)
    cases token with
    | none => exact ran
    | some text =>
      obtain ⟨small, ret', middle, performed, ends⟩ := loop_some ran
      rw [loop_performed small ret (perform_extends extends' performed)]
      rcases ends with ⟨quit, rfl, rfl, rfl⟩ | ⟨other, rest, looped, rfl⟩
      · rw [if_pos quit]
        rfl
      · rw [if_neg other, run_bind (ih (Nat.le_of_succ_le_succ more) looped)]
        rfl

theorem parseInput_eq (ui : Cursor) : parseInput interpreter (fuel + 1) ui session =
    sectionLoop interpreter (feedLine interpreter fuel) (fuel + 1) 0 (strtok ui).1 (advance { session with cursor := ui }) := rfl

theorem feedLine_extends (more : fuel ≤ fuel') : Extends (feedLine interpreter fuel) (feedLine interpreter fuel') := by
  induction fuel generalizing fuel' with
  | zero =>
    intro line session result ran
    cases ran
  | succ fuel ih =>
    intro line session result ran
    obtain ⟨fuel', rfl⟩ := Nat.exists_eq_succ_of_ne_zero (show fuel' ≠ 0 by omega)
    obtain ⟨_, _, got, ran⟩ := bind_some ran
    cases got
    obtain ⟨_, _, changed, ran⟩ := bind_some ran
    cases changed
    obtain ⟨⟨last, calls⟩, after, parsed, ran⟩ := bind_some ran
    cases ran
    rw [parseInput_eq] at parsed
    have parsed' := loop_extends (ih (Nat.le_of_succ_le_succ more)) more parsed
    rw [← parseInput_eq] at parsed'
    have current : (get : Prog (Session σ) (Session σ)) session = some (session, session) := rfl
    have changed : (set { session with buffers := session.buffers + 1 } : Prog (Session σ) PUnit) session =
      some (⟨⟩, { session with buffers := session.buffers + 1 }) := rfl
    rw [feedLine, run_bind current, run_bind changed, run_bind parsed']
    rfl

theorem parseInput_extends {ui : Cursor} (more : fuel ≤ fuel') (ran : parseInput interpreter fuel ui session = some ((last, calls), after)) :
    parseInput interpreter fuel' ui session = some ((last, calls), after) := by
  cases fuel with
  | zero => cases ran
  | succ fuel =>
    obtain ⟨fuel', rfl⟩ := Nat.exists_eq_succ_of_ne_zero (show fuel' ≠ 0 by omega)
    rw [parseInput_eq] at ran ⊢
    exact loop_extends (feedLine_extends (Nat.le_of_succ_le_succ more)) more ran

theorem UndisturbedBy.mono {ends ends' : Command σ → Session σ → Prop} (weaker : ∀ command session, ends command session → ends' command session)
    {texts : List CString} (undisturbed : UndisturbedBy interpreter ends texts session) : UndisturbedBy interpreter ends' texts session := by
  induction texts generalizing session with
  | nil => trivial
  | cons text rest ih =>
    cases rest with
    | nil => exact ⟨undisturbed.1, weaker _ _ undisturbed.2⟩
    | cons next rest =>
      obtain ⟨small, ret, state, same, later⟩ := undisturbed
      exact ⟨small, ret, state, same, ih later⟩

/-- A line that is not disturbed is parsed to its end, with the calls of its sections. -/
theorem loop_runs (noQuit : ∀ text ∈ fields 59 session.cursor.rest, ∀ state, NeverQuits (interpreter (sectionWords text) state))
    (undisturbed : Undisturbed interpreter (fields 59 session.cursor.rest) session) :
    ∃ fuel last after, sectionLoop interpreter (feedLine interpreter fuel) (fuel + 1) ret (strtok session.cursor).1 (advance session) =
      some ((last, callsOf session.cursor.buffer (fields 59 session.cursor.rest)), after) := by
  generalize sections : fields 59 session.cursor.rest = texts at noQuit undisturbed
  induction texts generalizing session ret with
  | nil =>
    rw [strtok_none.mpr sections]
    exact ⟨0, ret, advance session, rfl⟩
  | cons text rest ih =>
    obtain ⟨first, left⟩ : (strtok session.cursor).1 = some text ∧ fields 59 (strtok session.cursor).2.rest = rest := by
      cases next : (strtok session.cursor).1 with
      | none =>
        rw [strtok_none.mp next] at sections
        cases sections
      | some token =>
        have split := sections.symm.trans (strtok_some next)
        cases split
        exact ⟨rfl, rfl⟩
    have mine : (advance session).cursor.buffer = session.cursor.buffer := strtok_buffer
    rw [first, callsOf, List.map_cons, ← mine]
    cases rest with
    | nil =>
      obtain ⟨small, fuel, ret', after, performed, none⟩ := undisturbed
      have other := perform_notQuit (noQuit text List.mem_cons_self _) performed
      refine ⟨fuel + 1, ret', advance after, ?_⟩
      rw [loop_performed small ret (perform_extends (feedLine_extends (Nat.le_succ fuel)) performed), if_neg other, strtok_none.mpr none]
      rfl
    | cons next rest =>
      obtain ⟨small, ret', state, same, later⟩ := undisturbed
      have performed : (interpreter (sectionWords text) (advance session).state).perform (feedLine interpreter 0) (advance session) =
          some (ret', { advance session with state }) := by
        rw [show interpreter (sectionWords text) (advance session).state = .done ret' state from same]
        rfl
      have other := perform_notQuit (noQuit text List.mem_cons_self _) performed
      obtain ⟨fuel, last, after, looped⟩ := ih left (fun token member => noQuit token (List.mem_cons_of_mem _ member)) later
      refine ⟨fuel + 1, last, after, ?_⟩
      rw [loop_performed small ret (perform_extends (feedLine_extends (Nat.zero_le _)) performed), if_neg other,
        run_bind (loop_extends (feedLine_extends (Nat.le_succ fuel)) (Nat.le_refl _) looped)]
      rfl

end Fuel

/-- The line is parsed to its end, with the calls of its sections and no others, just where it is not disturbed. -/
theorem sections_called_iff {line : CString} (older : own < session.buffers)
    (noQuit : ∀ text ∈ fields 59 line, ∀ state, NeverQuits (interpreter (sectionWords text) state)) :
    (∃ enough last after, ∀ fuel ≥ enough,
      parseInput interpreter fuel ⟨own, line⟩ session = some ((last, callsOf own (fields 59 line)), after)) ↔
      Undisturbed interpreter (fields 59 line) { session with cursor := ⟨own, line⟩ } := by
  let placed : Session σ := { session with cursor := ⟨own, line⟩ }
  have noQuit' : ∀ text ∈ fields 59 placed.cursor.rest, ∀ state, NeverQuits (interpreter (sectionWords text) state) := noQuit
  constructor
  · rintro ⟨enough, last, after, parsed⟩
    have ran := parsed (enough + 1) (Nat.le_succ enough)
    rw [parseInput_eq] at ran
    have undisturbed := loop_undisturbed feedLine_strays (show placed.cursor.buffer = own from rfl) older noQuit' ran rfl
    exact undisturbed.mono fun command session ends => ⟨enough, ends⟩
  · intro undisturbed
    obtain ⟨fuel, last, after, ran⟩ := loop_runs noQuit' undisturbed
    refine ⟨fuel + 1, last, after, fun fuel' more => parseInput_extends more ?_⟩
    rw [parseInput_eq]
    exact ran

section Example

/-- A script of lines that are read one after the other. -/
def script (lines : List CString) (state : σ) : Command σ := lines.foldr (fun line rest => .feed line state fun _ _ => rest) (.done 0 state)

/-- `run` has a script of one line, `echo b`; all else is done at once. -/
private def runEcho (words : List CString) (state : Unit) : Command Unit :=
  if words.head? = some [114, 117, 110] then script [[101, 99, 104, 111, 32, 98]] state else .done 0 state

/-- `echo a;run p` -/
private abbrev runLast : CString := [101, 99, 104, 111, 32, 97, 59, 114, 117, 110, 32, 112]

/-- `run p;echo a` -/
private abbrev runFirst : CString := [114, 117, 110, 32, 112, 59, 101, 99, 104, 111, 32, 97]

private theorem runEcho_neverQuits (words : List CString) (state : Unit) : NeverQuits (runEcho words state) := by
  unfold runEcho
  split
  · exact fun _ _ => (by decide : (0 : Int) ≠ -1)
  · exact (by decide : (0 : Int) ≠ -1)

/-- With the script at the end both sections are interpreted. -/
theorem sections_called_last : ∃ enough last after, ∀ fuel ≥ enough,
    parseInput runEcho fuel ⟨0, runLast⟩ ⟨(), ⟨0, []⟩, 1⟩ = some ((last, callsOf 0 (fields 59 runLast)), after) := by
  have older : 0 < (⟨(), ⟨0, []⟩, 1⟩ : Session Unit).buffers := Nat.one_pos
  refine (sections_called_iff older fun _ _ => runEcho_neverQuits _).mpr ?_
  refine ⟨⟨by decide, by decide⟩, 0, (), rfl, ⟨by decide, by decide⟩, 4, 0, ?_⟩
  refine ⟨_, rfl, ?_⟩
  decide

/-- With the script at the start the other section is lost. -/
theorem run_loses_sections : ∃ last calls after, parseInput runEcho 4 ⟨0, runFirst⟩ ⟨(), ⟨0, []⟩, 1⟩ = some ((last, calls), after) ∧
    calls ≠ callsOf 0 (fields 59 runFirst) := by
  refine ⟨_, _, _, rfl, ?_⟩
  decide

end Example

end Comp310.Proofs.ChainedCommands
