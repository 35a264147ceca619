import Comp310.Proofs.RoundRobin

/-! Demand paging under round robin: each page of a script is loaded once, and goes only when all its lines were run. -/

namespace Comp310.Proofs.DemandPaging
open Comp310.Lib Comp310.Kernel Comp310.Proofs.RoundRobin

variable {border varStoreSize : Nat} {scripts : List Script} {ω : Type} {kernel start : KernelState ω} {parseInput : CString → K ω Int}
  {effect : CString → ShellMemory × ω → ShellMemory × ω} {base : List Event}

/-- The frames are enough if all scripts get their first pages. -/
theorem Added.fits {before : List Script} (added : Added border before base kernel)
    (ids : scripts.map Script.pid = List.range' kernel.system.pidCounter scripts.length) (fits : Fits border before)
    (started : newProcs border varStoreSize (scripts.map Script.file) kernel = some (⟨⟩, start)) :
    Fits border (before ++ scripts) := by
  induction scripts generalizing before kernel with
  | nil => rwa [List.append_nil]
  | cons script rest ih =>
    rw [List.map_cons, List.length_cons, List.range'_succ, List.cons.injEq] at ids
    rw [List.map_cons] at started
    obtain ⟨_, middle, first, started⟩ := bind_some started
    obtain ⟨ran, loaded, shows, -, -⟩ := added.shows
    have fresh (other : Script) (there : other ∈ before) : other.pid ≠ script.pid := by
      rw [ids.1]
      exact Nat.ne_of_lt (added.known other there)
    have room := shows.newProc_room fresh ids.1 first
    have more : Fits border (before ++ [script]) := by
      rw [added.length] at room
      rw [Fits, List.map_append, List.sum_append, List.map_singleton, List.sum_singleton]
      exact room
    obtain ⟨_, ran', counted, -, added'⟩ := added.more varStoreSize ids.1 more
    cases first.symm.trans ran'
    have whole := ih added' (by rw [counted]; exact ids.2) more started
    rwa [List.append_assoc] at whole

/-- Every page is loaded once and every line is run once, in the order of the file, two at most in a turn. A page that is evicted has no line left. -/
theorem pages_in_turn (nonempty : scripts ≠ []) (obeys : ∀ script ∈ scripts, ∀ text ∈ script.texts, Obeys border parseInput effect text)
    (idle : Idle border kernel) (ids : scripts.map Script.pid = List.range' kernel.system.pidCounter scripts.length)
    (started : newProcs border varStoreSize (scripts.map Script.file) kernel = some (⟨⟩, start)) :
    (∃ enough, ∀ fuel ≥ enough, ∃ kernel' events, runProcRr border varStoreSize parseInput fuel start = some (⟨⟩, kernel') ∧
      kernel'.history = kernel.history ++ events ∧ Finished scripts events) ∧
    ∀ middle, Turns border varStoreSize parseInput start middle → ∀ after, turnRr border varStoreSize parseInput middle = some (⟨⟩, after) →
      ∃ pid rest, middle.queue = pid :: rest ∧ Brief pid 2 middle.history after.history := by
  have fits : Fits border scripts := by
    have whole := Added.fits idle.added ids (Nat.zero_le _) started
    rwa [List.nil_append] at whole
  obtain ⟨_, added, -, -, ready⟩ := idle.added.all varStoreSize ids fits
  cases started.symm.trans added
  rw [List.nil_append] at ready
  refine ⟨⟨(scripts.map Script.size).sum * scripts.length + scripts.length + 1, fun fuel fueled => ?_⟩, fun middle turns after turned => ?_⟩
  · obtain ⟨system, events, ran', finished, -, -⟩ := ready.ends varStoreSize nonempty fits obeys fuel fueled
    exact ⟨_, events, ran', rfl, finished⟩
  · obtain ⟨round, front, back, live, between⟩ := turns_between fits obeys ready turns
    have waiting : middle.queue ≠ [] := by
      intro none
      rw [turnRr, run_bind (get_run _), none] at turned
      cases turned
    obtain ⟨round, front, script, back, next, busy⟩ := between.ahead_next waiting
    obtain ⟨_, _, turned', -, brief, -⟩ := next.turn varStoreSize busy fits obeys
    cases turned.symm.trans turned'
    exact ⟨script.pid, _, next.head busy, brief⟩

/-- In the fifth turn the page of the other script goes, which is done. -/
theorem pages_in_turn_seven : ∃ start middle after,
    newProcs 9 4 [sevenLines.file, oneLine.file] (kernelSetup ()) = some (⟨⟩, start) ∧
    (∃ enough, ∀ fuel ≥ enough, ∃ kernel' events, runProcRr 9 4 (setLine 9 4) fuel start = some (⟨⟩, kernel') ∧
      kernel'.history = [] ++ events ∧ Finished [sevenLines, oneLine] events) ∧
    Turns 9 4 (setLine 9 4) start middle ∧ turnRr 9 4 (setLine 9 4) middle = some (⟨⟩, after) ∧ Brief 1 2 middle.history after.history ∧
    .evict 2 0 ∉ middle.history ∧ .evict 2 0 ∈ after.history := by
  have idle : Idle 9 (kernelSetup ()) := ⟨rfl, rfl, rfl, fun _ _ => rfl⟩
  let views : K Unit (List Nat × List Event × List Event) := do
    newProcs 9 4 [sevenLines.file, oneLine.file]
    turnsFrom 9 4 (setLine 9 4) 4
    let middle ← get
    turnRr 9 4 (setLine 9 4)
    let after ← get
    pure (middle.queue, middle.history, after.history)
  have shown : ((views (kernelSetup ())).map fun view => decide (view.1.1 = [1] ∧ .evict 2 0 ∉ view.1.2.1 ∧ .evict 2 0 ∈ view.1.2.2)) =
      some true := by
    decide +kernel
  obtain ⟨_, ran, same⟩ := Option.map_eq_some_iff.mp shown
  obtain ⟨_, start, added, ran⟩ := bind_some ran
  obtain ⟨_, middle, turned, ran⟩ := bind_some ran
  obtain ⟨_, _, got, ran⟩ := bind_some ran
  cases got
  obtain ⟨_, after, fifth, ran⟩ := bind_some ran
  obtain ⟨_, _, got, ran⟩ := bind_some ran
  cases got
  cases ran
  obtain ⟨waiting, absent, listed⟩ := of_decide_eq_true same
  obtain ⟨whole, turn⟩ := @pages_in_turn 9 4 [sevenLines, oneLine] Unit _ _ _ _ (by decide) (fun script _ text _ => setLine_obeys 9 4 text) idle rfl added
  have turns := turnsFrom_turns .start turned
  obtain ⟨pid, rest, head, brief⟩ := turn middle turns after fifth
  cases waiting.symm.trans head
  exact ⟨start, middle, after, added, whole, turns, fifth, brief, absent, listed⟩

section Split

/-- `echo`, of the one line or of the other. A line of a newline only is no command. -/
def echoLine : CString → K Unit Int := fun line => pure (if line = [10] then 7 else 0)

/-- `echo` with a word of 993 letters, and `echo b`. -/
def splitLines : List (List UInt8) := [[101, 99, 104, 111, 32] ++ List.replicate 993 97, [101, 99, 104, 111, 32, 98]]

/-- `fgets` takes 998 bytes, and the newline makes a line of its own. The last line is not run. -/
theorem long_line_split : (∀ line ∈ splitLines, line ≠ [] ∧ 10 ∉ line ∧ 0 ∉ line ∧ line.length < 999) ∧
    (∀ line kernel, ∃ ret, echoLine line kernel = some (ret, kernel) ∧ ret ≠ 1) ∧
    ∃ start kernel, newProcs 3 1 [fileOf splitLines] (kernelSetup ()) = some (⟨⟩, start) ∧
      runProcRr 3 1 echoLine 3 start = some (⟨⟩, kernel) ∧
      linesOf 1 kernel.history = [[101, 99, 104, 111, 32] ++ List.replicate 993 97, [10]] ∧ linesOf 1 kernel.history ≠ lineTexts splitLines := by
  refine ⟨by decide +kernel, fun line kernel => ⟨_, rfl, ?_⟩, ?_⟩
  · split <;> decide
  let ranLines : K Unit (List CString) := do
    newProcs 3 1 [fileOf splitLines]
    runProcRr 3 1 echoLine 3
    let kernel ← get
    pure (linesOf 1 kernel.history)
  have shown : (ranLines (kernelSetup ())).map Prod.fst = some [[101, 99, 104, 111, 32] ++ List.replicate 993 97, [10]] := by
    decide +kernel
  obtain ⟨_, ran, same⟩ := Option.map_eq_some_iff.mp shown
  obtain ⟨_, start, added, ran⟩ := bind_some ran
  obtain ⟨_, kernel, finished, ran⟩ := bind_some ran
  obtain ⟨_, _, got, ran⟩ := bind_some ran
  cases got
  cases ran
  have split : linesOf 1 kernel.history = [[101, 99, 104, 111, 32] ++ List.replicate 993 97, [10]] := same
  refine ⟨start, kernel, added, finished, split, ?_⟩
  rw [split]
  decide +kernel

end Split

end Comp310.Proofs.DemandPaging
