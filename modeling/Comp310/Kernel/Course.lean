import Comp310.Kernel.Emptied

/-! The course of a script that is run alone, to its end or to where it loses a line. -/

namespace Comp310.Kernel
open Comp310.Lib

variable {border varStoreSize pid i ran loaded rank : Nat} {j : Fin 3} {ω : Type} {parseInput : CString → K ω Int}
  {kernel middle after reloaded : KernelState ω} {script : Script} {code : CString → ShellMemory × ω → Int} {effect : CString → ShellMemory × ω → ShellMemory × ω} {start : ShellMemory × ω}
  {before : List CString} {text : CString}

/-- A line that answers 1 does no harm if it is the last one, or the third of two pages with a frame to spare. -/
def Harmless (border : Nat) (code : CString → ShellMemory × ω → Int) (effect : CString → ShellMemory × ω → ShellMemory × ω) (lines : List CString)
    (outside : ShellMemory × ω) (k : Nat) : Prop :=
  codeAt code effect lines outside k = some 1 → k + 1 = lines.length ∨ k = 2 ∧ lines.length ≤ 6 ∧ 3 ≤ border / 3

/-- Where the script can be, after so many lines, as long as it has lost none. The rank is of the tries that are left. -/
inductive Course (border : Nat) (script : Script) (effect : CString → ShellMemory × ω → ShellMemory × ω) (start : ShellMemory × ω)
    (before : List CString) : Nat → Nat → KernelState ω → Prop
  | regular {ran loaded : Nat} {kernel : KernelState ω} (regular : Regular border script effect start before ran loaded kernel)
      (recent : UsedLast script ran kernel) : Course border script effect start before ran (script.size - ran + (script.pages - loaded)) kernel
  | emptied {ran : Nat} {kernel : KernelState ω} (emptied : Emptied border script effect start before ran kernel) :
      Course border script effect start before ran (script.size - ran) kernel
  | ended {kernel : KernelState ω} (done : kernel.system.left script.pid ≤ 0) (history : passed kernel.history = before ++ script.texts) :
      Course border script effect start before script.size 0 kernel

theorem texts_length (script : Script) : script.texts.length = script.size := by
  rw [Script.texts, List.length_map, Script.size]

theorem texts_there (more : ran < script.size) : ∃ text, script.texts[ran]? = some text := by
  rw [← texts_length] at more
  exact ⟨_, List.getElem?_eq_getElem more⟩

theorem LoadTried.passed {done : Bool} (tried : LoadTried border pid i kernel done after) : passed after.history = passed kernel.history := by
  cases tried with
  | full => rfl
  | loaded =>
    rw [passed_append]
    exact List.append_nil _

theorem Replaced.passed (replaced : Replaced border pid i kernel after) : passed after.history = passed kernel.history := by
  obtain ⟨entry, victim, pcb, page, done, -, -, -, -, -, loads⟩ := replaced.evicted
  rw [loads.passed]
  exact (passed_append ..).trans (List.append_nil _)

theorem Replaced.left (replaced : Replaced border pid i kernel after) (pid' : Nat) : after.system.left pid' = kernel.system.left pid' := by
  obtain ⟨entry, victim, pcb, page, done, -, -, -, found, -, loads⟩ := replaced.evicted
  rw [loads.left]
  change (((kernel.system.put _ _ _).pcb? pid').map Pcb.size).getD 0 = ((kernel.system.pcb? pid').map Pcb.size).getD 0
  rw [put_pcb? found]
  split
  next mine => rw [mine, found, Option.map_some, Option.map_some]
  next => rfl

theorem Reloaded.left (reload : Reloaded border pid i middle reloaded) (pid' : Nat) : reloaded.system.left pid' = middle.system.left pid' := by
  rcases reload with loads | ⟨-, replaces⟩
  · exact loads.left _
  · exact replaces.left _

theorem Reloaded.passed (reload : Reloaded border pid i middle reloaded) : passed reloaded.history = passed middle.history := by
  rcases reload with loads | ⟨-, replaces⟩
  · exact loads.passed
  · exact replaces.passed

theorem Course.queue (course : Course border script effect start before ran rank kernel) (queue : List Nat) :
    Course border script effect start before ran rank { kernel with queue } := by
  cases course with
  | regular regular recent => exact .regular (regular.queue queue) recent
  | emptied emptied => exact .emptied (emptied.queue queue)
  | ended done history => exact .ended done history

theorem Course.history (course : Course border script effect start before ran rank kernel) :
    passed kernel.history = before ++ script.texts.take ran := by
  cases course with
  | regular regular => exact regular.history
  | emptied emptied => exact emptied.history
  | ended done history => rw [history, ← texts_length, List.take_length]

theorem Course.whole (course : Course border script effect start before ran rank kernel) (done : kernel.system.left script.pid ≤ 0) :
    script.size ≤ ran := by
  cases course with
  | regular regular =>
    have left := regular.left
    omega
  | emptied emptied =>
    have left := emptied.left
    omega
  | ended => exact Nat.le_refl _

section Steps
variable (appends : ∀ text, Grows (parseInput text))
include appends

theorem Lacking.cpuRun {missing : Nat} (lacking : Lacking pid missing kernel) {page : Page} {ret : Int}
    (run : Kernel.cpuRun border varStoreSize parseInput pid i j kernel = some (ret, middle))
    (counter : ∀ pcb, kernel.system.pcb? pid = some pcb → pcb.programCounter[i]? = some j.val)
    (fetched : kernel.system.page? (pid, i) = some page) (value : (kernel.system.memory (page.index.get j)).value = text)
    (answers : Answers border parseInput code effect text) : Lacking pid missing middle := by
  have line : LineRan border pid i j code effect kernel ret middle := by
    refine (cpuRun_tried run).answered appends fun other found _ _ => ?_
    cases fetched.symm.trans found
    rw [value]
    exact answers
  exact lacking.line counter line

variable (varStoreSize) in
/-- An answer of 1 to the last line does no harm, nor to the third of two pages. Otherwise a line is lost. -/
theorem Regular.answered (regular : Regular border script effect start before ran loaded kernel) (recent : UsedLast script ran kernel)
    (line : script.texts[ran]? = some text) (there : ran / 3 < loaded) (answers : Answers border parseInput code effect text)
    (fault : code text (afterLines effect (script.texts.take ran) start) = 1) : ∃ after,
    runNext border varStoreSize parseInput script.pid kernel = some (1, after) ∧
      ((∃ rank, rank < script.size - ran ∧ Course border script effect start before (ran + 1) rank after ∧
        (ran + 1 = script.size ∨ ran = 2 ∧ script.size ≤ 6 ∧ 3 ≤ border / 3)) ∨
      ¬ (ran + 1 = script.size ∨ ran = 2 ∧ script.size ≤ 6 ∧ 3 ≤ border / 3) ∧
        (Lacking script.pid 0 kernel → Lacking script.pid 1 after)) := by
  have more := text_lt line
  obtain ⟨middle, passed⟩ := regular.pass varStoreSize line there answers
  rw [fault] at passed
  obtain ⟨reloaded, run, reload⟩ := passed.reloads regular more
  refine ⟨_, run, ?_⟩
  by_cases last : ran + 1 = script.size
  · refine .inl ⟨0, by omega, ?_, .inl last⟩
    rw [last]
    refine .ended ?_ ?_
    · have left := passed.regular.left
      change reloaded.system.left script.pid ≤ 0
      rw [reload.left]
      omega
    · have history := passed.regular.history
      rw [last, ← texts_length, List.take_length] at history
      exact reload.passed.trans history
  · by_cases third : ran = 2 ∧ script.size ≤ 6 ∧ 3 ≤ border / 3
    · obtain ⟨rfl, short, spare⟩ := third
      exact .inl ⟨_, by omega, .emptied (passed.emptied regular (by omega) short spare reload _), .inr ⟨rfl, short, spare⟩⟩
    · refine .inr ⟨not_or.mpr ⟨last, third⟩, fun lacking => ?_⟩
      obtain ⟨-, -, page, fetched, -, -, bears⟩ := regular.entries passed.listed
      have lacking' : Lacking script.pid 0 middle := by
        refine lacking.cpuRun appends passed.run (fun pcb found => ?_) fetched ?_ answers
        · obtain ⟨other, found', progress⟩ := regular.there
          cases found.symm.trans found'
          exact (progress.next more).2
        · obtain ⟨⟨counts, pages, rfl, rfl, shows⟩, -⟩ := regular
          have frame := shows.frame passed.listed
          rw [pageAt_eq fetched] at frame
          rw [frame, frame_get]
          have place : 3 * (counts script.pid / 3) + counts script.pid % 3 = counts script.pid := Nat.div_add_mod ..
          exact (bears ⟨counts script.pid % 3, Nat.mod_lt _ (by decide)⟩ text (by rwa [place])).2
      exact ⟨(passed.loses regular recent (by omega) third lacking' reload).process⟩

variable (varStoreSize) in
theorem Emptied.answered (emptied : Emptied border script effect start before ran kernel)
    (line : script.texts[ran]? = some text) (answers : Answers border parseInput code effect text)
    (fault : code text (afterLines effect (script.texts.take ran) start) = 1) : ∃ after,
    runNext border varStoreSize parseInput script.pid kernel = some (1, after) ∧
      (ran + 1 = script.size ∧ Course border script effect start before (ran + 1) 0 after ∨
      ran + 1 < script.size ∧ (Lacking script.pid 0 kernel → Lacking script.pid 1 after)) := by
  have more := text_lt line
  obtain ⟨middle, run, emptied'⟩ := emptied.pass varStoreSize line answers
  rw [fault] at run
  obtain ⟨reloaded, run', reload⟩ := emptied.reloads more run emptied'
  refine ⟨_, run', ?_⟩
  by_cases last : ran + 1 = script.size
  · refine .inl ⟨last, ?_⟩
    rw [last]
    refine .ended ?_ ?_
    · have left := emptied'.left
      change reloaded.system.left script.pid ≤ 0
      rw [reload.left]
      omega
    · have history := emptied'.history
      rw [last, ← texts_length, List.take_length] at history
      exact reload.passed.trans history
  · refine .inr ⟨by omega, fun lacking => ?_⟩
    obtain ⟨pcb, page, found, there, fetched, -, -⟩ := emptied.page? emptied.listed
    have lacking' : Lacking script.pid 0 middle := by
      refine lacking.cpuRun appends run (fun pcb found => (emptied.counter more found).2) fetched ?_ answers
      obtain ⟨_, found', -, -, -, pages⟩ := emptied.process
      cases found.symm.trans found'
      obtain ⟨-, -, framed, bears⟩ := pages 1 page there
      obtain ⟨low, -, high⟩ := emptied.known
      rw [framed.frame, frame_get]
      exact (bears rfl ⟨ran - 3, by omega⟩ text (by rwa [show 3 * 1 + (ran - 3) = ran by omega])).2
    exact ⟨(emptied'.loses (by omega) lacking' reload).process⟩

variable (varStoreSize) in
/-- The next try goes on with the course, or the line answers 1 and another one is lost. -/
theorem Course.step (course : Course border script effect start before ran rank kernel) (more : 0 < kernel.system.left script.pid)
    (answers : ∀ line ∈ script.texts, Answers border parseInput code effect line) : ∃ ret after,
    runNext border varStoreSize parseInput script.pid kernel = some (ret, after) ∧
      ((∃ ran' rank', rank' < rank ∧ Course border script effect start before ran' rank' after ∧
        ∀ k < ran', k < ran ∨ Harmless border code effect script.texts start k) ∨
      ¬ Harmless border code effect script.texts start ran ∧ (Lacking script.pid 0 kernel → Lacking script.pid 1 after)) := by
  have length := texts_length script
  -- what the code of the next line says of it
  have codes {text : CString} (line : script.texts[ran]? = some text) : codeAt code effect script.texts start ran =
      some (code text (afterLines effect (script.texts.take ran) start)) := by
    rw [codeAt, line]
    rfl
  have next (harmless : Harmless border code effect script.texts start ran) (k : Nat) (below : k < ran + 1) :
      k < ran ∨ Harmless border code effect script.texts start k := by
    rcases Nat.lt_succ_iff_lt_or_eq.mp below with earlier | rfl
    · exact .inl earlier
    · exact .inr harmless
  cases course with
  | @regular ran loaded kernel regular recent =>
    have left := regular.left
    have unrun : ran < script.size := by omega
    obtain ⟨text, line⟩ := texts_there unrun
    have answers := answers text (List.mem_of_getElem? line)
    by_cases there : ran / 3 < loaded
    · by_cases fault : code text (afterLines effect (script.texts.take ran) start) = 1
      · obtain ⟨after, run, ⟨rank, below, course, harmless⟩ | ⟨harm, loses⟩⟩ := regular.answered varStoreSize appends recent line there answers fault
        · exact ⟨1, after, run, .inl ⟨ran + 1, rank, by omega, course, next fun _ => by rwa [length]⟩⟩
        · refine ⟨1, after, run, .inr ⟨fun harmless => harm ?_, loses⟩⟩
          have kept := harmless ((codes line).trans (congrArg some fault))
          rwa [length] at kept
      · obtain ⟨after, run, regular', head⟩ := regular.line varStoreSize line there answers fault
        refine ⟨0, after, run, .inl ⟨ran + 1, _, by omega, .regular regular' fun _ small => ?_, next fun same => ?_⟩⟩
        · rw [head, show ran / 3 = 0 by omega]
        · rw [codes line] at same
          exact absurd (Option.some.inj same) fault
    · have absent : ran / 3 = loaded := by
        have covered := regular.covered
        omega
      obtain ⟨after, run, regular', beyond⟩ := regular.fault varStoreSize parseInput unrun absent
      have pages := regular'.pages_le
      refine ⟨1, after, run, .inl ⟨ran, _, by omega, .regular regular' fun _ small => by omega, fun k below => .inl below⟩⟩
  | @emptied ran kernel emptied =>
    have left := emptied.left
    have unrun : ran < script.size := by omega
    obtain ⟨text, line⟩ := texts_there unrun
    have answers := answers text (List.mem_of_getElem? line)
    by_cases fault : code text (afterLines effect (script.texts.take ran) start) = 1
    · obtain ⟨after, run, ⟨last, course⟩ | ⟨more, loses⟩⟩ := emptied.answered varStoreSize appends line answers fault
      · exact ⟨1, after, run, .inl ⟨ran + 1, 0, by omega, course, next fun _ => .inl (by omega)⟩⟩
      · refine ⟨1, after, run, .inr ⟨fun harmless => ?_, loses⟩⟩
        have known := emptied.known
        have kept := harmless ((codes line).trans (congrArg some fault))
        omega
    · obtain ⟨after, run, emptied'⟩ := emptied.line varStoreSize line answers fault
      refine ⟨0, after, run, .inl ⟨ran + 1, _, by omega, .emptied emptied', next fun same => ?_⟩⟩
      rw [codes line] at same
      exact absurd (Option.some.inj same) fault
  | ended done => omega

end Steps

end Comp310.Kernel
