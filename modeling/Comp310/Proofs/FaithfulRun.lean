import Comp310.Kernel.Launch
import Comp310.Proofs.RoundRobin

/-! A script that is run alone: whether its lines are all passed on, each once and in their order. -/

namespace Comp310.Proofs.FaithfulRun
open Comp310.Lib Comp310.Kernel Comp310.Proofs.RoundRobin

variable {border varStoreSize : Nat} {ω : Type} {kernel start final : KernelState ω} {parseInput : CString → K ω Int} {file : List UInt8}
  {code : CString → ShellMemory × ω → Int} {effect : CString → ShellMemory × ω → ShellMemory × ω} {fuel : Nat} {events : List Event}

/-- `run` comes to its end, and has passed each line of the file to `parseInput` once, in their order. -/
def Faithful (border varStoreSize : Nat) (parseInput : CString → K ω Int) (file : List UInt8) (kernel : KernelState ω) : Prop :=
  ∃ enough, ∀ fuel ≥ enough, ∃ kernel' events, run border varStoreSize parseInput fuel file kernel = some (0, kernel') ∧
    kernel'.history = kernel.history ++ events ∧ passed events = textLines file

/-- The lines are counted right and read in full, and none of them is taken for one that is not there when it does harm. -/
structure Legible (border : Nat) (code : CString → ShellMemory × ω → Int) (effect : CString → ShellMemory × ω → ShellMemory × ω)
    (lines : List (List UInt8)) (outside : ShellMemory × ω) : Prop where
  counted : lines.countP uncounted = 1
  short : ∀ line ∈ lines, Short line
  harmless : ∀ k, Harmless border code effect lines outside k

theorem harmless_all {lines : List CString} {outside : ShellMemory × ω} (known : ∀ k < lines.length, Harmless border code effect lines outside k) (k : Nat) :
    Harmless border code effect lines outside k := by
  by_cases below : k < lines.length
  · exact known k below
  · intro fault
    rw [codeAt, List.getElem?_eq_none (Nat.not_lt.mp below)] at fault
    cases fault

/-- A file with these lines as a script. -/
def scriptOf (pid : Nat) (file : List UInt8) (counted : (textLines file).countP uncounted = 1) (short : ∀ line ∈ textLines file, Short line) : Script where
  pid := pid
  lines := textLines file
  reads := textLines_reads fun line member => (short line member).1
  counted := by rw [textLines_flatten]; exact (countLines_eq_iff file).mpr counted

section Scripts
variable {pid : Nat} (counted : (textLines file).countP uncounted = 1) (short : ∀ line ∈ textLines file, Short line)

theorem scriptOf_file : (scriptOf pid file counted short).file = file := textLines_flatten file

theorem scriptOf_texts : (scriptOf pid file counted short).texts = textLines file := by
  have same : (textLines file).map strdup = (textLines file).map id := List.map_congr_left fun line member => strdup_whole (short line member).2
  exact same.trans (List.map_id _)

end Scripts

/-- The first two pages are in their frames. -/
theorem started_course (script : Script) (idle : Idle border kernel) (next : script.pid = kernel.system.pidCounter) (room : min 2 script.pages ≤ border / 3)
    (effect : CString → ShellMemory × ω → ShellMemory × ω) (varStoreSize : Nat) : ∃ start rank,
    newProc border varStoreSize script.file kernel = some (⟨⟩, start) ∧
      Course border script effect (kernel.outside border) (passed kernel.history) 0 rank start := by
  have filled := script.size_pos
  have pages := pageTableSize_eq script.size
  obtain ⟨start, started, -, outside, added⟩ := idle.added.more varStoreSize next (by simpa using room)
  rw [List.nil_append] at added
  obtain ⟨⟨ran, loaded, shows, -, zero⟩, -, -, -⟩ := added
  obtain ⟨none, first⟩ := zero script List.mem_cons_self
  obtain ⟨_, _, _, -, -, -, -, -, -, history⟩ := newProc_some started
  refine ⟨start, _, started, .regular ⟨⟨ran, loaded, none, first, shows⟩, Nat.zero_le _, Nat.le_refl _, ?_, Nat.zero_le _, ?_, outside, ?_⟩ ?_⟩
  · omega
  · rw [Script.pages] at room
    omega
  · exact history.trans (List.append_nil _).symm
  · intro more
    cases more

section Tracking
variable {script : Script} {outside : ShellMemory × ω} {before : List CString}

/-- The process is on its course, and no line has done harm, or it has lost a line. -/
structure Tracked (border : Nat) (script : Script) (code : CString → ShellMemory × ω → Int) (effect : CString → ShellMemory × ω → ShellMemory × ω)
    (outside : ShellMemory × ω) (before : List CString) (kernel : KernelState ω) : Prop where
  counts : Counts border script.pid script.size before script.texts kernel
  course : Lacking script.pid 1 kernel ∨ Lacking script.pid 0 kernel ∧ ∃ ran rank, Course border script effect outside before ran rank kernel ∧
    ∀ k < ran, Harmless border code effect script.texts outside k

theorem Tracked.lone : Lone script.pid (Tracked border script code effect outside before) where
  there kernel tracked := Counts.lone.there kernel tracked.counts
  all kernel tracked := tracked.counts.all
  queued kernel queue tracked := by
    refine ⟨Counts.lone.queued kernel queue tracked.counts, tracked.course.imp (fun lacking => ⟨lacking.process⟩) ?_⟩
    rintro ⟨lacking, ran, rank, course, harmless⟩
    exact ⟨⟨lacking.process⟩, ran, rank, course.queue queue, harmless⟩

theorem Tracked.step {ret : Int} {after : KernelState ω} (appends : ∀ text, Grows (parseInput text))
    (answers : ∀ line ∈ script.texts, Answers border parseInput code effect line) (tracked : Tracked border script code effect outside before kernel)
    (more : 0 < kernel.system.left script.pid) (ran : runNext border varStoreSize parseInput script.pid kernel = some (ret, after))
    (whole : passed after.history <+: before ++ script.texts) :
    Tried script.pid ret kernel after ∧ Tracked border script code effect outside before after := by
  obtain ⟨counts, course⟩ := tracked
  obtain ⟨pcb, i, j, found, -, counter, tried, counts'⟩ := counts.tried appends answers more ran whole
  have lacks {missing : Nat} (lacking : Lacking script.pid missing kernel) : Lacking script.pid missing after := by
    refine lacking.tried counts.all (fun other found' => ?_) tried
    cases found.symm.trans found'
    exact counter
  refine ⟨tried.outcome, counts', ?_⟩
  rcases course with lost | ⟨lacking, count, rank, course, harmless⟩
  · exact .inl (lacks lost)
  · obtain ⟨_, _, ran', next⟩ := course.step varStoreSize appends more answers
    cases ran.symm.trans ran'
    rcases next with ⟨count', rank', -, course', harmless'⟩ | ⟨-, loses⟩
    · exact .inr ⟨lacks lacking, count', rank', course', fun k below => (harmless' k below).elim (harmless k) id⟩
    · exact .inl (loses lacking)

/-- A process that has lost a line does not come to its end. -/
theorem Tracked.harmless (tracked : Tracked border script code effect outside before kernel) (done : kernel.system.left script.pid ≤ 0) (k : Nat) :
    Harmless border code effect script.texts outside k := by
  rcases tracked.course with ⟨pcb, lines, found, lacks⟩ | ⟨-, ran, rank, course, harmless⟩
  · rw [left_eq found] at done
    have few := lacks.few
    omega
  · refine harmless_all (fun k below => harmless k (Nat.lt_of_lt_of_le below ?_)) k
    rw [texts_length]
    exact course.whole done

/-- The process is on its course, with so many tries left at most. -/
structure Advancing (border : Nat) (script : Script) (effect : CString → ShellMemory × ω → ShellMemory × ω) (outside : ShellMemory × ω)
    (before : List CString) (rank : Nat) (kernel : KernelState ω) : Prop where
  counts : Counts border script.pid script.size before script.texts kernel
  course : ∃ ran, Course border script effect outside before ran rank kernel

theorem Advancing.lone (rank : Nat) : Lone script.pid (Advancing border script effect outside before rank) where
  there kernel advancing := Counts.lone.there kernel advancing.counts
  all _ advancing := advancing.counts.all
  queued kernel queue advancing :=
    ⟨Counts.lone.queued kernel queue advancing.counts, advancing.course.imp fun _ course => course.queue queue⟩

theorem Advancing.step {rank : Nat} (appends : ∀ text, Grows (parseInput text)) (answers : ∀ line ∈ script.texts, Answers border parseInput code effect line)
    (harmless : ∀ k, Harmless border code effect script.texts outside k) (advancing : Advancing border script effect outside before rank kernel)
    (more : 0 < kernel.system.left script.pid) : ∃ ret after, ∃ lower < rank,
    runNext border varStoreSize parseInput script.pid kernel = some (ret, after) ∧ Tried script.pid ret kernel after ∧
      Advancing border script effect outside before lower after := by
  obtain ⟨counts, ran, course⟩ := advancing
  obtain ⟨ret, after, run, ⟨ran', rank', below, course', -⟩ | ⟨harm, -⟩⟩ := course.step varStoreSize appends more answers
  · have whole : passed after.history <+: before ++ script.texts := by
      rw [course'.history]
      exact (List.prefix_append_right_inj _).mpr (List.take_prefix ..)
    obtain ⟨_, _, _, -, -, -, tried, counts'⟩ := counts.tried appends answers more run whole
    exact ⟨ret, after, rank', below, run, tried.outcome, counts', ran', course'⟩
  · exact absurd (harmless ran) harm

end Tracking

section Running
variable (appends : ∀ text, Grows (parseInput text)) (answers : ∀ line ∈ textLines file, Answers border parseInput code effect line)
include appends answers

/-- The history at the end is known beforehand, and so each line that is passed on before. -/
theorem run_counted (idle : Idle border kernel) (started : newProc border varStoreSize file kernel = some (⟨⟩, start))
    (ran : runProcRr border varStoreSize parseInput fuel start = some (⟨⟩, final))
    (whole : passed final.history = passed kernel.history ++ textLines file) :
    (textLines file).countP uncounted = 1 ∧ ∀ line ∈ textLines file, Short line := by
  obtain ⟨_, _, _, -, -, -, -, queue, -⟩ := newProc_some started
  rw [idle.queue, List.nil_append] at queue
  obtain ⟨last, counts, done, same⟩ := runProcRr_last Counts.lone (runNext_grows appends _)
    (fun fuel kernel ran => runProcRr_grows appends fuel kernel _ _ ran)
    (fun kernel ret after counts more ran later => by
      obtain ⟨_, _, _, -, -, -, tried, counts'⟩ := counts.tried appends answers more ran (whole ▸ later.filterMap Event.textOf)
      exact ⟨tried.outcome, counts'⟩)
    (newProc_counts started idle.frames idle.allPcb (textLines file)) ⟨.inl queue⟩ ran
  obtain ⟨-, -, pcb, found, counted, told, known, short⟩ := counts
  rw [left_eq found] at done
  have total := counted.total
  have left := counted.left
  rw [same, whole] at told
  have all : (textLines file).take pcb.programCounter.sum = textLines file := (List.append_cancel_left told).symm
  have length := congrArg List.length all
  rw [List.length_take] at length
  rw [all] at short
  exact ⟨(countLines_eq_iff file).mp (by omega), short⟩

theorem run_legible (idle : Idle border kernel) (room : min 2 (pageTableSize (countLines file)) ≤ border / 3)
    (ran : run border varStoreSize parseInput fuel file kernel = some (0, final))
    (whole : passed final.history = passed kernel.history ++ textLines file) :
    Legible border code effect (textLines file) (kernel.outside border) := by
  obtain ⟨_, start, started, ran⟩ := bind_some ran
  obtain ⟨_, _, ran, last⟩ := bind_some ran
  cases last
  obtain ⟨counted, short⟩ := run_counted appends answers idle started ran whole
  refine ⟨counted, short, ?_⟩
  let script := scriptOf kernel.system.pidCounter file counted short
  have texts : script.texts = textLines file := scriptOf_texts counted short
  have source : script.file = file := scriptOf_file counted short
  have size : script.size = (textLines file).length := rfl
  have count := (countLines_eq_iff file).mpr counted
  obtain ⟨_, rank, started', course⟩ := started_course script idle rfl (by rw [Script.pages, size, ← count]; exact room) effect varStoreSize
  rw [source] at started'
  cases started.symm.trans started'
  obtain ⟨_, _, _, -, -, -, -, queue, -⟩ := newProc_some started
  rw [idle.queue, List.nil_append] at queue
  rw [← texts] at answers whole ⊢
  have tracked : Tracked border script code effect (kernel.outside border) (passed kernel.history) start := by
    refine ⟨?_, .inr ⟨newProc_lacking started script.reads source.symm (source ▸ script.counted), 0, rank, course, fun k below => ?_⟩⟩
    · have counts := newProc_counts started idle.frames idle.allPcb script.texts
      rwa [count] at counts
    · exact absurd below (Nat.not_lt_zero k)
  obtain ⟨last, tracked', done, -⟩ := runProcRr_last Tracked.lone (runNext_grows appends _)
    (fun fuel kernel ran => runProcRr_grows appends fuel kernel _ _ ran)
    (fun kernel ret after tracked more ran later => tracked.step appends answers more ran (whole ▸ later.filterMap Event.textOf))
    tracked ⟨.inl queue⟩ ran
  exact tracked'.harmless done

theorem faithful_legible (idle : Idle border kernel) (room : min 2 (pageTableSize (countLines file)) ≤ border / 3)
    (faithful : Faithful border varStoreSize parseInput file kernel) : Legible border code effect (textLines file) (kernel.outside border) := by
  obtain ⟨enough, runs⟩ := faithful
  obtain ⟨final, events, ran, grown, lines⟩ := runs enough (Nat.le_refl _)
  refine run_legible appends answers idle room ran ?_
  rw [grown, passed_append, lines]

theorem legible_faithful (idle : Idle border kernel) (room : min 2 (pageTableSize (countLines file)) ≤ border / 3)
    (legible : Legible border code effect (textLines file) (kernel.outside border)) : Faithful border varStoreSize parseInput file kernel := by
  obtain ⟨counted, short, harmless⟩ := legible
  let script := scriptOf kernel.system.pidCounter file counted short
  have texts : script.texts = textLines file := scriptOf_texts counted short
  have source : script.file = file := scriptOf_file counted short
  have size : script.size = (textLines file).length := rfl
  have count := (countLines_eq_iff file).mpr counted
  obtain ⟨start, rank, started, course⟩ := started_course script idle rfl (by rw [Script.pages, size, ← count]; exact room) effect varStoreSize
  rw [source] at started
  obtain ⟨_, _, _, -, -, -, -, queue, later, -⟩ := newProc_some started
  rw [idle.queue, List.nil_append] at queue
  have counts := newProc_counts started idle.frames idle.allPcb script.texts
  rw [count] at counts
  rw [← texts] at answers harmless
  refine ⟨rank + 2, fun fuel fueled => ?_⟩
  have advancing : Advancing border script effect (kernel.outside border) (passed kernel.history) rank start := ⟨counts, 0, course⟩
  obtain ⟨last, final, ran, same, ⟨_, ended⟩, done⟩ := runProcRr_alone Advancing.lone
    (fun rank kernel advancing more => advancing.step appends answers harmless more) advancing ⟨.inl queue⟩ (show rank + 1 < fuel by omega)
  obtain ⟨events, grown⟩ := later.trans (runProcRr_grows appends fuel _ _ _ ran)
  refine ⟨final, events, ?_, grown.symm, ?_⟩
  · rw [run, run_bind started, run_bind ran]
    rfl
  · obtain ⟨-, -, pcb, found, counted, told, -⟩ := ended.counts
    rw [left_eq found] at done
    have total := counted.total
    rw [List.take_of_length_le (by rw [texts_length]; omega), ← same, ← grown, passed_append, texts] at told
    exact List.append_cancel_left told

end Running

/-- `run` is faithful to exactly the legible scripts. -/
theorem run_faithful_iff (appends : ∀ text, Grows (parseInput text)) (answers : ∀ line ∈ textLines file, Answers border parseInput code effect line)
    (idle : Idle border kernel) (room : min 2 (pageTableSize (countLines file)) ≤ border / 3) :
    Faithful border varStoreSize parseInput file kernel ↔ Legible border code effect (textLines file) (kernel.outside border) :=
  ⟨faithful_legible appends answers idle room, legible_faithful appends answers idle room⟩

section Removing

/-- With the names of files for the world: `rm` answers 1 when it has removed a file and 8 when there is none, and `echo` answers 0. -/
def rmAnswer (line : CString) (files : List CString) : Int × List CString :=
  let words := sectionWords (line.takeWhile (· != 10))
  if words.head? = some [114, 109] then
    if files.contains (words.getD 1 []) then (1, files.erase (words.getD 1 [])) else (8, files)
  else (0, files)

def rmLine : CString → K (List CString) Int := fun line kernel =>
  some ((rmAnswer line kernel.world).1, { kernel with world := (rmAnswer line kernel.world).2 })

def rmCode (line : CString) (outside : ShellMemory × List CString) : Int := (rmAnswer line outside.2).1

def rmEffect (line : CString) (outside : ShellMemory × List CString) : ShellMemory × List CString := (outside.1, (rmAnswer line outside.2).2)

theorem rmLine_answers (border : Nat) (line : CString) : Answers border rmLine rmCode rmEffect line := fun kernel =>
  ⟨kernel.system.memory, _, rfl, fun _ _ => rfl, rfl⟩

theorem rmLine_grows (line : CString) : Grows (rmLine line) := by
  apply Grows.same
  intro kernel ret after ran
  cases ran
  rfl

/-- `"echo a"`. -/
def echoText : List UInt8 := [101, 99, 104, 111, 32, 97]

/-- `"rm b"`. -/
def rmText : List UInt8 := [114, 109, 32, 98]

/-- The third line removes the file, with a frame to spare. -/
theorem run_faithful_third : Faithful 9 4 rmLine (fileOf [echoText, echoText, rmText, echoText]) (kernelSetup [[98]]) ∧
    codeAt rmCode rmEffect (textLines (fileOf [echoText, echoText, rmText, echoText])) ((kernelSetup [[98]]).outside 9) 2 = some 1 := by
  refine ⟨(run_faithful_iff rmLine_grows (fun line _ => rmLine_answers 9 line) ⟨rfl, rfl, rfl, fun _ _ => rfl⟩ (by decide)).mpr
    ⟨by decide, ?_, harmless_all ?_⟩, by decide⟩
  · unfold Short
    decide
  · unfold Harmless
    decide

/-- A newline at the end is counted for one line more, and a line behind a file that was removed is lost. -/
theorem lines_lost : (∀ line, Answers 9 rmLine rmCode rmEffect line) ∧
    min 2 (pageTableSize (countLines (fileOf [echoText] ++ [10]))) ≤ 9 / 3 ∧ ¬ Faithful 9 4 rmLine (fileOf [echoText] ++ [10]) (kernelSetup [[98]]) ∧
    min 2 (pageTableSize (countLines (fileOf [rmText, echoText]))) ≤ 9 / 3 ∧ ¬ Faithful 9 4 rmLine (fileOf [rmText, echoText]) (kernelSetup [[98]]) := by
  have legible {file : List UInt8} (room : min 2 (pageTableSize (countLines file)) ≤ 9 / 3)
      (faithful : Faithful 9 4 rmLine file (kernelSetup [[98]])) := faithful_legible rmLine_grows (fun line _ => rmLine_answers 9 line)
    ⟨rfl, rfl, rfl, fun _ _ => rfl⟩ room faithful
  refine ⟨rmLine_answers 9, by decide, fun faithful => ?_, by decide, fun faithful => ?_⟩
  · exact absurd (legible (by decide) faithful).counted (by decide)
  · exact absurd ((legible (by decide) faithful).harmless 0) (by unfold Harmless; decide)

end Removing

end Comp310.Proofs.FaithfulRun
