import Comp310.Kernel.Supply

/-! What a try does when its line is a command: to the counters of the process, and to what it has of its lines. -/

namespace Comp310.Kernel
open Comp310.Lib

variable {ω : Type}

/-- The line is a command on the variables and the world, with this code and this effect. It leaves frames and lists alone. -/
def Answers (border : Nat) (parseInput : CString → K ω Int) (code : CString → ShellMemory × ω → Int)
    (effect : CString → ShellMemory × ω → ShellMemory × ω) (text : CString) : Prop :=
  ∀ kernel, ∃ memory world,
    parseInput text kernel = some (code text (kernel.outside border), { kernel with system := { kernel.system with memory }, world }) ∧
    (∀ slot < border, memory slot = kernel.system.memory slot) ∧ (varsOf border memory, world) = effect text (kernel.outside border)

/-- A command of a line is run and counts, if the line is there. -/
inductive LineRan (border pid i : Nat) (j : Fin 3) (code : CString → ShellMemory × ω → Int) (effect : CString → ShellMemory × ω → ShellMemory × ω)
    (kernel : KernelState ω) : Int → KernelState ω → Prop
  | absent {pcb : Pcb} {page : Page} (found : kernel.system.pcb? pid = some pcb) (there : pcb.pageTable[i]? = some page)
      (invalid : page.validBit.get j = false) : LineRan border pid i j code effect kernel 1 kernel
  | ran {pcb : Pcb} {page : Page} {memory : ShellMemory} {world : ω} (found : kernel.system.pcb? pid = some pcb)
      (there : pcb.pageTable[i]? = some page) (valid : page.validBit.get j = true)
      (below : ∀ slot < border, memory slot = kernel.system.memory slot)
      (vars : (varsOf border memory, world) = effect (kernel.system.memory (page.index.get j)).value (kernel.outside border)) :
      LineRan border pid i j code effect kernel (code (kernel.system.memory (page.index.get j)).value (kernel.outside border)) { kernel with
        system := kernel.system.put pid (Processes.countLine pcb i) memory
        world
        history := kernel.history ++ [.line pid (kernel.system.memory (page.index.get j)).value] }

variable {border varStoreSize pid i c missing : Nat} {j : Fin 3} {parseInput : CString → K ω Int} {kernel after : KernelState ω} {ret : Int} {done : Bool}
  {code : CString → ShellMemory × ω → Int} {effect : CString → ShellMemory × ω → ShellMemory × ω} {pcb : Pcb} {page : Page}

theorem LineTried.answered (appends : ∀ text, Grows (parseInput text)) (tried : LineTried border varStoreSize pid i j parseInput kernel ret after)
    (answers : ∀ page, kernel.system.page? (pid, i) = some page → page.validBit.get j = true →
      kernel.history ++ [.line pid (kernel.system.memory (page.index.get j)).value] <+: after.history →
      Answers border parseInput code effect (kernel.system.memory (page.index.get j)).value) :
    LineRan border pid i j code effect kernel ret after := by
  cases tried with
  | absent found invalid =>
    obtain ⟨pcb, there, page⟩ := Option.bind_eq_some_iff.mp found
    exact .absent there page invalid
  | @passed page ret middle pcb found valid parsed there =>
    obtain ⟨pcb', there', listed⟩ := Option.bind_eq_some_iff.mp found
    have grown := appends _ _ _ _ parsed
    obtain ⟨memory, world, parsed', below, vars⟩ := answers page found valid grown _
    cases parsed.symm.trans parsed'
    cases there.symm.trans there'
    exact .ran there listed valid below vars

section Outcomes

theorem LoadTried.left (tried : LoadTried border pid i kernel done after) (pid' : Nat) : after.system.left pid' = kernel.system.left pid' := by
  cases tried with
  | full => rfl
  | @loaded pcb pcb' page memory found there loads =>
    have same : pcb'.size = pcb.size := by
      obtain ⟨_, _, loads⟩ := Option.bind_eq_some_iff.mp loads
      cases loads
      rfl
    change (((kernel.system.put pid pcb' memory).pcb? pid').map Pcb.size).getD 0 = ((kernel.system.pcb? pid').map Pcb.size).getD 0
    rw [put_pcb? found]
    split
    next mine => rw [mine, found, Option.map_some, Option.map_some, same]
    next => rfl

theorem LoadTried.queue (tried : LoadTried border pid i kernel done after) : after.queue = kernel.queue := by
  cases tried <;> rfl

theorem Replaced.queue (replaced : Replaced border pid i kernel after) : after.queue = kernel.queue := by
  obtain ⟨_, _, _, _, _, _, _, _, _, _, loads⟩ := replaced.evicted
  exact loads.queue

theorem LineRan.queue (line : LineRan border pid i j code effect kernel ret after) : after.queue = kernel.queue := by
  cases line <;> rfl

theorem ProcTried.outcome (tried : ProcTried border pid i (LineRan border pid i j code effect kernel) ret after) : Tried pid ret kernel after := by
  cases tried with
  | ran line ordinary =>
    cases line with
    | absent => exact absurd rfl ordinary
    | ran found =>
      refine ⟨rfl, fun _ => ?_⟩
      rw [left_eq found, left_eq ((put_pcb? found ..).trans (if_pos rfl))]
      rfl
  | loaded line loads =>
    exact ⟨congrArg (· ++ [pid]) (loads.queue.trans line.queue), fun ordinary => absurd rfl ordinary⟩
  | replaced line replaces =>
    exact ⟨congrArg (· ++ [pid]) (replaces.queue.trans line.queue), fun ordinary => absurd rfl ordinary⟩

end Outcomes

section Lacking

/-- The process counts on so many more lines than there are. -/
structure Lacking (pid missing : Nat) (kernel : KernelState ω) : Prop where
  process : ∃ pcb lines, kernel.system.pcb? pid = some pcb ∧ pcb.Lacks missing lines

theorem Pcb.Lacks.counter {lines : List (List UInt8)} (lacks : pcb.Lacks missing lines) (there : pcb.pageTable[i]? = some page) :
    ∃ c, pcb.programCounter[i]? = some c := by
  have inside := (List.getElem?_eq_some_iff.mp there).1
  rw [← lacks.counters] at inside
  exact ⟨_, List.getElem?_eq_getElem inside⟩

theorem Lacking.load (lacking : Lacking pid missing kernel) (tried : LoadTried border pid i kernel done after) : Lacking pid missing after := by
  obtain ⟨pcb, lines, found, lacks⟩ := lacking.process
  cases tried with
  | full => exact ⟨pcb, lines, found, lacks⟩
  | loaded found' there loads =>
    cases found.symm.trans found'
    obtain ⟨c, counter⟩ := lacks.counter there
    exact ⟨_, _, (put_pcb? found ..).trans (if_pos rfl), (lacks.load there counter loads).mono (by omega)⟩

theorem Lacking.replace (lacking : Lacking pid missing kernel) (all : kernel.allPcb = [pid]) (replaced : Replaced border pid i kernel after) :
    Lacking pid missing after := by
  obtain ⟨pcb, lines, found, lacks⟩ := lacking.process
  obtain ⟨_, victim, pcb', page, _, _, _, member, found', there, loads⟩ := replaced.evicted
  rw [all, List.mem_singleton] at member
  rw [member] at found' loads
  cases found.symm.trans found'
  obtain ⟨c, counter⟩ := lacks.counter there
  have evicted : Lacking pid missing (kernel.evict pid victim.pageIndex pcb page) :=
    ⟨_, lines, (put_pcb? found ..).trans (if_pos rfl), (lacks.evict there counter _).mono (Nat.le_add_right ..)⟩
  exact evicted.load loads

theorem Lacking.line (lacking : Lacking pid missing kernel) (counter : ∀ pcb, kernel.system.pcb? pid = some pcb → pcb.programCounter[i]? = some j.val)
    (line : LineRan border pid i j code effect kernel ret after) : Lacking pid missing after := by
  obtain ⟨pcb, lines, found, lacks⟩ := lacking.process
  cases line with
  | absent => exact ⟨pcb, lines, found, lacks⟩
  | ran found' there valid =>
    cases found.symm.trans found'
    exact ⟨_, lines, (put_pcb? found ..).trans (if_pos rfl), lacks.countLine there (counter pcb found) valid⟩

theorem LineRan.all (line : LineRan border pid i j code effect kernel ret after) : after.allPcb = kernel.allPcb := by
  cases line <;> rfl

theorem Lacking.tried (lacking : Lacking pid missing kernel) (all : kernel.allPcb = [pid])
    (counter : ∀ pcb, kernel.system.pcb? pid = some pcb → pcb.programCounter[i]? = some j.val)
    (tried : ProcTried border pid i (LineRan border pid i j code effect kernel) ret after) : Lacking pid missing after := by
  cases tried with
  | ran line =>
    have kept := lacking.line counter line
    exact ⟨kept.process⟩
  | loaded line loads =>
    have kept := (lacking.line counter line).load loads
    exact ⟨kept.process⟩
  | replaced line replaces =>
    have kept := (lacking.line counter line).replace (line.all.trans all) replaces
    exact ⟨kept.process⟩

end Lacking

section Counting

/-- Each line that counts was run from a page in a frame. -/
structure Counted (border count : Nat) (pcb : Pcb) : Prop where
  counters : pcb.programCounter.length = pageTableSize count
  pages : pcb.pageTable.length = pageTableSize count
  most : ∀ c ∈ pcb.programCounter, c ≤ 3
  total : pcb.programCounter.sum + pcb.size = count
  left : 0 ≤ pcb.size
  inside : ∀ page ∈ pcb.pageTable, ∀ j, page.validBit.get j = true → page.index.get j < border

/-- No value in a frame is longer than what `fgets` reads, nor has it a NUL. -/
def Brisk (border : Nat) (memory : ShellMemory) : Prop := ∀ slot < border, Short (memory slot).value

theorem short_none : Short noneText := by
  unfold Short
  decide

theorem lineOf_length (limit : Nat) (file : List UInt8) : (lineOf limit file).length ≤ limit := by
  induction limit generalizing file with
  | zero => cases file <;> exact Nat.le_refl 0
  | succ limit ih =>
    cases file with
    | nil => exact Nat.zero_le _
    | cons byte rest =>
      rw [lineOf]
      split
      · exact Nat.succ_le_succ (Nat.zero_le limit)
      · exact Nat.succ_le_succ (ih rest)

theorem loadLines_brisk {memory memory' : ShellMemory} {page page' : Page} {file file' : List UInt8} {label : CString} (slots : List (Fin 3))
    (brisk : Brisk border memory) (read : loadLines label slots page file memory = (page', file', memory')) : Brisk border memory' := by
  induction slots generalizing page file memory with
  | nil =>
    cases read
    exact brisk
  | cons j rest ih =>
    rw [loadLines] at read
    split at read
    · cases read
      exact brisk
    next line file fetched =>
      refine ih (fun slot inside => ?_) read
      obtain ⟨_, same⟩ := Option.ite_none_left_eq_some.mp fetched
      obtain ⟨rfl, _⟩ := Prod.mk.inj (Option.some.inj same)
      unfold memSetValueAt memPut
      split
      · exact ⟨(List.takeWhile_prefix _).length_le.trans (lineOf_length 998 _), fun member => absurd (List.mem_takeWhile_imp member) (by decide)⟩
      · exact brisk slot inside

theorem loadPage_brisk {memory memory' : ShellMemory} {pcb' : Pcb} (brisk : Brisk border memory)
    (loads : loadPage border i pcb page memory = some (pcb', memory')) : Brisk border memory' := by
  obtain ⟨⟨start, marked⟩, found, loads⟩ := Option.bind_eq_some_iff.mp loads
  dsimp only at loads
  generalize read : loadLines (decimal pcb.pid) [0, 1, 2] { page with index := #v[start, start + 1, start + 2], validBit := .replicate 3 false }
    pcb.sourceFile marked = result at loads
  obtain ⟨page', file, final⟩ := result
  cases loads
  refine loadLines_brisk _ (fun slot inside => ?_) read
  rw [(frameAlloc_some found).2 slot]
  split
  · exact brisk slot inside
  · exact brisk slot inside

theorem pageEvict_brisk {memory : ShellMemory} (brisk : Brisk border memory) : Brisk border (pageEvict page memory).2 := by
  intro slot inside
  obtain ⟨cleared, kept⟩ := pageEvict_clears page memory slot
  by_cases mine : slot ∈ page.index
  · rw [cleared mine]
    exact short_none
  · rw [kept mine]
    exact brisk slot inside

theorem sum_modify {counts : List Nat} (there : counts[i]? = some c) : (counts.modify i (· + 1)).sum = counts.sum + 1 := by
  induction counts generalizing i with
  | nil => cases there
  | cons first rest ih =>
    cases i with
    | zero =>
      rw [List.modify_zero_cons, List.sum_cons, List.sum_cons]
      omega
    | succ i =>
      rw [List.modify_succ_cons, List.sum_cons, List.sum_cons, ih there]
      omega

variable {count : Nat}

theorem Counted.load {memory memory' : ShellMemory} {pcb' : Pcb} (counted : Counted border count pcb)
    (loads : loadPage border i pcb page memory = some (pcb', memory')) : Counted border count pcb' ∧ pcb'.programCounter = pcb.programCounter := by
  obtain ⟨page', -, pages, -, inside, -⟩ := loadPage_loaded loads
  obtain ⟨_, _, loads⟩ := Option.bind_eq_some_iff.mp loads
  cases loads
  refine ⟨⟨counted.counters, by rw [List.length_set]; exact counted.pages, counted.most, counted.total, counted.left, ?_⟩, rfl⟩
  intro listed member j valid
  rw [pages] at member
  rcases List.mem_or_eq_of_mem_set member with before | rfl
  · exact counted.inside listed before j valid
  · exact inside _ (Vector.getElem_mem j.isLt)

theorem Counted.evict (counted : Counted border count pcb) (memory : ShellMemory) :
    Counted border count { pcb with pageTable := pcb.pageTable.set i (pageEvict page memory).1 } := by
  refine ⟨counted.counters, by rw [List.length_set]; exact counted.pages, counted.most, counted.total, counted.left, ?_⟩
  intro listed member j valid
  rcases List.mem_or_eq_of_mem_set member with before | rfl
  · exact counted.inside listed before j valid
  · have none : (Vector.replicate 3 false).get j = true := valid
    have bits : ∀ j : Fin 3, (Vector.replicate 3 false).get j = false := by decide
    rw [bits] at none
    cases none

theorem Counted.countLine (counted : Counted border count pcb) (counter : pcb.programCounter[i]? = some j.val) (more : 0 < pcb.size) :
    Counted border count (Processes.countLine pcb i) ∧ (Processes.countLine pcb i).programCounter.sum = pcb.programCounter.sum + 1 := by
  have sum : (pcb.programCounter.modify i (· + 1)).sum = pcb.programCounter.sum + 1 := sum_modify counter
  refine ⟨⟨by rw [Processes.countLine, List.length_modify]; exact counted.counters, counted.pages, ?_, ?_, ?_, counted.inside⟩, sum⟩
  · intro c member
    obtain ⟨k, there⟩ := List.getElem?_of_mem member
    rw [Processes.countLine, List.getElem?_modify] at there
    obtain ⟨earlier, place, rfl⟩ := Option.map_eq_some_iff.mp there
    have bound := counted.most earlier (List.mem_of_getElem? place)
    split
    next here =>
      rw [← here, counter] at place
      cases place
      exact j.isLt
    next => exact bound
  · have total := counted.total
    change ((pcb.programCounter.modify i (· + 1)).sum : Int) + (pcb.size - 1) = count
    omega
  · change 0 ≤ pcb.size - 1
    omega

theorem takeNext {α : Type} {items : List α} {count : Nat} {item : α} (later : items.take count ++ [item] <+: items) : items[count]? = some item := by
  have known : count ≤ items.length := by
    by_contra beyond
    have length := later.length_le
    rw [List.take_of_length_le (by omega), List.length_append, List.length_singleton] at length
    omega
  obtain ⟨rest, split⟩ := later
  rw [← split, List.append_assoc, List.getElem?_append_right (by rw [List.length_take]; omega), List.length_take, Nat.min_eq_left known, Nat.sub_self]
  rfl

/-- The process has run as many of the lines as it has counted, and each of them is short. -/
structure Counts (border pid count : Nat) (before lines : List CString) (kernel : KernelState ω) : Prop where
  all : kernel.allPcb = [pid]
  brisk : Brisk border kernel.system.memory
  process : ∃ pcb, kernel.system.pcb? pid = some pcb ∧ Counted border count pcb ∧
    passed kernel.history = before ++ lines.take pcb.programCounter.sum ∧ pcb.programCounter.sum ≤ lines.length ∧
      ∀ line ∈ lines.take pcb.programCounter.sum, Short line

variable {before lines : List CString}

theorem passed_append (events later : List Event) : passed (events ++ later) = passed events ++ passed later := List.filterMap_append

theorem Counts.load (counts : Counts border pid count before lines kernel) (tried : LoadTried border pid i kernel done after) :
    Counts border pid count before lines after := by
  obtain ⟨all, brisk, pcb, found, counted, ran, short⟩ := counts
  cases tried with
  | full => exact ⟨all, brisk, pcb, found, counted, ran, short⟩
  | loaded found' there loads =>
    cases found.symm.trans found'
    obtain ⟨counted', same⟩ := counted.load loads
    refine ⟨all, loadPage_brisk brisk loads, _, (put_pcb? found ..).trans (if_pos rfl), counted', ?_, by rw [same]; exact short⟩
    rw [same, passed_append, ran]
    exact List.append_nil _

theorem Counts.replace (counts : Counts border pid count before lines kernel) (replaced : Replaced border pid i kernel after) :
    Counts border pid count before lines after := by
  obtain ⟨all, brisk, pcb, found, counted, ran, short⟩ := counts
  obtain ⟨_, victim, pcb', page, _, _, _, member, found', there, loads⟩ := replaced.evicted
  rw [all, List.mem_singleton] at member
  rw [member] at found' loads
  cases found.symm.trans found'
  have evicted : Counts border pid count before lines (kernel.evict pid victim.pageIndex pcb page) := by
    refine ⟨all, pageEvict_brisk brisk, _, (put_pcb? found ..).trans (if_pos rfl), counted.evict _, ?_, short⟩
    refine (passed_append ..).trans ?_
    rw [ran]
    exact List.append_nil _
  exact evicted.load loads

theorem Counts.line (counts : Counts border pid count before lines kernel) (more : 0 < kernel.system.left pid)
    (counter : ∀ pcb, kernel.system.pcb? pid = some pcb → pcb.programCounter[i]? = some j.val)
    (line : LineRan border pid i j code effect kernel ret after) (whole : passed after.history <+: before ++ lines) :
    Counts border pid count before lines after := by
  obtain ⟨all, brisk, pcb, found, counted, ran, known, short⟩ := counts
  cases line with
  | absent => exact ⟨all, brisk, pcb, found, counted, ran, known, short⟩
  | @ran pcb' page memory world found' there valid below =>
    cases found.symm.trans found'
    rw [left_eq found] at more
    obtain ⟨counted', sum⟩ := counted.countLine (counter pcb found) more
    have inside := counted.inside page (List.mem_of_getElem? there) j valid
    -- the text is the next line, since the history is one of the lines
    have next : lines[pcb.programCounter.sum]? = some (kernel.system.memory (page.index.get j)).value := by
      rw [passed_append, ran, List.append_assoc] at whole
      have later := (List.prefix_append_right_inj _).mp whole
      exact takeNext later
    have grown : lines.take (pcb.programCounter.sum + 1) = lines.take pcb.programCounter.sum ++ [(kernel.system.memory (page.index.get j)).value] := by
      rw [List.take_add_one, next]
      rfl
    refine ⟨all, fun slot frame => ?_, _, (put_pcb? found ..).trans (if_pos rfl), counted', ?_, ?_, ?_⟩
    · change Short (memory slot).value
      rw [below slot frame]
      exact brisk slot frame
    · rw [sum, grown, passed_append, ran, List.append_assoc]
      rfl
    · rw [sum]
      exact (List.getElem?_eq_some_iff.mp next).1
    · rw [sum, grown]
      exact List.forall_mem_append.mpr ⟨short, List.forall_mem_singleton.mpr (brisk _ inside)⟩

/-- A try in a run that passes on these lines only. -/
theorem Counts.tried (appends : ∀ text, Grows (parseInput text)) (answers : ∀ line ∈ lines, Answers border parseInput code effect line)
    (counts : Counts border pid count before lines kernel) (more : 0 < kernel.system.left pid)
    (ran : runNext border varStoreSize parseInput pid kernel = some (ret, after)) (whole : passed after.history <+: before ++ lines) :
    ∃ pcb i, ∃ j : Fin 3, kernel.system.pcb? pid = some pcb ∧ pcb.programCounter.findIdx (· != 3) = i ∧ pcb.programCounter[i]? = some j.val ∧
      ProcTried border pid i (LineRan border pid i j code effect kernel) ret after ∧ Counts border pid count before lines after := by
  obtain ⟨pcb, i, j, found, first, counter, tried⟩ := runNext_tried ran
  have counter' (other : Pcb) (found' : kernel.system.pcb? pid = some other) : other.programCounter[i]? = some j.val := by
    cases found.symm.trans found'
    exact counter
  have answered : ProcTried border pid i (LineRan border pid i j code effect kernel) ret after := by
    refine tried.mono fun ret middle later line => line.answered appends fun page _ _ grown => answers _ ?_
    obtain ⟨pcb', found', -, passed, -⟩ := counts.process
    have known := ((grown.trans later).filterMap Event.textOf).trans whole
    change Kernel.passed (kernel.history ++ _) <+: _ at known
    rw [passed_append, passed, List.append_assoc] at known
    exact List.mem_of_getElem? (takeNext ((List.prefix_append_right_inj _).mp known))
  refine ⟨pcb, i, j, found, first, counter, answered, ?_⟩
  cases answered with
  | ran line =>
    have kept := counts.line more counter' line whole
    exact ⟨kept.all, kept.brisk, kept.process⟩
  | loaded line loads =>
    have kept := (counts.line more counter' line ((loads.grows.filterMap _).trans whole)).load loads
    exact ⟨kept.all, kept.brisk, kept.process⟩
  | replaced line replaces =>
    have kept := (counts.line more counter' line ((replaces.grows.filterMap _).trans whole)).replace replaces
    exact ⟨kept.all, kept.brisk, kept.process⟩

theorem Counted.finished (counted : Counted border count pcb) (done : pcbDone pcb = true) : pcb.size ≤ 0 := by
  have all : ∀ c ∈ pcb.programCounter, c = 3 := fun c member => eq_of_beq (List.all_eq_true.mp done c member)
  have sum := congrArg List.sum (List.eq_replicate_of_mem all)
  rw [List.sum_replicate_nat, counted.counters] at sum
  have total := counted.total
  have covered : count ≤ pageTableSize count * 3 := by
    unfold pageTableSize
    split <;> omega
  omega

theorem Counts.lone : Lone pid (fun kernel : KernelState ω => Counts border pid count before lines kernel) where
  there kernel counts := by
    obtain ⟨pcb, found, counted, -⟩ := counts.process
    exact ⟨pcb, found, counted.finished⟩
  all kernel counts := counts.all
  queued kernel queue counts := ⟨counts.all, counts.brisk, counts.process⟩

end Counting

end Comp310.Kernel
