import Comp310.Kernel.Answers

/-! A script that is run alone: its pages come in their order, and a line that answers 1 is taken for one whose page is not there. -/

namespace Comp310.Kernel
open Comp310.Lib

variable {border varStoreSize : Nat} {ω : Type} {parseInput : CString → K ω Int} {kernel after middle : KernelState ω} {script : Script}
  {ran loaded : Nat} {code : CString → ShellMemory × ω → Int} {effect : CString → ShellMemory × ω → ShellMemory × ω} {start : ShellMemory × ω}
  {before : List CString} {text : CString}

/-- What the commands make of the variables and the world. -/
def afterLines (effect : CString → ShellMemory × ω → ShellMemory × ω) (lines : List CString) (outside : ShellMemory × ω) : ShellMemory × ω :=
  lines.foldl (fun outside line => effect line outside) outside

/-- The code of a line when it is run after those before it. -/
def codeAt (code : CString → ShellMemory × ω → Int) (effect : CString → ShellMemory × ω → ShellMemory × ω) (lines : List CString)
    (outside : ShellMemory × ω) (k : Nat) : Option Int := lines[k]?.map fun line => code line (afterLines effect (lines.take k) outside)

/-- So many lines were run and so many pages loaded, no more of them than were called for. -/
structure Regular (border : Nat) (script : Script) (effect : CString → ShellMemory × ω → ShellMemory × ω) (start : ShellMemory × ω)
    (before : List CString) (ran loaded : Nat) (kernel : KernelState ω) : Prop where
  shows : ∃ counts pages : Nat → Nat, counts script.pid = ran ∧ pages script.pid = loaded ∧ Shows border [script] counts pages kernel
  known : ran ≤ script.size
  first : min 2 script.pages ≤ loaded
  last : loaded ≤ max 2 (ran / 3 + 1)
  covered : ran ≤ 3 * loaded
  room : 0 < border / 3
  outside : kernel.outside border = afterLines effect (script.texts.take ran) start
  history : passed kernel.history = before ++ script.texts.take ran

/-- The first page was used last. -/
def UsedLast (script : Script) (ran : Nat) (kernel : KernelState ω) : Prop := 0 < ran → ran < 3 → kernel.lruCache.head? = some (script.pid, 0)

theorem take_text (line : script.texts[ran]? = some text) : script.texts.take (ran + 1) = script.texts.take ran ++ [text] := by
  rw [List.take_add_one, line]
  rfl

theorem text_lt (line : script.texts[ran]? = some text) : ran < script.size := by
  have inside := (List.getElem?_eq_some_iff.mp line).1
  rwa [Script.texts, List.length_map] at inside

theorem afterLines_text (line : script.texts[ran]? = some text) :
    afterLines effect (script.texts.take (ran + 1)) start = effect text (afterLines effect (script.texts.take ran) start) := by
  rw [take_text line, afterLines, List.foldl_append]
  rfl

section Steps
variable (regular : Regular border script effect start before ran loaded kernel)
include regular

theorem Regular.queue (queue : List Nat) : Regular border script effect start before ran loaded { kernel with queue } := by
  obtain ⟨⟨counts, pages, now, got, shows⟩, known, first, last, covered, room, outside, history⟩ := regular
  exact ⟨⟨counts, pages, now, got, shows.queue queue⟩, known, first, last, covered, room, outside, history⟩

theorem Regular.there : ∃ pcb, kernel.system.pcb? script.pid = some pcb ∧ Progress script ran loaded pcb := by
  obtain ⟨⟨counts, pages, rfl, rfl, shows⟩, -⟩ := regular
  exact shows.procs script List.mem_cons_self

theorem Regular.left : kernel.system.left script.pid = (script.size : Int) - ran := by
  obtain ⟨pcb, found, progress⟩ := regular.there
  rw [left_eq found, progress.size]

variable (varStoreSize parseInput) in
/-- A page that is not there is loaded. -/
theorem Regular.fault (more : ran < script.size) (absent : ran / 3 = loaded) : ∃ after,
    runNext border varStoreSize parseInput script.pid kernel = some (1, after) ∧
      Regular border script effect start before ran (loaded + 1) after ∧ 3 ≤ ran := by
  obtain ⟨⟨counts, pages, rfl, rfl, shows⟩, known, first, last, covered, room, outside, history⟩ := regular
  obtain ⟨system, evicted, run, told, behind, shows'⟩ := shows.fault varStoreSize parseInput List.mem_cons_self more absent fun full => by
    -- all that was loaded is done with
    have some : kernel.lruCache ≠ [] := by
      rintro none
      rw [none, List.length_nil] at full
      omega
    obtain ⟨owner, there, same, below⟩ := shows.listed _ (List.getLast_mem some)
    cases List.mem_singleton.mp there
    refine ⟨script, List.mem_cons_self, kernel.lruCache.dropLast, (kernel.lruCache.getLast some).2, ?_, ?_⟩
    · rw [same]
      exact (List.dropLast_concat_getLast some).symm
    · omega
  have lines : passed (evicted ++ [Event.load script.pid (pages script.pid)]) = [] := by
    rcases told with rfl | ⟨_, _, _, rfl, _⟩
    · rfl
    · rfl
  have positive : 0 < pages script.pid := by
    have some : 0 < script.pages := Nat.lt_of_le_of_lt (Nat.zero_le _) (lt_pages more)
    omega
  refine ⟨_, run, ⟨⟨counts, _, rfl, Function.update_self .., shows'.aside _ _⟩, known, ?_, ?_, ?_, room, ?_, ?_⟩, ?_⟩
  · omega
  · omega
  · omega
  · refine Eq.trans ?_ outside
    exact Prod.ext (funext fun i => behind _ (Nat.le_add_right ..)) rfl
  · change passed (kernel.history ++ evicted ++ [.load script.pid (pages script.pid)]) = _
    rw [List.append_assoc, passed_append, lines, List.append_nil]
    exact history
  · omega

/-- What becomes of the process when its next line is passed on, whatever the answer. -/
structure Regular.Passed (border varStoreSize : Nat) (parseInput : CString → K ω Int) (script : Script)
    (effect : CString → ShellMemory × ω → ShellMemory × ω) (start : ShellMemory × ω) (before : List CString) (ran loaded : Nat) (ret : Int) (kernel middle : KernelState ω) : Prop where
  run : cpuRun border varStoreSize parseInput script.pid (ran / 3) ⟨ran % 3, Nat.mod_lt _ (by decide)⟩ kernel = some (ret, middle)
  regular : Regular border script effect start before (ran + 1) loaded middle
  lruCache : middle.lruCache = kernel.lruCache
  listed : (script.pid, ran / 3) ∈ kernel.lruCache

variable (varStoreSize) in
theorem Regular.pass (line : script.texts[ran]? = some text) (there : ran / 3 < loaded) (answers : Answers border parseInput code effect text) :
    ∃ middle, Regular.Passed border varStoreSize parseInput script effect start before ran loaded (code text (afterLines effect (script.texts.take ran) start))
      kernel middle := by
  have more := text_lt line
  obtain ⟨⟨counts, pages, rfl, rfl, shows⟩, known, first, last, covered, room, outside, history⟩ := regular
  obtain ⟨memory, world, parsed, below, vars⟩ := answers { kernel with history := kernel.history ++ [.line script.pid text] }
  obtain ⟨system, run, same, -, listed, shows'⟩ := shows.cpuRun varStoreSize List.mem_cons_self line there parsed below
  rw [← outside]
  have shown := shows'.aside world (kernel.history ++ [.line script.pid text])
  refine ⟨_, run, ⟨⟨_, pages, Function.update_self .., rfl, shown⟩, more, first, ?_, ?_, room, ?_, ?_⟩, rfl, listed⟩
  · omega
  · omega
  · rw [afterLines_text line, ← outside]
    refine Eq.trans ?_ vars
    exact Prod.ext (congrArg (varsOf border) same) rfl
  · rw [passed_append, history, take_text line, List.append_assoc]
    rfl

variable (varStoreSize) in
/-- A line with another code than 1 is run. -/
theorem Regular.line (line : script.texts[ran]? = some text) (there : ran / 3 < loaded) (answers : Answers border parseInput code effect text)
    (ordinary : code text (afterLines effect (script.texts.take ran) start) ≠ 1) : ∃ after,
    runNext border varStoreSize parseInput script.pid kernel = some (0, after) ∧
      Regular border script effect start before (ran + 1) loaded after ∧ after.lruCache.head? = some (script.pid, ran / 3) := by
  have more := text_lt line
  obtain ⟨⟨counts, pages, rfl, rfl, shows⟩, known, first, last, covered, room, outside, history⟩ := regular
  rw [← outside] at ordinary
  obtain ⟨memory, world, parsed, below, vars⟩ := answers { kernel with history := kernel.history ++ [.line script.pid text] }
  obtain ⟨system, run, same, shows'⟩ := shows.runLine varStoreSize List.mem_cons_self line there parsed below ordinary
  have shown := shows'.aside world (kernel.history ++ [.line script.pid text])
  refine ⟨_, run, ⟨⟨_, pages, Function.update_self .., rfl, shown⟩, more, first, ?_, ?_, room, ?_, ?_⟩, rfl⟩
  · omega
  · omega
  · rw [afterLines_text line, ← outside]
    refine Eq.trans ?_ vars
    exact Prod.ext (congrArg (varsOf border) same) rfl
  · rw [passed_append, history, take_text line, List.append_assoc]
    rfl

theorem Regular.entries {entry : Nat × Nat} (listed : entry ∈ kernel.lruCache) : entry.1 = script.pid ∧ entry.2 < loaded ∧
    ∃ page, kernel.system.page? entry = some page ∧ page.pagePid = script.pid ∧ page.pageIndex = entry.2 ∧
      script.Bears entry.2 page kernel.system.memory := by
  obtain ⟨⟨counts, pages, rfl, rfl, shows⟩, -⟩ := regular
  obtain ⟨owner, there, same, below⟩ := shows.listed entry listed
  cases List.mem_singleton.mp there
  obtain ⟨_, _, _, page, found, named, number⟩ := shows.owned listed
  have whole : entry = (script.pid, entry.2) := Prod.ext same.symm rfl
  have bears := shows.borne script List.mem_cons_self entry.2 (whole ▸ listed)
  rw [← whole, pageAt_eq found] at bears
  exact ⟨same.symm, below, page, found, named.trans same.symm, number, bears⟩

theorem Regular.all : kernel.allPcb = [script.pid] := by
  obtain ⟨⟨counts, pages, rfl, rfl, shows⟩, -⟩ := regular
  exact shows.all

theorem Regular.runNext_eq (more : ran < script.size) : runNext border varStoreSize parseInput script.pid kernel =
    runProc border varStoreSize parseInput script.pid (ran / 3) ⟨ran % 3, Nat.mod_lt _ (by decide)⟩ kernel := by
  obtain ⟨⟨counts, pages, rfl, rfl, shows⟩, -⟩ := regular
  exact shows.runNext_eq List.mem_cons_self more

theorem Regular.pages_le : loaded ≤ script.pages := by
  obtain ⟨⟨counts, pages, rfl, rfl, shows⟩, -⟩ := regular
  exact shows.few script List.mem_cons_self

end Steps

section Reloading

theorem loadPage_none {i : Nat} {pcb : Pcb} {page : Page} {memory : ShellMemory} :
    loadPage border i pcb page memory = none ↔ frameAlloc border (decimal pcb.pid) memory = none := by
  rw [loadPage]
  cases found : frameAlloc border (decimal pcb.pid) memory with
  | none => exact ⟨fun _ => rfl, fun _ => rfl⟩
  | some result => exact ⟨fun none => absurd none (Option.some_ne_none _), fun none => absurd none (Option.some_ne_none _)⟩

theorem Regular.spare {i : Nat} {reloaded : KernelState ω} (regular : Regular border script effect start before ran loaded kernel)
    (tried : LoadTried border script.pid i kernel true reloaded) : kernel.lruCache.length < border / 3 := by
  obtain ⟨⟨counts, pages, rfl, rfl, shows⟩, -⟩ := regular
  have few := shows.frames.few
  rw [List.length_map] at few
  refine Nat.lt_of_le_of_ne few fun full => ?_
  cases tried with
  | @loaded pcb pcb' page memory found there loads =>
    have none := (shows.frames.full_iff (decimal pcb.pid)).mpr (by rwa [List.length_map])
    rw [loadPage_none.mpr none] at loads
    cases loads

/-- The page that goes is the last of the cache, and the other one gets a frame. -/
theorem Regular.replaced {i : Nat} {reloaded : KernelState ω} (regular : Regular border script effect start before ran loaded kernel)
    (replaced : Replaced border script.pid i kernel reloaded) : ∃ pcb entry page, kernel.system.pcb? script.pid = some pcb ∧
    kernel.lruCache.getLast? = some entry ∧ entry.1 = script.pid ∧ pcb.pageTable[entry.2]? = some page ∧
    script.Bears entry.2 page kernel.system.memory ∧ LoadTried border script.pid i (kernel.evict script.pid entry.2 pcb page) true reloaded := by
  obtain ⟨entry, victim, pcb, page, done, last, fetched, -, found, there, loads⟩ := replaced.evicted
  have listed := List.mem_of_getLast? last
  obtain ⟨owner, below, page', fetched', named, number, bears⟩ := regular.entries listed
  cases fetched.symm.trans fetched'
  rw [named] at found
  rw [number] at there
  rw [named, number] at loads
  have same : page = victim := by
    have place : kernel.system.page? (script.pid, entry.2) = some page := (page?_eq found).trans there
    have whole : entry = (script.pid, entry.2) := Prod.ext owner rfl
    rw [whole, place] at fetched
    exact Option.some.inj fetched
  subst same
  refine ⟨pcb, entry, page, found, last, owner, there, bears, ?_⟩
  cases done with
  | true => exact loads
  | false =>
    obtain ⟨⟨counts, pages, rfl, rfl, shows⟩, -⟩ := regular
    have split : kernel.lruCache = kernel.lruCache.dropLast ++ [entry] := by
      obtain ⟨front, whole⟩ := List.getLast?_eq_some_iff.mp last
      rw [whole, List.dropLast_concat]
    have frames := shows.frames
    have few := frames.few
    rw [List.length_map] at few
    rw [split, List.map_append, List.map_singleton, pageAt_eq fetched] at frames
    have freed := frames.evict
    rw [List.append_nil] at freed
    have length : kernel.lruCache.length = kernel.lruCache.dropLast.length + 1 := by
      rw [split, List.length_append, List.dropLast_concat]
      rfl
    cases loads with
    | @full pcb' page' found' there' fails =>
      have full := (freed.full_iff (decimal pcb'.pid)).mp (loadPage_none.mp fails)
      rw [List.length_map] at full
      omega

end Reloading

/-- A line that answers 1 has its page loaded again. -/
theorem Regular.Passed.reloads (passed : Regular.Passed border varStoreSize parseInput script effect start before ran loaded 1 kernel middle)
    (regular : Regular border script effect start before ran loaded kernel) (more : ran < script.size) : ∃ reloaded : KernelState ω,
    runNext border varStoreSize parseInput script.pid kernel = some (1, { reloaded with
      lruCache := (script.pid, ran / 3) :: reloaded.lruCache, queue := reloaded.queue ++ [script.pid] }) ∧
    Reloaded border script.pid (ran / 3) middle reloaded := by
  obtain ⟨pcb, found, progress⟩ := passed.regular.there
  have some : middle.lruCache ≠ [] := List.ne_nil_of_mem (passed.lruCache ▸ passed.listed)
  obtain ⟨-, below, page, fetched, owner, number, -⟩ := passed.regular.entries (List.getLast_mem some)
  have most := passed.regular.pages_le
  rw [regular.runNext_eq more]
  refine runProc_reloads varStoreSize passed.run found ?_ passed.regular.all (List.getLast?_eq_some_getLast some) fetched owner ?_
  · rw [progress.pages]
    exact lt_pages more
  · rw [number, progress.pages]
    exact Nat.lt_of_lt_of_le below most

section Losing

theorem Script.Bears.waiting {j counter : Nat} {page : Page} {memory : ShellMemory} (bears : script.Bears j page memory) (k : Fin 3)
    (inside : 3 * j + k < script.size) (unrun : counter ≤ k) : 0 < page.waiting counter := by
  have known : 3 * j + k < script.texts.length := by
    rw [Script.texts, List.length_map]
    exact inside
  obtain ⟨valid, -⟩ := bears k _ (List.getElem?_eq_getElem known)
  refine List.countP_pos_iff.mpr ⟨k, List.mem_finRange k, ?_⟩
  rw [valid, decide_eq_true unrun]
  rfl

theorem Reads.flatten {lines : List (List UInt8)} (reads : Reads lines) (some : lines ≠ []) : lines.flatten ≠ [] := by
  obtain ⟨line, rest, rfl⟩ := List.exists_cons_of_ne_nil some
  intro none
  have read := reads.1
  rw [← List.flatten_cons, none] at read
  cases read

variable {i c missing : Nat} {pcb : Pcb} {page : Page} {lines : List (List UInt8)} {reloaded : KernelState ω}

theorem Lacking.mono {pid more : Nat} (lacking : Lacking pid more kernel) (order : missing ≤ more) : Lacking pid missing kernel := by
  obtain ⟨pcb, lines, found, lacks⟩ := lacking.process
  exact ⟨pcb, lines, found, lacks.mono order⟩

theorem LoadTried.loses {pid : Nat} (tried : LoadTried border pid i kernel true reloaded) (found : kernel.system.pcb? pid = some pcb)
    (there : pcb.pageTable[i]? = some page) (counter : pcb.programCounter[i]? = some c) (lacks : pcb.Lacks missing lines) :
    Lacking pid (missing + page.waiting c + min c (min 3 lines.length)) reloaded := by
  cases tried with
  | loaded found' there' loads =>
    cases found.symm.trans found'
    cases there.symm.trans there'
    exact ⟨_, _, (put_pcb? found ..).trans (if_pos rfl), lacks.load there counter loads⟩

/-- A line is lost when its page is loaded again, unless there was none behind it in the page and in the file and no page had to go. -/
theorem Regular.Passed.loses (passed : Regular.Passed border varStoreSize parseInput script effect start before ran loaded 1 kernel middle)
    (regular : Regular border script effect start before ran loaded kernel) (recent : UsedLast script ran kernel) (more : ran + 1 < script.size)
    (bad : ¬ (ran = 2 ∧ script.size ≤ 6 ∧ 3 ≤ border / 3))
    (lacking : Lacking script.pid 0 middle) (reload : Reloaded border script.pid (ran / 3) middle reloaded) : Lacking script.pid 1 reloaded := by
  obtain ⟨pcb, found, progress⟩ := passed.regular.there
  obtain ⟨_, lines, found', lacks⟩ := lacking.process
  cases found.symm.trans found'
  have counter (q : Nat) (inside : q < script.pages) : pcb.programCounter[q]? = some (min 3 (ran + 1 - 3 * q)) := by
    rw [progress.counters, List.getElem?_map, List.getElem?_range inside]
    rfl
  have here : ran / 3 < script.pages := lt_pages (Nat.lt_of_succ_lt more)
  obtain ⟨-, -, page, fetched, -, -, bears⟩ := passed.regular.entries (passed.lruCache ▸ passed.listed)
  have there : pcb.pageTable[ran / 3]? = some page := (page?_eq found).symm.trans fetched
  have most := passed.regular.pages_le
  have size : 3 * script.pages < script.size + 3 ∧ script.size ≤ 3 * script.pages := by
    unfold Script.pages pageTableSize
    split <;> omega
  by_cases unread : loaded < script.pages
  · -- the next line of the file goes to a slot whose line was run
    have filled : 0 < lines.length := by
      refine List.length_pos_iff.mpr fun none => ?_
      have whole := progress.unread.symm.trans lacks.unread
      rw [none] at whole
      refine (script.reads.drop (3 * loaded)).flatten (fun none => ?_) whole
      have length := List.drop_eq_nil_iff.mp none
      change script.size ≤ 3 * loaded at length
      omega
    rcases reload with loads | ⟨-, replaces⟩
    · exact (loads.loses found there (counter _ here) lacks).mono (by omega)
    · obtain ⟨_, entry, victim, found', -, -, there', -, loads⟩ := passed.regular.replaced replaces
      cases found.symm.trans found'
      obtain ⟨c, counter'⟩ := lacks.counter there'
      have evicted := lacks.evict there' counter' middle.system.memory
      have found₁ : (middle.evict script.pid entry.2 pcb victim).system.pcb? script.pid = some { pcb with
          pageTable := pcb.pageTable.set entry.2 (pageEvict victim middle.system.memory).1 } := (put_pcb? found ..).trans (if_pos rfl)
      have inside : ran / 3 < (pcb.pageTable.set entry.2 (pageEvict victim middle.system.memory).1).length := by
        rw [List.length_set, progress.pages]
        exact here
      exact (loads.loses found₁ (List.getElem?_eq_getElem inside) (counter _ here) evicted).mono (by omega)
  · by_cases within : ran % 3 < 2
    · -- the next line waits in the page itself
      have waits : 0 < page.waiting (min 3 (ran + 1 - 3 * (ran / 3))) :=
        bears.waiting ⟨ran % 3 + 1, by omega⟩ (by dsimp only; omega) (by dsimp only; omega)
      rcases reload with loads | ⟨-, replaces⟩
      · exact (loads.loses found there (counter _ here) lacks).mono (by omega)
      · obtain ⟨_, entry, victim, found', -, -, there', -, loads⟩ := passed.regular.replaced replaces
        cases found.symm.trans found'
        have found₁ : (middle.evict script.pid entry.2 pcb victim).system.pcb? script.pid = some { pcb with
            pageTable := pcb.pageTable.set entry.2 (pageEvict victim middle.system.memory).1 } := (put_pcb? found ..).trans (if_pos rfl)
        by_cases mine : entry.2 = ran / 3
        · rw [mine] at there' loads found₁
          cases there.symm.trans there'
          have evicted : Lacking script.pid 1 (middle.evict script.pid (ran / 3) pcb page) :=
            ⟨_, lines, found₁, (lacks.evict there (counter _ here) _).mono (by omega)⟩
          exact evicted.load loads
        · obtain ⟨c, counter'⟩ := lacks.counter there'
          have evicted := lacks.evict there' counter' middle.system.memory
          have there₁ : (pcb.pageTable.set entry.2 (pageEvict victim middle.system.memory).1)[ran / 3]? = some page := by
            rw [List.getElem?_set_ne mine]
            exact there
          exact (loads.loses found₁ there₁ (counter _ here) evicted).mono (by omega)
    · -- the other page of the script has to go
      have last := regular.last
      have two : ran = 2 ∧ script.pages = 2 := by omega
      obtain ⟨rfl, pages⟩ := two
      have few : border / 3 < 3 := by omega
      have head := recent (by decide) (by decide)
      rw [← passed.lruCache] at head
      obtain ⟨⟨counts, loads', now, got, shows⟩, -⟩ := passed.regular
      have other : (script.pid, 1) ∈ middle.lruCache := by
        refine shows.needed script List.mem_cons_self 1 ?_ ?_
        · omega
        · omega
      have length := shows.frames.few
      rw [List.length_map] at length
      have whole : middle.lruCache = [(script.pid, 0), (script.pid, 1)] := by
        cases cache : middle.lruCache with
        | nil =>
          rw [cache] at head
          cases head
        | cons first rest =>
          rw [cache] at head other length
          cases head
          have later : (script.pid, 1) ∈ rest := (List.mem_cons.mp other).resolve_left (by simp)
          rw [List.length_cons] at length
          obtain ⟨only, rfl⟩ : ∃ only, rest = [only] := List.length_eq_one_iff.mp (by
            have some := List.length_pos_of_mem later
            omega)
          rw [List.mem_singleton.mp later]
      rcases reload with loads | ⟨-, replaces⟩
      · have spare := passed.regular.spare loads
        rw [whole] at spare
        change 2 < border / 3 at spare
        omega
      · obtain ⟨_, entry, victim, found', getLast, -, there', bears', loads⟩ := passed.regular.replaced replaces
        cases found.symm.trans found'
        rw [whole] at getLast
        cases getLast
        have waits : 0 < victim.waiting (min 3 (2 + 1 - 3 * 1)) := bears'.waiting 0 more (by decide)
        have evicted : Lacking script.pid 1 (middle.evict script.pid 1 pcb victim) :=
          ⟨_, lines, (put_pcb? found ..).trans (if_pos rfl), (lacks.evict there' (counter 1 (by omega)) _).mono (by omega)⟩
        exact evicted.load loads

end Losing

end Comp310.Kernel
