import Comp310.Kernel.Solo

/-! A script of two pages whose third line has answered 1 goes on: its first page was loaded again, without lines, and is done with. -/

namespace Comp310.Kernel
open Comp310.Lib

variable {border varStoreSize pid i : Nat} {ω : Type} {parseInput : CString → K ω Int} {kernel after middle reloaded : KernelState ω} {script : Script}
  {ran loaded : Nat} {code : CString → ShellMemory × ω → Int} {effect : CString → ShellMemory × ω → ShellMemory × ω} {start : ShellMemory × ω}
  {before : List CString} {text : CString}

/-- The page has a frame. -/
structure Page.Framed (border : Nat) (page : Page) : Prop where
  frame : page.index = #v[page.start, page.start + 1, page.start + 2]
  inside : page.start + 3 ≤ border

/-- The lines of the second page are there, and those of the first page were run. -/
structure Emptied (border : Nat) (script : Script) (effect : CString → ShellMemory × ω → ShellMemory × ω) (start : ShellMemory × ω)
    (before : List CString) (ran : Nat) (kernel : KernelState ω) : Prop where
  all : kernel.allPcb = [script.pid]
  process : ∃ pcb, kernel.system.pcb? script.pid = some pcb ∧ pcb.programCounter = [3, ran - 3] ∧ pcb.size = (script.size : Int) - ran ∧
    pcb.pageTable.length = 2 ∧ (∀ (j : Nat) (page : Page), pcb.pageTable[j]? = some page →
      page.pagePid = script.pid ∧ page.pageIndex = j ∧ page.Framed border ∧ (j = 1 → script.Bears 1 page kernel.system.memory))
  entries : ∀ entry ∈ kernel.lruCache, entry.1 = script.pid ∧ entry.2 < 2
  listed : (script.pid, 1) ∈ kernel.lruCache
  known : 3 ≤ ran ∧ ran ≤ script.size ∧ script.size ≤ 6
  outside : kernel.outside border = afterLines effect (script.texts.take ran) start
  history : passed kernel.history = before ++ script.texts.take ran

theorem removeElem_perm {first : Nat} {pages rest : List (Nat × Nat)} {found : Nat × Nat}
    (ran : removeElem first pages kernel = some ((found, rest), after)) : pages.Perm (found :: rest) := by
  induction pages generalizing found rest with
  | nil => cases ran
  | cons entry later ih =>
    obtain ⟨page, _, got, ran⟩ := bind_some ran
    obtain ⟨_, _, _, same⟩ := getPage_some got
    cases same
    split at ran
    · cases ran
      exact .refl _
    · obtain ⟨⟨found', rest'⟩, _, removed, ran⟩ := bind_some ran
      cases ran
      exact ((ih removed).cons entry).trans (.swap ..)

theorem removeElem_total {first : Nat} {pages : List (Nat × Nat)} (there : ∀ entry ∈ pages, ∃ page, kernel.system.page? entry = some page)
    {entry : Nat × Nat} {page : Page} (member : entry ∈ pages) (found : kernel.system.page? entry = some page) (starts : page.start = first) :
    ∃ result, removeElem first pages kernel = some (result, kernel) := by
  induction pages with
  | nil => cases member
  | cons other rest ih =>
    obtain ⟨page', found'⟩ := there other List.mem_cons_self
    rw [removeElem, run_bind (getPage_run found')]
    by_cases mine : page'.start = first
    · rw [if_pos mine]
      exact ⟨_, rfl⟩
    · have later : entry ∈ rest := by
        refine (List.mem_cons.mp member).resolve_left fun same => mine ?_
        rw [same, found'] at found
        exact Option.some.inj found ▸ starts
      obtain ⟨result, removed⟩ := ih (fun entry member => there entry (List.mem_cons_of_mem _ member)) later
      rw [if_neg mine, run_bind removed]
      exact ⟨_, rfl⟩

section Steps
variable (emptied : Emptied border script effect start before ran kernel)
include emptied

theorem Emptied.queue (queue : List Nat) : Emptied border script effect start before ran { kernel with queue } :=
  ⟨emptied.all, emptied.process, emptied.entries, emptied.listed, emptied.known, emptied.outside, emptied.history⟩

theorem Emptied.reorder {entries : List (Nat × Nat)} (same : kernel.lruCache.Perm entries) :
    Emptied border script effect start before ran { kernel with lruCache := entries } where
  all := emptied.all
  process := emptied.process
  entries entry member := emptied.entries entry (same.mem_iff.mpr member)
  listed := same.mem_iff.mp emptied.listed
  known := emptied.known
  outside := emptied.outside
  history := emptied.history

theorem Emptied.page? {entry : Nat × Nat} (member : entry ∈ kernel.lruCache) : ∃ pcb page, kernel.system.pcb? script.pid = some pcb ∧
    pcb.pageTable[entry.2]? = some page ∧ kernel.system.page? entry = some page ∧ page.pagePid = script.pid ∧ page.pageIndex = entry.2 := by
  obtain ⟨pcb, found, -, -, length, pages⟩ := emptied.process
  obtain ⟨owner, below⟩ := emptied.entries entry member
  rw [← length] at below
  have there := List.getElem?_eq_getElem below
  obtain ⟨named, number, -⟩ := pages entry.2 _ there
  have whole : entry = (script.pid, entry.2) := Prod.ext owner rfl
  exact ⟨pcb, _, found, there, (congrArg kernel.system.page? whole).trans ((page?_eq found).trans there), named, number⟩

theorem Emptied.left : kernel.system.left script.pid = (script.size : Int) - ran := by
  obtain ⟨pcb, found, -, size, -⟩ := emptied.process
  rw [left_eq found, size]

theorem Emptied.counter (more : ran < script.size) {pcb : Pcb} (found : kernel.system.pcb? script.pid = some pcb) :
    pcb.programCounter.findIdx (· != 3) = 1 ∧ pcb.programCounter[1]? = some (ran - 3) := by
  obtain ⟨_, found', counters, -⟩ := emptied.process
  cases found.symm.trans found'
  obtain ⟨low, -, high⟩ := emptied.known
  have unrun : ran - 3 ≠ 3 := by omega
  rw [counters]
  refine ⟨?_, rfl⟩
  rw [List.findIdx_cons, List.findIdx_cons, bne_iff_ne.mpr unrun]
  rfl

theorem Emptied.runNext_eq (more : ran < script.size) : runNext border varStoreSize parseInput script.pid kernel =
    runProc border varStoreSize parseInput script.pid 1 ⟨ran - 3, by have known := emptied.known; omega⟩ kernel := by
  obtain ⟨pcb, found, -⟩ := emptied.process
  obtain ⟨first, counter⟩ := emptied.counter more found
  have small : ran - 3 < 3 := by
    have known := emptied.known
    omega
  rw [runNext, run_bind (getPcb_run found), first, counter]
  exact congrFun (dif_pos small) kernel

variable (varStoreSize) in
theorem Emptied.pass (line : script.texts[ran]? = some text) (answers : Answers border parseInput code effect text) : ∃ middle,
    cpuRun border varStoreSize parseInput script.pid 1 ⟨ran - 3, by have known := emptied.known; have more := text_lt line; omega⟩ kernel =
      some (code text (afterLines effect (script.texts.take ran) start), middle) ∧
    Emptied border script effect start before (ran + 1) middle := by
  have more := text_lt line
  obtain ⟨pcb, found, counters, size, length, pages⟩ := emptied.process
  obtain ⟨low, -, high⟩ := emptied.known
  obtain ⟨page, there⟩ : ∃ page, pcb.pageTable[1]? = some page := ⟨_, List.getElem?_eq_getElem (show 1 < pcb.pageTable.length by omega)⟩
  obtain ⟨-, -, ⟨frame, inside⟩, bears⟩ := pages 1 page there
  obtain ⟨valid, value⟩ := bears rfl ⟨ran - 3, by omega⟩ text (by rwa [show 3 * 1 + (ran - 3) = ran by omega])
  obtain ⟨memory, world, parsed, below, vars⟩ := answers { kernel with history := kernel.history ++ [.line script.pid text] }
  have slot : page.index.get ⟨ran - 3, by omega⟩ = page.start + (ran - 3) := by
    rw [frame]
    exact frame_get page.start ⟨ran - 3, by omega⟩
  let system := kernel.system.put script.pid (Processes.countLine pcb 1) memory
  have taken : (Call.countLine script.pid 1).take border varStoreSize { kernel.system with memory } = some system := by
    have found' : ({ kernel.system with memory } : Processes).pcb? script.pid = some pcb := found
    rw [Call.take, found']
    rfl
  have counted : perform border varStoreSize (.countLine script.pid 1)
      { kernel with system := { kernel.system with memory }, world, history := kernel.history ++ [.line script.pid text] } =
      some (⟨⟩, { kernel with system, world, history := kernel.history ++ [.line script.pid text] }) := perform_run taken
  refine ⟨{ kernel with system, world, history := kernel.history ++ [.line script.pid text] }, ?_, ?_⟩
  · rw [cpuRun, run_bind (getPage_run ((page?_eq found).trans there)), if_neg (by rw [valid]; exact Bool.true_eq_false.mp), run_bind (get_run _), slot]
    have command : memGetValueAt (page.start + (ran - 3)) kernel.system.memory = text := value
    rw [command, ← emptied.outside]
    refine (run_bind (modify_run _ _) _).trans ((run_bind parsed _).trans ((run_bind counted _).trans ?_))
    rfl
  · refine ⟨emptied.all, ⟨_, (put_pcb? found ..).trans (if_pos rfl), ?_, ?_, length, fun j page there => ?_⟩,
      emptied.entries, emptied.listed, by omega, ?_, ?_⟩
    · rw [Processes.countLine, counters]
      change [3, ran - 3 + 1] = _
      rw [show ran - 3 + 1 = ran + 1 - 3 by omega]
    · rw [Processes.countLine, size]
      push_cast
      omega
    · obtain ⟨named, number, framed, bears⟩ := pages j page there
      refine ⟨named, number, framed, fun second => (bears second).congr fun k => below _ ?_⟩
      have inside := framed.inside
      have small := k.isLt
      omega
    · rw [afterLines_text line, ← emptied.outside]
      exact vars
    · rw [passed_append, emptied.history, take_text line, List.append_assoc]
      rfl

variable (varStoreSize) in
theorem Emptied.line (line : script.texts[ran]? = some text) (answers : Answers border parseInput code effect text)
    (ordinary : code text (afterLines effect (script.texts.take ran) start) ≠ 1) : ∃ after,
    runNext border varStoreSize parseInput script.pid kernel = some (0, after) ∧
      Emptied border script effect start before (ran + 1) after := by
  have more := text_lt line
  obtain ⟨middle, run, emptied'⟩ := emptied.pass varStoreSize line answers
  obtain ⟨_, page, _, _, fetched, -, -⟩ := emptied'.page? emptied'.listed
  obtain ⟨⟨found, rest⟩, removed⟩ := removeElem_total (fun entry member => by
    obtain ⟨_, page, _, _, fetched, -⟩ := emptied'.page? member
    exact ⟨page, fetched⟩) emptied'.listed fetched rfl
  refine ⟨{ middle with lruCache := found :: rest }, ?_, emptied'.reorder (removeElem_perm removed)⟩
  rw [emptied.runNext_eq more, runProc, run_bind run, if_neg ordinary]
  refine (run_bind (getPage_run fetched) _).trans ((run_bind (get_run _) _).trans ((run_bind removed _).trans ?_))
  rfl

end Steps

section Reloading
variable {c missing : Nat} {pcb : Pcb} {page : Page} {lines : List (List UInt8)}

theorem Page.Framed.evicted {label : CString} {memory : ShellMemory} (framed : page.Framed border) :
    frameAlloc border label (pageEvict page memory).2 ≠ none := by
  intro none
  have free : frameFree border (pageEvict page memory).2 page.start = true := by
    refine frameFree_iff.mpr ⟨framed.inside, fun k small => ?_⟩
    rw [(pageEvict_clears page memory (page.start + k)).1 (by rw [framed.frame]; exact mem_frame.mpr (by omega))]
    rfl
  rw [frameAlloc_none.mp none page.start] at free
  cases free

/-- A line that answers 1 has its page loaded again, and if there was another one behind it, that one is lost. -/
theorem Emptied.reloads (emptied : Emptied border script effect start before ran kernel) (more : ran < script.size)
    (run : cpuRun border varStoreSize parseInput script.pid 1 ⟨ran - 3, by have known := emptied.known; omega⟩ kernel = some (1, middle))
    (emptied' : Emptied border script effect start before (ran + 1) middle) : ∃ reloaded : KernelState ω,
    runNext border varStoreSize parseInput script.pid kernel = some (1, { reloaded with
      lruCache := (script.pid, 1) :: reloaded.lruCache, queue := reloaded.queue ++ [script.pid] }) ∧
    Reloaded border script.pid 1 middle reloaded := by
  obtain ⟨pcb, found, -, -, length, -⟩ := emptied'.process
  have some : middle.lruCache ≠ [] := List.ne_nil_of_mem emptied'.listed
  obtain ⟨pcb', page, found', there, fetched, owner, number⟩ := emptied'.page? (List.getLast_mem some)
  cases found.symm.trans found'
  rw [emptied.runNext_eq more]
  refine runProc_reloads varStoreSize run found (by omega) emptied'.all (List.getLast?_eq_some_getLast some) fetched owner ?_
  rw [number]
  exact (List.getElem?_eq_some_iff.mp there).1

theorem Emptied.loses (emptied : Emptied border script effect start before (ran + 1) middle) (more : ran + 1 < script.size)
    (lacking : Lacking script.pid 0 middle) (reload : Reloaded border script.pid 1 middle reloaded) : Lacking script.pid 1 reloaded := by
  obtain ⟨pcb, lines, found, lacks⟩ := lacking.process
  obtain ⟨_, page, found', there, -, -, -⟩ := emptied.page? emptied.listed
  cases found.symm.trans found'
  have counter := (emptied.counter more found).2
  obtain ⟨_, found', -, -, length, pages⟩ := emptied.process
  cases found.symm.trans found'
  obtain ⟨low, -, high⟩ := emptied.known
  -- the next line waits in the second page
  have waits : 0 < page.waiting (ran + 1 - 3) :=
    ((pages 1 page there).2.2.2 rfl).waiting ⟨ran + 1 - 3, by omega⟩ (by dsimp only; omega) (Nat.le_refl _)
  rcases reload with loads | ⟨-, replaces⟩
  · exact (loads.loses found there counter lacks).mono (by omega)
  · obtain ⟨entry, victim, pcb', victim', done, last, fetched, -, found', there', loads⟩ := replaces.evicted
    have member := List.mem_of_getLast? last
    obtain ⟨_, page', found₁, -, fetched', owner, number⟩ := emptied.page? member
    obtain ⟨-, below⟩ := emptied.entries entry member
    cases fetched.symm.trans fetched'
    rw [owner] at found'
    cases found.symm.trans found'
    rw [number] at there'
    rw [owner, number] at loads
    have evictedFound : (middle.evict script.pid entry.2 pcb victim').system.pcb? script.pid = some { pcb with
        pageTable := pcb.pageTable.set entry.2 (pageEvict victim' middle.system.memory).1 } := (put_pcb? found ..).trans (if_pos rfl)
    by_cases second : entry.2 = 1
    · rw [second] at there' loads evictedFound
      cases there.symm.trans there'
      have evicted : Lacking script.pid 1 (middle.evict script.pid 1 pcb page) :=
        ⟨_, lines, evictedFound, (lacks.evict there counter _).mono (by omega)⟩
      exact evicted.load loads
    · -- the frame of the first page is free then
      obtain ⟨c, counter'⟩ := lacks.counter there'
      have evicted := lacks.evict there' counter' middle.system.memory
      have placed : (pcb.pageTable.set entry.2 (pageEvict victim' middle.system.memory).1)[1]? = some page := by
        rw [List.getElem?_set_ne second]
        exact there
      cases done with
      | true => exact (loads.loses evictedFound placed counter evicted).mono (by omega)
      | false =>
        cases loads with
        | full found₂ there₂ fails => exact absurd (loadPage_none.mp fails) (pages entry.2 victim' there').2.2.1.evicted

/-- The third line of a script of two pages answers 1 when there is a frame to spare. -/
theorem Regular.Passed.emptied (passed : Regular.Passed border varStoreSize parseInput script effect start before 2 loaded 1 kernel middle)
    (regular : Regular border script effect start before 2 loaded kernel) (more : 3 < script.size) (short : script.size ≤ 6) (spare : 3 ≤ border / 3)
    (reload : Reloaded border script.pid 0 middle reloaded) (queue : List Nat) :
    Emptied border script effect start before 3 { reloaded with lruCache := (script.pid, 0) :: reloaded.lruCache, queue } := by
  have pages : script.pages = 2 := by
    unfold Script.pages pageTableSize
    split <;> omega
  have both : loaded = 2 := by
    have first := regular.first
    have last := regular.pages_le
    omega
  subst both
  obtain ⟨⟨counts, loads', now, got, shows⟩, -, -, -, -, room, outside, history⟩ := passed.regular
  obtain ⟨pcb, found, progress⟩ := shows.procs script List.mem_cons_self
  rw [now, got] at progress
  have second : (script.pid, 1) ∈ middle.lruCache := shows.needed script List.mem_cons_self 1 (by omega) (by omega)
  have known (entry : Nat × Nat) (listed : entry ∈ middle.lruCache) : entry.1 = script.pid ∧ entry.2 < 2 := by
    obtain ⟨owner, there, same, below⟩ := shows.listed entry listed
    cases List.mem_singleton.mp there
    exact ⟨same.symm, by omega⟩
  -- there are no more than the two pages in frames
  have length : middle.lruCache.length ≤ 2 := by
    have subset : middle.lruCache ⊆ [(script.pid, 0), (script.pid, 1)] := by
      intro entry listed
      obtain ⟨owner, below⟩ := known entry listed
      obtain first | last : entry.2 = 0 ∨ entry.2 = 1 := by omega
      · exact List.mem_cons.mpr (.inl (Prod.ext owner first))
      · exact List.mem_cons_of_mem _ (List.mem_singleton.mpr (Prod.ext owner last))
    exact (shows.fresh.subperm subset).length_le
  have roomy (label : CString) : frameAlloc border label middle.system.memory ≠ none := by
    intro none
    have full := (shows.frames.full_iff label).mp none
    rw [List.length_map] at full
    omega
  rcases reload with loads | full
  rotate_left
  · cases full with
    | full found' there' fails => exact absurd (loadPage_none.mp fails) (roomy _)
  cases loads with
  | @loaded other pcb' first memory found' there loads =>
    cases found.symm.trans found'
    obtain ⟨named, number⟩ := progress.named 0 first there
    obtain ⟨⟨start', marked⟩, alloc⟩ := Option.ne_none_iff_exists'.mp (roomy (decimal pcb.pid))
    have inside := (frameFree_iff.mp (frameAlloc_some alloc).1).1
    have unread : pcb.sourceFile = ([] : List (List UInt8)).flatten := by
      rw [progress.unread, List.drop_of_length_le (show script.size ≤ 3 * 2 from short)]
    obtain ⟨pcb₁, page', memory₁, loads', ⟨-, size, counters, table, -⟩, frame, named', number', frames, others, -⟩ :=
      loadPage_run (i := 0) shows.frames alloc (named.trans progress.pid.symm) unread trivial
    cases loads.symm.trans loads'
    have outer (slot : Nat) (beyond : border ≤ slot) : memory slot = middle.system.memory slot := by
      refine others slot fun member => ?_
      rw [frame, mem_frame] at member
      omega
    refine ⟨shows.all, ⟨pcb', (put_pcb? found ..).trans (if_pos rfl), ?_, ?_, ?_, fun j page place => ?_⟩, fun entry member => ?_,
      List.mem_cons_of_mem _ second, by omega, ?_, ?_⟩
    · rw [counters, progress.counters, pages]
      rfl
    · rw [size, progress.size]
    · rw [table, List.length_set, progress.pages, pages]
    · rw [table, List.getElem?_set] at place
      split at place
      next here =>
        split at place
        · cases place
          have starts : page'.start = start' := by
            rw [Page.start, frame]
            rfl
          refine ⟨named'.trans named, number'.trans (number.trans here), ⟨by rw [starts, frame], by rw [starts]; exact inside⟩, fun later => ?_⟩
          omega
        · cases place
      next differs =>
        obtain ⟨owner, index⟩ := progress.named j page place
        have below := (List.getElem?_eq_some_iff.mp place).1
        rw [progress.pages, pages] at below
        obtain rfl : j = 1 := by omega
        have same : middle.system.pageAt (script.pid, 1) = page := pageAt_eq ((page?_eq found).trans place)
        have framed := shows.frame second
        have bound := shows.inside second
        have bears := shows.borne script List.mem_cons_self 1 second
        rw [same] at framed bound bears
        refine ⟨owner, index, ⟨framed, bound⟩, fun _ => bears.congr fun k => others _ fun mine => ?_⟩
        refine frames.apart (List.mem_map_of_mem second) mine ?_
        have small := k.isLt
        rw [same, framed, mem_frame]
        omega
    · rcases List.mem_cons.mp member with rfl | listed
      · exact ⟨rfl, by omega⟩
      · exact known entry listed
    · refine Eq.trans ?_ outside
      exact Prod.ext (funext fun i => outer _ (Nat.le_add_right ..)) rfl
    · change Kernel.passed (middle.history ++ [.load script.pid 0]) = _
      rw [passed_append, history]
      exact List.append_nil _

end Reloading

end Comp310.Kernel
