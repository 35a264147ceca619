import Comp310.Kernel.Alone

/-! What a try to run a line can do, from any state of the kernel. -/

namespace Comp310.Kernel
open Comp310.Lib

variable {border varStoreSize pid i : Nat} {j : Fin 3} {ω : Type} {parseInput : CString → K ω Int} {kernel after : KernelState ω} {ret : Int} {done : Bool}

section Outcomes

theorem getPcb_some {pcb : Pcb} (ran : getPcb pid kernel = some (pcb, after)) : kernel.system.pcb? pid = some pcb ∧ after = kernel := by
  obtain ⟨_, found, same⟩ := Option.map_eq_some_iff.mp ran
  cases same
  exact ⟨found, rfl⟩

theorem getPage_some {page : Page} (ran : getPage pid i kernel = some (page, after)) :
    ∃ pcb, kernel.system.pcb? pid = some pcb ∧ pcb.pageTable[i]? = some page ∧ after = kernel := by
  obtain ⟨pcb, _, got, ran⟩ := bind_some ran
  obtain ⟨found, same⟩ := getPcb_some got
  cases same
  cases there : pcb.pageTable[i]? with
  | none =>
    rw [there] at ran
    cases ran
  | some found' =>
    rw [there] at ran
    cases ran
    exact ⟨pcb, found, there, rfl⟩

/-- A page gets a frame and the next lines, or there is no frame. -/
inductive LoadTried (border pid i : Nat) (kernel : KernelState ω) : Bool → KernelState ω → Prop
  | full {pcb : Pcb} {page : Page} (found : kernel.system.pcb? pid = some pcb) (there : pcb.pageTable[i]? = some page)
      (fails : loadPage border i pcb page kernel.system.memory = none) : LoadTried border pid i kernel false kernel
  | loaded {pcb pcb' : Pcb} {page : Page} {memory : ShellMemory} (found : kernel.system.pcb? pid = some pcb)
      (there : pcb.pageTable[i]? = some page) (loads : loadPage border i pcb page kernel.system.memory = some (pcb', memory)) :
      LoadTried border pid i kernel true { kernel with
        system := kernel.system.put pid pcb' memory, history := kernel.history ++ [.load pid i] }

theorem loadPageOf_tried (ran : loadPageOf border varStoreSize pid i kernel = some (done, after)) : LoadTried border pid i kernel done after := by
  obtain ⟨pcb, _, got, ran⟩ := bind_some ran
  obtain ⟨found, same⟩ := getPcb_some got
  cases same
  obtain ⟨page, _, got, ran⟩ := bind_some ran
  obtain ⟨_, found', there, same⟩ := getPage_some got
  cases found.symm.trans found'
  cases same
  obtain ⟨_, _, got, ran⟩ := bind_some ran
  cases got
  cases loads : loadPage border i pcb page kernel.system.memory with
  | none =>
    rw [loads] at ran
    cases ran
    exact .full found there loads
  | some result =>
    obtain ⟨pcb', memory⟩ := result
    rw [loads] at ran
    obtain ⟨_, _, performed, ran⟩ := bind_some ran
    have taken : (Call.loadPage pid i).take border varStoreSize kernel.system = some (kernel.system.put pid pcb' memory) := by
      rw [Call.take, found, Option.bind_eq_bind, Option.bind_some, there, Option.bind_eq_bind, Option.bind_some, loads]
      rfl
    cases (perform_run taken).symm.trans performed
    cases ran
    exact .loaded found there loads

/-- The page has lost its frame and its lines. -/
def KernelState.evict (pid i : Nat) (pcb : Pcb) (page : Page) (kernel : KernelState ω) : KernelState ω :=
  { kernel with
    system := kernel.system.put pid { pcb with pageTable := pcb.pageTable.set i (pageEvict page kernel.system.memory).1 }
      (pageEvict page kernel.system.memory).2
    lruCache := kernel.lruCache.dropLast
    history := kernel.history ++ [.evict pid i] }

/-- The last page of the cache makes room for the page, if there is room then. -/
structure Replaced (border pid i : Nat) (kernel after : KernelState ω) : Prop where
  evicted : ∃ entry victim pcb page done, kernel.lruCache.getLast? = some entry ∧ kernel.system.page? entry = some victim ∧
    victim.pagePid ∈ kernel.allPcb ∧ kernel.system.pcb? victim.pagePid = some pcb ∧ pcb.pageTable[victim.pageIndex]? = some page ∧
    LoadTried border pid i (kernel.evict victim.pagePid victim.pageIndex pcb page) done after

/-- The page is loaded, over another one if there is no frame. -/
inductive Reloaded (border pid i : Nat) (kernel after : KernelState ω) : Prop
  | loaded (loads : LoadTried border pid i kernel true after)
  | replaced (full : LoadTried border pid i kernel false kernel) (replaces : Replaced border pid i kernel after)

theorem findPcb_some {all : List Nat} (ran : findPcb pid all kernel = some (⟨⟩, after)) : pid ∈ all ∧ after = kernel := by
  induction all with
  | nil => cases ran
  | cons other rest ih =>
    obtain ⟨pcb, _, got, ran⟩ := bind_some ran
    obtain ⟨_, same⟩ := getPcb_some got
    cases same
    split at ran
    next mine =>
      cases ran
      exact ⟨mine ▸ List.mem_cons_self, rfl⟩
    next =>
      obtain ⟨member, same⟩ := ih ran
      exact ⟨List.mem_cons_of_mem _ member, same⟩

theorem replacePage_replaced (ran : replacePage border varStoreSize pid i kernel = some (⟨⟩, after)) : Replaced border pid i kernel after := by
  obtain ⟨_, _, got, ran⟩ := bind_some ran
  cases got
  cases last : kernel.lruCache.getLast? with
  | none =>
    rw [last] at ran
    cases ran
  | some entry =>
    obtain ⟨victimPid, victimIndex⟩ := entry
    rw [last] at ran
    obtain ⟨_, _, changed, ran⟩ := bind_some ran
    cases changed
    obtain ⟨victim, _, got, ran⟩ := bind_some ran
    obtain ⟨owner, found, there, same⟩ := getPage_some got
    cases same
    obtain ⟨_, _, searched, ran⟩ := bind_some ran
    obtain ⟨member, same⟩ := findPcb_some searched
    cases same
    obtain ⟨_, _, performed, ran⟩ := bind_some ran
    obtain ⟨system, taken, same⟩ := Option.map_eq_some_iff.mp performed
    cases same
    obtain ⟨pcb, found', taken⟩ := Option.bind_eq_some_iff.mp taken
    obtain ⟨page, there', taken⟩ := Option.bind_eq_some_iff.mp taken
    cases taken
    obtain ⟨_, _, noted, ran⟩ := bind_some ran
    cases noted
    obtain ⟨done, _, loaded, ran⟩ := bind_some ran
    cases ran
    refine ⟨(victimPid, victimIndex), victim, pcb, page, done, last, ?_, member, found', there', loadPageOf_tried loaded⟩
    exact (page?_eq found).trans there

/-- A line is passed to `parseInput` and counts, if it is there. -/
inductive LineTried (border varStoreSize pid i : Nat) (j : Fin 3) (parseInput : CString → K ω Int) (kernel : KernelState ω) : Int → KernelState ω → Prop
  | absent {page : Page} (found : kernel.system.page? (pid, i) = some page) (invalid : page.validBit.get j = false) :
      LineTried border varStoreSize pid i j parseInput kernel 1 kernel
  | passed {page : Page} {ret : Int} {middle : KernelState ω} {pcb : Pcb} (found : kernel.system.page? (pid, i) = some page)
      (valid : page.validBit.get j = true)
      (parsed : parseInput (kernel.system.memory (page.index.get j)).value { kernel with
        history := kernel.history ++ [.line pid (kernel.system.memory (page.index.get j)).value] } = some (ret, middle))
      (there : middle.system.pcb? pid = some pcb) :
      LineTried border varStoreSize pid i j parseInput kernel ret { middle with
        system := middle.system.put pid (Processes.countLine pcb i) middle.system.memory }

theorem cpuRun_tried (ran : cpuRun border varStoreSize parseInput pid i j kernel = some (ret, after)) :
    LineTried border varStoreSize pid i j parseInput kernel ret after := by
  obtain ⟨page, _, got, ran⟩ := bind_some ran
  obtain ⟨owner, found, there, same⟩ := getPage_some got
  cases same
  have place := (page?_eq found).trans there
  split at ran
  next invalid =>
    cases ran
    exact .absent place invalid
  next valid =>
    obtain ⟨_, _, got, ran⟩ := bind_some ran
    cases got
    obtain ⟨_, _, noted, ran⟩ := bind_some ran
    cases noted
    obtain ⟨ret, middle, parsed, ran⟩ := bind_some ran
    obtain ⟨_, _, performed, ran⟩ := bind_some ran
    cases ran
    obtain ⟨system, taken, same⟩ := Option.map_eq_some_iff.mp performed
    cases same
    obtain ⟨pcb, found', taken⟩ := Option.bind_eq_some_iff.mp taken
    cases taken
    exact .passed place (Bool.eq_true_of_not_eq_false valid) parsed found'

theorem LoadTried.grows (tried : LoadTried border pid i kernel done after) : kernel.history <+: after.history := by
  cases tried with
  | full => exact List.prefix_refl _
  | loaded => exact List.prefix_append ..

theorem Replaced.grows (replaced : Replaced border pid i kernel after) : kernel.history <+: after.history := by
  obtain ⟨_, _, _, _, _, _, _, _, _, _, loads⟩ := replaced.evicted
  exact (List.prefix_append ..).trans loads.grows

/-- A try to run a line, which loads its page if it gets 1 for an answer. `line` is what the line itself can do. -/
inductive ProcTried (border pid i : Nat) (line : Int → KernelState ω → Prop) : Int → KernelState ω → Prop
  | ran {ret : Int} {middle : KernelState ω} (passed : line ret middle) (ordinary : ret ≠ 1) (lruCache : List (Nat × Nat)) :
      ProcTried border pid i line 0 { middle with lruCache }
  | loaded {middle after : KernelState ω} (passed : line 1 middle) (loads : LoadTried border pid i middle true after) :
      ProcTried border pid i line 1 { after with lruCache := (pid, i) :: after.lruCache, queue := after.queue ++ [pid] }
  | replaced {middle after : KernelState ω} (passed : line 1 middle) (replaces : Replaced border pid i middle after) :
      ProcTried border pid i line 1 { after with lruCache := (pid, i) :: after.lruCache, queue := after.queue ++ [pid] }

theorem ProcTried.mono {line line' : Int → KernelState ω → Prop} (tried : ProcTried border pid i line ret after)
    (weaker : ∀ ret middle, middle.history <+: after.history → line ret middle → line' ret middle) : ProcTried border pid i line' ret after := by
  cases tried with
  | @ran ret middle passed ordinary lruCache => exact .ran (weaker ret middle (List.prefix_refl _) passed) ordinary lruCache
  | loaded passed loads => exact .loaded (weaker _ _ loads.grows passed) loads
  | replaced passed replaces => exact .replaced (weaker _ _ replaces.grows passed) replaces

theorem removeElem_same {start : Nat} {pages : List (Nat × Nat)} {result : (Nat × Nat) × List (Nat × Nat)}
    (ran : removeElem start pages kernel = some (result, after)) : after = kernel := by
  induction pages generalizing result with
  | nil => cases ran
  | cons entry rest ih =>
    obtain ⟨page, _, got, ran⟩ := bind_some ran
    obtain ⟨_, _, _, same⟩ := getPage_some got
    cases same
    split at ran
    · cases ran
      rfl
    · obtain ⟨_, middle, removed, ran⟩ := bind_some ran
      cases ran
      exact ih removed

theorem runProc_tried (ran : runProc border varStoreSize parseInput pid i j kernel = some (ret, after)) :
    ProcTried border pid i (LineTried border varStoreSize pid i j parseInput kernel) ret after := by
  obtain ⟨ret, middle, line, ran⟩ := bind_some ran
  have line := cpuRun_tried line
  split at ran
  next fault =>
    subst fault
    obtain ⟨loaded, tried, load, ran⟩ := bind_some ran
    have load := loadPageOf_tried load
    cases loaded with
    | true =>
      cases ran
      exact .loaded line load
    | false =>
      cases load
      obtain ⟨_, replaced, replace, ran⟩ := bind_some ran
      cases ran
      exact .replaced line (replacePage_replaced replace)
  next ordinary =>
    obtain ⟨page, _, got, ran⟩ := bind_some ran
    obtain ⟨_, _, _, same⟩ := getPage_some got
    cases same
    obtain ⟨_, _, got, ran⟩ := bind_some ran
    cases got
    obtain ⟨⟨found, rest⟩, kept, removed, ran⟩ := bind_some ran
    cases ran
    have same : kept = middle := removeElem_same removed
    cases same
    exact .ran line ordinary _

theorem runNext_tried (ran : runNext border varStoreSize parseInput pid kernel = some (ret, after)) : ∃ pcb i, ∃ j : Fin 3,
    kernel.system.pcb? pid = some pcb ∧ pcb.programCounter.findIdx (· != 3) = i ∧ pcb.programCounter[i]? = some j.val ∧
      ProcTried border pid i (LineTried border varStoreSize pid i j parseInput kernel) ret after := by
  obtain ⟨pcb, _, got, ran⟩ := bind_some ran
  obtain ⟨found, same⟩ := getPcb_some got
  cases same
  cases counter : pcb.programCounter[pcb.programCounter.findIdx (· != 3)]? with
  | none =>
    dsimp only at ran
    rw [counter] at ran
    cases ran
  | some count =>
    dsimp only at ran
    rw [counter] at ran
    dsimp only at ran
    split at ran
    next inside => exact ⟨pcb, _, ⟨count, inside⟩, found, rfl, counter, runProc_tried ran⟩
    next => cases ran

end Outcomes

section Existence
variable (varStoreSize) {pcb : Pcb} {page : Page}

theorem loadPageOf_total (found : kernel.system.pcb? pid = some pcb) (there : pcb.pageTable[i]? = some page) :
    ∃ done after, loadPageOf border varStoreSize pid i kernel = some (done, after) := by
  rw [loadPageOf, run_bind (getPcb_run found), run_bind (getPage_run ((page?_eq found).trans there)), run_bind (get_run _)]
  cases loads : loadPage border i pcb page kernel.system.memory with
  | none => exact ⟨false, kernel, rfl⟩
  | some result =>
    have taken : (Call.loadPage pid i).take border varStoreSize kernel.system = some (kernel.system.put pid result.1 result.2) := by
      rw [Call.take, found, Option.bind_eq_bind, Option.bind_some, there, Option.bind_eq_bind, Option.bind_some, loads]
      rfl
    exact ⟨true, _, run_bind (perform_run taken) _⟩

theorem replacePage_total {entry : Nat × Nat} {victim : Page} (found : kernel.system.pcb? pid = some pcb) (there : i < pcb.pageTable.length)
    (all : kernel.allPcb = [pid]) (last : kernel.lruCache.getLast? = some entry) (fetched : kernel.system.page? entry = some victim)
    (owner : victim.pagePid = pid) (inside : victim.pageIndex < pcb.pageTable.length) :
    ∃ after, replacePage border varStoreSize pid i kernel = some (⟨⟩, after) := by
  let page := pcb.pageTable[victim.pageIndex]
  let pcb' : Pcb := { pcb with pageTable := pcb.pageTable.set victim.pageIndex (pageEvict page kernel.system.memory).1 }
  let system := kernel.system.put pid pcb' (pageEvict page kernel.system.memory).2
  have taken : (Call.pageEvict pid victim.pageIndex).take border varStoreSize kernel.system = some system := by
    rw [Call.take, found, Option.bind_eq_bind, Option.bind_some, List.getElem?_eq_getElem inside]
    rfl
  have performed : perform border varStoreSize (.pageEvict pid victim.pageIndex) { kernel with lruCache := kernel.lruCache.dropLast } =
      some (⟨⟩, { kernel with lruCache := kernel.lruCache.dropLast, system }) := perform_run taken
  have found' : (kernel.evict pid victim.pageIndex pcb page).system.pcb? pid = some pcb' := (put_pcb? found ..).trans (if_pos rfl)
  have there' : i < pcb'.pageTable.length := by
    rw [List.length_set]
    exact there
  obtain ⟨done, after, loads⟩ : ∃ done after, loadPageOf border varStoreSize pid i (kernel.evict pid victim.pageIndex pcb page) = some (done, after) :=
    loadPageOf_total varStoreSize found' (List.getElem?_eq_getElem there')
  refine ⟨after, ?_⟩
  rw [replacePage, run_bind (get_run _), last]
  refine (run_bind (modify_run _ _) _).trans ?_
  have got : getPage entry.1 entry.2 { kernel with lruCache := kernel.lruCache.dropLast } =
      some (victim, { kernel with lruCache := kernel.lruCache.dropLast }) := getPage_run fetched
  have searched : findPcb victim.pagePid kernel.allPcb { kernel with lruCache := kernel.lruCache.dropLast } =
      some (⟨⟩, { kernel with lruCache := kernel.lruCache.dropLast }) := by
    rw [all, owner]
    exact findPcb_run (fun other member => ⟨pcb, List.mem_singleton.mp member ▸ found⟩) List.mem_cons_self
  refine (run_bind got _).trans ((run_bind searched _).trans ?_)
  rw [owner]
  refine (run_bind performed _).trans ((run_bind (modify_run _ _) _).trans ((run_bind loads _).trans ?_))
  rfl

/-- An answer of 1 loads the page again, over another one if there is no frame. -/
theorem runProc_reloads {middle : KernelState ω} {entry : Nat × Nat} {victim : Page}
    (run : cpuRun border varStoreSize parseInput pid i j kernel = some (1, middle)) (found : middle.system.pcb? pid = some pcb)
    (there : i < pcb.pageTable.length) (all : middle.allPcb = [pid]) (last : middle.lruCache.getLast? = some entry)
    (fetched : middle.system.page? entry = some victim) (owner : victim.pagePid = pid) (inside : victim.pageIndex < pcb.pageTable.length) :
    ∃ loaded : KernelState ω, runProc border varStoreSize parseInput pid i j kernel =
        some (1, { loaded with lruCache := (pid, i) :: loaded.lruCache, queue := loaded.queue ++ [pid] }) ∧
      Reloaded border pid i middle loaded := by
  rw [runProc, run_bind run, if_pos rfl]
  obtain ⟨done, loaded, loads⟩ : ∃ done loaded, loadPageOf border varStoreSize pid i middle = some (done, loaded) :=
    loadPageOf_total varStoreSize found (List.getElem?_eq_getElem there)
  have tried := loadPageOf_tried loads
  rw [run_bind loads]
  cases done with
  | true => exact ⟨loaded, rfl, .loaded tried⟩
  | false =>
    have same : loaded = middle := by
      cases tried
      rfl
    subst same
    obtain ⟨replaced, replaces⟩ : ∃ replaced, replacePage border varStoreSize pid i loaded = some (⟨⟩, replaced) :=
      replacePage_total varStoreSize found there all last fetched owner inside
    exact ⟨replaced, run_bind replaces _, .replaced tried (replacePage_replaced replaces)⟩

end Existence

section Growth

/-- Whatever the program does, the history before is kept. -/
def Grows {α : Type} (program : K ω α) : Prop :=
  ∀ kernel value after, program kernel = some (value, after) → kernel.history <+: after.history

theorem Grows.same {α : Type} {program : K ω α} (same : ∀ kernel value after, program kernel = some (value, after) → after.history = kernel.history) :
    Grows program := by
  intro kernel value after ran
  rw [same kernel value after ran]

theorem Grows.bind {α β : Type} {program : K ω α} {next : α → K ω β} (first : Grows program) (rest : ∀ value, Grows (next value)) :
    Grows (program >>= next) := by
  intro kernel result final ran
  obtain ⟨value, after, ran₁, ran₂⟩ := bind_some ran
  exact (first kernel value after ran₁).trans (rest value after result final ran₂)

theorem Grows.ite {α : Type} {condition : Prop} [Decidable condition] {first second : K ω α} (yes : Grows first) (no : Grows second) :
    Grows (if condition then first else second) := by
  split
  · exact yes
  · exact no

theorem Grows.pure {α : Type} (value : α) : Grows (pure value : K ω α) := by
  apply Grows.same
  intro kernel value after ran
  cases ran
  rfl

theorem Grows.modify {change : KernelState ω → KernelState ω} (same : ∀ kernel, (change kernel).history = kernel.history) :
    Grows (modify change : K ω PUnit) := by
  apply Grows.same
  intro kernel value after ran
  cases ran
  exact same kernel

theorem freeAll_grows (pids : List Nat) : Grows (freeAll border varStoreSize pids : K ω PUnit) := by
  induction pids with
  | nil => exact .pure _
  | cons pid rest ih =>
    refine Grows.bind (.same fun kernel value after ran => ?_) fun _ => ih
    obtain ⟨_, _, same⟩ := Option.map_eq_some_iff.mp ran
    cases same
    rfl

variable (appends : ∀ text, Grows (parseInput text))
include appends

theorem LineTried.grows (tried : LineTried border varStoreSize pid i j parseInput kernel ret after) : kernel.history <+: after.history := by
  cases tried with
  | absent => exact List.prefix_refl _
  | passed _ _ parsed => exact (List.prefix_append ..).trans (appends _ _ _ _ parsed)

theorem runNext_grows (pid : Nat) : Grows (runNext border varStoreSize parseInput pid) := by
  intro kernel ret after ran
  obtain ⟨_, _, _, _, _, _, tried⟩ := runNext_tried ran
  cases tried with
  | ran line =>
    have grown := line.grows appends
    exact grown
  | loaded line loads => exact (line.grows appends).trans loads.grows
  | replaced line replaces => exact (line.grows appends).trans replaces.grows

theorem turnRr_grows : Grows (turnRr border varStoreSize parseInput) := by
  intro kernel value after ran
  obtain ⟨_, _, got, ran⟩ := bind_some ran
  cases got
  cases waiting : kernel.queue with
  | nil =>
    rw [waiting] at ran
    cases ran
  | cons pid rest =>
    rw [waiting] at ran
    have grows : Grows (runNext border varStoreSize parseInput pid) := runNext_grows appends pid
    obtain ⟨_, _, changed, ran⟩ := bind_some ran
    cases changed
    obtain ⟨curr, _, got, ran⟩ := bind_some ran
    obtain ⟨_, same⟩ := getPcb_some got
    cases same
    refine Grows.ite ?_ ?_ { kernel with queue := rest } value after ran
    · exact grows.bind fun _ => .ite (.pure _) (grows.bind fun _ => .ite (.pure _) (.modify fun _ => rfl))
    · exact .ite (grows.bind fun _ => .pure _) (.pure _)

theorem runProcRr_grows (fuel : Nat) : Grows (runProcRr border varStoreSize parseInput fuel) := by
  induction fuel with
  | zero =>
    intro kernel value after ran
    cases ran
  | succ fuel ih =>
    refine Grows.bind (.same fun _ _ _ got => by cases got; rfl) fun kernel => .bind (.same fun _ _ _ asked => ?_) fun done => ?_
    · rw [queueDone_same asked]
    · exact .ite (.bind (freeAll_grows _) fun _ => .modify fun _ => rfl) ((turnRr_grows appends).bind fun _ => ih)

end Growth

end Comp310.Kernel
