import Comp310.Kernel.Paging

/-! New processes: each comes with the first two pages of its script. -/

namespace Comp310.Kernel
open Comp310.Lib

section Programs
variable {ω : Type} (border varStoreSize : Nat) (parseInput : CString → K ω Int)

def newProcs : List (List UInt8) → K ω PUnit
  | [] => pure ⟨⟩
  | file :: rest => do
    newProc border varStoreSize file
    newProcs rest

/-- `"FIFO"`. -/
def fifoText : CString := [70, 73, 70, 79]

/-- `"RR"`. -/
def rrText : CString := [82, 82]

/-- `exec` of a3/interpreter.c, with the contents of its scripts. -/
def exec (fuel : Nat) (files : List (List UInt8)) (policy : CString) : K ω Int :=
  if files.length > 3 then pure 1
  else do
    newProcs border varStoreSize files
    if policy = fifoText then do
      runProcFifo border varStoreSize parseInput fuel
      pure 0
    else if policy = rrText then do
      runProcRr border varStoreSize parseInput fuel
      pure 0
    else pure 0

/-- `run` of a3/interpreter.c. -/
def run (fuel : Nat) (file : List UInt8) : K ω Int := do
  newProc border varStoreSize file
  runProcRr border varStoreSize parseInput fuel
  pure 0

end Programs

variable {border varStoreSize : Nat} {script : Script} {scripts : List Script} {ran loaded : Nat → Nat} {ω : Type} {kernel : KernelState ω} {pcb : Pcb}

/-- The process before any of its pages is loaded. -/
def Script.process (script : Script) : Pcb :=
  ⟨script.pid, script.size, List.replicate script.pages 0, (List.range script.pages).map (pageInit script.pid), script.file⟩

theorem Script.process_progress (script : Script) : Progress script 0 0 script.process := by
  have entries (j : Nat) (page : Page) (there : script.process.pageTable[j]? = some page) : page = pageInit script.pid j := by
    obtain ⟨inside, value⟩ := List.getElem?_eq_some_iff.mp there
    simp only [Script.process, List.getElem_map, List.getElem_range] at value
    exact value.symm
  refine ⟨rfl, (Int.sub_zero _).symm, ?_, ?_, fun j page there => ?_, rfl, fun j page _ there => ?_⟩
  · exact List.ext_getElem (by simp [Script.process]) fun j _ _ => by simp [Script.process]
  · rw [Script.process, List.length_map, List.length_range]
  · rw [entries j page there]
    exact ⟨rfl, rfl⟩
  · rw [entries j page there]
    rfl

theorem Shows.loadFirst (shows : Shows border scripts ran loaded kernel) (member : script ∈ scripts)
    (found : kernel.system.pcb? script.pid = some pcb) (count : Nat) (enough : loaded script.pid + count ≤ script.pages)
    (room : kernel.lruCache.length + count ≤ border / 3) : ∃ pcb' memory',
    Kernel.loadFirst border (List.range' (loaded script.pid) count) pcb kernel.system.memory = some (pcb', memory') ∧
      (∀ slot, border ≤ slot → memory' slot = kernel.system.memory slot) ∧
      Shows border scripts ran (Function.update loaded script.pid (loaded script.pid + count)) { kernel with
        system := kernel.system.put script.pid pcb' memory'
        lruCache := ((List.range' (loaded script.pid) count).map fun i => (script.pid, i)).reverse ++ kernel.lruCache } := by
  induction count generalizing kernel loaded pcb with
  | zero =>
    refine ⟨pcb, kernel.system.memory, rfl, fun _ _ => rfl, ?_⟩
    rw [Nat.add_zero, Function.update_eq_self]
    refine shows.found _ (fun other => ?_) rfl
    rw [put_pcb? found]
    split
    next same => rw [same, found]
    next => rfl
  | succ count ih =>
    obtain ⟨_, found', progress⟩ := shows.procs script member
    cases found.symm.trans found'
    obtain ⟨page, there, -, -⟩ := progress.there (show loaded script.pid < script.pages by omega)
    obtain ⟨pcb₁, memory₁, ran₁, -, behind₁, shows₁⟩ := shows.loadPage member found there (by omega)
    have found₁ : (kernel.system.put script.pid pcb₁ memory₁).pcb? script.pid = some pcb₁ := (put_pcb? found ..).trans (if_pos rfl)
    have self : Function.update loaded script.pid (loaded script.pid + 1) script.pid = loaded script.pid + 1 := Function.update_self ..
    obtain ⟨pcb', memory', ran₂, behind₂, shows₂⟩ := ih shows₁ found₁ (by rw [self]; omega) (by rw [List.length_cons]; omega)
    rw [self] at ran₂ shows₂
    refine ⟨pcb', memory', ?_, fun slot high => (behind₂ slot high).trans (behind₁ slot high), ?_⟩
    · rw [List.range'_succ, Kernel.loadFirst, there, Option.bind_eq_bind, Option.bind_some, ran₁]
      exact ran₂
    · rw [Function.update_idem, Nat.add_assoc, Nat.add_comm 1] at shows₂
      have same := shows₂.found (kernel.system.put script.pid pcb' memory') (fun other => ?_) rfl
      · rw [List.range'_succ, List.map_cons, List.reverse_cons, List.append_assoc]
        exact same
      · rw [put_pcb? found, put_pcb? found₁, put_pcb? found]
        split <;> rfl

/-- The pages get their frames only if there are as many left. -/
theorem Shows.loadFirst_room {result : Pcb × ShellMemory} (shows : Shows border scripts ran loaded kernel) (member : script ∈ scripts)
    (found : kernel.system.pcb? script.pid = some pcb) (count : Nat)
    (started : Kernel.loadFirst border (List.range' (loaded script.pid) count) pcb kernel.system.memory = some result) :
    kernel.lruCache.length + count ≤ border / 3 := by
  induction count generalizing kernel loaded pcb with
  | zero =>
    have few := shows.frames.few
    rwa [List.length_map] at few
  | succ count ih =>
    rw [List.range'_succ, Kernel.loadFirst] at started
    obtain ⟨page, there, started⟩ := Option.bind_eq_some_iff.mp started
    obtain ⟨⟨pcb₁, memory₁⟩, first, started⟩ := Option.bind_eq_some_iff.mp started
    have room : kernel.lruCache.length ≠ border / 3 := by
      intro full
      have none := (shows.frames.full_iff (decimal pcb.pid)).mpr (by rwa [List.length_map])
      rw [Kernel.loadPage, none] at first
      cases first
    obtain ⟨pcb', memory', ran', -, behind, shows'⟩ := shows.loadPage member found there room
    cases first.symm.trans ran'
    have found' : (kernel.system.put script.pid pcb₁ memory₁).pcb? script.pid = some pcb₁ := (put_pcb? found ..).trans (if_pos rfl)
    have later := ih shows' found' (by rwa [Function.update_self])
    rw [List.length_cons] at later
    omega

theorem pcb?_cons (pid : Nat) (pcb : Pcb) (memory : ShellMemory) (system : Processes) (next other : Nat) :
    (Processes.mk memory ((pid, pcb) :: system.pcbs) next).pcb? other = if other = pid then some pcb else system.pcb? other := by
  unfold Processes.pcb?
  rw [List.lookup_cons]
  by_cases mine : other = pid
  · rw [if_pos mine, mine, beq_self_eq_true]
  · rw [if_neg mine, beq_eq_false_iff_ne.mpr mine]

theorem page_limit (pages : Nat) : (if 2 > pages then pages else 2) = min 2 pages := by
  split <;> omega

theorem Shows.register (shows : Shows border scripts ran loaded kernel) (fresh : ∀ other ∈ scripts, other.pid ≠ script.pid) (next : Nat) :
    Shows border (scripts ++ [script]) (Function.update ran script.pid 0) (Function.update loaded script.pid 0) { kernel with
      system := ⟨kernel.system.memory, (script.pid, script.process) :: kernel.system.pcbs, next⟩
      allPcb := kernel.allPcb ++ [script.pid] } := by
  have lookup (pid : Nat) := pcb?_cons script.pid script.process kernel.system.memory kernel.system next pid
  have pages (entry : Nat × Nat) (listed : entry ∈ kernel.lruCache) :
      (Processes.mk kernel.system.memory ((script.pid, script.process) :: kernel.system.pcbs) next).pageAt entry = kernel.system.pageAt entry := by
    obtain ⟨owner, there, same, -⟩ := shows.listed entry listed
    have differs : entry.1 ≠ script.pid := same ▸ fresh owner there
    rw [Processes.pageAt, Processes.page?, lookup, if_neg differs, Processes.pageAt, Processes.page?]
  have members {holds : Script → Prop} (old : ∀ other ∈ scripts, other.pid ≠ script.pid → holds other) (new : holds script) :
      ∀ other ∈ scripts ++ [script], holds other :=
    List.forall_mem_append.mpr ⟨fun other there => old other there (fresh other there), List.forall_mem_singleton.mpr new⟩
  have sum : total (scripts ++ [script]) (Function.update loaded script.pid 0) = total scripts loaded := by
    rw [total, List.map_append, List.sum_append, List.map_singleton, Function.update_self]
    exact total_other 0 fresh
  refine ⟨?_, ?_, members (fun other there differs => ?_) ?_, members (fun other there differs => ?_) ?_, ?_, fun entry listed => ?_, fun entry listed => ?_,
    members (fun other there differs j listed => ?_) fun j listed => ?_, members (fun other there differs j below left => ?_) fun j below => ?_,
    members (fun other there differs j below absent => ?_) fun j below => ?_⟩
  · rw [List.map_append, ← shows.all]
    rfl
  · rw [List.map_append, List.nodup_append]
    refine ⟨shows.once, List.nodup_singleton _, fun pid old pid' new => ?_⟩
    obtain ⟨other, there, rfl⟩ := List.mem_map.mp old
    rw [List.map_singleton, List.mem_singleton] at new
    rw [new]
    exact fresh other there
  · obtain ⟨pcb, found, progress⟩ := shows.procs other there
    rw [Function.update_of_ne differs, Function.update_of_ne differs]
    exact ⟨pcb, (lookup _).trans ((if_neg differs).trans found), progress⟩
  · rw [Function.update_self, Function.update_self]
    exact ⟨_, (lookup _).trans (if_pos rfl), script.process_progress⟩
  · rw [Function.update_of_ne differs]
    exact shows.few other there
  · rw [Function.update_self]
    exact Nat.zero_le _
  · rw [List.map_congr_left pages]
    exact shows.frames
  · rw [sum, pages entry listed]
    exact shows.compact entry listed
  · obtain ⟨owner, there, same, below⟩ := shows.listed entry listed
    refine ⟨owner, List.mem_append_left _ there, same, ?_⟩
    rwa [Function.update_of_ne (fresh owner there)]
  · rw [pages _ listed]
    exact shows.borne other there j listed
  · obtain ⟨owner, there, same, -⟩ := shows.listed _ listed
    exact absurd same (fresh owner there)
  · rw [Function.update_of_ne differs] at below left
    exact shows.needed other there j below left
  · rw [Function.update_self] at below
    exact absurd below (Nat.not_lt_zero j)
  · rw [Function.update_of_ne differs] at below
    have same : (Processes.mk kernel.system.memory ((script.pid, script.process) :: kernel.system.pcbs) next).pageAt (other.pid, j) =
        kernel.system.pageAt (other.pid, j) := by
      rw [Processes.pageAt, Processes.page?, lookup, if_neg differs, Processes.pageAt, Processes.page?]
    rw [same]
    exact shows.gone other there j below absent
  · rw [Function.update_self] at below
    exact absurd below (Nat.not_lt_zero j)

theorem Shows.newProc_room {kernel' : KernelState ω} (shows : Shows border scripts ran loaded kernel)
    (fresh : ∀ other ∈ scripts, other.pid ≠ script.pid) (next : script.pid = kernel.system.pidCounter)
    (started : Kernel.newProc border varStoreSize (script.file) kernel = some (⟨⟩, kernel')) :
    kernel.lruCache.length + min 2 script.pages ≤ border / 3 := by
  have registered := shows.register fresh (kernel.system.pidCounter + 1)
  have found := (pcb?_cons script.pid script.process kernel.system.memory kernel.system (kernel.system.pidCounter + 1)
    script.pid).trans (if_pos rfl)
  obtain ⟨_, _, got, started⟩ := bind_some started
  cases got
  obtain ⟨_, _, made, -⟩ := bind_some started
  obtain ⟨system, taken, -⟩ := Option.map_eq_some_iff.mp made
  obtain ⟨result, init, -⟩ := Option.bind_eq_some_iff.mp taken
  rw [pcbInit, script.count, ← next, List.length_map, List.length_range, List.range_eq_range', page_limit] at init
  have first : Kernel.loadFirst border (List.range' (Function.update loaded script.pid 0 script.pid) (min 2 script.pages)) script.process
      kernel.system.memory = some result := by
    rw [Function.update_self]
    exact init
  exact registered.loadFirst_room (List.mem_append_right _ List.mem_cons_self) found _ first

variable (varStoreSize) in
/-- new_proc, when there is a frame for each of the first pages. -/
theorem Shows.newProc (shows : Shows border scripts ran loaded kernel) (fresh : ∀ other ∈ scripts, other.pid ≠ script.pid)
    (next : script.pid = kernel.system.pidCounter) (room : kernel.lruCache.length + min 2 script.pages ≤ border / 3) : ∃ kernel',
    Kernel.newProc border varStoreSize (script.file) kernel = some (⟨⟩, kernel') ∧ kernel'.queue = kernel.queue ++ [script.pid] ∧
      kernel'.system.pidCounter = kernel.system.pidCounter + 1 ∧ kernel'.lruCache.length = kernel.lruCache.length + min 2 script.pages ∧
      kernel'.outside border = kernel.outside border ∧
      kernel'.history = kernel.history ++ (List.range (min 2 script.pages)).map (fun i => .load script.pid i) ∧
      Shows border (scripts ++ [script]) (Function.update ran script.pid 0) (Function.update loaded script.pid (min 2 script.pages)) kernel' := by
  have registered := shows.register fresh (kernel.system.pidCounter + 1)
  have self : Function.update loaded script.pid 0 script.pid = 0 := Function.update_self ..
  have found := (pcb?_cons script.pid script.process kernel.system.memory kernel.system (kernel.system.pidCounter + 1)
    script.pid).trans (if_pos rfl)
  obtain ⟨pcb', memory', ran', behind, shows'⟩ := registered.loadFirst (List.mem_append_right _ List.mem_cons_self) found (min 2 script.pages)
    (by rw [self]; omega) room
  rw [self, Nat.zero_add, Function.update_idem] at shows'
  rw [self] at ran'
  have whole := shows'.found ⟨memory', (script.pid, pcb') :: kernel.system.pcbs, kernel.system.pidCounter + 1⟩ (fun pid => ?_) rfl
  · obtain ⟨pcb, there, progress⟩ := whole.procs script (List.mem_append_right _ List.mem_cons_self)
    have fetched := (pcb?_cons script.pid pcb' memory' kernel.system (kernel.system.pidCounter + 1) script.pid).trans (if_pos rfl)
    cases fetched.symm.trans there
    have started : pcbInit border kernel.system.pidCounter (script.file) kernel.system.memory = some (pcb', memory') := by
      rw [pcbInit, script.count, ← next]
      rw [List.length_map, List.length_range, List.range_eq_range', page_limit]
      exact ran'
    have taken : (Call.newProc (script.file)).take border varStoreSize kernel.system =
        some ⟨memory', (script.pid, pcb') :: kernel.system.pcbs, kernel.system.pidCounter + 1⟩ := by
      rw [Call.take, started, ← next]
      rfl
    refine ⟨_, ?_, ?_, ?_, ?_, ?_, ?_, (whole.queue (kernel.queue ++ [script.pid])).aside kernel.world
      (kernel.history ++ (List.range' 0 (min 2 script.pages)).map fun i => .load script.pid i)⟩
    · have counted := (pcb?_cons script.pid pcb' memory' kernel.system (kernel.system.pidCounter + 1)
        kernel.system.pidCounter).trans (if_pos next.symm)
      rw [Kernel.newProc, run_bind (get_run _)]
      refine (run_bind (perform_run taken) _).trans ((run_bind (getPcb_run counted) _).trans ?_)
      rw [progress.pages, page_limit, List.range_eq_range', ← next]
      rfl
    · rfl
    · rfl
    · rw [List.length_append, List.length_reverse, List.length_map, List.length_range', Nat.add_comm]
    · exact Prod.ext (funext fun i => behind _ (Nat.le_add_right ..)) rfl
    · rw [List.range_eq_range']
  · rw [pcb?_cons, put_pcb? found, pcb?_cons]
    split <;> rfl

end Comp310.Kernel
