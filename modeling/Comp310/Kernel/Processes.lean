import Comp310.Lib.Assoc
import Comp310.Lib.Trace
import Comp310.Kernel.Pcb

/-! What the kernel does to the memory of the shell, one step at a time and in
any order: a scheduler takes some of these runs, and a user the rest. -/

namespace Comp310.Kernel
open Comp310.Lib

/-- The shell memory and the processes that have not been freed, by their ids. -/
structure Processes where
  memory : ShellMemory
  pcbs : List (Nat × Pcb)
  pidCounter : Nat

inductive Call where
  | newProc (script : List UInt8)
  | loadPage (pid pageIndex : Nat)
  | pageEvict (pid pageIndex : Nat)
  | countLine (pid pageIndex : Nat)
  | freePcb (pid : Nat)
  | memSetValue (var value : CString)
  | resetVarZone

namespace Processes

def start : Processes := ⟨memInit, [], 1⟩

def pcb? (system : Processes) (pid : Nat) : Option Pcb := system.pcbs.lookup pid

def put (system : Processes) (pid : Nat) (pcb : Pcb) (memory : ShellMemory) : Processes :=
  { system with memory, pcbs := system.pcbs.map fun entry => if entry.1 = pid then (pid, pcb) else entry }

/-- A page of the process has the slot. -/
def Held (system : Processes) (pid i slot : Nat) : Prop :=
  ∃ pcb page, system.pcb? pid = some pcb ∧ pcb.pageTable[i]? = some page ∧ page.Holds slot

/-- One line of the page was run. -/
def countLine (pcb : Pcb) (pageIndex : Nat) : Pcb :=
  { pcb with programCounter := pcb.programCounter.modify pageIndex (· + 1), size := pcb.size - 1 }

end Processes

/-- The step, if the process and the page are there, there is a frame, and nothing exits. -/
def Call.take (border varStoreSize : Nat) : Call → Processes → Option Processes
  | .newProc script, system => do
    let (pcb, memory) ← pcbInit border system.pidCounter script system.memory
    some ⟨memory, (system.pidCounter, pcb) :: system.pcbs, system.pidCounter + 1⟩
  | .loadPage pid i, system => do
    let pcb ← system.pcb? pid
    let page ← pcb.pageTable[i]?
    let (pcb, memory) ← Kernel.loadPage border i pcb page system.memory
    some (system.put pid pcb memory)
  | .pageEvict pid i, system => do
    let pcb ← system.pcb? pid
    let page ← pcb.pageTable[i]?
    let (page, memory) := Kernel.pageEvict page system.memory
    some (system.put pid { pcb with pageTable := pcb.pageTable.set i page } memory)
  | .countLine pid i, system => do
    let pcb ← system.pcb? pid
    some (system.put pid (Processes.countLine pcb i) system.memory)
  | .freePcb pid, system => do
    let pcb ← system.pcb? pid
    some { system with memory := Kernel.freePcb pcb system.memory, pcbs := system.pcbs.filter fun entry => entry.1 != pid }
  | .memSetValue var value, system =>
    some { system with memory := Kernel.memSetValue border varStoreSize var value system.memory }
  | .resetVarZone, system => some { system with memory := Kernel.resetVarZone border varStoreSize system.memory }

/-- Every resident page has three slots of the frame store to itself, with its process's id on them. -/
structure Sound (border : Nat) (system : Processes) : Prop where
  pids : ∀ pid pcb, system.pcb? pid = some pcb → pcb.pid = pid ∧ pid < system.pidCounter
  inside : ∀ pid i slot, system.Held pid i slot → slot < border
  labelled : ∀ pid i slot, system.Held pid i slot → (system.memory slot).var = decimal pid
  apart : ∀ pid i pid' j slot, system.Held pid i slot → system.Held pid' j slot → pid = pid' ∧ i = j

variable {border varStoreSize pid i slot : Nat} {system after : Processes} {pcb pcb' : Pcb} {page page' : Page} {memory : ShellMemory}
  {call : Call}

section Pages

theorem put_pcb? (found : system.pcb? pid = some pcb) (pcb' : Pcb) (memory : ShellMemory) (other : Nat) :
    (system.put pid pcb' memory).pcb? other = if other = pid then some pcb' else system.pcb? other := by
  refine lookup_store.trans ?_
  rw [show system.pcbs.lookup pid = some pcb from found]
  rfl

theorem held_set (found : system.pcb? pid = some pcb) (there : pcb.pageTable[i]? = some page)
    (pages : pcb'.pageTable = pcb.pageTable.set i page')
    (lookups : ∀ other, after.pcb? other = if other = pid then some pcb' else system.pcb? other) (other j slot : Nat) :
    after.Held other j slot ↔ if other = pid ∧ j = i then page'.Holds slot else system.Held other j slot := by
  have inside := (List.getElem?_eq_some_iff.mp there).1
  unfold Processes.Held
  rw [lookups]
  by_cases mine : other = pid
  · subst mine
    rw [if_pos rfl, found]
    by_cases this : j = i
    · subst this
      rw [if_pos ⟨rfl, rfl⟩]
      constructor
      · rintro ⟨_, _, same, place, holds⟩
        cases same
        rw [pages, List.getElem?_set_self inside] at place
        cases place
        exact holds
      · intro holds
        exact ⟨pcb', page', rfl, by rw [pages, List.getElem?_set_self inside], holds⟩
    · rw [if_neg fun both => this both.2]
      have same : pcb'.pageTable[j]? = pcb.pageTable[j]? := by
        rw [pages, List.getElem?_set_ne (Ne.symm this)]
      constructor
      · rintro ⟨_, kept, this, place, holds⟩
        cases this
        exact ⟨pcb, kept, rfl, same ▸ place, holds⟩
      · rintro ⟨_, kept, this, place, holds⟩
        cases this
        exact ⟨pcb', kept, rfl, same.trans place, holds⟩
  · rw [if_neg mine, if_neg fun both => mine both.1]

theorem held_page (found : system.pcb? pid = some pcb) (there : pcb.pageTable[i]? = some page) :
    system.Held pid i slot ↔ page.Holds slot := by
  constructor
  · rintro ⟨_, _, found', there', holds⟩
    cases found.symm.trans found'
    cases there.symm.trans there'
    exact holds
  · intro holds
    exact ⟨pcb, page, found, there, holds⟩

theorem holds_iff (found : system.pcb? pid = some pcb) : pcb.Holds slot ↔ ∃ i, system.Held pid i slot := by
  constructor
  · rintro ⟨page, member, holds⟩
    obtain ⟨i, there⟩ := List.getElem?_of_mem member
    exact ⟨i, pcb, page, found, there, holds⟩
  · rintro ⟨i, _, page, found', there, holds⟩
    cases found.symm.trans found'
    exact ⟨page, List.mem_of_getElem? there, holds⟩

end Pages

section Steps
variable (sound : Sound border system)
include sound

theorem Sound.load (found : system.pcb? pid = some pcb) (there : pcb.pageTable[i]? = some page)
    (loaded : Loaded border i pcb system.memory pcb' after.memory page')
    (lookups : ∀ other, after.pcb? other = if other = pid then some pcb' else system.pcb? other)
    (counter : after.pidCounter = system.pidCounter) : Sound border after := by
  have held := held_set found there loaded.pages lookups
  -- the slots were free, so no page had them
  have taken (other j slot : Nat) (mine : slot ∈ page'.index) : ¬ system.Held other j slot := by
    intro before
    have label := sound.labelled other j slot before
    rw [loaded.free slot mine] at label
    exact decimal_ne_none label.symm
  obtain ⟨same, small⟩ := sound.pids pid pcb found
  refine ⟨fun other found' there' => ?_, fun other j slot holds => ?_, fun other j slot holds => ?_,
    fun first j second k slot holds holds' => ?_⟩
  · rw [counter]
    rw [lookups] at there'
    split at there'
    next mine =>
      cases there'
      exact ⟨loaded.pid.trans (same.trans mine.symm), mine ▸ small⟩
    next => exact sound.pids other _ there'
  · rw [held] at holds
    split at holds
    · exact loaded.inside slot holds.2
    · exact sound.inside other j slot holds
  · rw [held] at holds
    split at holds
    next mine =>
      rw [loaded.mine slot holds.2, same, mine.1]
    next =>
      rw [loaded.others slot fun mine => taken other j slot mine holds]
      exact sound.labelled other j slot holds
  · rw [held] at holds holds'
    split at holds <;> split at holds'
    next mine mine' => exact ⟨mine.1.trans mine'.1.symm, mine.2.trans mine'.2.symm⟩
    next => exact absurd holds' (taken second k slot holds.2)
    next => exact absurd holds (taken first j slot holds'.2)
    next => exact sound.apart first j second k slot holds holds'

theorem Sound.fewer (pids : ∀ other found, after.pcb? other = some found → ∃ before, system.pcb? other = some before ∧ found.pid = before.pid)
    (counter : after.pidCounter = system.pidCounter) (held : ∀ other j slot, after.Held other j slot → system.Held other j slot)
    (kept : ∀ other j slot, after.Held other j slot → after.memory slot = system.memory slot) : Sound border after := by
  refine ⟨fun other found there => ?_, fun other j slot holds => sound.inside other j slot (held other j slot holds),
    fun other j slot holds => ?_, fun first j second k slot holds holds' => ?_⟩
  · obtain ⟨before, there', same⟩ := pids other found there
    obtain ⟨mine, small⟩ := sound.pids other before there'
    exact ⟨same.trans mine, counter ▸ small⟩
  · rw [kept other j slot holds]
    exact sound.labelled other j slot (held other j slot holds)
  · exact sound.apart first j second k slot (held first j slot holds) (held second k slot holds')

theorem Sound.pageEvict (found : system.pcb? pid = some pcb) (there : pcb.pageTable[i]? = some page) (resident : page.Resident) :
    Sound border (system.put pid { pcb with pageTable := pcb.pageTable.set i (Kernel.pageEvict page system.memory).1 }
      (Kernel.pageEvict page system.memory).2) := by
  have lookups := put_pcb? found { pcb with pageTable := pcb.pageTable.set i (Kernel.pageEvict page system.memory).1 }
    (Kernel.pageEvict page system.memory).2
  have held := held_set found there rfl lookups
  have gone (slot : Nat) : ¬ (Kernel.pageEvict page system.memory).1.Holds slot := by
    rintro ⟨⟨next, _⟩, _⟩
    cases next
  have before (other j slot : Nat) (holds : (system.put pid { pcb with
      pageTable := pcb.pageTable.set i (Kernel.pageEvict page system.memory).1 } (Kernel.pageEvict page system.memory).2).Held other j slot) :
      ¬ (other = pid ∧ j = i) ∧ system.Held other j slot := by
    rw [held] at holds
    split at holds
    · exact absurd holds (gone slot)
    next differs => exact ⟨differs, holds⟩
  refine sound.fewer (fun other after there' => ?_) rfl (fun other j slot holds => (before other j slot holds).2) fun other j slot holds => ?_
  · rw [lookups] at there'
    split at there'
    next mine =>
      cases there'
      exact ⟨pcb, mine ▸ found, rfl⟩
    next => exact ⟨after, there', rfl⟩
  · obtain ⟨differs, holds⟩ := before other j slot holds
    apply (pageEvict_clears page system.memory slot).2
    intro mine
    exact differs (sound.apart other j pid i slot holds ((held_page found there).mpr ⟨resident, mine⟩))

theorem Sound.countLine (found : system.pcb? pid = some pcb) :
    Sound border (system.put pid (Processes.countLine pcb i) system.memory) := by
  have lookups := put_pcb? found (Processes.countLine pcb i) system.memory
  refine sound.fewer (fun other after there => ?_) rfl (fun other j slot holds => ?_) fun _ _ _ _ => rfl
  · rw [lookups] at there
    split at there
    next mine =>
      cases there
      exact ⟨pcb, mine ▸ found, rfl⟩
    next => exact ⟨after, there, rfl⟩
  · obtain ⟨after, page, there, place, holds⟩ := holds
    rw [lookups] at there
    split at there
    next mine =>
      cases there
      exact ⟨pcb, page, mine ▸ found, place, holds⟩
    next => exact ⟨after, page, there, place, holds⟩

theorem Sound.behind (kept : ∀ slot < border, memory slot = system.memory slot) : Sound border { system with memory } :=
  sound.fewer (fun _ found there => ⟨found, there, rfl⟩) rfl (fun _ _ _ => id)
    fun other j slot holds => kept slot (sound.inside other j slot holds)

theorem Sound.loadFirst {pages : List Nat} {pcbs : List (Nat × Pcb)} {next : Nat} {memory' : ShellMemory}
    (same : system = ⟨memory, (pid, pcb) :: pcbs, next⟩) (ran : loadFirst border pages pcb memory = some (pcb', memory')) :
    Sound border ⟨memory', (pid, pcb') :: pcbs, next⟩ ∧ pcb'.pid = pcb.pid := by
  induction pages generalizing system pcb memory with
  | nil =>
    cases ran
    exact ⟨same ▸ sound, rfl⟩
  | cons i rest ih =>
    subst same
    obtain ⟨page, there, ran⟩ := Option.bind_eq_some_iff.mp ran
    obtain ⟨⟨loadedPcb, loadedMemory⟩, load, ran⟩ := Option.bind_eq_some_iff.mp ran
    obtain ⟨page', loaded⟩ := loadPage_loaded load
    have head (pcb : Pcb) (memory : ShellMemory) (other : Nat) : (Processes.mk memory ((pid, pcb) :: pcbs) next).pcb? other =
        if other = pid then some pcb else pcbs.lookup other := by
      unfold Processes.pcb?
      rw [List.lookup_cons]
      by_cases mine : other = pid
      · rw [if_pos mine, mine, beq_self_eq_true]
      · rw [if_neg mine, beq_eq_false_iff_ne.mpr mine]
    have found := (head pcb memory pid).trans (if_pos rfl)
    have lookups (other : Nat) : (Processes.mk loadedMemory ((pid, loadedPcb) :: pcbs) next).pcb? other =
        if other = pid then some loadedPcb else (Processes.mk memory ((pid, pcb) :: pcbs) next).pcb? other := by
      rw [head, head]
      split <;> rfl
    have step : Sound border ⟨loadedMemory, (pid, loadedPcb) :: pcbs, next⟩ := sound.load found there loaded lookups rfl
    obtain ⟨kept, same⟩ := ih step rfl ran
    exact ⟨kept, same.trans loaded.pid⟩

theorem Sound.newProc {script : List UInt8}
    (ran : pcbInit border system.pidCounter script system.memory = some (pcb, memory)) :
    Sound border ⟨memory, (system.pidCounter, pcb) :: system.pcbs, system.pidCounter + 1⟩ := by
  let pages := (List.range (pageTableSize (countLines script))).map (pageInit system.pidCounter)
  let blankPcb : Pcb := ⟨system.pidCounter, countLines script, List.replicate pages.length 0, pages, script⟩
  let before : Processes := ⟨system.memory, (system.pidCounter, blankPcb) :: system.pcbs, system.pidCounter + 1⟩
  -- a page that was not loaded has no slots
  have held (other j slot : Nat) (holds : before.Held other j slot) : system.Held other j slot := by
    obtain ⟨found, page, there, place, holds⟩ := holds
    change List.lookup other ((system.pidCounter, blankPcb) :: system.pcbs) = some found at there
    rw [List.lookup_cons] at there
    split at there
    · cases there
      obtain ⟨k, _, rfl⟩ := List.mem_map.mp (List.mem_of_getElem? place)
      cases holds.1.1
    · exact ⟨found, page, there, place, holds⟩
  have registered : Sound border before := by
    refine ⟨fun other found there => ?_, fun other j slot holds => sound.inside other j slot (held other j slot holds),
      fun other j slot holds => sound.labelled other j slot (held other j slot holds),
      fun first j second k slot holds holds' => sound.apart first j second k slot (held first j slot holds) (held second k slot holds')⟩
    change List.lookup other ((system.pidCounter, blankPcb) :: system.pcbs) = some found at there
    rw [List.lookup_cons] at there
    split at there
    next same =>
      cases there
      rw [eq_of_beq same]
      exact ⟨rfl, Nat.lt_succ_self _⟩
    next =>
      obtain ⟨same, small⟩ := sound.pids other found there
      exact ⟨same, Nat.lt_succ_of_lt small⟩
  exact (registered.loadFirst rfl ran).1

end Steps

end Comp310.Kernel
