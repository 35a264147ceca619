import Comp310.Kernel.Scheduler

/-! What freeing a process does to the memory of the others and to the variables. -/

namespace Comp310.Proofs.ProcessMemory
open Comp310.Kernel Comp310.Lib

/-- What is freed with a process is its own, or was free. -/
def Contained (pcb : Pcb) (memory : ShellMemory) : Prop := ∀ slot, pcb.Cleared slot → pcb.Holds slot ∨ memory slot = blank

def FreesOwn (pcb : Pcb) (memory : ShellMemory) : Prop := ∀ slot, ¬ pcb.Holds slot → freePcb pcb memory slot = memory slot

/-- Each process that is freed is freed as `holds` says. -/
def AtFrees (holds : Pcb → ShellMemory → Prop) (before : Processes) (call : Call) (_ : Processes) : Prop :=
  ∀ pid pcb, call = .freePcb pid → before.pcb? pid = some pcb → holds pcb before.memory

/-- No call changes what is not its to change: a process that is freed takes no slot of another with it, and
variables are only changed by the commands for them. -/
structure Separate (border : Nat) (before : Processes) (call : Call) (after : Processes) : Prop where
  others : ∀ pid other i slot, call = .freePcb pid → other ≠ pid → before.Held other i slot → after.memory slot = before.memory slot
  shellVars : (∀ var value, call ≠ .memSetValue var value) → call ≠ .resetVarZone →
    ∀ slot, border ≤ slot → after.memory slot = before.memory slot

/-- What is freed is contained, and what is evicted is there. -/
def Safe (before : Processes) (call : Call) (after : Processes) : Prop :=
  AtFrees Contained before call after ∧
    ∀ pid i pcb page, call = .pageEvict pid i → before.pcb? pid = some pcb → pcb.pageTable[i]? = some page → page.Resident

variable {border varStoreSize pid : Nat} {before after : Processes} {pcb : Pcb} {memory : ShellMemory} {call : Call}

theorem freesOwn_iff : FreesOwn pcb memory ↔ Contained pcb memory := by
  constructor
  · intro own slot cleared
    by_cases mine : pcb.Holds slot
    · exact .inl mine
    · right
      rw [← own slot mine]
      exact (freePcb_clears pcb memory slot).1 cleared
  · intro contained slot other
    by_cases cleared : pcb.Cleared slot
    · rw [(freePcb_clears pcb memory slot).1 cleared]
      exact ((contained slot cleared).resolve_left other).symm
    · exact (freePcb_clears pcb memory slot).2 cleared

theorem loadFirst_frames {pages : List Nat} {pcb' : Pcb} {memory' : ShellMemory}
    (ran : loadFirst border pages pcb memory = some (pcb', memory')) : ∀ slot, border ≤ slot → memory' slot = memory slot := by
  induction pages generalizing pcb memory with
  | nil =>
    cases ran
    exact fun _ _ => rfl
  | cons i rest ih =>
    obtain ⟨page, _, ran⟩ := Option.bind_eq_some_iff.mp ran
    obtain ⟨⟨loadedPcb, loadedMemory⟩, load, ran⟩ := Option.bind_eq_some_iff.mp ran
    obtain ⟨page', loaded⟩ := loadPage_loaded load
    intro slot behind
    rw [ih ran slot behind]
    apply loaded.others
    intro mine
    have small := loaded.inside slot mine
    omega

theorem Safe.separate (safe : Safe before call after) (sound : Sound border before)
    (taken : call.take border varStoreSize before = some after) : Sound border after ∧ Separate border before call after := by
  obtain ⟨contained, evicts⟩ := safe
  cases call with
  | newProc script =>
    obtain ⟨⟨pcb, memory⟩, ran, done⟩ := Option.bind_eq_some_iff.mp taken
    cases done
    exact ⟨sound.newProc ran, nofun, fun _ _ => loadFirst_frames ran⟩
  | loadPage pid i =>
    obtain ⟨pcb, found, taken⟩ := Option.bind_eq_some_iff.mp taken
    obtain ⟨page, there, taken⟩ := Option.bind_eq_some_iff.mp taken
    obtain ⟨⟨pcb', memory⟩, ran, done⟩ := Option.bind_eq_some_iff.mp taken
    cases done
    obtain ⟨page', loaded⟩ := loadPage_loaded ran
    refine ⟨sound.load found there loaded (put_pcb? found _ _) rfl, nofun, fun _ _ slot behind => loaded.others slot fun mine => ?_⟩
    have small := loaded.inside slot mine
    omega
  | pageEvict pid i =>
    obtain ⟨pcb, found, taken⟩ := Option.bind_eq_some_iff.mp taken
    obtain ⟨page, there, done⟩ := Option.bind_eq_some_iff.mp taken
    cases done
    have resident := evicts pid i pcb page rfl found there
    refine ⟨sound.pageEvict found there resident, nofun, fun _ _ slot behind => (pageEvict_clears page _ slot).2 fun mine => ?_⟩
    have small := sound.inside pid i slot ((held_page found there).mpr ⟨resident, mine⟩)
    omega
  | countLine pid i =>
    obtain ⟨pcb, found, done⟩ := Option.bind_eq_some_iff.mp taken
    cases done
    exact ⟨sound.countLine found, nofun, fun _ _ _ _ => rfl⟩
  | freePcb pid =>
    obtain ⟨pcb, found, done⟩ := Option.bind_eq_some_iff.mp taken
    cases done
    have own := freesOwn_iff.mpr (contained pid pcb rfl found)
    have others (other i slot : Nat) (differs : other ≠ pid) (holds : before.Held other i slot) :
        freePcb pcb before.memory slot = before.memory slot := by
      apply own
      intro mine
      obtain ⟨j, mine⟩ := (holds_iff found).mp mine
      exact differs (sound.apart other i pid j slot holds mine).1
    have lookups (other : Nat) : (before.pcbs.filter fun entry => entry.1 != pid).lookup other =
        if other = pid then none else before.pcb? other := lookup_filter
    have kept (other i slot : Nat) (holds : (Processes.mk (freePcb pcb before.memory)
        (before.pcbs.filter fun entry => entry.1 != pid) before.pidCounter).Held other i slot) :
        other ≠ pid ∧ before.Held other i slot := by
      obtain ⟨found', page, there, place, holds⟩ := holds
      have there := (lookups other).symm.trans there
      split at there
      · cases there
      next differs => exact ⟨differs, found', page, there, place, holds⟩
    refine ⟨sound.fewer (fun other found' there => ?_) rfl (fun other i slot holds => (kept other i slot holds).2)
      (fun other i slot holds => others other i slot (kept other i slot holds).1 (kept other i slot holds).2), ?_, ?_⟩
    · have there := (lookups other).symm.trans there
      split at there
      · cases there
      · exact ⟨found', there, rfl⟩
    · intro pid' other i slot same differs holds
      cases same
      exact others other i slot differs holds
    · intro _ _ slot behind
      apply own
      intro mine
      obtain ⟨j, mine⟩ := (holds_iff found).mp mine
      have small := sound.inside pid j slot mine
      omega
  | memSetValue var value =>
    cases taken
    exact ⟨sound.behind fun slot frame => memSetValue_frame frame, nofun, fun other => absurd rfl (other var value)⟩
  | resetVarZone =>
    cases taken
    exact ⟨sound.behind fun slot frame => resetVarZone_frame frame, nofun, fun _ other => absurd rfl other⟩

theorem start_sound : Sound border Processes.start := by
  have none (pid i slot : Nat) : ¬ Processes.start.Held pid i slot := by
    rintro ⟨_, _, found, _⟩
    cases found
  exact ⟨fun _ _ found => (nomatch found), fun pid i slot holds => absurd holds (none pid i slot),
    fun pid i slot holds => absurd holds (none pid i slot), fun pid i _ _ slot holds => absurd holds (none pid i slot)⟩

/-- In every run, freeing takes no more than the process has exactly where it is contained. In a run where all of it is
contained, and all pages that are evicted are there, processes and variables are left alone. -/
theorem frees_own_iff (border varStoreSize : Nat) (calls : List Call) :
    (Along (Call.take border varStoreSize) (AtFrees FreesOwn) calls Processes.start ↔
      Along (Call.take border varStoreSize) (AtFrees Contained) calls Processes.start) ∧
    (Along (Call.take border varStoreSize) Safe calls Processes.start →
      Along (Call.take border varStoreSize) (Separate border) calls Processes.start) := by
  constructor
  · have same : AtFrees FreesOwn = AtFrees Contained := by
      funext before call after
      simp only [AtFrees, freesOwn_iff]
    rw [same]
  · have step (before : Processes) (call : Call) (after : Processes) (sound : Sound border before)
        (taken : call.take border varStoreSize before = some after) (safe : Safe before call after) :
        Sound border after ∧ Separate border before call after := safe.separate sound taken
    exact Along.of step calls Processes.start start_sound

section Example

/-- A variable, a script of one line that gets the first frame, and its end. -/
private abbrev shortRun : List Call := [.memSetValue [120] [49], .newProc [97], .freePcb 1]

/-- The frame behind that of the process is free, so nothing else is lost. -/
theorem frees_own_short : Along (Call.take 6 5) (Separate 6) shortRun Processes.start := by
  apply (frees_own_iff 6 5 shortRun).2
  intro first taken
  cases taken
  refine ⟨⟨nofun, nofun⟩, fun second taken => ?_⟩
  cases taken
  refine ⟨⟨nofun, nofun⟩, fun third taken => ?_⟩
  cases taken
  refine ⟨⟨fun pid pcb same found => ?_, nofun⟩, trivial⟩
  cases same
  cases found
  rintro slot ⟨page, member, pos, place, low, high⟩
  cases List.mem_singleton.mp member
  have frame : 0 ≤ pos ∧ pos < 0 + 3 := mem_frame.mp place
  obtain mine | rfl | rfl : (0 ≤ slot ∧ slot < 3) ∨ slot = 3 ∨ slot = 4 := by omega
  · exact .inl ⟨_, List.mem_singleton_self _, ⟨rfl, rfl⟩, mem_frame.mpr mine⟩
  · exact .inr rfl
  · exact .inr rfl

/-- The lines `echo a`, `echo a` and `echo a`. -/
private abbrev echoes : List UInt8 :=
  [101, 99, 104, 111, 32, 97, 10, 101, 99, 104, 111, 32, 97, 10, 101, 99, 104, 111, 32, 97]

/-- With three slots for frames, a script of three lines that print a letter clears the first variable when it ends. -/
theorem free_clears_variable : ∃ kernel kernel',
    (do
      perform 3 5 (.memSetValue [120] [49])
      newProc 3 5 echoes : K Unit PUnit) (kernelSetup ()) = some (⟨⟩, kernel) ∧
    kernel.system.memory 3 = ⟨[120], [49]⟩ ∧
    runProcRr 3 5 (fun _ => pure 0) 4 kernel = some (⟨⟩, kernel') ∧ kernel'.system.memory 3 = blank := by
  let prepare : K Unit PUnit := do
    perform 3 5 (.memSetValue [120] [49])
    newProc 3 5 echoes
  have slots : (((do
      prepare
      let before ← get
      runProcRr 3 5 (fun _ => pure 0) 4
      let after ← get
      pure (before.system.memory 3, after.system.memory 3)) : K Unit (MemoryStruct × MemoryStruct)) (kernelSetup ())).map (·.1) =
      some (⟨[120], [49]⟩, blank) := by decide +kernel
  obtain ⟨⟨pair, last⟩, ran, same⟩ := Option.map_eq_some_iff.mp slots
  obtain ⟨_, kernel, prepared, ran⟩ := bind_some ran
  obtain ⟨_, _, got, ran⟩ := bind_some ran
  cases got
  obtain ⟨_, kernel', freed, ran⟩ := bind_some ran
  cases ran
  obtain ⟨first, second⟩ := Prod.mk.inj same
  exact ⟨kernel, last, prepared, first, freed, second⟩

end Example

end Comp310.Proofs.ProcessMemory
