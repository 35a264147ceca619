import Comp310.Kernel.Histories

/-! The steps of the pager: a line is run from a page that has a frame, a page is loaded into a free frame, and a page that
is done with gives its frame to another. -/

namespace Comp310.Kernel
open Comp310.Lib

variable {border varStoreSize pid i j : Nat} {script victim : Script} {scripts : List Script} {ran loaded : Nat → Nat} {ω : Type} {kernel : KernelState ω}
  {pcb pcb' : Pcb} {page page' : Page} {memory memory' : ShellMemory} {entry : Nat × Nat} {front rest entries : List (Nat × Nat)}

theorem get_run {σ : Type} (state : σ) : (get : Prog σ σ) state = some (state, state) := rfl

theorem modify_run {σ : Type} (change : σ → σ) (state : σ) : (modify change : Prog σ PUnit) state = some (⟨⟩, change state) := rfl

theorem Script.Bears.congr {memory' : ShellMemory} (bears : script.Bears j page memory)
    (same : ∀ k : Fin 3, memory' (page.start + k) = memory (page.start + k)) : script.Bears j page memory' := by
  intro k text there
  rw [same k]
  exact bears k text there

namespace Shows
variable (shows : Shows border scripts ran loaded kernel)
include shows

theorem owned (member : entry ∈ kernel.lruCache) : ∃ script ∈ scripts, script.pid = entry.1 ∧
    ∃ page, kernel.system.page? entry = some page ∧ page.pagePid = entry.1 ∧ page.pageIndex = entry.2 := by
  obtain ⟨script, owner, same, below⟩ := shows.listed entry member
  obtain ⟨pcb, found, progress⟩ := shows.procs script owner
  obtain ⟨page, there, named, number⟩ := progress.there (Nat.lt_of_lt_of_le below (shows.few script owner))
  refine ⟨script, owner, same, page, ?_, named.trans same, number⟩
  have whole : entry = (script.pid, entry.2) := Prod.ext same.symm rfl
  rw [whole, page?_eq found]
  exact there

theorem page? (member : entry ∈ kernel.lruCache) : kernel.system.page? entry = some (kernel.system.pageAt entry) := by
  obtain ⟨_, _, _, page, found, _⟩ := shows.owned member
  rw [pageAt_eq found, found]

theorem fresh : kernel.lruCache.Nodup := ((shows.frames.tiled.once).of_map).of_map

theorem frame (member : entry ∈ kernel.lruCache) : (kernel.system.pageAt entry).index =
    #v[(kernel.system.pageAt entry).start, (kernel.system.pageAt entry).start + 1, (kernel.system.pageAt entry).start + 2] :=
  shows.frames.frames _ (List.mem_map_of_mem member)

theorem inside (member : entry ∈ kernel.lruCache) : (kernel.system.pageAt entry).start + 3 ≤ border :=
  shows.frames.tiled.inside _ (List.mem_map_of_mem (List.mem_map_of_mem member))

theorem queue (queue : List Nat) : Shows border scripts ran loaded { kernel with queue } :=
  ⟨shows.all, shows.once, shows.procs, shows.few, shows.frames, shows.compact, shows.listed, shows.borne, shows.needed, shows.gone⟩

theorem aside (world : ω) (history : List Event) : Shows border scripts ran loaded { kernel with world, history } :=
  ⟨shows.all, shows.once, shows.procs, shows.few, shows.frames, shows.compact, shows.listed, shows.borne, shows.needed, shows.gone⟩

/-- All that counts of the system is the memory and which processes are found. -/
theorem found (system : Processes) (same : ∀ pid, system.pcb? pid = kernel.system.pcb? pid) (memory : system.memory = kernel.system.memory) :
    Shows border scripts ran loaded { kernel with system } := by
  have pages : system.pageAt = kernel.system.pageAt := by
    funext entry
    rw [Processes.pageAt, Processes.page?, same, Processes.pageAt, Processes.page?]
  obtain ⟨all, once, procs, few, frames, compact, listed, borne, needed, gone⟩ := shows
  rw [← pages, ← memory] at frames
  simp only [← pages] at compact gone
  simp only [← pages, ← memory] at borne
  simp only [← same] at procs
  exact ⟨all, once, procs, few, frames, compact, listed, borne, needed, gone⟩

theorem reorder (same : kernel.lruCache.Perm entries) : Shows border scripts ran loaded { kernel with lruCache := entries } where
  all := shows.all
  once := shows.once
  procs := shows.procs
  few := shows.few
  frames := shows.frames.perm (same.map _)
  compact entry member := shows.compact entry (same.mem_iff.mpr member)
  listed entry member := shows.listed entry (same.mem_iff.mpr member)
  borne script owner j member := shows.borne script owner j (same.mem_iff.mpr member)
  needed script owner j below more := same.mem_iff.mp (shows.needed script owner j below more)
  gone script owner j below absent := shows.gone script owner j below fun listed => absent (same.mem_iff.mp listed)

theorem behind (same : ∀ slot < border, memory slot = kernel.system.memory slot) :
    Shows border scripts ran loaded { kernel with system := { kernel.system with memory } } where
  all := shows.all
  once := shows.once
  procs := shows.procs
  few := shows.few
  frames := shows.frames.behind same
  compact := shows.compact
  listed := shows.listed
  borne script owner j member := by
    refine (shows.borne script owner j member).congr fun k => same _ ?_
    have inside := shows.inside member
    have small := k.isLt
    omega
  needed := shows.needed
  gone := shows.gone

end Shows

theorem Progress.count {done loaded : Nat} (progress : Progress script done loaded pcb) :
    Progress script (done + 1) loaded (Processes.countLine pcb (done / 3)) := by
  obtain ⟨pid, size, counters, pages, named, unread, unloaded⟩ := progress
  refine ⟨pid, ?_, ?_, pages, named, unread, unloaded⟩
  · change pcb.size - 1 = _
    rw [size]
    omega
  · change pcb.programCounter.modify (done / 3) (· + 1) = _
    rw [counters]
    apply List.ext_getElem?
    intro j
    rw [List.getElem?_modify, List.getElem?_map, List.getElem?_map]
    by_cases inside : j < script.pages
    · rw [List.getElem?_range inside]
      refine congrArg some ?_
      dsimp only
      by_cases here : done / 3 = j
      · rw [if_pos here]
        omega
      · rw [if_neg here]
        omega
    · rw [List.getElem?_eq_none (List.length_range ▸ Nat.le_of_not_lt inside)]
      rfl

namespace Shows
variable (shows : Shows border scripts ran loaded kernel) (member : script ∈ scripts)
include shows member

theorem procs_put {ran' loaded' : Nat → Nat} (found : kernel.system.pcb? script.pid = some pcb)
    (progress : Progress script (ran' script.pid) (loaded' script.pid) pcb')
    (others : ∀ other ≠ script.pid, ran' other = ran other ∧ loaded' other = loaded other) (memory : ShellMemory) :
    ∀ other ∈ scripts, ∃ pcb, (kernel.system.put script.pid pcb' memory).pcb? other.pid = some pcb ∧
      Progress other (ran' other.pid) (loaded' other.pid) pcb := by
  intro other there
  by_cases same : other.pid = script.pid
  · cases pid_unique shows.once member there same
    exact ⟨pcb', (put_pcb? found ..).trans (if_pos rfl), progress⟩
  · obtain ⟨before, found', progress'⟩ := shows.procs other there
    obtain ⟨sameRan, sameLoaded⟩ := others other.pid same
    refine ⟨before, (put_pcb? found ..).trans ((if_neg same).trans found'), ?_⟩
    rw [sameRan, sameLoaded]
    exact progress'

variable (varStoreSize) in
theorem countLine : ∃ system,
    perform border varStoreSize (.countLine script.pid (ran script.pid / 3)) kernel = some (⟨⟩, { kernel with system }) ∧
      system.memory = kernel.system.memory ∧ (∀ entry, system.page? entry = kernel.system.page? entry) ∧
      Shows border scripts (Function.update ran script.pid (ran script.pid + 1)) loaded { kernel with system } := by
  obtain ⟨pcb, found, progress⟩ := shows.procs script member
  have taken : (Call.countLine script.pid (ran script.pid / 3)).take border varStoreSize kernel.system =
      some (kernel.system.put script.pid (Processes.countLine pcb (ran script.pid / 3)) kernel.system.memory) := by
    rw [Call.take, found]
    rfl
  have same (entry : Nat × Nat) : (kernel.system.put script.pid (Processes.countLine pcb (ran script.pid / 3)) kernel.system.memory).page? entry =
      kernel.system.page? entry := page?_put_same found (show (Processes.countLine pcb (ran script.pid / 3)).pageTable = pcb.pageTable from rfl) entry
  have pages (entry : Nat × Nat) : (kernel.system.put script.pid (Processes.countLine pcb (ran script.pid / 3)) kernel.system.memory).pageAt entry =
      kernel.system.pageAt entry := by
    rw [Processes.pageAt, same, Processes.pageAt]
  have sum (other : Nat) (differs : other ≠ script.pid) : Function.update ran script.pid (ran script.pid + 1) other = ran other :=
    Function.update_of_ne differs ..
  refine ⟨_, perform_run taken, rfl, same, shows.all, shows.once, ?_, shows.few, ?_, ?_, shows.listed, ?_, ?_, ?_⟩
  · refine shows.procs_put member found ?_ (fun other differs => ⟨sum other differs, rfl⟩) _
    rw [Function.update_self]
    exact progress.count
  · rw [show kernel.lruCache.map (kernel.system.put script.pid (Processes.countLine pcb (ran script.pid / 3)) kernel.system.memory).pageAt =
      kernel.lruCache.map kernel.system.pageAt from List.map_congr_left fun entry _ => pages entry]
    exact shows.frames
  · intro entry there
    rw [pages]
    exact shows.compact entry there
  · intro other there j listed
    rw [pages]
    exact shows.borne other there j listed
  · intro other there j below left
    refine shows.needed other there j below ?_
    by_cases same : other.pid = script.pid
    · rw [same, Function.update_self] at left
      rw [same]
      omega
    · rwa [sum other.pid same] at left
  · intro other there j below absent
    rw [pages]
    exact shows.gone other there j below absent

omit member in
/-- First fit has put it no further than behind the frames that were ever used. -/
theorem start_low {start : Nat} {label : CString} {marked : ShellMemory} (alloc : frameAlloc border label kernel.system.memory = some (start, marked)) :
    start < 3 * (total scripts loaded + 1) := by
  by_contra high
  have inside := (frameFree_iff.mp (frameAlloc_some alloc).1).1
  have aligned : 3 * total scripts loaded % 3 = 0 := Nat.mul_mod_right ..
  have free : Room 3 border (Taken kernel.system.memory) (3 * total scripts loaded) := by
    refine (shows.frames.tiled.room_iff (by decide) aligned (by omega)).mpr fun taken => ?_
    obtain ⟨page, listed, same⟩ := List.mem_map.mp taken
    obtain ⟨entry, member, rfl⟩ := List.mem_map.mp listed
    have low := shows.compact entry member
    omega
  have earlier := frameAlloc_first alloc (3 * total scripts loaded) (by omega)
  rw [room_iff.mp free] at earlier
  cases earlier

/-- What follows from the page table and the memory after a page of a process was loaded. -/
theorem loaded_page {page : Page} {memory' : ShellMemory} (found : kernel.system.pcb? script.pid = some pcb)
    (progress : Progress script (ran script.pid) (loaded script.pid + 1) pcb') (more : loaded script.pid < script.pages)
    (lookup : ∀ entry, (kernel.system.put script.pid pcb' memory').page? entry =
      if entry = (script.pid, loaded script.pid) then some page else kernel.system.page? entry)
    (kept : Frames border memory' (page :: kernel.lruCache.map kernel.system.pageAt)) (low : page.start < 3 * (total scripts loaded + 1))
    (others : ∀ slot, slot ∉ page.index → memory' slot = kernel.system.memory slot) (bears : script.Bears (loaded script.pid) page memory') :
    Shows border scripts ran (Function.update loaded script.pid (loaded script.pid + 1))
      { kernel with system := kernel.system.put script.pid pcb' memory', lruCache := (script.pid, loaded script.pid) :: kernel.lruCache } := by
  have self : (kernel.system.put script.pid pcb' memory').pageAt (script.pid, loaded script.pid) = page :=
    pageAt_eq ((lookup _).trans (if_pos rfl))
  have fresh {entry : Nat × Nat} (listed : entry ∈ kernel.lruCache) : entry ≠ (script.pid, loaded script.pid) := by
    rintro rfl
    obtain ⟨other, there, same, below⟩ := shows.listed _ listed
    rw [same] at below
    exact Nat.lt_irrefl _ below
  have other {entry : Nat × Nat} (listed : entry ∈ kernel.lruCache) :
      (kernel.system.put script.pid pcb' memory').pageAt entry = kernel.system.pageAt entry := by
    rw [Processes.pageAt, lookup, if_neg (fresh listed), Processes.pageAt]
  have grown (pid : Nat) : loaded pid ≤ Function.update loaded script.pid (loaded script.pid + 1) pid := by
    by_cases same : pid = script.pid
    · rw [same, Function.update_self]
      exact Nat.le_succ _
    · rw [Function.update_of_ne same]
  have sum : total scripts (Function.update loaded script.pid (loaded script.pid + 1)) = total scripts loaded + 1 := total_more shows.once member
  -- which of the pages were loaded before
  have before (owner : Script) (j : Nat) (below : j < Function.update loaded script.pid (loaded script.pid + 1) owner.pid)
      (here : (owner.pid, j) ≠ (script.pid, loaded script.pid)) : j < loaded owner.pid := by
    by_cases same : owner.pid = script.pid
    · rw [same, Function.update_self] at below
      rw [same] at here ⊢
      have differs : j ≠ loaded script.pid := fun equal => here (Prod.ext rfl equal)
      omega
    · rwa [Function.update_of_ne same] at below
  refine ⟨shows.all, shows.once, ?_, fun other there => ?_, ?_, ?_, ?_, fun owner there j listed => ?_, fun owner there j below left => ?_,
    fun owner there j below absent => ?_⟩
  · refine shows.procs_put member found ?_ (fun other differs => ⟨rfl, Function.update_of_ne differs ..⟩) _
    rw [Function.update_self]
    exact progress
  · by_cases same : other.pid = script.pid
    · cases pid_unique shows.once member there same
      rw [Function.update_self]
      exact more
    · rw [Function.update_of_ne same]
      exact shows.few other there
  · rw [List.map_cons, self, List.map_congr_left fun entry listed => other listed]
    exact kept
  · rw [sum]
    refine List.forall_mem_cons.mpr ⟨?_, fun entry listed => ?_⟩
    · rw [self]
      exact low
    · rw [other listed]
      have before := shows.compact entry listed
      omega
  · refine List.forall_mem_cons.mpr ⟨⟨script, member, rfl, ?_⟩, fun entry listed => ?_⟩
    · rw [Function.update_self]
      exact Nat.lt_succ_self _
    · obtain ⟨owner, there, same, below⟩ := shows.listed entry listed
      exact ⟨owner, there, same, Nat.lt_of_lt_of_le below (grown owner.pid)⟩
  · rcases List.mem_cons.mp listed with here | earlier
    · obtain ⟨same, rfl⟩ := Prod.mk.inj here
      cases pid_unique shows.once member there same
      rw [self]
      exact bears
    · rw [other earlier]
      refine (shows.borne owner there j earlier).congr fun k => others _ fun mine => ?_
      -- the slot is one of a page that has its frame already
      have yours : (kernel.system.pageAt (owner.pid, j)).start + k ∈ (kernel.system.pageAt (owner.pid, j)).index := by
        rw [shows.frame earlier]
        have small := k.isLt
        exact mem_frame.mpr ⟨Nat.le_add_right .., by omega⟩
      exact kept.apart (List.mem_map_of_mem earlier) mine yours
  · by_cases here : (owner.pid, j) = (script.pid, loaded script.pid)
    · exact here ▸ List.mem_cons_self
    · exact List.mem_cons_of_mem _ (shows.needed owner there j (before owner j below here) left)
  · rw [List.mem_cons, not_or] at absent
    rw [Processes.pageAt, lookup, if_neg absent.1]
    exact shows.gone owner there j (before owner j below absent.1) absent.2

/-- The next page of a process gets a frame, if there is one. -/
theorem loadPage (found : kernel.system.pcb? script.pid = some pcb) (there : pcb.pageTable[loaded script.pid]? = some page)
    (room : kernel.lruCache.length ≠ border / 3) : ∃ pcb' memory',
    Kernel.loadPage border (loaded script.pid) pcb page kernel.system.memory = some (pcb', memory') ∧
      pcb'.pageTable.length = pcb.pageTable.length ∧ (∀ slot, border ≤ slot → memory' slot = kernel.system.memory slot) ∧
      Shows border scripts ran (Function.update loaded script.pid (loaded script.pid + 1))
        { kernel with system := kernel.system.put script.pid pcb' memory', lruCache := (script.pid, loaded script.pid) :: kernel.lruCache } := by
  obtain ⟨pcb₀, found₀, progress⟩ := shows.procs script member
  cases found.symm.trans found₀
  obtain ⟨named, number⟩ := progress.named _ page there
  have inside : loaded script.pid < pcb.pageTable.length := (List.getElem?_eq_some_iff.mp there).1
  cases alloc : frameAlloc border (decimal pcb.pid) kernel.system.memory with
  | none =>
    have full := (shows.frames.full_iff _).mp alloc
    rw [List.length_map] at full
    exact absurd full room
  | some result =>
    obtain ⟨start, marked⟩ := result
    obtain ⟨pcb', page', memory', ran', read, index, pid', number', kept, others, placed⟩ := loadPage_run (i := loaded script.pid) shows.frames alloc
      (named.trans progress.pid.symm) progress.unread (script.reads.drop _)
    have first : page'.start = start := by
      rw [Page.start, index]
      rfl
    refine ⟨pcb', memory', ran', ?_, fun slot behind => others slot fun mine => ?_, ?_⟩
    · rw [read.pages, List.length_set]
    · rw [index] at mine
      have place := mem_frame.mp mine
      have bound := kept.tiled.inside page'.start (List.mem_map_of_mem List.mem_cons_self)
      omega
    · refine shows.loaded_page member found (progress.load read ⟨pid'.trans named, number'.trans number⟩) (progress.pages ▸ inside)
        (page?_put found inside read.pages) kept ?_ others (Script.bears_of first placed)
      rw [first]
      exact shows.start_low alloc

variable (varStoreSize) in
theorem load (more : loaded script.pid < script.pages) (room : kernel.lruCache.length ≠ border / 3) : ∃ system,
    loadPageOf border varStoreSize script.pid (loaded script.pid) kernel =
      some (true, { kernel with system, history := kernel.history ++ [.load script.pid (loaded script.pid)] }) ∧
      (∀ slot, border ≤ slot → system.memory slot = kernel.system.memory slot) ∧
      Shows border scripts ran (Function.update loaded script.pid (loaded script.pid + 1))
        { kernel with system, lruCache := (script.pid, loaded script.pid) :: kernel.lruCache } := by
  obtain ⟨pcb, found, progress⟩ := shows.procs script member
  obtain ⟨page, there, -, -⟩ := progress.there more
  obtain ⟨pcb', memory', ran', -, behind, shows'⟩ := shows.loadPage member found there room
  have taken : (Call.loadPage script.pid (loaded script.pid)).take border varStoreSize kernel.system =
      some (kernel.system.put script.pid pcb' memory') := by
    rw [Call.take, found, Option.bind_eq_bind, Option.bind_some, there, Option.bind_eq_bind, Option.bind_some, ran']
    rfl
  refine ⟨kernel.system.put script.pid pcb' memory', ?_, behind, shows'⟩
  rw [loadPageOf, run_bind (getPcb_run found), run_bind (getPage_run ((page?_eq found).trans there)), run_bind (get_run _), ran']
  refine (run_bind (perform_run taken) _).trans ?_
  rfl

end Shows

section Evicting

theorem Progress.evict {done loaded : Nat} (progress : Progress script done loaded pcb) (below : j < loaded)
    (there : pcb.pageTable[j]? = some page) (memory : ShellMemory) :
    Progress script done loaded { pcb with pageTable := pcb.pageTable.set j (pageEvict page memory).1 } := by
  obtain ⟨pid, size, counters, pages, named, unread, unloaded⟩ := progress
  have entries (k : Nat) (found : Page) (place : (pcb.pageTable.set j (pageEvict page memory).1)[k]? = some found) :
      k = j ∧ found = (pageEvict page memory).1 ∨ pcb.pageTable[k]? = some found := by
    rw [List.getElem?_set] at place
    split at place
    next here =>
      split at place
      · exact .inl ⟨here.symm, (Option.some.inj place).symm⟩
      · cases place
    next => exact .inr place
  refine ⟨pid, size, counters, ?_, fun k found place => ?_, unread, fun k found later place => ?_⟩
  · rw [List.length_set]
    exact pages
  · rcases entries k found place with ⟨rfl, rfl⟩ | before
    · exact named k page there
    · exact named k found before
  · rcases entries k found place with ⟨rfl, rfl⟩ | before
    · omega
    · exact unloaded k found later before

theorem findPcb_run {pids : List Nat} (there : ∀ other ∈ pids, ∃ pcb, kernel.system.pcb? other = some pcb) (member : pid ∈ pids) :
    findPcb pid pids kernel = some (⟨⟩, kernel) := by
  induction pids with
  | nil => cases member
  | cons other rest ih =>
    obtain ⟨pcb, found⟩ := there other List.mem_cons_self
    rw [findPcb, run_bind (getPcb_run found)]
    split
    · rfl
    next differs =>
      exact ih (fun other later => there other (List.mem_cons_of_mem _ later)) ((List.mem_cons.mp member).resolve_left (Ne.symm differs))

variable (varStoreSize) in
/-- The frame of a page is given back when all lines of the page were run. -/
theorem Shows.evict (shows : Shows border scripts ran loaded kernel) (member : script ∈ scripts)
    (last : kernel.lruCache = front ++ [(script.pid, j)]) (done : min script.size (3 * j + 3) ≤ ran script.pid) : ∃ system,
    perform border varStoreSize (.pageEvict script.pid j) { kernel with lruCache := front } = some (⟨⟩, { kernel with lruCache := front, system }) ∧
      (∀ slot, border ≤ slot → system.memory slot = kernel.system.memory slot) ∧
      Shows border scripts ran loaded { kernel with lruCache := front, system } := by
  have listed : (script.pid, j) ∈ kernel.lruCache := last ▸ List.mem_append_right _ List.mem_cons_self
  obtain ⟨owner, there, same, below⟩ := shows.listed _ listed
  cases pid_unique shows.once member there same
  dsimp only at below
  obtain ⟨pcb, found, progress⟩ := shows.procs script member
  obtain ⟨page, place, -, -⟩ := progress.there (Nat.lt_of_lt_of_le below (shows.few script member))
  have inside : j < pcb.pageTable.length := (List.getElem?_eq_some_iff.mp place).1
  have lookup (entry : Nat × Nat) : (kernel.system.put script.pid { pcb with pageTable := pcb.pageTable.set j (pageEvict page kernel.system.memory).1 }
      (pageEvict page kernel.system.memory).2).page? entry =
        if entry = (script.pid, j) then some (pageEvict page kernel.system.memory).1 else kernel.system.page? entry :=
    page?_put found inside rfl entry
  have taken : (Call.pageEvict script.pid j).take border varStoreSize kernel.system = some (kernel.system.put script.pid
      { pcb with pageTable := pcb.pageTable.set j (pageEvict page kernel.system.memory).1 } (pageEvict page kernel.system.memory).2) := by
    rw [Call.take, found, Option.bind_eq_bind, Option.bind_some, place]
    rfl
  have this := pageAt_eq ((page?_eq found).trans place)
  have once := shows.fresh
  rw [last] at once
  have fresh {entry : Nat × Nat} (left : entry ∈ front) : entry ≠ (script.pid, j) := by
    rintro rfl
    exact (List.nodup_append.mp once).2.2 _ left _ List.mem_cons_self rfl
  have kept {entry : Nat × Nat} (left : entry ∈ front) : entry ∈ kernel.lruCache := last ▸ List.mem_append_left _ left
  have other {entry : Nat × Nat} (left : entry ∈ front) : (kernel.system.put script.pid
      { pcb with pageTable := pcb.pageTable.set j (pageEvict page kernel.system.memory).1 }
      (pageEvict page kernel.system.memory).2).pageAt entry = kernel.system.pageAt entry := by
    rw [Processes.pageAt, lookup, if_neg (fresh left), Processes.pageAt]
  have frames := shows.frames
  rw [last, List.map_append, List.map_singleton, this] at frames
  have cleared := pageEvict_clears page kernel.system.memory
  refine ⟨_, perform_run taken, fun slot behind => (cleared slot).2 fun mine => ?_, shows.all, shows.once, ?_, shows.few, ?_, ?_, ?_,
    fun owner there k left => ?_, fun owner there k below' more => ?_, fun owner there k below' absent => ?_⟩
  · have bound := shows.inside listed
    have frame := shows.frame listed
    rw [this] at bound frame
    rw [frame] at mine
    have place := mem_frame.mp mine
    omega
  · exact shows.procs_put member found (progress.evict below place _) (fun _ _ => ⟨rfl, rfl⟩) _
  · rw [show (front.map _) = front.map kernel.system.pageAt from List.map_congr_left fun entry left => other left]
    have evicted := frames.evict
    rwa [List.append_nil] at evicted
  · intro entry left
    rw [other left]
    exact shows.compact entry (kept left)
  · exact fun entry left => shows.listed entry (kept left)
  · rw [other left]
    refine (shows.borne owner there k (kept left)).congr fun m => (cleared _).2 fun mine => ?_
    have yours : (kernel.system.pageAt (owner.pid, k)).start + m ∈ (kernel.system.pageAt (owner.pid, k)).index := by
      rw [shows.frame (kept left)]
      have small := m.isLt
      exact mem_frame.mpr ⟨Nat.le_add_right .., by omega⟩
    have first := frames.perm (List.perm_append_singleton page (front.map kernel.system.pageAt))
    exact first.apart (List.mem_map_of_mem left) mine yours
  · have listed' := shows.needed owner there k below' more
    rw [last, List.mem_append, List.mem_singleton] at listed'
    refine listed'.resolve_right fun this => ?_
    obtain ⟨equal, rfl⟩ := Prod.mk.inj this
    cases pid_unique shows.once member there equal
    omega
  · by_cases here : (owner.pid, k) = (script.pid, j)
    · rw [here, pageAt_eq ((lookup _).trans (if_pos rfl))]
      rfl
    · rw [Processes.pageAt, lookup, if_neg here]
      refine shows.gone owner there k below' fun before => absent ?_
      rw [last, List.mem_append, List.mem_singleton] at before
      exact before.resolve_right here

theorem Shows.loadPageOf_full (shows : Shows border scripts ran loaded kernel) (member : script ∈ scripts)
    (more : i < script.pages) (full : kernel.lruCache.length = border / 3) :
    loadPageOf border varStoreSize script.pid i kernel = some (false, kernel) := by
  obtain ⟨pcb, found, progress⟩ := shows.procs script member
  obtain ⟨page, there, -, -⟩ := progress.there more
  have none : Kernel.loadPage border i pcb page kernel.system.memory = none := by
    rw [Kernel.loadPage, (shows.frames.full_iff _).mpr (by rwa [List.length_map])]
    rfl
  rw [loadPageOf, run_bind (getPcb_run found), run_bind (getPage_run ((page?_eq found).trans there)), run_bind (get_run _), none]
  rfl

variable (varStoreSize) in
/-- A page that is done with makes room for the next one of the process. -/
theorem Shows.replace (shows : Shows border scripts ran loaded kernel) (member : script ∈ scripts) (more : loaded script.pid < script.pages)
    (owner : victim ∈ scripts) (last : kernel.lruCache = front ++ [(victim.pid, j)]) (done : min victim.size (3 * j + 3) ≤ ran victim.pid)
    (full : kernel.lruCache.length = border / 3) : ∃ system,
    replacePage border varStoreSize script.pid (loaded script.pid) kernel = some (⟨⟩, { kernel with
      lruCache := front, system, history := kernel.history ++ [.evict victim.pid j] ++ [.load script.pid (loaded script.pid)] }) ∧
      (∀ slot, border ≤ slot → system.memory slot = kernel.system.memory slot) ∧
      Shows border scripts ran (Function.update loaded script.pid (loaded script.pid + 1))
        { kernel with system, lruCache := (script.pid, loaded script.pid) :: front } := by
  have listed : (victim.pid, j) ∈ kernel.lruCache := last ▸ List.mem_append_right _ List.mem_cons_self
  obtain ⟨_, _, _, page, found, pagePid, pageIndex⟩ := shows.owned listed
  obtain ⟨evicted, ran₁, behind₁, shows₁⟩ := shows.evict varStoreSize owner last done
  have room : front.length ≠ border / 3 := by
    rw [last, List.length_append, List.length_singleton] at full
    omega
  obtain ⟨system, ran₂, behind₂, shows₂⟩ := (shows₁.aside kernel.world (kernel.history ++ [.evict victim.pid j])).load varStoreSize member more room
  have all : findPcb page.pagePid kernel.allPcb { kernel with lruCache := front } = some (⟨⟩, { kernel with lruCache := front }) := by
    rw [shows.all, pagePid]
    refine findPcb_run (fun other there => ?_) (List.mem_map_of_mem owner)
    obtain ⟨script, member, rfl⟩ := List.mem_map.mp there
    obtain ⟨pcb, found, -⟩ := shows.procs script member
    exact ⟨pcb, found⟩
  have fetched : getPage victim.pid j { kernel with lruCache := front } = some (page, { kernel with lruCache := front }) := getPage_run found
  refine ⟨system, ?_, fun slot high => (behind₂ slot high).trans (behind₁ slot high), shows₂.aside kernel.world kernel.history⟩
  rw [replacePage, run_bind (get_run _), last, List.getLast?_concat]
  refine (run_bind (modify_run _ _) _).trans ?_
  rw [show kernel.lruCache.dropLast = front by rw [last, List.dropLast_concat]]
  refine (run_bind fetched _).trans ((run_bind all _).trans ?_)
  rw [pagePid, pageIndex]
  refine (run_bind ran₁ _).trans ((run_bind (modify_run _ _) _).trans ((run_bind ran₂ _).trans ?_))
  rfl

end Evicting

section Running
variable {parseInput : CString → K ω Int}

theorem Shows.runNext_eq (shows : Shows border scripts ran loaded kernel) (member : script ∈ scripts) (more : ran script.pid < script.size) :
    runNext border varStoreSize parseInput script.pid kernel =
      runProc border varStoreSize parseInput script.pid (ran script.pid / 3) ⟨ran script.pid % 3, Nat.mod_lt _ (by decide)⟩ kernel := by
  obtain ⟨pcb, found, progress⟩ := shows.procs script member
  obtain ⟨first, counter⟩ := progress.next more
  rw [runNext, run_bind (getPcb_run found)]
  rw [first, counter]
  exact congrFun (dif_pos (Nat.mod_lt (ran script.pid) (by decide))) kernel

/-- The cache after a page was loaded. -/
def pushed (frames : Nat) (entry : Nat × Nat) (entries : List (Nat × Nat)) : List (Nat × Nat) :=
  entry :: if entries.length = frames then entries.dropLast else entries

variable (varStoreSize parseInput) in
/-- A line whose page is not loaded yet costs the turn, and brings the page. -/
theorem Shows.fault (shows : Shows border scripts ran loaded kernel) (member : script ∈ scripts) (more : ran script.pid < script.size)
    (absent : ran script.pid / 3 = loaded script.pid)
    (spare : kernel.lruCache.length = border / 3 → ∃ victim ∈ scripts, ∃ front j, kernel.lruCache = front ++ [(victim.pid, j)] ∧
      min victim.size (3 * j + 3) ≤ ran victim.pid) : ∃ system evicted,
    runNext border varStoreSize parseInput script.pid kernel = some (1, { kernel with
      system, lruCache := pushed (border / 3) (script.pid, loaded script.pid) kernel.lruCache, queue := kernel.queue ++ [script.pid],
      history := kernel.history ++ evicted ++ [.load script.pid (loaded script.pid)] }) ∧
    (evicted = [] ∨ ∃ victim ∈ scripts, ∃ j, evicted = [.evict victim.pid j] ∧ min victim.size (3 * j + 3) ≤ ran victim.pid) ∧
    (∀ slot, border ≤ slot → system.memory slot = kernel.system.memory slot) ∧
    Shows border scripts ran (Function.update loaded script.pid (loaded script.pid + 1)) { kernel with
      system, lruCache := pushed (border / 3) (script.pid, loaded script.pid) kernel.lruCache, queue := kernel.queue ++ [script.pid] } := by
  have inside : loaded script.pid < script.pages := absent ▸ lt_pages more
  obtain ⟨pcb, found, progress⟩ := shows.procs script member
  obtain ⟨page, there, -, -⟩ := progress.there inside
  have invalid := progress.unloaded _ page (Nat.le_refl _) there
  have missed (j : Fin 3) : cpuRun border varStoreSize parseInput script.pid (loaded script.pid) j kernel = some (1, kernel) := by
    rw [cpuRun, run_bind (getPage_run ((page?_eq found).trans there)), if_pos]
    · rfl
    · rw [invalid]
      exact Vector.getElem_replicate j.isLt
  rw [shows.runNext_eq member more, absent, runProc, run_bind (missed _)]
  by_cases full : kernel.lruCache.length = border / 3
  · obtain ⟨victim, owner, front, j, last, done⟩ := spare full
    obtain ⟨system, ran', behind, shows'⟩ := shows.replace varStoreSize member inside owner last done full
    have shorter : kernel.lruCache.dropLast = front := by
      rw [last, List.dropLast_concat]
    refine ⟨system, [.evict victim.pid j], ?_, .inr ⟨victim, owner, j, rfl, done⟩, behind, ?_⟩
    · rw [if_pos rfl, run_bind (shows.loadPageOf_full member inside full), pushed, if_pos full, shorter]
      refine (run_bind ran' _).trans ?_
      rfl
    · rw [pushed, if_pos full, shorter]
      exact shows'.queue _
  · obtain ⟨system, ran', behind, shows'⟩ := shows.load varStoreSize member inside full
    refine ⟨system, [], ?_, .inl rfl, behind, ?_⟩
    · rw [if_pos rfl, run_bind ran', pushed, if_neg full, List.append_nil]
      rfl
    · rw [pushed, if_neg full]
      exact shows'.queue _

/-- What commands read and change: the variables and the world. -/
def KernelState.outside (border : Nat) (kernel : KernelState ω) : ShellMemory × ω := (varsOf border kernel.system.memory, kernel.world)

/-- The line is a command on the variables and the world, with this effect. It leaves frames and lists alone, and its code is not 1. -/
def Obeys (border : Nat) (parseInput : CString → K ω Int) (effect : CString → ShellMemory × ω → ShellMemory × ω) (text : CString) : Prop :=
  ∀ kernel, ∃ ret memory world, parseInput text kernel = some (ret, { kernel with system := { kernel.system with memory }, world }) ∧ ret ≠ 1 ∧
    (∀ slot < border, memory slot = kernel.system.memory slot) ∧ (varsOf border memory, world) = effect text (kernel.outside border)

variable (rest) in
theorem removeElem_run {start : Nat} (before : ∀ other ∈ front, ∃ page, kernel.system.page? other = some page ∧ page.start ≠ start)
    (found : kernel.system.page? entry = some page) (first : page.start = start) :
    removeElem start (front ++ entry :: rest) kernel = some ((entry, front ++ rest), kernel) := by
  induction front with
  | nil =>
    rw [List.nil_append, removeElem, run_bind (getPage_run found), if_pos first]
    rfl
  | cons other front ih =>
    obtain ⟨page, found, differs⟩ := before other List.mem_cons_self
    have later := ih fun entry member => before entry (List.mem_cons_of_mem _ member)
    rw [List.cons_append, removeElem, run_bind (getPage_run found), if_neg differs, run_bind later]
    rfl

/-- A page that was used is taken to the front of the cache. -/
theorem Shows.removeElem (shows : Shows border scripts ran loaded kernel) (listed : entry ∈ kernel.lruCache) :
    Kernel.removeElem (kernel.system.pageAt entry).start kernel.lruCache kernel = some ((entry, kernel.lruCache.erase entry), kernel) := by
  obtain ⟨front, rest, fresh, split, erased⟩ := List.exists_erase_eq listed
  have starts : (kernel.lruCache.map (Page.start ∘ kernel.system.pageAt)).Nodup := by
    rw [← List.map_map]
    exact shows.frames.tiled.once
  rw [erased]
  have others : ∀ other ∈ front, ∃ page, kernel.system.page? other = some page ∧ page.start ≠ (kernel.system.pageAt entry).start := by
    intro other member
    have other_listed : other ∈ kernel.lruCache := split ▸ List.mem_append_left _ member
    refine ⟨_, shows.page? other_listed, fun same => fresh ?_⟩
    have equal := List.inj_on_of_nodup_map starts other_listed listed same
    rwa [equal] at member
  have searched := removeElem_run rest others (shows.page? listed) rfl
  rwa [← split] at searched

variable (varStoreSize) in
/-- A line whose page is there is passed on, whatever comes of it. -/
theorem Shows.cpuRun {text : CString} {ret : Int} {world : ω} (shows : Shows border scripts ran loaded kernel) (member : script ∈ scripts)
    (line : script.texts[ran script.pid]? = some text) (there : ran script.pid / 3 < loaded script.pid)
    (parsed : parseInput text { kernel with history := kernel.history ++ [.line script.pid text] } =
      some (ret, { kernel with system := { kernel.system with memory }, world, history := kernel.history ++ [.line script.pid text] }))
    (below : ∀ slot < border, memory slot = kernel.system.memory slot) : ∃ system,
    Kernel.cpuRun border varStoreSize parseInput script.pid (ran script.pid / 3) ⟨ran script.pid % 3, Nat.mod_lt _ (by decide)⟩ kernel =
      some (ret, { kernel with system, world, history := kernel.history ++ [.line script.pid text] }) ∧ system.memory = memory ∧
    (∀ entry, system.page? entry = kernel.system.page? entry) ∧ (script.pid, ran script.pid / 3) ∈ kernel.lruCache ∧
    Shows border scripts (Function.update ran script.pid (ran script.pid + 1)) loaded { kernel with system } := by
  have more : ran script.pid < script.size := by
    have inside := (List.getElem?_eq_some_iff.mp line).1
    rwa [Script.texts, List.length_map] at inside
  have listed := shows.needed script member _ there (by omega)
  have found := shows.page? listed
  obtain ⟨valid, value⟩ := shows.borne script member _ listed ⟨ran script.pid % 3, Nat.mod_lt _ (by decide)⟩ text (by rwa [Nat.div_add_mod])
  have shows₁ := (shows.aside world (kernel.history ++ [.line script.pid text])).behind below
  obtain ⟨system, counted, same, pages, shows₂⟩ := shows₁.countLine varStoreSize member
  have slot : (kernel.system.pageAt (script.pid, ran script.pid / 3)).index.get ⟨ran script.pid % 3, Nat.mod_lt _ (by decide)⟩ =
      (kernel.system.pageAt (script.pid, ran script.pid / 3)).start + ran script.pid % 3 := by
    rw [shows.frame listed]
    exact frame_get _ _
  refine ⟨system, ?_, same, pages, listed, shows₂.aside kernel.world kernel.history⟩
  rw [Kernel.cpuRun, run_bind (getPage_run found), if_neg (by rw [valid]; exact Bool.true_eq_false.mp), run_bind (get_run _), slot]
  have command : memGetValueAt ((kernel.system.pageAt (script.pid, ran script.pid / 3)).start + ran script.pid % 3) kernel.system.memory = text :=
    value
  rw [command]
  refine (run_bind (modify_run _ _) _).trans ((run_bind parsed _).trans ((run_bind counted _).trans ?_))
  rfl

variable (varStoreSize) in
/-- A line whose page is there is run, and the page was used last. -/
theorem Shows.runLine {text : CString} {ret : Int} {world : ω} (shows : Shows border scripts ran loaded kernel) (member : script ∈ scripts)
    (line : script.texts[ran script.pid]? = some text) (there : ran script.pid / 3 < loaded script.pid)
    (parsed : parseInput text { kernel with history := kernel.history ++ [.line script.pid text] } =
      some (ret, { kernel with system := { kernel.system with memory }, world, history := kernel.history ++ [.line script.pid text] }))
    (below : ∀ slot < border, memory slot = kernel.system.memory slot) (ordinary : ret ≠ 1) : ∃ system,
    runNext border varStoreSize parseInput script.pid kernel = some (0, { kernel with
      system, lruCache := (script.pid, ran script.pid / 3) :: kernel.lruCache.erase (script.pid, ran script.pid / 3), world,
      history := kernel.history ++ [.line script.pid text] }) ∧ system.memory = memory ∧
    Shows border scripts (Function.update ran script.pid (ran script.pid + 1)) loaded { kernel with
      system, lruCache := (script.pid, ran script.pid / 3) :: kernel.lruCache.erase (script.pid, ran script.pid / 3) } := by
  have more : ran script.pid < script.size := by
    have inside := (List.getElem?_eq_some_iff.mp line).1
    rwa [Script.texts, List.length_map] at inside
  obtain ⟨system, run, same, pages, listed, shows'⟩ := shows.cpuRun varStoreSize member line there parsed below
  have lookup : system.page? (script.pid, ran script.pid / 3) = some (kernel.system.pageAt (script.pid, ran script.pid / 3)) :=
    (pages _).trans (shows.page? listed)
  have moved := (shows'.aside world (kernel.history ++ [.line script.pid text])).removeElem listed
  dsimp only at moved
  rw [pageAt_eq lookup] at moved
  refine ⟨system, ?_, same, shows'.reorder (List.perm_cons_erase listed)⟩
  rw [shows.runNext_eq member more, runProc, run_bind run, if_neg ordinary]
  refine (run_bind (getPage_run lookup) _).trans ((run_bind (get_run _) _).trans ((run_bind moved _).trans ?_))
  rfl

variable (varStoreSize) in
/-- A line of a command is run. -/
theorem Shows.runCommand {effect : CString → ShellMemory × ω → ShellMemory × ω} {text : CString} (shows : Shows border scripts ran loaded kernel)
    (member : script ∈ scripts) (line : script.texts[ran script.pid]? = some text) (there : ran script.pid / 3 < loaded script.pid)
    (obeys : Obeys border parseInput effect text) : ∃ system world,
    runNext border varStoreSize parseInput script.pid kernel = some (0, { kernel with
      system, lruCache := (script.pid, ran script.pid / 3) :: kernel.lruCache.erase (script.pid, ran script.pid / 3), world,
      history := kernel.history ++ [.line script.pid text] }) ∧
    (varsOf border system.memory, world) = effect text (kernel.outside border) ∧
    Shows border scripts (Function.update ran script.pid (ran script.pid + 1)) loaded { kernel with
      system, lruCache := (script.pid, ran script.pid / 3) :: kernel.lruCache.erase (script.pid, ran script.pid / 3) } := by
  obtain ⟨ret, memory, world, parsed, ordinary, below, vars⟩ := obeys { kernel with history := kernel.history ++ [.line script.pid text] }
  obtain ⟨system, run, same, shows'⟩ := shows.runLine varStoreSize member line there parsed below ordinary
  refine ⟨system, world, run, ?_, shows'⟩
  rw [same]
  exact vars

end Running

end Comp310.Kernel
