import Comp310.Kernel.Rounds

/-! Round after round, until no process has a line left, and what is left of the memory after that. -/

namespace Comp310.Kernel
open Comp310.Lib

variable {border varStoreSize round : Nat} {script : Script} {scripts front back : List Script} {ran loaded : Nat → Nat}
  {ω : Type} {kernel : KernelState ω} {pcb : Pcb} {pids : List Nat} {live : Nat → Bool} {parseInput : CString → K ω Int}
  {effect : CString → ShellMemory × ω → ShellMemory × ω} {base : List Event}

section Ending

theorem Progress.done {done loaded : Nat} (progress : Progress script done loaded pcb) (all : pcbDone pcb = true) : script.size ≤ done := by
  rw [pcbDone, progress.counters, List.all_map, List.all_eq_true] at all
  have size := pageTableSize_eq script.size
  have filled := script.size_pos
  have last := all (script.pages - 1) (List.mem_range.mpr (by rw [Script.pages]; omega))
  have full : min 3 (done - 3 * (script.pages - 1)) = 3 := eq_of_beq last
  rw [Script.pages] at full
  omega

theorem Shows.queueDone (shows : Shows border scripts ran loaded kernel) (known : ∀ pid ∈ pids, ∃ script ∈ scripts, script.pid = pid) :
    ∃ done, Kernel.queueDone pids kernel = some (done, kernel) ∧
      (done = true → ∀ script ∈ scripts, script.pid ∈ pids → script.size ≤ ran script.pid) ∧ (pids = [] → done = true) := by
  induction pids with
  | nil => exact ⟨true, rfl, fun _ script _ listed => absurd listed List.not_mem_nil, fun _ => rfl⟩
  | cons pid rest ih =>
    obtain ⟨done, ran', all, -⟩ := ih fun pid later => known pid (List.mem_cons_of_mem _ later)
    obtain ⟨script, member, rfl⟩ := known pid List.mem_cons_self
    obtain ⟨pcb, found, progress⟩ := shows.procs script member
    rw [Kernel.queueDone, run_bind (getPcb_run found)]
    by_cases finished : pcbDone pcb = true
    · rw [if_pos finished]
      refine ⟨done, ran', fun final other there listed => ?_, nofun⟩
      rcases List.mem_cons.mp listed with same | later
      · cases pid_unique shows.once member there same
        exact progress.done finished
      · exact all final other there later
    · rw [if_neg finished]
      exact ⟨false, rfl, nofun, nofun⟩

theorem freeAll_run (once : pids.Nodup) (there : ∀ pid ∈ pids, ∃ pcb, kernel.system.pcb? pid = some pcb) : ∃ system,
    freeAll border varStoreSize pids kernel = some (⟨⟩, { kernel with system }) ∧
      ∀ slot, ((∃ pid ∈ pids, ∃ pcb, kernel.system.pcb? pid = some pcb ∧ pcb.Cleared slot) → system.memory slot = blank) ∧
        ((¬ ∃ pid ∈ pids, ∃ pcb, kernel.system.pcb? pid = some pcb ∧ pcb.Cleared slot) → system.memory slot = kernel.system.memory slot) := by
  induction pids generalizing kernel with
  | nil => exact ⟨kernel.system, rfl, fun slot => ⟨fun ⟨_, member, _⟩ => absurd member List.not_mem_nil, fun _ => rfl⟩⟩
  | cons pid rest ih =>
    obtain ⟨fresh, once⟩ := List.nodup_cons.mp once
    obtain ⟨pcb, found⟩ := there pid List.mem_cons_self
    let freed : Processes := { kernel.system with
      memory := freePcb pcb kernel.system.memory, pcbs := kernel.system.pcbs.filter fun entry => entry.1 != pid }
    have others (other : Nat) (later : other ∈ rest) : freed.pcb? other = kernel.system.pcb? other := by
      have differs : other ≠ pid := fun same => fresh (same ▸ later)
      exact lookup_filter.trans (if_neg differs)
    have taken : (Call.freePcb pid).take border varStoreSize kernel.system = some freed := by
      rw [Call.take, found]
      rfl
    have step : perform border varStoreSize (.freePcb pid) kernel = some (⟨⟩, { kernel with system := freed }) := perform_run taken
    obtain ⟨system, ran', cleared⟩ := @ih { kernel with system := freed } once fun other later => by
      rw [show ({ kernel with system := freed } : KernelState ω).system.pcb? other = kernel.system.pcb? other from others other later]
      exact there other (List.mem_cons_of_mem _ later)
    have clears := freePcb_clears pcb kernel.system.memory
    refine ⟨system, ?_, fun slot => ?_⟩
    · rw [freeAll, run_bind step]
      exact ran'
    obtain ⟨hit, missed⟩ := cleared slot
    have later : (∃ other ∈ rest, ∃ pcb, freed.pcb? other = some pcb ∧ pcb.Cleared slot) ↔
        ∃ other ∈ rest, ∃ pcb, kernel.system.pcb? other = some pcb ∧ pcb.Cleared slot := by
      refine exists_congr fun other => and_congr_right fun member => ?_
      rw [others other member]
    constructor
    · rintro ⟨other, member, mine, found', clear⟩
      by_cases again : ∃ other ∈ rest, ∃ pcb, kernel.system.pcb? other = some pcb ∧ pcb.Cleared slot
      · exact hit (later.mpr again)
      · rcases List.mem_cons.mp member with rfl | tail
        · cases found.symm.trans found'
          exact (missed fun again' => again (later.mp again')).trans ((clears slot).1 clear)
        · exact absurd ⟨other, tail, mine, found', clear⟩ again
    · intro none
      refine (missed fun again => none ?_).trans ((clears slot).2 fun clear => none ⟨pid, List.mem_cons_self, pcb, found, clear⟩)
      obtain ⟨other, member, rest⟩ := later.mp again
      exact ⟨other, List.mem_cons_of_mem _ member, rest⟩

/-- free_PCB takes each of the three slots for a frame of its own, so that it clears two more behind them. -/
theorem cleared_frame {start slot : Nat} : (∃ pos ∈ #v[start, start + 1, start + 2], pos ≤ slot ∧ slot < pos + 3) ↔ start ≤ slot ∧ slot < start + 5 := by
  constructor
  · rintro ⟨pos, member, low, high⟩
    have place := mem_frame.mp member
    omega
  · rintro ⟨low, high⟩
    by_cases near : slot < start + 3
    · exact ⟨start, mem_frame.mpr (by omega), low, near⟩
    · exact ⟨start + 2, mem_frame.mpr (by omega), by omega, by omega⟩

theorem Shows.cleared_iff (shows : Shows border scripts ran loaded kernel) (all : ∀ script ∈ scripts, loaded script.pid = script.pages) (slot : Nat) :
    (∃ pid ∈ kernel.allPcb, ∃ pcb, kernel.system.pcb? pid = some pcb ∧ pcb.Cleared slot) ↔
      (∃ entry ∈ kernel.lruCache, (kernel.system.pageAt entry).start ≤ slot ∧ slot < (kernel.system.pageAt entry).start + 5) ∨
      slot < 3 ∧ ∃ script ∈ scripts, ∃ j < loaded script.pid, (script.pid, j) ∉ kernel.lruCache := by
  rw [shows.all]
  constructor
  · rintro ⟨pid, among, pcb, found, page, listed, pos, mine, place⟩
    obtain ⟨script, member, rfl⟩ := List.mem_map.mp among
    obtain ⟨pcb', found', progress⟩ := shows.procs script member
    cases found.symm.trans found'
    obtain ⟨j, there⟩ := List.getElem?_of_mem listed
    have inside : j < loaded script.pid := by
      rw [all script member, ← progress.pages]
      exact (List.getElem?_eq_some_iff.mp there).1
    have same : kernel.system.pageAt (script.pid, j) = page := pageAt_eq ((page?_eq found).trans there)
    by_cases cached : (script.pid, j) ∈ kernel.lruCache
    · have frame := shows.frame cached
      rw [same] at frame
      rw [frame] at mine
      refine .inl ⟨_, cached, ?_⟩
      rw [same]
      exact cleared_frame.mp ⟨pos, mine, place⟩
    · have frame := shows.gone script member j inside cached
      rw [same] at frame
      rw [frame, Vector.mem_replicate] at mine
      rw [mine.2] at place
      exact .inr ⟨by omega, script, member, j, inside, cached⟩
  · rintro (⟨entry, listed, place⟩ | ⟨low, script, member, j, below, absent⟩)
    · obtain ⟨script, member, same, below⟩ := shows.listed entry listed
      obtain ⟨pcb, found, progress⟩ := shows.procs script member
      obtain ⟨page, there, -, -⟩ := progress.there (Nat.lt_of_lt_of_le below (shows.few script member))
      have this : kernel.system.pageAt entry = page := by
        rw [show entry = (script.pid, entry.2) from Prod.ext same.symm rfl]
        exact pageAt_eq ((page?_eq found).trans there)
      have frame := shows.frame listed
      rw [this] at frame place
      refine ⟨script.pid, List.mem_map_of_mem member, pcb, found, page, List.mem_of_getElem? there, ?_⟩
      rw [frame]
      exact cleared_frame.mpr place
    · obtain ⟨pcb, found, progress⟩ := shows.procs script member
      obtain ⟨page, there, -, -⟩ := progress.there (Nat.lt_of_lt_of_le below (shows.few script member))
      have frame := shows.gone script member j below absent
      rw [pageAt_eq ((page?_eq found).trans there)] at frame
      refine ⟨script.pid, List.mem_map_of_mem member, pcb, found, page, List.mem_of_getElem? there, 0, ?_, by omega, by omega⟩
      rw [frame, Vector.mem_replicate]
      exact ⟨by decide, rfl⟩

/-- Where the last frame was in use at the end, the first variables are cleared with it. -/
theorem Shows.spill_iff (shows : Shows border scripts ran loaded kernel) (length : kernel.lruCache.length = min (border / 3) (total scripts loaded))
    (room : 3 ≤ border) (i : Nat) :
    (∃ entry ∈ kernel.lruCache, (kernel.system.pageAt entry).start ≤ border + i ∧ border + i < (kernel.system.pageAt entry).start + 5) ↔
      border / 3 ≤ total scripts loaded ∧ border + i < 3 * (border / 3) + 2 := by
  constructor
  · rintro ⟨entry, listed, -, high⟩
    have aligned := shows.frames.tiled.aligned _ (List.mem_map_of_mem (List.mem_map_of_mem listed))
    have inside := shows.inside listed
    have low := shows.compact entry listed
    omega
  · rintro ⟨many, near⟩
    have full := (shows.frames.tiled.full_iff (by decide)).mpr (by rw [List.length_map, List.length_map]; omega)
    have taken : 3 * (border / 3) - 3 ∈ (kernel.lruCache.map kernel.system.pageAt).map Page.start := by
      by_contra absent
      refine full (3 * (border / 3) - 3) ((shows.frames.tiled.room_iff (by decide) ?_ ?_).mpr absent)
      · omega
      · omega
    obtain ⟨page, bears, same⟩ := List.mem_map.mp taken
    obtain ⟨entry, listed, rfl⟩ := List.mem_map.mp bears
    exact ⟨entry, listed, by omega, by omega⟩

variable (varStoreSize) in
/-- What the end of a run leaves of the memory: no frame is in use, and two variables at most have gone. -/
theorem Shows.free (shows : Shows border scripts ran loaded kernel) (all : ∀ script ∈ scripts, loaded script.pid = script.pages)
    (length : kernel.lruCache.length = min (border / 3) (total scripts loaded)) (room : 3 ≤ border) : ∃ system,
    freeAll border varStoreSize kernel.allPcb kernel = some (⟨⟩, { kernel with system }) ∧ (∀ slot < border, system.memory slot = blank) ∧
      ∀ i, varsOf border system.memory i = if border / 3 ≤ (scripts.map Script.pages).sum ∧ border + i < 3 * (border / 3) + 2 then blank
        else varsOf border kernel.system.memory i := by
  have sum : total scripts loaded = (scripts.map Script.pages).sum := congrArg List.sum (List.map_congr_left all)
  obtain ⟨system, ran', cleared⟩ := @freeAll_run border varStoreSize ω kernel kernel.allPcb
    (by rw [shows.all]; exact shows.once) fun pid among => by
      rw [shows.all] at among
      obtain ⟨script, member, rfl⟩ := List.mem_map.mp among
      obtain ⟨pcb, found, -⟩ := shows.procs script member
      exact ⟨pcb, found⟩
  refine ⟨system, ran', fun slot inside => ?_, fun i => ?_⟩
  · obtain ⟨hit, missed⟩ := cleared slot
    by_cases clear : ∃ pid ∈ kernel.allPcb, ∃ pcb, kernel.system.pcb? pid = some pcb ∧ pcb.Cleared slot
    · exact hit clear
    · rw [missed clear]
      refine shows.frames.clean slot inside ?_
      by_contra label
      obtain ⟨start, taken, low, high⟩ := (shows.frames.tiled.cells slot inside).mp label
      obtain ⟨page, bears, rfl⟩ := List.mem_map.mp taken
      obtain ⟨entry, listed, rfl⟩ := List.mem_map.mp bears
      exact clear ((shows.cleared_iff all slot).mpr (.inl ⟨entry, listed, low, by omega⟩))
  · obtain ⟨hit, missed⟩ := cleared (border + i)
    have spill := shows.spill_iff length room i
    rw [sum] at spill
    have high : ¬ (border + i < 3 ∧ ∃ script ∈ scripts, ∃ j < loaded script.pid, (script.pid, j) ∉ kernel.lruCache) := fun low => by omega
    have clear := (shows.cleared_iff all (border + i)).trans ((or_iff_left high).trans spill)
    split
    next spilled => exact hit (clear.mpr spilled)
    next kept => exact missed fun again => kept (clear.mp again)

end Ending

/-- The lines of a turn, with the process that runs them. -/
def Script.turnLines (script : Script) (round : Nat) : List (Nat × CString) := (script.turnTexts round).map fun text => (script.pid, text)

/-- What is run in so many rounds. -/
def schedule (scripts : List Script) (rounds : Nat) : List (Nat × CString) :=
  (List.range rounds).flatMap fun round => scripts.flatMap fun script => script.turnLines round

def applied (effect : CString → ShellMemory × ω → ShellMemory × ω) (lines : List (Nat × CString)) (outside : ShellMemory × ω) : ShellMemory × ω :=
  lines.foldl (fun outside line => effect line.2 outside) outside

/-- Between two turns of a round. Those at the front have had theirs, and the queue has who is left of the others and then of them. -/
structure Between {ω : Type} (border : Nat) (scripts : List Script) (base : List Event) (round : Nat) (front back : List Script) (live : Nat → Bool)
    (kernel : KernelState ω) : Prop where
  split : scripts = front ++ back
  paced : ∃ turns ran loaded last, Paced border scripts base round turns (fun _ => False) ran loaded last kernel ∧
    (∀ script ∈ front, turns script.pid = round + 1) ∧ ∀ script ∈ back, turns script.pid = round
  queue : kernel.queue = ((back ++ front).filter fun script => live script.pid).map Script.pid
  ahead : ∀ script ∈ back, live script.pid = false → script.size ≤ ranAfter round
  behind : ∀ script ∈ front, live script.pid = false → script.size ≤ ranAfter (round + 1)
  dropped : ∀ script ∈ front, script.size ≤ ranAfter round → live script.pid = false

section Rounds

theorem Script.turnTexts_nil (all : script.size ≤ ranAfter round) : script.turnTexts round = [] := by
  rw [Script.turnTexts, ranOf_all all, ranOf_all (Nat.le_trans all (ranAfter_mono round))]
  exact List.drop_eq_nil_of_le (List.length_take_le ..)

theorem Script.turnLines_nil (all : script.size ≤ ranAfter round) : script.turnLines round = [] := by
  rw [Script.turnLines, turnTexts_nil all]
  rfl

theorem ranAfter_le {early late : Nat} (order : early ≤ late) : ranAfter early ≤ ranAfter late := monotone_nat_of_le_succ ranAfter_mono order

theorem Between.skip (between : Between border scripts base round front (script :: back) live kernel) (idle : live script.pid = false) :
    Between border scripts base round (front ++ [script]) back live kernel := by
  obtain ⟨split, ⟨turns, ran, loaded, last, paced, before, after⟩, queue, ahead, behind, dropped⟩ := between
  have member : script ∈ scripts := split ▸ List.mem_append_right _ List.mem_cons_self
  have all := ahead script List.mem_cons_self idle
  have once := paced.shows.once
  rw [split, List.map_append, List.map_cons, List.nodup_append] at once
  have apart (other : Script) (there : other ∈ front) : other.pid ≠ script.pid :=
    once.2.2 _ (List.mem_map_of_mem there) _ List.mem_cons_self
  have apart' (other : Script) (there : other ∈ back) : other.pid ≠ script.pid := by
    intro same
    exact (List.nodup_cons.mp once.2.1).1 (same ▸ List.mem_map_of_mem there)
  refine ⟨?_, ⟨_, ran, loaded, last, paced.skip member (after script List.mem_cons_self) all, ?_, fun other there => ?_⟩, ?_,
    fun other there => ahead other (List.mem_cons_of_mem _ there), ?_, ?_⟩
  · rw [split, List.append_assoc]
    rfl
  · refine List.forall_mem_append.mpr ⟨fun other there => ?_, List.forall_mem_singleton.mpr (Function.update_self ..)⟩
    rw [Function.update_of_ne (apart other there)]
    exact before other there
  · rw [Function.update_of_ne (apart' other there)]
    exact after other (List.mem_cons_of_mem _ there)
  · rw [queue]
    simp [idle]
  · exact List.forall_mem_append.mpr ⟨behind, List.forall_mem_singleton.mpr fun _ => Nat.le_trans all (ranAfter_mono round)⟩
  · exact List.forall_mem_append.mpr ⟨dropped, List.forall_mem_singleton.mpr fun _ => idle⟩

theorem Between.head (between : Between border scripts base round front (script :: back) live kernel) (busy : live script.pid = true) :
    kernel.queue = script.pid :: ((back ++ front).filter fun script => live script.pid).map Script.pid := by
  rw [between.queue, List.cons_append, List.filter_cons, if_pos busy]
  rfl

variable (varStoreSize) in
theorem Between.turn (between : Between border scripts base round front (script :: back) live kernel) (busy : live script.pid = true)
    (fits : (scripts.map fun script => min 2 script.pages).sum ≤ border / 3)
    (obeys : ∀ script ∈ scripts, ∀ text ∈ script.texts, Obeys border parseInput effect text) :
    ∃ kernel' live', turnRr border varStoreSize parseInput kernel = some (⟨⟩, kernel') ∧
      kernel'.outside border = applied effect (script.turnLines round) (kernel.outside border) ∧
      Brief script.pid 2 kernel.history kernel'.history ∧
      Between border scripts base round (front ++ [script]) back live' kernel' := by
  have head := between.head busy
  obtain ⟨split, ⟨turns, ran, loaded, last, paced, before, after⟩, queue, ahead, behind, dropped⟩ := between
  have member : script ∈ scripts := split ▸ List.mem_append_right _ List.mem_cons_self
  have once := paced.shows.once
  rw [split, List.map_append, List.map_cons, List.nodup_append] at once
  have apart (other : Script) (there : other ∈ front) : other.pid ≠ script.pid :=
    once.2.2 _ (List.mem_map_of_mem there) _ List.mem_cons_self
  have apart' (other : Script) (there : other ∈ back) : other.pid ≠ script.pid := by
    intro same
    exact (List.nodup_cons.mp once.2.1).1 (same ▸ List.mem_map_of_mem there)
  obtain ⟨kernel', ran', loaded', last', ran₁, queued, vars, brief, paced'⟩ := paced.turn varStoreSize member
    (after script List.mem_cons_self) head fits (obeys script member)
  have turnsBefore : ∀ other ∈ front ++ [script], Function.update turns script.pid (round + 1) other.pid = round + 1 := by
    refine List.forall_mem_append.mpr ⟨fun other there => ?_, List.forall_mem_singleton.mpr (Function.update_self ..)⟩
    rw [Function.update_of_ne (apart other there)]
    exact before other there
  have turnsAfter : ∀ other ∈ back, Function.update turns script.pid (round + 1) other.pid = round := by
    intro other there
    rw [Function.update_of_ne (apart' other there)]
    exact after other (List.mem_cons_of_mem _ there)
  have whole : scripts = (front ++ [script]) ++ back := by
    rw [split, List.append_assoc]
    rfl
  have performed : kernel'.outside border = applied effect (script.turnLines round) (kernel.outside border) := by
    rw [vars, applied, Script.turnLines, List.foldl_map]
  rcases queued with ⟨again, more⟩ | ⟨gone, all⟩
  · refine ⟨kernel', live, ran₁, performed, brief, whole, ⟨_, _, _, _, paced', turnsBefore, turnsAfter⟩, ?_,
      fun other there => ahead other (List.mem_cons_of_mem _ there), ?_, ?_⟩
    · rw [again, ← List.append_assoc, List.filter_append (back ++ front), List.map_append, List.filter_cons, if_pos busy]
      rfl
    · refine List.forall_mem_append.mpr ⟨behind, List.forall_mem_singleton.mpr fun idle => ?_⟩
      rw [busy] at idle
      cases idle
    · exact List.forall_mem_append.mpr ⟨dropped, List.forall_mem_singleton.mpr fun all => by omega⟩
  · have same (other : Script) (there : other ∈ back ++ front) : Function.update live script.pid false other.pid = live other.pid := by
      rcases List.mem_append.mp there with there | there
      · exact Function.update_of_ne (apart' other there) ..
      · exact Function.update_of_ne (apart other there) ..
    refine ⟨kernel', Function.update live script.pid false, ran₁, performed, brief, whole, ⟨_, _, _, _, paced', turnsBefore, turnsAfter⟩, ?_,
      fun other there idle => ?_, ?_, ?_⟩
    · rw [gone, ← List.append_assoc, List.filter_append (back ++ front), List.map_append, List.filter_cons, Function.update_self]
      rw [List.filter_congr same]
      simp
    · rw [same other (List.mem_append_left _ there)] at idle
      exact ahead other (List.mem_cons_of_mem _ there) idle
    · refine List.forall_mem_append.mpr ⟨fun other there idle => ?_, List.forall_mem_singleton.mpr fun _ => all⟩
      rw [same other (List.mem_append_right _ there)] at idle
      exact behind other there idle
    · refine List.forall_mem_append.mpr ⟨fun other there none => ?_, List.forall_mem_singleton.mpr fun _ => Function.update_self ..⟩
      rw [same other (List.mem_append_right _ there)]
      exact dropped other there none

theorem Between.next (between : Between border scripts base round front [] live kernel) : Between border scripts base (round + 1) [] scripts live kernel := by
  obtain ⟨split, ⟨turns, ran, loaded, last, paced, before, after⟩, queue, ahead, behind, dropped⟩ := between
  rw [List.append_nil] at split
  subst split
  refine ⟨rfl, ⟨turns, ran, loaded, last, ⟨paced.shows, paced.told, paced.recent.next, paced.length, fun script member _ => ?_, paced.counts, paced.used⟩,
    fun script member => absurd member List.not_mem_nil, before⟩, ?_, behind, fun script member => absurd member List.not_mem_nil,
    fun script member => absurd member List.not_mem_nil⟩
  · rw [before script member]
  · rw [queue, List.append_nil]
    rfl

/-- The run comes to its end. It has run these lines, and left no frame in use. -/
def EndsWith (border varStoreSize : Nat) (parseInput : CString → K ω Int) (effect : CString → ShellMemory × ω → ShellMemory × ω)
    (scripts : List Script) (base : List Event) (fuel : Nat) (kernel : KernelState ω) (lines : List (Nat × CString)) : Prop :=
  ∃ system events, runProcRr border varStoreSize parseInput fuel kernel =
      some (⟨⟩, ⟨system, [], [], [], (applied effect lines (kernel.outside border)).2, base ++ events⟩) ∧
    Finished scripts events ∧ (∀ slot < border, system.memory slot = blank) ∧
    ∀ i, varsOf border system.memory i = if border / 3 ≤ (scripts.map Script.pages).sum ∧ border + i < 3 * (border / 3) + 2 then blank
      else (applied effect lines (kernel.outside border)).1 i

/-- What is still to be run of this round, and of so many more. -/
def leftOver (scripts back : List Script) (round left : Nat) : List (Nat × CString) :=
  back.flatMap (Script.turnLines · round) ++ (List.range' (round + 1) left).flatMap fun round => scripts.flatMap (Script.turnLines · round)

theorem leftOver_nil {left : Nat} (all : ∀ script ∈ back, script.size ≤ ranAfter round) (all' : ∀ script ∈ scripts, script.size ≤ ranAfter (round + 1)) :
    leftOver scripts back round left = [] := by
  rw [leftOver, List.append_eq_nil_iff, List.flatMap_eq_nil_iff, List.flatMap_eq_nil_iff]
  refine ⟨fun script member => Script.turnLines_nil (all script member), fun later member => ?_⟩
  have order := (List.mem_range'_1.mp member).1
  exact List.flatMap_eq_nil_iff.mpr fun script there => Script.turnLines_nil (Nat.le_trans (all' script there) (ranAfter_le order))

/-- Where every process in the queue is done, there is nothing left to run. -/
theorem Between.ends (between : Between border scripts base round front back live kernel) (room : 3 ≤ border) {fuel left : Nat}
    (done : Kernel.queueDone kernel.queue kernel = some (true, kernel)) :
    EndsWith border varStoreSize parseInput effect scripts base (fuel + 1) kernel (leftOver scripts back round left) := by
  obtain ⟨split, ⟨turns, ran, loaded, last, paced, before, after⟩, queue, ahead, behind, dropped⟩ := between
  have known (pid : Nat) (listed : pid ∈ kernel.queue) : ∃ script ∈ scripts, script.pid = pid := by
    rw [queue] at listed
    obtain ⟨script, member, same⟩ := List.mem_map.mp listed
    refine ⟨script, ?_, same⟩
    have among := List.mem_of_mem_filter member
    rw [split]
    exact List.mem_append.mpr (List.mem_append.mp among).symm
  obtain ⟨_, ran', all, -⟩ := paced.shows.queueDone known
  cases done.symm.trans ran'
  have finished (script : Script) (member : script ∈ scripts) : script.size ≤ ranAfter (turns script.pid) := by
    cases busy : live script.pid with
    | true =>
      have listed : script.pid ∈ kernel.queue := by
        rw [queue]
        refine List.mem_map_of_mem (List.mem_filter.mpr ⟨?_, busy⟩)
        rw [split] at member
        exact List.mem_append.mpr (List.mem_append.mp member).symm
      have count := all rfl script member listed
      rw [(paced.counts script member not_false).1, ranOf] at count
      omega
    | false =>
      rw [split] at member
      rcases List.mem_append.mp member with there | there
      · rw [before script there]
        exact behind script there busy
      · rw [after script there]
        exact ahead script there busy
  have rest : leftOver scripts back round left = [] := by
    refine leftOver_nil (fun script there => ?_) fun script member => ?_
    · have count := finished script (split ▸ List.mem_append_right _ there)
      rwa [after script there] at count
    · refine Nat.le_trans (finished script member) (ranAfter_le ?_)
      rw [split] at member
      rcases List.mem_append.mp member with there | there
      · rw [before script there]
      · rw [after script there]
        exact Nat.le_succ round
  have loaded' (script : Script) (member : script ∈ scripts) : loaded script.pid = script.pages :=
    (paced.counts script member not_false).2.trans (loadedOf_all (finished script member))
  obtain ⟨system, freed, clean, vars⟩ := paced.shows.free varStoreSize loaded' paced.length room
  obtain ⟨events, since, told⟩ := paced.told
  refine ⟨system, events, ?_, told.finished fun script member => ⟨?_, loaded' script member⟩, clean, fun i => ?_⟩
  · rw [runProcRr, run_bind (get_run _), run_bind done, if_pos rfl, run_bind freed, rest, ← since]
    rfl
  · rw [(paced.counts script member not_false).1, ranOf_all (finished script member)]
  · rw [rest]
    exact vars i

theorem leftOver_cons (left : Nat) : leftOver scripts (script :: back) round left = script.turnLines round ++ leftOver scripts back round left := by
  rw [leftOver, List.flatMap_cons, List.append_assoc, leftOver]

theorem applied_append (first second : List (Nat × CString)) (outside : ShellMemory × ω) :
    applied effect (first ++ second) outside = applied effect second (applied effect first outside) := List.foldl_append

theorem EndsWith.turn {fuel : Nat} {kernel' : KernelState ω} {first later : List (Nat × CString)}
    (done : Kernel.queueDone kernel.queue kernel = some (false, kernel)) (ran' : turnRr border varStoreSize parseInput kernel = some (⟨⟩, kernel'))
    (vars : kernel'.outside border = applied effect first (kernel.outside border))
    (rest : EndsWith border varStoreSize parseInput effect scripts base fuel kernel' later) :
    EndsWith border varStoreSize parseInput effect scripts base (fuel + 1) kernel (first ++ later) := by
  obtain ⟨system, events, ends, finished, clean, final⟩ := rest
  rw [EndsWith, applied_append, ← vars]
  refine ⟨system, events, ?_, finished, clean, final⟩
  rw [runProcRr, run_bind (get_run _), run_bind done, if_neg Bool.false_ne_true, run_bind ran']
  exact ends

section Loop
variable (room : 3 ≤ border) (fits : (scripts.map fun script => min 2 script.pages).sum ≤ border / 3)
  (obeys : ∀ script ∈ scripts, ∀ text ∈ script.texts, Obeys border parseInput effect text)
include room fits obeys

theorem Between.wholeRound {left : Nat} (after : ∀ front live kernel fuel, Between border scripts base round front [] live kernel → left * scripts.length < fuel →
      EndsWith border varStoreSize parseInput effect scripts base fuel kernel (leftOver scripts [] round left)) (fuel : Nat)
    (between : Between border scripts base round front back live kernel) (fueled : left * scripts.length + back.length < fuel) :
    EndsWith border varStoreSize parseInput effect scripts base fuel kernel (leftOver scripts back round left) := by
  induction back generalizing front live kernel fuel with
  | nil => exact after front live kernel fuel between fueled
  | cons script back ih =>
    rw [List.length_cons] at fueled
    cases busy : live script.pid with
    | false =>
      rw [leftOver_cons, Script.turnLines_nil (between.ahead script List.mem_cons_self busy), List.nil_append]
      exact ih fuel (between.skip busy) (by omega)
    | true =>
      obtain ⟨fuel, rfl⟩ := Nat.exists_eq_succ_of_ne_zero (show fuel ≠ 0 by omega)
      obtain ⟨turns, ran, loaded, last, paced, -, -⟩ := between.paced
      have known (pid : Nat) (listed : pid ∈ kernel.queue) : ∃ script ∈ scripts, script.pid = pid := by
        rw [between.queue] at listed
        obtain ⟨script, member, same⟩ := List.mem_map.mp listed
        refine ⟨script, ?_, same⟩
        rw [between.split]
        exact List.mem_append.mpr (List.mem_append.mp (List.mem_of_mem_filter member)).symm
      obtain ⟨done, asked, -, -⟩ := paced.shows.queueDone known
      cases done with
      | true => exact between.ends room asked
      | false =>
        obtain ⟨kernel', live', ran', vars, -, between'⟩ := between.turn varStoreSize busy fits obeys
        rw [leftOver_cons]
        exact .turn asked ran' vars (ih fuel between' (by omega))

variable (varStoreSize) in
/-- From any turn on, the lines that are left are run in their order. -/
theorem Between.runs {rounds : Nat} (enough : ∀ script ∈ scripts, script.size ≤ ranAfter rounds) (left fuel : Nat)
    (between : Between border scripts base round front back live kernel) (order : rounds ≤ round + left)
    (fueled : left * scripts.length + back.length < fuel) :
    EndsWith border varStoreSize parseInput effect scripts base fuel kernel (leftOver scripts back round left) := by
  induction left generalizing round front back live kernel fuel with
  | zero =>
    refine between.wholeRound room fits obeys (fun front live kernel fuel between fueled => ?_) fuel fueled
    -- in the last round everybody has left the queue
    obtain ⟨fuel, rfl⟩ := Nat.exists_eq_succ_of_ne_zero (show fuel ≠ 0 by omega)
    have none : kernel.queue = [] := by
      rw [between.queue, List.map_eq_nil_iff, List.filter_eq_nil_iff]
      intro script member
      rw [List.nil_append] at member
      have all := enough script (between.split ▸ List.mem_append_left _ member)
      rw [between.dropped script member (Nat.le_trans all (ranAfter_le order))]
      exact Bool.false_ne_true
    refine between.ends room ?_
    rw [none]
    rfl
  | succ left ih =>
    refine between.wholeRound room fits obeys (fun front live kernel fuel between fueled => ?_) fuel fueled
    have rest := ih fuel between.next (by omega) (by rwa [Nat.succ_mul] at fueled)
    rw [leftOver] at rest ⊢
    rw [List.range'_succ, List.flatMap_cons]
    exact rest

end Loop

/-- The head of the queue is the next one of the round that has not left it, -/
theorem Between.ahead_or_end (between : Between border scripts base round front back live kernel) :
    (∃ front' script back', Between border scripts base round front' (script :: back') live kernel ∧ live script.pid = true) ∨
      (∀ script ∈ back, live script.pid = false) ∧ ∃ front', Between border scripts base round front' [] live kernel := by
  induction back generalizing front with
  | nil => exact .inr ⟨fun script member => absurd member List.not_mem_nil, front, between⟩
  | cons script back ih =>
    cases busy : live script.pid with
    | true => exact .inl ⟨front, script, back, between, busy⟩
    | false => exact (ih (between.skip busy)).imp_right fun ⟨idle, rest⟩ => ⟨List.forall_mem_cons.mpr ⟨busy, idle⟩, rest⟩

theorem Between.ahead_next (between : Between border scripts base round front back live kernel) (waiting : kernel.queue ≠ []) :
    ∃ round front script back, Between border scripts base round front (script :: back) live kernel ∧ live script.pid = true := by
  rcases between.ahead_or_end with ⟨front, script, back, next, busy⟩ | ⟨-, _, ended⟩
  · exact ⟨round, front, script, back, next, busy⟩
  rcases ended.next.ahead_or_end with ⟨front, script, back, next, busy⟩ | ⟨idle, -⟩
  · exact ⟨round + 1, front, script, back, next, busy⟩
  -- nobody is left
  refine absurd ?_ waiting
  rw [ended.next.queue, List.append_nil, List.map_eq_nil_iff, List.filter_eq_nil_iff]
  intro script member
  rw [idle script member]
  exact Bool.false_ne_true

end Rounds

end Comp310.Kernel
