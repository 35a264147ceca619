import Comp310.Kernel.NewProcs
import Comp310.Kernel.ParseInput
import Comp310.Kernel.RoundRuns

/-! Scripts under round robin: every line is run once, in its place, and no page is evicted that is still needed. -/

namespace Comp310.Proofs.RoundRobin
open Comp310.Lib Comp310.Kernel

/-- No script is being run, and no frame is in use. -/
structure Idle {ω : Type} (border : Nat) (kernel : KernelState ω) : Prop where
  queue : kernel.queue = []
  lruCache : kernel.lruCache = []
  allPcb : kernel.allPcb = []
  frames : ∀ slot < border, kernel.system.memory slot = blank

variable {border varStoreSize : Nat} {pid : Nat} {script : Script} {scripts : List Script} {ran loaded : Nat → Nat} {ω : Type} {kernel : KernelState ω}
  {parseInput : CString → K ω Int} {effect : CString → ShellMemory × ω → ShellMemory × ω} {base : List Event}

section Schedule

theorem turn_other (round : Nat) (differs : script.pid ≠ pid) : ((script.turnLines round).filter fun line => line.1 == pid) = [] := by
  refine List.filter_eq_nil_iff.mpr fun line member => ?_
  obtain ⟨text, _, rfl⟩ := List.mem_map.mp member
  exact fun same => differs (eq_of_beq same)

theorem round_script (once : (scripts.map Script.pid).Nodup) (member : script ∈ scripts) (round : Nat) :
    ((scripts.flatMap fun script => script.turnLines round).filter fun line => line.1 == script.pid).map Prod.snd = script.turnTexts round := by
  induction scripts with
  | nil => cases member
  | cons first rest ih =>
    obtain ⟨apart, once⟩ := List.nodup_cons.mp once
    rw [List.flatMap_cons, List.filter_append, List.map_append]
    rcases List.mem_cons.mp member with rfl | later
    · have others : ((rest.flatMap fun script => script.turnLines round).filter fun line => line.1 == script.pid) = [] := by
        rw [List.filter_flatMap, List.flatMap_eq_nil_iff]
        exact fun other there => turn_other round fun same => apart (List.mem_map.mpr ⟨other, there, same⟩)
      have mine : ((script.turnLines round).filter fun line => line.1 == script.pid) = script.turnLines round := by
        refine List.filter_eq_self.mpr fun line member => ?_
        obtain ⟨text, _, rfl⟩ := List.mem_map.mp member
        exact beq_self_eq_true _
      rw [others, mine, Script.turnLines, List.map_map, List.map_nil, List.append_nil]
      exact List.map_id _
    · have differs : first.pid ≠ script.pid := fun same => apart (List.mem_map.mpr ⟨script, later, same.symm⟩)
      rw [turn_other round differs]
      exact ih once later

theorem schedule_script (once : (scripts.map Script.pid).Nodup) (member : script ∈ scripts) (rounds : Nat) :
    ((schedule scripts rounds).filter fun line => line.1 == script.pid).map Prod.snd = script.texts.take (ranOf script.size rounds) := by
  induction rounds with
  | zero =>
    rw [show ranOf script.size 0 = 0 from Nat.min_zero _]
    rfl
  | succ rounds ih =>
    have order : ranOf script.size rounds ≤ ranOf script.size (rounds + 1) := by
      have mono := ranAfter_mono rounds
      rw [ranOf, ranOf]
      omega
    have earlier : script.texts.take (ranOf script.size rounds) = (script.texts.take (ranOf script.size (rounds + 1))).take (ranOf script.size rounds) := by
      rw [List.take_take, Nat.min_eq_left order]
    rw [schedule, List.range_succ, List.flatMap_append, List.flatMap_singleton, List.filter_append, List.map_append, round_script once member]
    rw [schedule] at ih
    rw [ih, earlier, Script.turnTexts, List.take_append_drop]

end Schedule

section Starting

/-- The scripts have been added since the history was `base`, and none of them has had a turn. -/
structure Added {ω : Type} (border : Nat) (scripts : List Script) (base : List Event) (kernel : KernelState ω) : Prop where
  shows : ∃ ran loaded, Shows border scripts ran loaded kernel ∧
    (∃ events, kernel.history = base ++ events ∧ Told scripts ran loaded events) ∧ ∀ script ∈ scripts, ran script.pid = 0 ∧ loaded script.pid = min 2 script.pages
  queue : kernel.queue = scripts.map Script.pid
  known : ∀ script ∈ scripts, script.pid < kernel.system.pidCounter
  length : kernel.lruCache.length = (scripts.map fun script => min 2 script.pages).sum

theorem Idle.added (idle : Idle border kernel) : Added border [] kernel.history kernel := by
  have untaken (slot : Nat) (inside : slot < border) : ¬ Taken kernel.system.memory slot := by
    unfold Taken
    rw [idle.frames slot inside]
    exact not_not.mpr rfl
  refine ⟨⟨fun _ => 0, fun _ => 0, ?_, ⟨[], (List.append_nil _).symm, .nil ..⟩, fun script member => absurd member List.not_mem_nil⟩, idle.queue, fun script member => absurd member List.not_mem_nil, ?_⟩
  · refine ⟨idle.allPcb, List.nodup_nil, fun script member => absurd member List.not_mem_nil, fun script member => absurd member List.not_mem_nil, ?_, ?_, ?_,
      fun script member => absurd member List.not_mem_nil, fun script member => absurd member List.not_mem_nil, fun script member => absurd member List.not_mem_nil⟩
    · rw [idle.lruCache]
      exact ⟨.nil untaken, fun page member => absurd member List.not_mem_nil, fun page member => absurd member List.not_mem_nil,
        fun slot inside _ => idle.frames slot inside⟩
    · rw [idle.lruCache]
      exact fun entry member => absurd member List.not_mem_nil
    · rw [idle.lruCache]
      exact fun entry member => absurd member List.not_mem_nil
  · rw [idle.lruCache]
    rfl

variable (varStoreSize) in
theorem Added.more (added : Added border scripts base kernel) (next : script.pid = kernel.system.pidCounter)
    (room : ((scripts ++ [script]).map fun script => min 2 script.pages).sum ≤ border / 3) : ∃ kernel',
    newProc border varStoreSize (script.file) kernel = some (⟨⟩, kernel') ∧ kernel'.system.pidCounter = kernel.system.pidCounter + 1 ∧
      kernel'.outside border = kernel.outside border ∧ Added border (scripts ++ [script]) base kernel' := by
  obtain ⟨⟨ran, loaded, shows, ⟨events, since, told⟩, zero⟩, queue, known, length⟩ := added
  have fresh (other : Script) (there : other ∈ scripts) : other.pid ≠ script.pid := by
    rw [next]
    exact Nat.ne_of_lt (known other there)
  rw [List.map_append, List.sum_append, List.map_singleton, List.sum_singleton] at room
  obtain ⟨kernel', ran', queued, counted, grown, behind, later, shows'⟩ := shows.newProc varStoreSize fresh next (by omega)
  refine ⟨kernel', ran', counted, behind, ⟨_, _, shows', ⟨_, ?_, told.start fresh _⟩, ?_⟩, ?_, ?_, ?_⟩
  · rw [later, since, List.append_assoc]
  · refine List.forall_mem_append.mpr ⟨fun other there => ?_, List.forall_mem_singleton.mpr ?_⟩
    · rw [Function.update_of_ne (fresh other there), Function.update_of_ne (fresh other there)]
      exact zero other there
    · rw [Function.update_self, Function.update_self]
      exact ⟨rfl, rfl⟩
  · rw [queued, queue, List.map_append, List.map_singleton]
  · rw [counted]
    exact List.forall_mem_append.mpr ⟨fun other there => Nat.lt_succ_of_lt (known other there), List.forall_mem_singleton.mpr (by omega)⟩
  · rw [grown, length, List.map_append, List.sum_append, List.map_singleton, List.sum_singleton]

variable (varStoreSize) in
theorem Added.all {before : List Script} (added : Added border before base kernel)
    (ids : scripts.map Script.pid = List.range' kernel.system.pidCounter scripts.length)
    (room : ((before ++ scripts).map fun script => min 2 script.pages).sum ≤ border / 3) : ∃ kernel',
    newProcs border varStoreSize (scripts.map Script.file) kernel = some (⟨⟩, kernel') ∧
      kernel'.system.pidCounter = kernel.system.pidCounter + scripts.length ∧
      kernel'.outside border = kernel.outside border ∧ Added border (before ++ scripts) base kernel' := by
  induction scripts generalizing before kernel with
  | nil => exact ⟨kernel, rfl, rfl, rfl, by rwa [List.append_nil]⟩
  | cons script rest ih =>
    rw [List.map_cons, List.length_cons, List.range'_succ, List.cons.injEq] at ids
    have whole : before ++ script :: rest = (before ++ [script]) ++ rest := by
      rw [List.append_assoc]
      rfl
    rw [whole] at room ⊢
    have first : ((before ++ [script]).map fun script => min 2 script.pages).sum ≤ border / 3 := by
      rw [List.map_append, List.sum_append] at room
      omega
    obtain ⟨middle, ran₁, counted₁, vars₁, added₁⟩ := added.more varStoreSize ids.1 first
    obtain ⟨kernel', ran₂, counted₂, vars₂, added₂⟩ := ih added₁ (by rw [counted₁]; exact ids.2) room
    refine ⟨kernel', ?_, ?_, vars₂.trans vars₁, added₂⟩
    · rw [List.map_cons, newProcs, run_bind ran₁]
      exact ran₂
    · rw [counted₂, counted₁, List.length_cons]
      omega

theorem Added.between (added : Added border scripts base kernel) (fits : (scripts.map fun script => min 2 script.pages).sum ≤ border / 3) :
    Between border scripts base 0 [] scripts (fun _ => true) kernel := by
  obtain ⟨⟨ran, loaded, shows, told, zero⟩, queue, known, length⟩ := added
  have sum : total scripts loaded = (scripts.map fun script => min 2 script.pages).sum :=
    congrArg List.sum (List.map_congr_left fun script member => (zero script member).2)
  refine ⟨rfl, ⟨fun _ => 0, ran, loaded, fun _ => 0, ⟨shows, told, ⟨?_, fun entry _ => Nat.zero_le _, fun entry _ late => absurd late (by decide)⟩, ?_,
    fun script _ _ => Nat.le_refl _, fun script member _ => ?_, fun script _ _ j _ _ late => absurd late (by decide)⟩,
    fun script member => absurd member List.not_mem_nil, fun script _ => rfl⟩, ?_, fun script _ idle => absurd idle (by decide),
    fun script member => absurd member List.not_mem_nil, fun script member => absurd member List.not_mem_nil⟩
  · exact List.pairwise_of_forall fun _ _ => Nat.le_refl 0
  · rw [length, sum]
    omega
  · obtain ⟨none, first⟩ := zero script member
    rw [none, first]
    exact ⟨(Nat.min_zero _).symm, Nat.min_comm ..⟩
  · rw [queue, List.append_nil, List.filter_true]

end Starting

/-- Enough frames for the first two pages of each script. -/
def Fits (border : Nat) (scripts : List Script) : Prop := (scripts.map fun script => min 2 script.pages).sum ≤ border / 3

theorem schedule_more (rounds more : Nat) (enough : ∀ script ∈ scripts, script.size ≤ ranAfter rounds) :
    schedule scripts (rounds + more) = schedule scripts rounds := by
  induction more with
  | zero => rfl
  | succ more ih =>
    have last : (scripts.flatMap fun script => script.turnLines (rounds + more)) = [] :=
      List.flatMap_eq_nil_iff.mpr fun script member =>
        Script.turnLines_nil (Nat.le_trans (enough script member) (ranAfter_le (Nat.le_add_right ..)))
    rw [schedule] at ih
    rw [← Nat.add_assoc, schedule, List.range_succ, List.flatMap_append, List.flatMap_singleton, last, List.append_nil]
    exact ih

theorem schedule_enough {rounds rounds' : Nat} (enough : ∀ script ∈ scripts, script.size ≤ ranAfter rounds)
    (enough' : ∀ script ∈ scripts, script.size ≤ ranAfter rounds') : schedule scripts rounds = schedule scripts rounds' := by
  rcases Nat.le_total rounds rounds' with order | order
  · obtain ⟨more, rfl⟩ := Nat.exists_eq_add_of_le order
    exact (schedule_more rounds more enough).symm
  · obtain ⟨more, rfl⟩ := Nat.exists_eq_add_of_le order
    exact schedule_more rounds' more enough'

theorem leftOver_all (rounds : Nat) (enough : ∀ script ∈ scripts, script.size ≤ ranAfter rounds) :
    leftOver scripts scripts 0 rounds = schedule scripts rounds := by
  have whole : leftOver scripts scripts 0 rounds = schedule scripts (rounds + 1) := by
    rw [schedule, List.range_eq_range', List.range'_succ, List.flatMap_cons]
    rfl
  exact whole.trans (schedule_more rounds 1 enough)

theorem fits_room (nonempty : scripts ≠ []) (fits : Fits border scripts) : 3 ≤ border := by
  obtain ⟨script, rest, rfl⟩ := List.exists_cons_of_ne_nil nonempty
  have filled := script.size_pos
  have pages := pageTableSize_eq script.size
  rw [Fits, List.map_cons, List.sum_cons, Script.pages] at fits
  omega

/-- A script has at most as many rounds as lines. -/
theorem covered (scripts : List Script) : ∀ script ∈ scripts, script.size ≤ ranAfter (scripts.map Script.size).sum := by
  intro script member
  have bound := List.single_le_sum (fun _ _ => Nat.zero_le _) script.size (List.mem_map_of_mem (f := Script.size) member)
  refine Nat.le_trans bound ?_
  unfold ranAfter
  repeat' split
  all_goals omega

variable (varStoreSize) in
theorem Added.ends (added : Added border scripts base kernel) (nonempty : scripts ≠ []) (fits : Fits border scripts)
    (obeys : ∀ script ∈ scripts, ∀ text ∈ script.texts, Obeys border parseInput effect text) (fuel : Nat)
    (fueled : (scripts.map Script.size).sum * scripts.length + scripts.length < fuel) :
    EndsWith border varStoreSize parseInput effect scripts base fuel kernel (schedule scripts (scripts.map Script.size).sum) := by
  rw [← leftOver_all _ (covered scripts)]
  exact (added.between fits).runs varStoreSize (fits_room nonempty fits) fits obeys (covered scripts) _ fuel (by omega) fueled

/-- `exec` with round robin comes to its end and leaves no frame in use. Round after round each script has run its next lines: all of them once,
in their order, as far as the variables tell. If all frames were in use, the first variables are cleared with the last frame. -/
theorem exec_round_robin (nonempty : scripts ≠ []) (few : scripts.length ≤ 3) (fits : Fits border scripts)
    (obeys : ∀ script ∈ scripts, ∀ text ∈ script.texts, Obeys border parseInput effect text) :
    ∃ enough, ∀ fuel ≥ enough, ∀ kernel, Idle border kernel → scripts.map Script.pid = List.range' kernel.system.pidCounter scripts.length →
      ∃ kernel', exec border varStoreSize parseInput fuel (scripts.map Script.file) rrText kernel = some (0, kernel') ∧
        (∀ script, scripts = [script] → run border varStoreSize parseInput fuel (script.file) kernel = some (0, kernel')) ∧
        Idle border kernel' ∧ ∀ rounds, (∀ script ∈ scripts, script.size ≤ ranAfter rounds) →
          (∀ i, varsOf border kernel'.system.memory i =
            if border / 3 ≤ (scripts.map Script.pages).sum ∧ border + i < 3 * (border / 3) + 2 then blank
            else (applied effect (schedule scripts rounds) (kernel.outside border)).1 i) ∧
          kernel'.world = (applied effect (schedule scripts rounds) (kernel.outside border)).2 ∧
          ∀ script ∈ scripts, ((schedule scripts rounds).filter fun line => line.1 == script.pid).map Prod.snd = script.texts := by
  refine ⟨(scripts.map Script.size).sum * scripts.length + scripts.length + 1, fun fuel fueled kernel idle ids => ?_⟩
  obtain ⟨middle, added, counted, vars, ready⟩ := idle.added.all varStoreSize ids fits
  rw [List.nil_append] at ready
  obtain ⟨_, _, shows, -, -⟩ := ready.shows
  obtain ⟨system, events, ran', -, clean, final⟩ := ready.ends varStoreSize nonempty fits obeys fuel fueled
  rw [vars] at ran' final
  refine ⟨⟨system, [], [], [], (applied effect (schedule scripts (scripts.map Script.size).sum) (kernel.outside border)).2, kernel.history ++ events⟩,
    ?_, ?_, ⟨rfl, rfl, rfl, clean⟩, fun rounds enough => ⟨fun i => ?_, ?_, fun script member => ?_⟩⟩
  · have short : ¬ (scripts.map Script.file).length > 3 := by
      rw [List.length_map]
      omega
    rw [exec, if_neg short, run_bind added, if_neg (by decide), if_pos rfl, run_bind ran']
    rfl
  · rintro script rfl
    obtain ⟨_, after, first, last⟩ := bind_some added
    cases last
    rw [run, run_bind first, run_bind ran']
    rfl
  · rw [schedule_enough enough (covered scripts)]
    exact final i
  · rw [schedule_enough enough (covered scripts)]
  · rw [schedule_script shows.once member, ranOf_all (enough script member)]
    refine List.take_of_length_le ?_
    rw [Script.texts, List.length_map]
    exact Nat.le_refl _

section Set

/-- A `set` of one name and one word, as `parseInput` runs it. -/
def setLine (border varStoreSize : Nat) : CString → K Unit Int := fun line kernel =>
  let words := sectionWords (line.takeWhile (· != 10))
  some (0, { kernel with system := { kernel.system with
    memory := memSetValue border varStoreSize (words.getD 1 []) (words.getD 2 []) kernel.system.memory } })

theorem setLine_obeys (border varStoreSize : Nat) (text : CString) : Obeys border (setLine border varStoreSize)
    (fun line outside => (memSetValue 0 varStoreSize ((sectionWords (line.takeWhile (· != 10))).getD 1 [])
      ((sectionWords (line.takeWhile (· != 10))).getD 2 []) outside.1, outside.2)) text := by
  intro kernel
  exact ⟨0, _, _, rfl, by decide, fun slot frame => memSetValue_frame frame, Prod.ext (memSetValue_vars ..) rfl⟩

end Set

/-- `"set x "` and a digit. -/
def setDigit (digit : UInt8) : List UInt8 := [115, 101, 116, 32, 120, 32, digit]

def sevenLines : Script :=
  .plain 1 [setDigit 49, setDigit 50, setDigit 51, setDigit 52, setDigit 53, setDigit 54, setDigit 55] (by decide) (by unfold Plain; decide)

def oneLine : Script := .plain 2 [setDigit 48] (by decide) (by unfold Plain; decide)

/-- Four pages in three frames. -/
theorem exec_round_robin_seven : ∃ enough, ∀ fuel ≥ enough, ∃ kernel',
    exec 9 4 (setLine 9 4) fuel [sevenLines.file, oneLine.file] rrText (kernelSetup ()) = some (0, kernel') ∧
      Idle 9 kernel' := by
  obtain ⟨enough, runs⟩ := @exec_round_robin 9 4 [sevenLines, oneLine] Unit (setLine 9 4) _ (by decide) (by decide)
    (by unfold Fits; decide) fun script _ text _ => setLine_obeys 9 4 text
  refine ⟨enough, fun fuel bound => ?_⟩
  obtain ⟨kernel', ran', -, idle, -⟩ := runs fuel bound (kernelSetup ()) ⟨rfl, rfl, rfl, fun _ _ => rfl⟩ rfl
  exact ⟨kernel', ran', idle⟩

/-- Where the loop of `run_proc_RR` comes to between two turns. -/
inductive Turns {ω : Type} (border varStoreSize : Nat) (parseInput : CString → K ω Int) (start : KernelState ω) : KernelState ω → Prop
  | start : Turns border varStoreSize parseInput start start
  | turn {kernel kernel' : KernelState ω} (before : Turns border varStoreSize parseInput start kernel)
      (busy : queueDone kernel.queue kernel = some (false, kernel))
      (ran : turnRr border varStoreSize parseInput kernel = some (⟨⟩, kernel')) : Turns border varStoreSize parseInput start kernel'

/-- The process is on its way through the script: the lines of the pages that were loaded are read from the file, and a page with a line that is still
to be run has its frame, with its lines in it. -/
structure OnItsWay {ω : Type} (script : Script) (kernel : KernelState ω) : Prop where
  way : ∃ pcb ran loaded, kernel.system.pcb? script.pid = some pcb ∧ Progress script ran loaded pcb ∧
    ∀ j < loaded, ran < min script.size (3 * j + 3) → (script.pid, j) ∈ kernel.lruCache ∧
      ∃ page, pcb.pageTable[j]? = some page ∧ page.Resident ∧ script.Bears j page kernel.system.memory

theorem turns_between {kernel' : KernelState ω} (fits : Fits border scripts) (obeys : ∀ script ∈ scripts, ∀ text ∈ script.texts, Obeys border parseInput effect text)
    (added : Added border scripts base kernel) (turns : Turns border varStoreSize parseInput kernel kernel') :
    ∃ round front back live, Between border scripts base round front back live kernel' := by
  induction turns with
  | start => exact ⟨0, [], scripts, _, added.between fits⟩
  | @turn middle kernel' before busy ran ih =>
    obtain ⟨round, front, back, live, between⟩ := ih
    have waiting : middle.queue ≠ [] := by
      intro none
      rw [none] at busy
      cases busy
    obtain ⟨round, front, script, back, next, mine⟩ := between.ahead_next waiting
    obtain ⟨after, live', ran', -, -, between'⟩ := next.turn varStoreSize mine fits obeys
    cases ran.symm.trans ran'
    exact ⟨round, _, back, live', between'⟩

/-- No page is evicted that is still needed: from `exec` on, in every turn of every script. -/
theorem needed_pages_stay {kernel kernel' start : KernelState ω} (fits : Fits border scripts)
    (obeys : ∀ script ∈ scripts, ∀ text ∈ script.texts, Obeys border parseInput effect text) (idle : Idle border kernel)
    (ids : scripts.map Script.pid = List.range' kernel.system.pidCounter scripts.length)
    (added : newProcs border varStoreSize (scripts.map Script.file) kernel = some (⟨⟩, start))
    (turns : Turns border varStoreSize parseInput start kernel') : ∀ script ∈ scripts, OnItsWay script kernel' := by
  obtain ⟨middle, added', -, -, ready⟩ := idle.added.all varStoreSize ids fits
  cases added.symm.trans added'
  rw [List.nil_append] at ready
  obtain ⟨round, front, back, live, between⟩ := turns_between fits obeys ready turns
  obtain ⟨_, ran, loaded, _, paced, -, -⟩ := between.paced
  intro script member
  obtain ⟨pcb, found, progress⟩ := paced.shows.procs script member
  refine ⟨pcb, ran script.pid, loaded script.pid, found, progress, fun j below left => ?_⟩
  have listed := paced.shows.needed script member j below left
  obtain ⟨page, there, -, -⟩ := progress.there (Nat.lt_of_lt_of_le below (paced.shows.few script member))
  have same : kernel'.system.pageAt (script.pid, j) = page := pageAt_eq ((page?_eq found).trans there)
  have frame := paced.shows.frame listed
  have bears := paced.shows.borne script member j listed
  rw [same] at frame bears
  refine ⟨listed, page, there, ?_, bears⟩
  unfold Page.Resident
  rw [frame]
  exact ⟨rfl, rfl⟩

/-- So many turns, each with a process that is not done yet. -/
def turnsFrom (border varStoreSize : Nat) (parseInput : CString → K ω Int) : Nat → K ω PUnit
  | 0 => pure ⟨⟩
  | count + 1 => do
    let kernel ← get
    let done ← queueDone kernel.queue
    if done then fault
    else do
      turnRr border varStoreSize parseInput
      turnsFrom border varStoreSize parseInput count

theorem turnsFrom_turns {count : Nat} {start kernel' : KernelState ω} (before : Turns border varStoreSize parseInput start kernel)
    (ran : turnsFrom border varStoreSize parseInput count kernel = some (⟨⟩, kernel')) : Turns border varStoreSize parseInput start kernel' := by
  induction count generalizing kernel with
  | zero =>
    cases ran
    exact before
  | succ count ih =>
    obtain ⟨_, _, got, ran⟩ := bind_some ran
    cases got
    obtain ⟨done, _, asked, ran⟩ := bind_some ran
    obtain rfl := queueDone_same asked
    cases done with
    | true => cases ran
    | false =>
      obtain ⟨_, middle, turned, ran⟩ := bind_some ran
      exact ih (.turn before asked turned) ran

/-- In the fifth turn the last page of the first script takes the frame of the other, which is done. -/
theorem needed_pages_stay_seven : ∃ start kernel,
    newProcs 9 4 [sevenLines.file, oneLine.file] (kernelSetup ()) = some (⟨⟩, start) ∧
    Turns 9 4 (setLine 9 4) start kernel ∧ start.lruCache = [(2, 0), (1, 1), (1, 0)] ∧ kernel.lruCache = [(1, 2), (1, 1), (1, 0)] ∧
    OnItsWay sevenLines kernel ∧ OnItsWay oneLine kernel := by
  have idle : Idle 9 (kernelSetup ()) := ⟨rfl, rfl, rfl, fun _ _ => rfl⟩
  have fits : Fits 9 [sevenLines, oneLine] := by unfold Fits; decide
  let caches : K Unit (List (Nat × Nat) × List (Nat × Nat)) := do
    newProcs 9 4 [sevenLines.file, oneLine.file]
    let before ← get
    turnsFrom 9 4 (setLine 9 4) 5
    let after ← get
    pure (before.lruCache, after.lruCache)
  have shown : (caches (kernelSetup ())).map Prod.fst = some ([(2, 0), (1, 1), (1, 0)], [(1, 2), (1, 1), (1, 0)]) := by
    decide +kernel
  obtain ⟨_, ran, same⟩ := Option.map_eq_some_iff.mp shown
  obtain ⟨_, start, added, ran⟩ := bind_some ran
  obtain ⟨_, _, got, ran⟩ := bind_some ran
  cases got
  obtain ⟨_, kernel, turned, ran⟩ := bind_some ran
  cases ran
  obtain ⟨first, last⟩ := Prod.mk.inj same
  have turns := turnsFrom_turns .start turned
  have stays := needed_pages_stay fits (fun script _ text _ => setLine_obeys 9 4 text) idle rfl added turns
  exact ⟨start, kernel, added, turns, first, last, stays sevenLines List.mem_cons_self,
    stays oneLine (List.mem_cons_of_mem _ List.mem_cons_self)⟩

end Comp310.Proofs.RoundRobin
