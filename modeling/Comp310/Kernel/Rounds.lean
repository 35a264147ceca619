import Mathlib.Algebra.Order.Ring.Nat
import Mathlib.Algebra.Order.BigOperators.Group.List
import Comp310.Kernel.Paging

/-! Scripts that take turns. Nobody gets ahead of the others, so that the cache holds what they are at: where a page has to
go, it is one that is done with. -/

namespace Comp310.Kernel
open Comp310.Lib

/-- The lines that a process has run after so many turns, while it has as many. The first two pages take two lines a turn.
From then on a page takes two turns, with a turn at the first that is spent on loading. -/
def ranAfter (turns : Nat) : Nat := if turns ≤ 3 then 2 * turns else if turns % 2 = 0 then 3 * (turns / 2) else 3 * (turns / 2) + 2

/-- The pages that were loaded by then. -/
def loadedAfter (turns : Nat) : Nat := if turns ≤ 3 then 2 else turns / 2 + 1

/-- The lines of a script of this size that were run after so many turns. -/
def ranOf (size turns : Nat) : Nat := min size (ranAfter turns)

def loadedOf (size turns : Nat) : Nat := min (pageTableSize size) (loadedAfter turns)

/-- The lines that are run in a turn. -/
def Script.turnTexts (script : Script) (round : Nat) : List CString :=
  (script.texts.take (ranOf script.size (round + 1))).drop (ranOf script.size round)

/-- The cache is in the order of the rounds in which pages were used last, and a page is used in the rounds that are its own. -/
structure Recent (round : Nat) (last : Nat × Nat → Nat) (entries : List (Nat × Nat)) : Prop where
  sorted : entries.Pairwise fun newer older => last older ≤ last newer
  bound : ∀ entry ∈ entries, last entry ≤ round
  near : ∀ entry ∈ entries, 3 ≤ last entry → 2 * entry.2 ≤ last entry ∧ last entry ≤ 2 * entry.2 + 2

variable {border varStoreSize round i j : Nat} {script : Script} {scripts : List Script} {turns ran loaded : Nat → Nat}
  {last : Nat × Nat → Nat} {ω : Type} {kernel : KernelState ω} {entry : Nat × Nat} {entries kept : List (Nat × Nat)} {busy : Nat → Prop}
  {parseInput : CString → K ω Int} {effect : CString → ShellMemory × ω → ShellMemory × ω} {text : CString} {base : List Event}

section Recency

theorem Recent.touch (recent : Recent round last entries) (left : kept.Sublist entries) (fresh : entry ∉ kept)
    (near : 3 ≤ round → 2 * entry.2 ≤ round ∧ round ≤ 2 * entry.2 + 2) : Recent round (Function.update last entry round) (entry :: kept) := by
  have others {other : Nat × Nat} (member : other ∈ kept) : Function.update last entry round other = last other := by
    refine Function.update_of_ne ?_ ..
    rintro rfl
    exact fresh member
  refine ⟨List.pairwise_cons.mpr ⟨fun other member => ?_, ?_⟩, List.forall_mem_cons.mpr ⟨?_, fun other member => ?_⟩,
    List.forall_mem_cons.mpr ⟨?_, fun other member => ?_⟩⟩
  · rw [others member, Function.update_self]
    exact recent.bound other (left.subset member)
  · refine (recent.sorted.sublist left).imp_of_mem fun {newer older} member member' order => ?_
    rw [others member, others member']
    exact order
  · rw [Function.update_self]
  · rw [others member]
    exact recent.bound other (left.subset member)
  · rw [Function.update_self]
    exact near
  · rw [others member]
    exact recent.near other (left.subset member)

theorem Recent.next (recent : Recent round last entries) : Recent (round + 1) last entries :=
  ⟨recent.sorted, fun entry member => Nat.le_succ_of_le (recent.bound entry member), recent.near⟩

/-- When a page is to be loaded in its round and all frames are in use, the page that was not used for longest is done with.
The pages that are not were used in this round or the last one, and these are fewer than the frames. -/
theorem Recent.victim (recent : Recent (2 * i) last kernel.lruCache) (shows : Shows border scripts ran loaded kernel)
    (member : script ∈ scripts) (late : 2 ≤ i) (missing : loaded script.pid = i) (more : i < script.pages) (own : 3 * i ≤ ran script.pid)
    (used : ∀ other ∈ scripts, other.pid ≠ script.pid → ∀ j < loaded other.pid, ran other.pid < min other.size (3 * j + 3) →
      2 * i - 1 ≤ last (other.pid, j))
    (fits : (scripts.map fun script => min 2 script.pages).sum ≤ border / 3) (full : kernel.lruCache.length = border / 3) :
    ∃ victim ∈ scripts, ∃ front j, kernel.lruCache = front ++ [(victim.pid, j)] ∧ min victim.size (3 * j + 3) ≤ ran victim.pid := by
  -- the pages that may have been used in the last two rounds
  let recents (script : Script) : List (Nat × Nat) := ([i - 1, i].filter (· < loaded script.pid)).map fun j => (script.pid, j)
  have few (other : Script) (there : other ∈ scripts) : (recents other).length ≤ min 2 other.pages := by
    have bound := shows.few other there
    simp only [recents, List.length_map, List.filter_cons, List.filter_nil, decide_eq_true_eq]
    split <;> split <;> simp only [List.length_cons, List.length_nil] <;> omega
  have fewer : (recents script).length < min 2 script.pages := by
    simp only [recents, List.length_map, List.filter_cons, List.filter_nil, decide_eq_true_eq]
    rw [if_pos (by omega), if_neg (by omega)]
    simp only [List.length_cons, List.length_nil]
    omega
  have count : ((scripts.map fun script => (recents script).length)).sum < (scripts.map fun script => min 2 script.pages).sum :=
    List.sum_lt_sum _ _ few ⟨script, member, fewer⟩
  rcases List.eq_nil_or_concat kernel.lruCache with none | ⟨front, oldest, split⟩
  · rw [none] at full
    simp only [List.length_nil] at full
    omega
  rw [List.concat_eq_append] at split
  obtain ⟨victim, there, same, below⟩ := shows.listed oldest (split ▸ List.mem_append_right _ List.mem_cons_self)
  have whole : oldest = (victim.pid, oldest.2) := Prod.ext same.symm rfl
  refine ⟨victim, there, front, oldest.2, whole ▸ split, ?_⟩
  by_contra unfinished
  have since : 2 * i - 1 ≤ last oldest := by
    rw [whole]
    refine used victim there (fun own' => ?_) oldest.2 below (Nat.lt_of_not_le unfinished)
    cases pid_unique shows.once member there own'
    omega
  -- so all pages in the cache are among these few
  have subset : kernel.lruCache ⊆ scripts.flatMap recents := by
    intro entry listed
    have newer : last oldest ≤ last entry := by
      rw [split] at listed
      rcases List.mem_append.mp listed with before | here
      · have sorted := recent.sorted
        rw [split] at sorted
        exact (List.pairwise_append.mp sorted).2.2 entry before oldest List.mem_cons_self
      · rw [List.mem_singleton.mp here]
    obtain ⟨owner, there, same, below⟩ := shows.listed entry listed
    have bound := recent.bound entry listed
    obtain ⟨low, high⟩ := recent.near entry listed (by omega)
    refine List.mem_flatMap.mpr ⟨owner, there, List.mem_map.mpr ⟨entry.2, List.mem_filter.mpr ⟨?_, decide_eq_true below⟩, Prod.ext same rfl⟩⟩
    rw [List.mem_cons, List.mem_singleton]
    omega
  have small := (List.subperm_of_subset shows.fresh subset).length_le
  rw [List.length_flatMap] at small
  omega

end Recency

/-- The processes have taken their turns, since the history was `base`. One that is at its turn is where the turn has brought it so far. -/
structure Paced {ω : Type} (border : Nat) (scripts : List Script) (base : List Event) (round : Nat) (turns : Nat → Nat) (busy : Nat → Prop)
    (ran loaded : Nat → Nat) (last : Nat × Nat → Nat) (kernel : KernelState ω) : Prop where
  shows : Shows border scripts ran loaded kernel
  told : ∃ events, kernel.history = base ++ events ∧ Told scripts ran loaded events
  recent : Recent (round + 1) last kernel.lruCache
  length : kernel.lruCache.length = min (border / 3) (total scripts loaded)
  since : ∀ script ∈ scripts, ¬ busy script.pid → round ≤ turns script.pid
  counts : ∀ script ∈ scripts, ¬ busy script.pid →
    ran script.pid = ranOf script.size (turns script.pid) ∧ loaded script.pid = loadedOf script.size (turns script.pid)
  used : ∀ script ∈ scripts, ¬ busy script.pid → ∀ j < loaded script.pid, ran script.pid < min script.size (3 * j + 3) →
    3 ≤ turns script.pid → turns script.pid ≤ last (script.pid, j)

section Steps
variable (paced : Paced border scripts base round turns (· = script.pid) ran loaded last kernel) (member : script ∈ scripts)
include paced member

variable (varStoreSize) in
/-- In its turn the process runs a line of a page that is there. -/
theorem Paced.line (line : script.texts[ran script.pid]? = some text) (there : ran script.pid / 3 < loaded script.pid)
    (near : 3 ≤ round + 1 → 2 * (ran script.pid / 3) ≤ round + 1 ∧ round + 1 ≤ 2 * (ran script.pid / 3) + 2)
    (obeys : Obeys border parseInput effect text) : ∃ kernel', runNext border varStoreSize parseInput script.pid kernel = some (0, kernel') ∧
      kernel'.queue = kernel.queue ∧ kernel'.outside border = effect text (kernel.outside border) ∧
      Brief script.pid 1 kernel.history kernel'.history ∧
      Paced border scripts base round turns (· = script.pid) (Function.update ran script.pid (ran script.pid + 1)) loaded
        (Function.update last (script.pid, ran script.pid / 3) (round + 1)) kernel' := by
  obtain ⟨system, world, ran', vars, shows⟩ := paced.shows.runCommand varStoreSize member line there obeys
  obtain ⟨events, since, told⟩ := paced.told
  have more : ran script.pid < script.size := by
    have inside := (List.getElem?_eq_some_iff.mp line).1
    rwa [Script.texts, List.length_map] at inside
  have listed := paced.shows.needed script member _ there (by omega)
  have fresh : (script.pid, ran script.pid / 3) ∉ kernel.lruCache.erase (script.pid, ran script.pid / 3) :=
    fun again => ((List.Nodup.mem_erase_iff paced.shows.fresh).mp again).1 rfl
  refine ⟨_, ran', rfl, vars, .line .., shows.aside world _, ⟨_, ?_, told.line paced.shows.once member line⟩,
    paced.recent.touch List.erase_sublist fresh near, ?_, paced.since, fun other there idle => ?_, fun other there idle j below left late => ?_⟩
  · rw [since, List.append_assoc]
  · exact (List.perm_cons_erase listed).length_eq.symm.trans paced.length
  · rw [Function.update_of_ne idle]
    exact paced.counts other there idle
  · rw [Function.update_of_ne idle] at left
    rw [Function.update_of_ne fun same => idle (Prod.mk.inj same).1]
    exact paced.used other there idle j below left late

variable (varStoreSize parseInput) in
/-- In its turn the process comes to a page that has to be loaded. -/
theorem Paced.fault (fits : (scripts.map fun script => min 2 script.pages).sum ≤ border / 3) (more : ran script.pid < script.size)
    (absent : ran script.pid / 3 = loaded script.pid) (late : 2 ≤ loaded script.pid) (due : round + 1 = 2 * loaded script.pid) :
    ∃ kernel', runNext border varStoreSize parseInput script.pid kernel = some (1, kernel') ∧ kernel'.queue = kernel.queue ++ [script.pid] ∧
      kernel'.outside border = kernel.outside border ∧ Brief script.pid 0 kernel.history kernel'.history ∧
      Paced border scripts base round turns (· = script.pid) ran (Function.update loaded script.pid (loaded script.pid + 1))
        (Function.update last (script.pid, loaded script.pid) (round + 1)) kernel' := by
  have inside : loaded script.pid < script.pages := absent ▸ lt_pages more
  have spare (full : kernel.lruCache.length = border / 3) : ∃ victim ∈ scripts, ∃ front j, kernel.lruCache = front ++ [(victim.pid, j)] ∧
      min victim.size (3 * j + 3) ≤ ran victim.pid := by
    refine Recent.victim (due ▸ paced.recent) paced.shows member late rfl inside (by omega) (fun other there idle j below left => ?_) fits full
    have turn := paced.since other there idle
    have order := paced.used other there idle j below left (by omega)
    omega
  obtain ⟨system, evicted, ran', made, behind, shows⟩ := paced.shows.fault varStoreSize parseInput member more absent spare
  obtain ⟨events, since, told⟩ := paced.told
  have silent (other : Nat) (text : CString) : .line other text ∉ evicted ++ [.load script.pid (loaded script.pid)] := by
    rintro listed
    rcases made with rfl | ⟨victim, -, j, rfl, -⟩
    · cases List.mem_singleton.mp listed
    · rcases List.mem_cons.mp listed with same | listed
      · cases same
      · cases List.mem_singleton.mp listed
  have told' : Told scripts ran loaded (events ++ evicted) := by
    rcases made with rfl | ⟨victim, owner, j, rfl, done⟩
    · rwa [List.append_nil]
    · exact told.evict owner done
  have fresh : (script.pid, loaded script.pid) ∉ kernel.lruCache := by
    intro listed
    obtain ⟨other, there, same, below⟩ := paced.shows.listed _ listed
    rw [same] at below
    exact Nat.lt_irrefl _ below
  have left : List.Sublist (if kernel.lruCache.length = border / 3 then kernel.lruCache.dropLast else kernel.lruCache) kernel.lruCache := by
    split
    · exact List.dropLast_sublist _
    · exact List.Sublist.refl _
  refine ⟨_, ran', rfl, Prod.ext (funext fun i => behind _ (Nat.le_add_right ..)) rfl, List.append_assoc .. ▸ .quiet _ _ silent, shows.aside kernel.world _,
    ⟨_, ?_, told'.load paced.shows.once member⟩, paced.recent.touch left (fun again => fresh (left.subset again)) (fun _ => by omega), ?_, paced.since, fun other there idle => ?_,
    fun other there idle j below left late => ?_⟩
  · rw [since, List.append_assoc, List.append_assoc, List.append_assoc]
  · have length := paced.length
    rw [total_more paced.shows.once member, pushed, List.length_cons]
    split
    next full =>
      have nonempty : 0 < kernel.lruCache.length := by
        have few := List.single_le_sum (fun _ _ => Nat.zero_le _) (min 2 script.pages)
          (List.mem_map_of_mem (f := fun script : Script => min 2 script.pages) member)
        omega
      rw [List.length_dropLast]
      omega
    next room => omega
  · rw [Function.update_of_ne idle]
    exact paced.counts other there idle
  · rw [Function.update_of_ne idle] at below
    rw [Function.update_of_ne fun same => idle (Prod.mk.inj same).1]
    exact paced.used other there idle j below left late

end Steps

/-- What a process does in its turn, by the lines that it has run and the pages that it has had before. -/
inductive TurnKind (size round : Nat) : Prop
  | done (all : size ≤ ranAfter round)
  | load (more : ranOf size round < size) (absent : ranOf size round / 3 = loadedOf size round) (late : 2 ≤ loadedOf size round)
      (due : round + 1 = 2 * loadedOf size round) (ran : ranOf size (round + 1) = ranOf size round)
      (loaded : loadedOf size (round + 1) = loadedOf size round + 1)
  | last (more : ranOf size round + 1 = size) (there : ranOf size round / 3 < loadedOf size round)
      (near : 3 ≤ round + 1 → 2 * (ranOf size round / 3) ≤ round + 1 ∧ round + 1 ≤ 2 * (ranOf size round / 3) + 2)
      (ran : ranOf size (round + 1) = ranOf size round + 1) (loaded : loadedOf size (round + 1) = loadedOf size round)
  | lines (more : ranOf size round + 1 < size) (there : ranOf size round / 3 < loadedOf size round)
      (near : 3 ≤ round + 1 → 2 * (ranOf size round / 3) ≤ round + 1 ∧ round + 1 ≤ 2 * (ranOf size round / 3) + 2)
      (there' : (ranOf size round + 1) / 3 < loadedOf size round)
      (near' : 3 ≤ round + 1 → 2 * ((ranOf size round + 1) / 3) ≤ round + 1 ∧ round + 1 ≤ 2 * ((ranOf size round + 1) / 3) + 2)
      (ran : ranOf size (round + 1) = ranOf size round + 2) (loaded : loadedOf size (round + 1) = loadedOf size round)
      (open' : 3 ≤ round + 1 → ∀ j < loadedOf size round, ranOf size round + 2 < 3 * j + 3 → j = (ranOf size round + 1) / 3)
  | across (more : ranOf size round + 1 < size) (there : ranOf size round / 3 < loadedOf size round)
      (near : 3 ≤ round + 1 → 2 * (ranOf size round / 3) ≤ round + 1 ∧ round + 1 ≤ 2 * (ranOf size round / 3) + 2)
      (absent : (ranOf size round + 1) / 3 = loadedOf size round) (late : 2 ≤ loadedOf size round) (due : round + 1 = 2 * loadedOf size round)
      (ran : ranOf size (round + 1) = ranOf size round + 1) (loaded : loadedOf size (round + 1) = loadedOf size round + 1)

theorem pageTableSize_eq (size : Nat) : pageTableSize size = (size + 2) / 3 := by
  rw [pageTableSize]
  split <;> omega

theorem turn_kind (size round : Nat) : TurnKind size round := by
  by_cases all : size ≤ ranAfter round
  · exact .done all
  have pages := pageTableSize_eq size
  by_cases early : round < 3
  · -- the lines of the first two pages
    have now : ranAfter round = 2 * round := if_pos (by omega)
    have next : ranAfter (round + 1) = 2 * (round + 1) := if_pos (by omega)
    have loaded : loadedAfter round = 2 := if_pos (by omega)
    have loaded' : loadedAfter (round + 1) = 2 := if_pos (by omega)
    by_cases final : 2 * round + 1 = size
    · apply TurnKind.last <;> simp only [ranOf, loadedOf, pages, now, next, loaded, loaded'] <;> omega
    · apply TurnKind.lines <;> simp only [ranOf, loadedOf, pages, now, next, loaded, loaded'] <;> omega
  by_cases third : round = 3
  · subst third
    have now : ranAfter 3 = 6 := rfl
    have next : ranAfter (3 + 1) = 6 := rfl
    have loaded : loadedAfter 3 = 2 := rfl
    have loaded' : loadedAfter (3 + 1) = 3 := rfl
    apply TurnKind.load <;> simp only [ranOf, loadedOf, pages, now, next, loaded, loaded'] <;> omega
  have loaded : loadedAfter round = round / 2 + 1 := if_neg (by omega)
  have loaded' : loadedAfter (round + 1) = (round + 1) / 2 + 1 := if_neg (by omega)
  by_cases even : round % 2 = 0
  · have now : ranAfter round = 3 * (round / 2) := (if_neg (by omega)).trans (if_pos even)
    have next : ranAfter (round + 1) = 3 * ((round + 1) / 2) + 2 := (if_neg (by omega)).trans (if_neg (by omega))
    by_cases final : 3 * (round / 2) + 1 = size
    · apply TurnKind.last <;> simp only [ranOf, loadedOf, pages, now, next, loaded, loaded'] <;> omega
    · apply TurnKind.lines <;> simp only [ranOf, loadedOf, pages, now, next, loaded, loaded'] <;> omega
  · have now : ranAfter round = 3 * (round / 2) + 2 := (if_neg (by omega)).trans (if_neg even)
    have next : ranAfter (round + 1) = 3 * ((round + 1) / 2) := (if_neg (by omega)).trans (if_pos (by omega))
    by_cases final : 3 * (round / 2) + 2 + 1 = size
    · apply TurnKind.last <;> simp only [ranOf, loadedOf, pages, now, next, loaded, loaded'] <;> omega
    · apply TurnKind.across <;> simp only [ranOf, loadedOf, pages, now, next, loaded, loaded'] <;> omega

theorem ranAfter_mono (round : Nat) : ranAfter round ≤ ranAfter (round + 1) := by
  unfold ranAfter
  repeat' split
  all_goals omega

/-- A process that has run all its lines has had all its pages. -/
theorem loadedAfter_all {size round : Nat} (all : size ≤ ranAfter round) : pageTableSize size ≤ loadedAfter round := by
  unfold ranAfter at all
  rw [pageTableSize_eq]
  unfold loadedAfter
  split at all
  next early =>
    rw [if_pos early]
    omega
  next late =>
    rw [if_neg late]
    split at all <;> omega

theorem ranOf_all {size round : Nat} (all : size ≤ ranAfter round) : ranOf size round = size := Nat.min_eq_left all

theorem loadedOf_all {size round : Nat} (all : size ≤ ranAfter round) : loadedOf size round = pageTableSize size :=
  Nat.min_eq_left (loadedAfter_all all)

section Turns

theorem Paced.requeue (paced : Paced border scripts base round turns busy ran loaded last kernel) (queue : List Nat) :
    Paced border scripts base round turns busy ran loaded last { kernel with queue } :=
  ⟨paced.shows.queue queue, paced.told, paced.recent, paced.length, paced.since, paced.counts, paced.used⟩

theorem Paced.begin (paced : Paced border scripts base round turns (fun _ => False) ran loaded last kernel) (pid : Nat) :
    Paced border scripts base round turns (· = pid) ran loaded last kernel :=
  ⟨paced.shows, paced.told, paced.recent, paced.length, fun script member _ => paced.since script member not_false,
    fun script member _ => paced.counts script member not_false, fun script member _ => paced.used script member not_false⟩

theorem Paced.finish (paced : Paced border scripts base round turns (· = script.pid) ran loaded last kernel) (member : script ∈ scripts)
    (ran' : ran script.pid = ranOf script.size (round + 1)) (loaded' : loaded script.pid = loadedOf script.size (round + 1))
    (used : ∀ j < loaded script.pid, ran script.pid < min script.size (3 * j + 3) → 3 ≤ round + 1 → round + 1 ≤ last (script.pid, j)) :
    Paced border scripts base round (Function.update turns script.pid (round + 1)) (fun _ => False) ran loaded last kernel := by
  refine ⟨paced.shows, paced.told, paced.recent, paced.length, fun other there _ => ?_, fun other there _ => ?_, fun other there _ j below left late => ?_⟩
  · by_cases mine : other.pid = script.pid
    · rw [mine, Function.update_self]
      exact Nat.le_succ round
    · rw [Function.update_of_ne mine]
      exact paced.since other there mine
  · by_cases mine : other.pid = script.pid
    · cases pid_unique paced.shows.once member there mine
      rw [Function.update_self]
      exact ⟨ran', loaded'⟩
    · rw [Function.update_of_ne mine]
      exact paced.counts other there mine
  · by_cases mine : other.pid = script.pid
    · cases pid_unique paced.shows.once member there mine
      rw [Function.update_self] at late ⊢
      exact used j below left late
    · rw [Function.update_of_ne mine] at late ⊢
      exact paced.used other there mine j below left late

theorem Paced.skip (paced : Paced border scripts base round turns (fun _ => False) ran loaded last kernel) (member : script ∈ scripts)
    (turn : turns script.pid = round) (all : script.size ≤ ranAfter round) :
    Paced border scripts base round (Function.update turns script.pid (round + 1)) (fun _ => False) ran loaded last kernel := by
  obtain ⟨ran', loaded'⟩ := paced.counts script member not_false
  have later := Nat.le_trans all (ranAfter_mono round)
  rw [turn, ranOf_all all] at ran'
  rw [turn, loadedOf_all all] at loaded'
  refine (paced.begin script.pid).finish member ?_ ?_ fun j _ left => ?_
  · rw [ran', ranOf_all later]
  · rw [loaded', loadedOf_all later]
  · omega

theorem drop_of_getElem? {α : Type} {items : List α} {item : α} {at' : Nat} (there : items[at']? = some item) :
    items.drop at' = item :: items.drop (at' + 1) := by
  rw [List.drop_eq_getElem?_toList_append, there]
  rfl

theorem Script.text_at (script : Script) (count : Nat) (more : count < script.size) : ∃ text ∈ script.texts, script.texts[count]? = some text := by
  have inside : count < script.texts.length := by
    rwa [Script.texts, List.length_map]
  exact ⟨_, List.getElem_mem inside, List.getElem?_eq_getElem inside⟩

theorem turnRr_eq {rest : List Nat} (queue : kernel.queue = script.pid :: rest) (shows : Shows border scripts ran loaded kernel) (member : script ∈ scripts) :
    turnRr border varStoreSize parseInput kernel = (if (script.size : Int) - ran script.pid > 1 then do
        let ret ← runNext border varStoreSize parseInput script.pid
        if ret = 1 then pure ⟨⟩
        else do
          let ret ← runNext border varStoreSize parseInput script.pid
          if ret = 1 then pure ⟨⟩ else modify fun kernel => { kernel with queue := kernel.queue ++ [script.pid] }
      else if (script.size : Int) - ran script.pid = 1 then do
        let _ ← runNext border varStoreSize parseInput script.pid
        pure ⟨⟩
      else pure ⟨⟩ : K ω PUnit) { kernel with queue := rest } := by
  obtain ⟨pcb, found, progress⟩ := shows.procs script member
  have fetched : getPcb script.pid { kernel with queue := rest } = some (pcb, { kernel with queue := rest }) := getPcb_run found
  rw [turnRr, run_bind (get_run _), queue]
  refine (run_bind (modify_run _ _) _).trans ((run_bind fetched _).trans ?_)
  rw [progress.size]

variable (varStoreSize) in
/-- One turn. The process goes to the end of the queue, but for the turn after which nothing is left to do. -/
theorem Paced.turn {rest : List Nat} (paced : Paced border scripts base round turns (fun _ => False) ran loaded last kernel) (member : script ∈ scripts)
    (turn : turns script.pid = round) (queue : kernel.queue = script.pid :: rest)
    (fits : (scripts.map fun script => min 2 script.pages).sum ≤ border / 3) (obeys : ∀ text ∈ script.texts, Obeys border parseInput effect text) :
    ∃ kernel' ran' loaded' last', turnRr border varStoreSize parseInput kernel = some (⟨⟩, kernel') ∧
      (kernel'.queue = rest ++ [script.pid] ∧ ranAfter round < script.size ∨ kernel'.queue = rest ∧ script.size ≤ ranAfter (round + 1)) ∧
      kernel'.outside border = (script.turnTexts round).foldl (fun outside text => effect text outside) (kernel.outside border) ∧
      Brief script.pid 2 kernel.history kernel'.history ∧
      Paced border scripts base round (Function.update turns script.pid (round + 1)) (fun _ => False) ran' loaded' last' kernel' := by
  have start := (paced.begin script.pid).requeue rest
  obtain ⟨counted, counted'⟩ := paced.counts script member not_false
  rw [turn] at counted counted'
  rw [turnRr_eq queue paced.shows member, counted, Script.turnTexts, List.drop_take]
  cases turn_kind script.size round with
  | done all =>
    have later := Nat.le_trans all (ranAfter_mono round)
    refine ⟨{ kernel with queue := rest }, ran, loaded, last, ?_, .inr ⟨rfl, later⟩, ?_, (Brief.refl ..).mono (by decide), (paced.skip member turn all).requeue rest⟩
    · rw [ranOf_all all, if_neg (by omega), if_neg (by omega)]
      rfl
    · rw [ranOf_all all, ranOf_all later, Nat.sub_self]
      rfl
  | load more absent late due ran' loaded' =>
    rw [← counted] at more absent ran' ⊢
    rw [← counted'] at absent late due loaded'
    obtain ⟨kernel', fault, queued, vars, brief, paced'⟩ := start.fault varStoreSize parseInput member fits more absent late due
    refine ⟨kernel', _, _, _, ?_, .inl ⟨queued, ?_⟩, ?_, brief.mono (by decide), paced'.finish member ran'.symm ?_ fun j below left _ => ?_⟩
    · split
      · rw [run_bind fault, if_pos rfl]
        rfl
      · rw [if_pos (by omega), run_bind fault]
        rfl
    · rw [counted, ranOf] at more
      omega
    · rw [ran', Nat.sub_self]
      exact vars
    · rw [Function.update_self, loaded']
    · rw [Function.update_self] at below
      rw [show j = loaded script.pid by omega, Function.update_self]
  | last more there near ran' loaded' =>
    rw [← counted] at more there near ran' ⊢
    rw [← counted'] at there loaded'
    obtain ⟨text, known, here⟩ := script.text_at (ran script.pid) (by omega)
    obtain ⟨kernel', line, queued, vars, brief, paced'⟩ := start.line varStoreSize member here there near (obeys text known)
    refine ⟨kernel', _, _, _, ?_, .inr ⟨queued, ?_⟩, ?_, brief.mono (by decide), paced'.finish member ?_ loaded'.symm fun j below left _ => ?_⟩
    · rw [if_neg (by omega), if_pos (by omega), run_bind line]
      rfl
    · rw [ranOf] at ran'
      omega
    · rw [ran', Nat.add_sub_cancel_left, drop_of_getElem? here]
      exact vars
    · rw [Function.update_self, ran']
    · rw [Function.update_self] at left
      omega
  | lines more there near there' near' ran' loaded' done =>
    rw [← counted] at more there near there' near' ran' done ⊢
    rw [← counted'] at there there' loaded' done
    obtain ⟨text, known, here⟩ := script.text_at (ran script.pid) (by omega)
    obtain ⟨text', known', here'⟩ := script.text_at (ran script.pid + 1) more
    obtain ⟨middle, line, queued, vars, brief, paced₁⟩ := start.line varStoreSize member here there near (obeys text known)
    have self : Function.update ran script.pid (ran script.pid + 1) script.pid = ran script.pid + 1 := Function.update_self ..
    obtain ⟨kernel', line', queued', vars', brief', paced₂⟩ := paced₁.line varStoreSize member (by rwa [self]) (by rwa [self])
      (by rwa [self]) (obeys text' known')
    rw [self] at paced₂
    have final := paced₂.requeue (kernel'.queue ++ [script.pid])
    refine ⟨{ kernel' with queue := kernel'.queue ++ [script.pid] }, _, _, _, ?_, .inl ⟨?_, ?_⟩, ?_, brief.trans brief', final.finish member ?_ loaded'.symm fun j below left late => ?_⟩
    · rw [if_pos (by omega), run_bind line, if_neg (by decide), run_bind line', if_neg (by decide)]
      rfl
    · rw [queued', queued]
    · rw [ranOf] at counted
      omega
    · rw [ran', Nat.add_sub_cancel_left, drop_of_getElem? here, drop_of_getElem? here']
      exact vars'.trans (congrArg (effect text') vars)
    · rw [Function.update_self, ran']
    · rw [Function.update_self] at left
      rw [done late j below (by omega), Function.update_self]
  | across more there near absent late due ran' loaded' =>
    rw [← counted] at more there near absent ran' ⊢
    rw [← counted'] at there absent late due loaded'
    obtain ⟨text, known, here⟩ := script.text_at (ran script.pid) (by omega)
    obtain ⟨middle, line, queued, vars, brief, paced₁⟩ := start.line varStoreSize member here there near (obeys text known)
    have self : Function.update ran script.pid (ran script.pid + 1) script.pid = ran script.pid + 1 := Function.update_self ..
    obtain ⟨kernel', fault, queued', vars', brief', paced₂⟩ := paced₁.fault varStoreSize parseInput member fits
      (by rwa [self]) (by rwa [self]) late due
    refine ⟨kernel', _, _, _, ?_, .inl ⟨?_, ?_⟩, ?_, (brief.trans brief').mono (by decide), paced₂.finish member ?_ ?_ fun j below left _ => ?_⟩
    · rw [if_pos (by omega), run_bind line, if_neg (by decide), run_bind fault, if_pos rfl]
      rfl
    · rw [queued', queued]
    · rw [ranOf] at counted
      omega
    · rw [ran', Nat.add_sub_cancel_left, drop_of_getElem? here]
      exact vars'.trans vars
    · rw [self, ran']
    · rw [Function.update_self, loaded']
    · rw [self] at left
      rw [Function.update_self] at below
      rw [show j = loaded script.pid by omega, Function.update_self]

end Turns

end Comp310.Kernel
