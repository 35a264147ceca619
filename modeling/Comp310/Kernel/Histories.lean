import Comp310.Kernel.Residents

/-! What the history of the kernel tells of scripts: which lines were run, which pages were loaded, and that no page was
evicted before its lines were run. -/

namespace Comp310.Kernel
open Comp310.Lib

namespace Event

def pid : Event → Nat
  | load pid _ => pid
  | evict pid _ => pid
  | line pid _ => pid

def lineOf (pid : Nat) : Event → Option CString
  | line other text => if other = pid then some text else none
  | _ => none

def loadOf (pid : Nat) : Event → Option Nat
  | load other i => if other = pid then some i else none
  | _ => none

def textOf : Event → Option CString
  | line _ text => some text
  | _ => none

end Event

/-- The lines of all processes in the order in which they were run. -/
def passed (events : List Event) : List CString := events.filterMap Event.textOf

/-- The lines of a process in the order in which they were run. -/
def linesOf (pid : Nat) (events : List Event) : List CString := events.filterMap (Event.lineOf pid)

/-- The pages of a process in the order in which they were loaded. -/
def loadsOf (pid : Nat) (events : List Event) : List Nat := events.filterMap (Event.loadOf pid)

/-- When a page is evicted, all lines of it have been run before. -/
def Spent (scripts : List Script) (events : List Event) : Prop :=
  ∀ before pid i after, events = before ++ .evict pid i :: after →
    ∃ script ∈ scripts, script.pid = pid ∧ min script.size (3 * i + 3) ≤ (linesOf pid before).length

/-- The events since the scripts were started, with so many lines run and so many pages loaded of each. -/
structure Told (scripts : List Script) (ran loaded : Nat → Nat) (events : List Event) : Prop where
  known : ∀ event ∈ events, ∃ script ∈ scripts, script.pid = event.pid
  lines : ∀ script ∈ scripts, linesOf script.pid events = script.texts.take (ran script.pid)
  loads : ∀ script ∈ scripts, loadsOf script.pid events = List.range (loaded script.pid)
  spent : Spent scripts events

/-- Every line was run once and every page loaded once, all in their order. -/
structure Finished (scripts : List Script) (events : List Event) : Prop where
  known : ∀ event ∈ events, ∃ script ∈ scripts, script.pid = event.pid
  lines : ∀ script ∈ scripts, linesOf script.pid events = script.texts
  loads : ∀ script ∈ scripts, loadsOf script.pid events = List.range script.pages
  spent : Spent scripts events

/-- Of the lines only so many were run in between, all by this process. -/
def Brief (pid limit : Nat) (before after : List Event) : Prop :=
  ∃ events, after = before ++ events ∧ (linesOf pid events).length ≤ limit ∧ ∀ other text, .line other text ∈ events → other = pid

variable {pid limit i : Nat} {script victim : Script} {scripts : List Script} {ran loaded : Nat → Nat} {events before after middle : List Event}
  {text : CString}

section Views

theorem linesOf_append (pid : Nat) (before after : List Event) : linesOf pid (before ++ after) = linesOf pid before ++ linesOf pid after :=
  List.filterMap_append

theorem loadsOf_append (pid : Nat) (before after : List Event) : loadsOf pid (before ++ after) = loadsOf pid before ++ loadsOf pid after :=
  List.filterMap_append

theorem linesOf_line (pid other : Nat) (text : CString) : linesOf pid [.line other text] = if other = pid then [text] else [] := by
  rw [linesOf, List.filterMap_cons, Event.lineOf]
  by_cases mine : other = pid
  · rw [if_pos mine, if_pos mine]
    rfl
  · rw [if_neg mine, if_neg mine]
    rfl

theorem loadsOf_load (pid other i : Nat) : loadsOf pid [.load other i] = if other = pid then [i] else [] := by
  rw [loadsOf, List.filterMap_cons, Event.loadOf]
  by_cases mine : other = pid
  · rw [if_pos mine, if_pos mine]
    rfl
  · rw [if_neg mine, if_neg mine]
    rfl

theorem linesOf_loads (pid other : Nat) (pages : List Nat) : linesOf pid (pages.map fun i => .load other i) = [] := by
  rw [linesOf, List.filterMap_map]
  exact List.filterMap_eq_nil_iff.mpr fun _ _ => rfl

theorem loadsOf_loads (pid : Nat) (pages : List Nat) : loadsOf pid (pages.map fun i => .load pid i) = pages := by
  induction pages with
  | nil => rfl
  | cons i rest ih =>
    rw [List.map_cons, ← List.singleton_append, loadsOf_append, loadsOf_load, if_pos rfl, ih]
    rfl

theorem linesOf_unknown (absent : ∀ event ∈ events, event.pid ≠ pid) : linesOf pid events = [] := by
  refine List.filterMap_eq_nil_iff.mpr fun event member => ?_
  cases event with
  | line other text => exact if_neg (absent _ member)
  | load other i => rfl
  | evict other i => rfl

theorem loadsOf_unknown (absent : ∀ event ∈ events, event.pid ≠ pid) : loadsOf pid events = [] := by
  refine List.filterMap_eq_nil_iff.mpr fun event member => ?_
  cases event with
  | load other i => exact if_neg (absent _ member)
  | line other text => rfl
  | evict other i => rfl

end Views

section Steps

theorem Spent.quiet (spent : Spent scripts events) (quiet : ∀ pid i, .evict pid i ∉ after) : Spent scripts (events ++ after) := by
  intro before pid i rest split
  rcases List.append_eq_append_iff.mp split with ⟨more, -, inside⟩ | ⟨more, whole, inside⟩
  · exact absurd (inside ▸ List.mem_append_right _ List.mem_cons_self) (quiet pid i)
  · cases more with
    | nil =>
      have listed : .evict pid i ∈ [] ++ after := inside ▸ List.mem_cons_self
      exact absurd listed (quiet pid i)
    | cons event rest' =>
      cases inside
      exact spent before pid i rest' whole

theorem Spent.evict (spent : Spent scripts events) (owner : victim ∈ scripts)
    (done : min victim.size (3 * i + 3) ≤ (linesOf victim.pid events).length) : Spent scripts (events ++ [.evict victim.pid i]) := by
  intro before pid j rest split
  rcases List.eq_nil_or_concat rest with rfl | ⟨rest, last, rfl⟩
  · obtain ⟨rfl, same⟩ := List.append_inj' split rfl
    cases same
    exact ⟨victim, owner, rfl, done⟩
  · rw [List.concat_eq_append, ← List.cons_append, ← List.append_assoc] at split
    exact spent before pid j rest (List.append_inj' split rfl).1

variable (told : Told scripts ran loaded events)
include told

theorem Told.count (member : script ∈ scripts) : (linesOf script.pid events).length = min (ran script.pid) script.size := by
  rw [told.lines script member, List.length_take, Script.texts, List.length_map]
  rfl

theorem Told.line (once : (scripts.map Script.pid).Nodup) (member : script ∈ scripts) (there : script.texts[ran script.pid]? = some text) :
    Told scripts (Function.update ran script.pid (ran script.pid + 1)) loaded (events ++ [.line script.pid text]) := by
  refine ⟨List.forall_mem_append.mpr ⟨told.known, List.forall_mem_singleton.mpr ⟨script, member, rfl⟩⟩, fun other known => ?_,
    fun other known => ?_, told.spent.quiet fun pid i listed => by cases List.mem_singleton.mp listed⟩
  · rw [linesOf_append, linesOf_line, told.lines other known]
    by_cases mine : other.pid = script.pid
    · cases pid_unique once member known mine
      rw [if_pos rfl, Function.update_self, List.take_add_one, there]
      rfl
    · rw [if_neg (Ne.symm mine), Function.update_of_ne mine, List.append_nil]
  · rw [loadsOf_append, told.loads other known]
    exact List.append_nil _

theorem Told.load (once : (scripts.map Script.pid).Nodup) (member : script ∈ scripts) :
    Told scripts ran (Function.update loaded script.pid (loaded script.pid + 1)) (events ++ [.load script.pid (loaded script.pid)]) := by
  refine ⟨List.forall_mem_append.mpr ⟨told.known, List.forall_mem_singleton.mpr ⟨script, member, rfl⟩⟩, fun other known => ?_,
    fun other known => ?_, told.spent.quiet fun pid i listed => by cases List.mem_singleton.mp listed⟩
  · rw [linesOf_append, told.lines other known]
    exact List.append_nil _
  · rw [loadsOf_append, loadsOf_load, told.loads other known]
    by_cases mine : other.pid = script.pid
    · cases pid_unique once member known mine
      rw [if_pos rfl, Function.update_self, List.range_succ]
    · rw [if_neg (Ne.symm mine), Function.update_of_ne mine, List.append_nil]

theorem Told.evict (owner : victim ∈ scripts) (done : min victim.size (3 * i + 3) ≤ ran victim.pid) :
    Told scripts ran loaded (events ++ [.evict victim.pid i]) := by
  have lines := told.count owner
  refine ⟨List.forall_mem_append.mpr ⟨told.known, List.forall_mem_singleton.mpr ⟨victim, owner, rfl⟩⟩, fun other known => ?_,
    fun other known => ?_, told.spent.evict owner (by omega)⟩
  · rw [linesOf_append, told.lines other known]
    exact List.append_nil _
  · rw [loadsOf_append, told.loads other known]
    exact List.append_nil _

theorem Told.finished (all : ∀ script ∈ scripts, script.size ≤ ran script.pid ∧ loaded script.pid = script.pages) : Finished scripts events := by
  refine ⟨told.known, fun script member => ?_, fun script member => ?_, told.spent⟩
  · rw [told.lines script member]
    refine List.take_of_length_le ?_
    rw [Script.texts, List.length_map]
    exact (all script member).1
  · rw [told.loads script member, (all script member).2]

/-- One more script, which comes with its first pages. -/
theorem Told.start (fresh : ∀ other ∈ scripts, other.pid ≠ script.pid) (count : Nat) :
    Told (scripts ++ [script]) (Function.update ran script.pid 0) (Function.update loaded script.pid count)
      (events ++ (List.range count).map fun i => .load script.pid i) := by
  have absent (event : Event) (member : event ∈ events) : event.pid ≠ script.pid := by
    obtain ⟨other, known, same⟩ := told.known event member
    exact same ▸ fresh other known
  refine ⟨List.forall_mem_append.mpr ⟨fun event member => ?_, fun event member => ?_⟩, List.forall_mem_append.mpr ⟨fun other known => ?_,
    List.forall_mem_singleton.mpr ?_⟩, List.forall_mem_append.mpr ⟨fun other known => ?_, List.forall_mem_singleton.mpr ?_⟩, ?_⟩
  · obtain ⟨other, known, same⟩ := told.known event member
    exact ⟨other, List.mem_append_left _ known, same⟩
  · obtain ⟨i, -, rfl⟩ := List.mem_map.mp member
    exact ⟨script, List.mem_append_right _ List.mem_cons_self, rfl⟩
  · rw [linesOf_append, linesOf_loads, List.append_nil, Function.update_of_ne (fresh other known)]
    exact told.lines other known
  · rw [linesOf_append, linesOf_loads, linesOf_unknown absent, Function.update_self]
    rfl
  · have others : ∀ event ∈ (List.range count).map fun i => Event.load script.pid i, event.pid ≠ other.pid := by
      intro event member
      obtain ⟨i, -, rfl⟩ := List.mem_map.mp member
      exact Ne.symm (fresh other known)
    rw [loadsOf_append, loadsOf_unknown others, List.append_nil, Function.update_of_ne (fresh other known)]
    exact told.loads other known
  · rw [loadsOf_append, loadsOf_loads, loadsOf_unknown absent, Function.update_self]
    rfl
  · refine Spent.quiet (fun before pid i rest split => ?_) fun pid i listed => ?_
    · obtain ⟨owner, known, mine⟩ := told.spent before pid i rest split
      exact ⟨owner, List.mem_append_left _ known, mine⟩
    · obtain ⟨_, -, same⟩ := List.mem_map.mp listed
      cases same

end Steps

theorem Told.nil (ran loaded : Nat → Nat) : Told [] ran loaded [] :=
  ⟨fun event member => absurd member List.not_mem_nil, fun script member => absurd member List.not_mem_nil,
    fun script member => absurd member List.not_mem_nil, fun before pid i after split => absurd split.symm (by simp)⟩

section Turns

theorem Brief.refl (pid : Nat) (events : List Event) : Brief pid 0 events events :=
  ⟨[], (List.append_nil _).symm, Nat.le_refl 0, fun _ _ member => absurd member List.not_mem_nil⟩

theorem Brief.trans {more : Nat} (first : Brief pid limit before middle) (second : Brief pid more middle after) :
    Brief pid (limit + more) before after := by
  obtain ⟨events, rfl, few, mine⟩ := first
  obtain ⟨events', rfl, few', mine'⟩ := second
  refine ⟨events ++ events', List.append_assoc .., ?_, fun other text member => (List.mem_append.mp member).elim (mine other text) (mine' other text)⟩
  rw [linesOf_append, List.length_append]
  exact Nat.add_le_add few few'

theorem Brief.mono {more : Nat} (brief : Brief pid limit before after) (order : limit ≤ more) : Brief pid more before after := by
  obtain ⟨events, split, few, mine⟩ := brief
  exact ⟨events, split, Nat.le_trans few order, mine⟩

theorem Brief.quiet (pid : Nat) (before : List Event) (quiet : ∀ other text, .line other text ∉ events) : Brief pid 0 before (before ++ events) := by
  have none : linesOf pid events = [] := List.filterMap_eq_nil_iff.mpr fun event member => by
    cases event with
    | line other text => exact absurd member (quiet other text)
    | load other i => rfl
    | evict other i => rfl
  exact ⟨events, rfl, by rw [none]; exact Nat.le_refl 0, fun other text member => absurd member (quiet other text)⟩

theorem Brief.line (pid : Nat) (text : CString) (before : List Event) : Brief pid 1 before (before ++ [.line pid text]) := by
  refine ⟨_, rfl, ?_, fun other text member => ?_⟩
  · rw [linesOf_line, if_pos rfl]
    exact Nat.le_refl 1
  · cases List.mem_singleton.mp member
    rfl

end Turns

end Comp310.Kernel
