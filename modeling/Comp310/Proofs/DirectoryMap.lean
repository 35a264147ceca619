import Comp310.Lib.SlotMap
import Comp310.Fs.Shell

/-! Any directory is a finite map from names to the sectors of inodes, over every
history of its entries. Nothing else of the file system is asked for but live
objects to name. -/

namespace Comp310.Proofs.DirectoryMap
open Comp310.Fs Comp310.Lib

/-- A name that an entry can hold. -/
structure EntryName (name : CString) : Prop where
  nonempty : name ≠ []
  short : name.length ≤ 30
  noNul : 0 ∉ name
  notDot : name ≠ [46]
  notDotDot : name ≠ [46, 46]

/-- A sector that holds the inode of a file. -/
structure FileInode (live : Sector → Prop) (fs : FileSystem) (home sector : Sector) : Prop where
  alive : live sector
  nonzero : sector ≠ 0
  other : sector ≠ home
  regular : (curData fs sector).isDir = 0

/-- A slot of a directory holds a name and a sector. -/
def entryView : SlotView DirEntry CString Sector := ⟨(·.inUse), (·.fname), (·.inodeSector)⟩

/-- A pass over a directory that is opened for it, and one more reading behind its end. -/
def readPass (inode : Addr) : M (List CString × Option CString) := do
  let dir ← dirOpen inode
  let fuel ← entriesOf inode
  let names ← forEachFile dir pure fuel
  let last ← dirReaddir dir
  pure (names, last)

/-- A directory that `dir_create` made and `dir_open` opened, and calls of `dir_add` and `dir_remove` since,
with new files made in between. The map follows from the calls alone: a name keeps its first sector until
it is removed. An entry is removed while the inode that it names is still there. -/
inductive Run (home : Sector) (dir : Addr) : (Sector → Prop) → FileSystem → (CString → Option Sector) → Prop
  | made {live : Sector → Prop} {fs fs₁ fs₂ fs₃ : FileSystem} {entryCnt : Nat} {inode : Addr} (objects : Objects live fs)
      (used : Used fs home) (unclaimed : Unclaimed live fs home) (created : dirCreate home entryCnt fs = some (true, fs₁))
      (opened : inodeOpen home fs₁ = some (inode, fs₂)) (ran : dirOpen inode fs₂ = some (dir, fs₃)) :
      Run home dir (fun other => live other ∨ other = home) fs₃ fun _ => none
  | file {live : Sector → Prop} {fs fs₁ fs₂ : FileSystem} {map : CString → Option Sector} {sector : Sector} {size : Int}
      (run : Run home dir live fs map) (allocated : freeMapAllocate 1 fs = some (some sector, fs₁)) (high : size < 2147483648)
      (created : inodeCreate sector size false fs₁ = some (true, fs₂)) : Run home dir (fun other => live other ∨ other = sector) fs₂ map
  | added {live : Sector → Prop} {fs fs' : FileSystem} {map : CString → Option Sector} {name : CString} {sector : Sector} {done : Bool}
      (run : Run home dir live fs map) (valid : EntryName name) (file : FileInode live fs home sector)
      (fits : map name = none → EntryFits fs home) (ran : dirAdd dir name sector fs = some (done, fs')) :
      Run home dir live fs' (if map name = none then insertKey map name sector else map)
  | removed {live : Sector → Prop} {fs fs' : FileSystem} {map : CString → Option Sector} {name : CString} {done : Bool}
      (run : Run home dir live fs map) (valid : EntryName name)
      (file : ∀ sector, map name = some sector → FileInode live fs home sector) (ran : dirRemove dir name fs = some (done, fs')) :
      Run home dir (fun other => live other ∧ map name ≠ some other) fs' (eraseKey map name)

/-- What every call keeps: behind the parent's entry, the entries in use are the map. -/
structure Holds (home : Sector) (dir : Addr) (live : Sector → Prop) (fs : FileSystem) (map : CString → Option Sector) : Prop where
  objects : Objects live fs
  alive : live home
  nonzero : home ≠ 0
  there : ∃ d, DirAt fs dir d home
  parent : (entriesAt fs home)[0]? = some ⟨home, Vector.replicate 31 0, true⟩
  represents : Represents entryView ((entriesAt fs home).drop 1) map
  names : ∀ name, map name ≠ none → EntryName name

variable {home : Sector} {dir : Addr} {live : Sector → Prop} {fs fs' : FileSystem} {map : CString → Option Sector} {name : CString}
  {sector : Sector} {d : Dir} {e : DirEntry}

section Searching

theorem Holds.found (holds : Holds home dir live fs map) (name : CString) :
    (findFrom name 1 ((entriesAt fs home).drop 1)).map (·.1.inodeSector) = map name := by
  cases found : findFrom name 1 ((entriesAt fs home).drop 1) with
  | none => exact (holds.represents.absent.mpr (findFrom_none.mp found)).symm
  | some pair =>
    obtain ⟨e, ofs⟩ := pair
    obtain ⟨j, there, _, used, rfl⟩ := findFrom_some found
    exact (holds.represents.found there used).symm

theorem Holds.missing (holds : Holds home dir live fs map) :
    findFrom name 1 ((entriesAt fs home).drop 1) = none ↔ map name = none := by
  rw [← holds.found name]
  cases findFrom name 1 ((entriesAt fs home).drop 1) <;> simp

/-- The parent's entry is in use, so that a new name goes behind it. -/
theorem Holds.free_low (holds : Holds home dir live fs map) : 1 ≤ freeEntry fs home := by
  have parent := holds.parent
  rw [freeEntry]
  match entriesAt fs home, parent with
  | first :: rest, parent =>
    cases parent
    exact freeFrom_spec.1

theorem putSlot_drop {entries : List DirEntry} {j : Nat} (low : 1 ≤ j) (place : j ≤ entries.length) (i : Nat) :
    ((putSlot entries j e).drop 1)[i]? = if i = j - 1 then some e else (entries.drop 1)[i]? := by
  rw [List.getElem?_drop, List.getElem?_drop, putSlot_getElem? place]
  by_cases same : i = j - 1
  · rw [if_pos same, if_pos (by omega)]
  · rw [if_neg same, if_neg (by omega)]

end Searching

section Calls

/-- What leaves the entries, the open directory and the live objects as they are. -/
theorem Holds.congr (holds : Holds home dir live fs map) {live' : Sector → Prop} (objects : Objects live' fs')
    (alive : live' home) (alike : Alike fs fs' home) (there : ∃ d, DirAt fs' dir d home) : Holds home dir live' fs' map := by
  have same : entriesAt fs' home = entriesAt fs home := alike.slotsOf
  exact ⟨objects, alive, holds.nonzero, there, same ▸ holds.parent, same ▸ holds.represents, holds.names⟩

private theorem made_holds {fs₁ fs₂ fs₃ : FileSystem} {entryCnt : Nat} {inode : Addr} (objects : Objects live fs)
    (used : Used fs home) (unclaimed : Unclaimed live fs home) (created : dirCreate home entryCnt fs = some (true, fs₁))
    (opened : inodeOpen home fs₁ = some (inode, fs₂)) (ran : dirOpen inode fs₂ = some (dir, fs₃)) :
    Holds home dir (fun other => live other ∨ other = home) fs₃ fun _ => none := by
  have made := ((dirCreate_wp objects used unclaimed entryCnt).result created).2 rfl
  have nonzero : home ≠ 0 := fun zero => unclaimed.not_live (zero ▸ objects.blocks.mapLive)
  have opened := (inodeOpen_wp made.objects (.inr rfl)).result opened
  have after : dir = fs₂.nextAddr ∧ fs₃ = { fs₂ with
      nextAddr := fs₂.nextAddr + 1, dirs := (fs₂.nextAddr, ⟨inode, 36, 1⟩) :: fs₂.dirs } := by
    cases ran
    exact ⟨rfl, rfl⟩
  obtain ⟨rfl, rfl⟩ := after
  have alike : Alike fs₁ fs₂ home := opened.store.alike (opened.data home)
  have same : entriesAt fs₂ home = entriesAt fs₁ home := alike.slotsOf
  refine ⟨opened.objects.congr ⟨rfl, rfl, rfl, rfl⟩ rfl (Nat.le_succ _), .inr rfl, nonzero, ⟨⟨inode, 36, 1⟩, by simp, opened.here⟩, ?_,
    .empty fun e member => ?_, fun _ absent => absurd rfl absent⟩
  · exact (congrArg (·[0]?) same).trans made.parent
  · obtain ⟨i, there⟩ := List.mem_iff_getElem?.mp member
    rw [List.getElem?_drop] at there
    exact made.free (1 + i) e (Nat.le_add_right 1 i) (same ▸ there)

private theorem file_holds {fs₁ fs₂ : FileSystem} {size : Int} (holds : Holds home dir live fs map)
    (allocated : freeMapAllocate 1 fs = some (some sector, fs₁)) (high : size < 2147483648)
    (created : inodeCreate sector size false fs₁ = some (true, fs₂)) :
    Holds home dir (fun other => live other ∨ other = sector) fs₂ map := by
  obtain ⟨d, there⟩ := holds.there
  have room : 0 < freeCount fs := by
    apply Nat.pos_of_ne_zero
    intro full
    cases (freeMapAllocate_full full).symm.trans allocated
  obtain ⟨_, found, allocated⟩ := (freeMapAllocate_wp holds.objects.blocks.service room).result allocated
  cases found
  obtain ⟨objects₁, same₁, unclaimed₁⟩ := holds.objects.allocated allocated
  obtain ⟨_, run, same₂, _, _, made⟩ := (objects₁.inodeCreate_wp allocated.used unclaimed₁ high).result created
  have same := (same₁ home holds.alive).trans (same₂ home holds.alive)
  refine holds.congr (made rfl).1 (.inl holds.alive) (same.alike holds.nonzero) ⟨d, ?_, ?_⟩
  · rw [run.heap.dirs, allocated.heap.dirs]
    exact there.found
  · rw [OpenAt, run.heap.openInodes, allocated.heap.openInodes]
    exact there.opened

private theorem Holds.put (holds : Holds home dir live fs map) (new : map e.fname = none) (used : e.inUse = true) :
    Represents entryView ((putSlot (entriesAt fs home) (freeEntry fs home) e).drop 1) (insertKey map e.fname e.inodeSector) := by
  have place : freeEntry fs home ≤ 0 + (entriesAt fs home).length := freeFrom_spec.2.1
  have low := holds.free_low
  refine holds.represents.put (fun i => putSlot_drop low (by omega) i) (fun t there => ?_) used new
  rw [List.getElem?_drop, show 1 + (freeEntry fs home - 1) = freeEntry fs home - 0 by omega] at there
  exact freeFrom_spec.2.2 t there

theorem add_wp (holds : Holds home dir live fs map) (valid : EntryName name) (fits : map name = none → EntryFits fs home) :
    Wp (dirAdd dir name sector) (fun added fs' => (added = true ↔ map name = none) ∧
      Holds home dir live fs' (if map name = none then insertKey map name sector else map)) fs := by
  obtain ⟨d, there⟩ := holds.there
  refine (there.dirAdd_wp holds.objects.blocks holds.nonzero).mono fun added fs' ⟨refused, wrote⟩ => ?_
  by_cases new : map name = none
  · have good : ¬ (name = [] ∨ 30 < name.length ∨ findFrom name 1 ((entriesAt fs home).drop 1) ≠ none) := by
      rintro (empty | long | present)
      · exact valid.nonempty empty
      · exact absurd valid.short (Nat.not_le.mpr long)
      · exact present (holds.missing.mpr new)
    obtain ⟨inode, opened, rfl, data, outcome, wrote⟩ := wrote good
    obtain rfl : added = true := outcome.mpr (fits new)
    have place : freeEntry fs inode.sector ≤ (entriesAt fs inode.sector).length := by
      have bound : freeEntry fs inode.sector ≤ 0 + (entriesAt fs inode.sector).length := freeFrom_spec.2.1
      omega
    have low := holds.free_low
    have entries : entriesAt fs' inode.sector = putSlot (entriesAt fs inode.sector) (freeEntry fs inode.sector) ⟨sector, strncpy name, true⟩ := by
      have written := wrote.slotsOf holds.objects.blocks opened (by rw [data]; exact place)
      rw [if_pos rfl, data] at written
      exact written
    have entry : (DirEntry.mk sector (strncpy name) true).fname = name := fname_strncpy sector true valid.noNul valid.short
    have represents := holds.put (e := ⟨sector, strncpy name, true⟩) (by rw [entry]; exact new) rfl
    rw [entry] at represents
    rw [if_pos new]
    refine ⟨⟨fun _ => new, fun _ => rfl⟩, wrote.objects holds.objects opened, holds.alive, holds.nonzero,
      ⟨d, wrote.heap.dirs.symm ▸ there.found, wrote.openAt there.opened⟩, ?_, by rw [entries]; exact represents, fun other present => ?_⟩
    · rw [entries, putSlot_getElem? place, if_neg (by omega)]
      exact holds.parent
    · by_cases same : other = name
      · exact same ▸ valid
      · rw [insertKey_other same] at present
        exact holds.names other present
  · obtain ⟨rfl, rfl⟩ := refused (.inr (.inr (mt holds.missing.mp new)))
    rw [if_neg new]
    exact ⟨⟨nofun, fun absent => absurd absent new⟩, holds⟩

theorem remove_wp (holds : Holds home dir live fs map) (file : ∀ sector, map name = some sector → FileInode live fs home sector) :
    Wp (dirRemove dir name) (fun removed fs' => (removed = true ↔ map name ≠ none) ∧
      Holds home dir (fun other => live other ∧ map name ≠ some other) fs' (eraseKey map name)) fs := by
  obtain ⟨d, there⟩ := holds.there
  cases found : findFrom name 1 ((entriesAt fs home).drop 1) with
  | none =>
    have absent := holds.missing.mp found
    refine Wp.of_eq (there.dirRemove_missing holds.objects.blocks found) ⟨⟨nofun, fun present => absurd absent present⟩, ?_⟩
    have same : eraseKey map name = map := by
      funext other
      by_cases same : other = name
      · rw [same, eraseKey_self, absent]
      · exact eraseKey_other same
    rw [same, absent]
    simpa using holds
  | some pair =>
    obtain ⟨e, ofs⟩ := pair
    obtain ⟨j, low, place, rfl, used, rfl⟩ := findFrom_drop found
    have mapped : map e.fname = some e.inodeSector := by
      rw [← holds.found e.fname, found]
      rfl
    obtain ⟨alive, nonzero, notHome, regular⟩ := file _ mapped
    refine (there.dirRemove_wp holds.objects holds.nonzero holds.alive found alive nonzero notHome regular).mono
      fun removed fs' ⟨success, done⟩ => ⟨⟨fun _ => by rw [mapped]; nofun, fun _ => success⟩, ?_⟩
    have live' : (fun other => live other ∧ map e.fname ≠ some other) = fun other => live other ∧ other ≠ e.inodeSector := by
      funext other
      rw [mapped, ne_eq, Option.some_inj, ne_eq, eq_comm (a := other)]
    have inside := Nat.le_of_lt (List.getElem?_eq_some_iff.mp place).1
    have behind : ((entriesAt fs home).drop 1)[j - 1]? = some e := by
      rw [List.getElem?_drop, Nat.add_sub_cancel' low]
      exact place
    rw [live']
    refine ⟨done.objects, ⟨holds.alive, Ne.symm notHome⟩, holds.nonzero, ⟨d, by rw [done.dirs]; exact there.found,
      done.opens _ _ (Ne.symm notHome) there.opened⟩, ?_, ?_, fun other present => ?_⟩
    · rw [done.entries, putSlot_getElem? inside, if_neg (by omega)]
      exact holds.parent
    · rw [done.entries]
      exact holds.represents.clear (fun i => putSlot_drop low inside i) behind used rfl
    · by_cases same : other = e.fname
      · rw [same, eraseKey_self] at present
        exact absurd rfl present
      · rw [eraseKey_other same] at present
        exact holds.names other present

theorem run_holds (run : Run home dir live fs map) : Holds home dir live fs map := by
  induction run with
  | made objects used unclaimed created opened ran => exact made_holds objects used unclaimed created opened ran
  | file _ allocated high created ih => exact file_holds ih allocated high created
  | added _ valid _ fits ran ih => exact ((add_wp ih valid fits).result ran).2
  | removed _ _ file ran ih => exact ((remove_wp ih file).result ran).2

end Calls

section Passes

private theorem dirReaddir_step (objects : Objects live fs) (there : DirAt fs dir d home) {i : Nat} (pos : d.pos = (36 * i : Nat)) :
    Wp (dirReaddir dir) (fun found fs' => found = (nameFrom i ((entriesAt fs home).drop i)).1 ∧ Objects live fs' ∧
      entriesAt fs' home = entriesAt fs home ∧
      DirAt fs' dir { d with pos := (36 * (nameFrom i ((entriesAt fs home).drop i)).2 : Nat) } home) fs := by
  obtain ⟨inode, member, _, data, readable⟩ := there.inMemory objects.blocks
  rw [dirReaddir, wp_bind]
  refine Wp.of_eq there.getDir ?_
  rw [wp_bind]
  refine Wp.of_eq (there.entriesOf_eq objects.blocks) ?_
  have entries : slotsOf fs.disk.view inode.data = entriesAt fs home := by rw [data, entriesAt]
  refine (readdirLoop_wp (objects.blocks.handles.inode? member) readable there.found _ i pos (by rw [entries]; omega)).mono
    fun found fs' outcome => ?_
  obtain ⟨next, dirs, after, _, place⟩ := outcome
  subst after
  rw [entries] at next place
  exact ⟨next, objects.congr ⟨rfl, rfl, rfl, rfl⟩ rfl (Nat.le_refl _), rfl, place, there.opened⟩

private theorem forEachFile_names (fuel i : Nat) (objects : Objects live fs) (there : DirAt fs dir d home) (pos : d.pos = (36 * i : Nat))
    (enough : (entriesAt fs home).length - i < fuel) :
    Wp (forEachFile dir pure fuel) (fun names fs' => names = namesIn ((entriesAt fs home).drop i) ∧ Objects live fs' ∧
      entriesAt fs' home = entriesAt fs home ∧
      ∃ (j : Nat) (d' : Dir), d'.pos = (36 * j : Nat) ∧ DirAt fs' dir d' home ∧ namesIn ((entriesAt fs home).drop j) = []) fs := by
  induction fuel generalizing fs d i with
  | zero => omega
  | succ fuel ih =>
    rw [forEachFile, wp_bind]
    refine (dirReaddir_step objects there pos).mono fun found fs₁ outcome => ?_
    obtain ⟨next, objects₁, same, there₁⟩ := outcome
    cases found with
    | none =>
      have rest := nameFrom_none next.symm
      have place := nameFrom_end (i := i) rest
      refine (wp_pure _).mpr ⟨rest.symm, objects₁, same, _, _, rfl, there₁, ?_⟩
      rw [place, List.length_drop, List.drop_eq_nil_of_le (by omega)]
      rfl
    | some name =>
      obtain ⟨k, place, inside, split⟩ := nameFrom_some next.symm
      rw [List.length_drop] at inside
      rw [place] at there₁
      dsimp only
      rw [wp_bind, wp_pure, wp_bind]
      refine (ih (i + k + 1) objects₁ there₁ rfl (by rw [same]; omega)).mono
        fun names fs' outcome => (wp_pure _).mpr ?_
      obtain ⟨rest, objects', same', j, d', pos', there', last⟩ := outcome
      rw [same] at rest same' last
      refine ⟨?_, objects', same', j, d', pos', there', last⟩
      rw [rest, split, List.drop_drop, Nat.add_assoc]

theorem readPass_wp (holds : Holds home dir live fs map) {inode : Addr} (opened : OpenAt fs inode home) :
    Wp (readPass inode) (fun result _ => result.1 = namesIn ((entriesAt fs home).drop 1) ∧ result.2 = none) fs := by
  rw [readPass, wp_bind]
  simp only [dirOpen, newAddr, wp_bind, wp_get, wp_set, wp_modify, wp_pure]
  generalize after_eq : ({ fs with
    dirs := (fs.nextAddr, ⟨inode, 36, 1⟩) :: fs.dirs, nextAddr := fs.nextAddr + 1 } : FileSystem) = fs₁
  have objects : Objects live fs₁ := holds.objects.congr (by rw [← after_eq]; exact ⟨rfl, rfl, rfl, rfl⟩) (by rw [← after_eq])
    (by rw [← after_eq]; exact Nat.le_succ _)
  have there : DirAt fs₁ fs.nextAddr ⟨inode, 36, 1⟩ home := by
    rw [← after_eq]
    exact ⟨by simp, opened⟩
  have same : entriesAt fs₁ home = entriesAt fs home := by
    rw [← after_eq]
    rfl
  refine Wp.of_eq (there.entriesOf_eq objects.blocks) ?_
  refine (forEachFile_names _ 1 objects there rfl (by omega)).mono
    fun names fs₂ outcome => ?_
  obtain ⟨all, objects₂, same₂, j, d', pos, there', last⟩ := outcome
  refine (dirReaddir_step objects₂ there' pos).mono fun found fs₃ outcome => ?_
  obtain ⟨next, _⟩ := outcome
  rw [same₂, nameFrom_end last] at next
  exact ⟨by rw [all, same], next⟩

end Passes

private theorem Holds.unique (holds : Holds home dir live fs map) {i j : Nat} {e f : DirEntry}
    (first : (entriesAt fs home)[i]? = some e) (second : (entriesAt fs home)[j]? = some f) (used : e.inUse = true)
    (used' : f.inUse = true) (same : e.fname = f.fname) : i = j := by
  have behind {i : Nat} {e : DirEntry} (low : 1 ≤ i) (there : (entriesAt fs home)[i]? = some e) :
      ((entriesAt fs home).drop 1)[i - 1]? = some e := by
    rw [List.getElem?_drop, Nat.add_sub_cancel' low]
    exact there
  have named {i : Nat} {e : DirEntry} (low : 1 ≤ i) (there : (entriesAt fs home)[i]? = some e) (used : e.inUse = true) : e.fname ≠ [] := by
    have present : map e.fname = some e.inodeSector := holds.represents.found (behind low there) used
    exact (holds.names e.fname (by rw [present]; nofun)).nonempty
  have parent {e : DirEntry} (there : (entriesAt fs home)[0]? = some e) : e.fname = [] := by
    cases there.symm.trans holds.parent
    rfl
  match i, j with
  | 0, 0 => rfl
  | 0, j + 1 => exact absurd (same ▸ parent first) (named (Nat.succ_pos j) second used')
  | i + 1, 0 => exact absurd (same ▸ parent second) (named (Nat.succ_pos i) first used)
  | i + 1, j + 1 =>
    have equal := holds.represents.unique i j e f (behind (Nat.succ_pos i) first) (behind (Nat.succ_pos j) second) used used' same
    rw [equal]

private theorem lookup_wp (holds : Holds home dir live fs map) :
    Wp (lookup dir name) (fun found fs' => fs' = fs ∧ found.map (·.1.inodeSector) = map name) fs := by
  obtain ⟨d, there⟩ := holds.there
  exact Wp.of_eq (there.lookup_eq holds.objects.blocks) ⟨rfl, holds.found name⟩

private theorem dirLookup_wp (holds : Holds home dir live fs map) (valid : EntryName name)
    (alive : ∀ sector, map name = some sector → live sector) :
    Wp (dirLookup dir name) (fun found fs' => (map name = none → found = none ∧ fs' = fs) ∧
      ∀ sector, map name = some sector → ∃ addr, found = some addr ∧ OpenAt fs' addr sector) fs := by
  obtain ⟨d, there⟩ := holds.there
  have found := holds.found name
  rw [dirLookup, wp_bind]
  refine Wp.of_eq there.getDir ?_
  rw [if_neg valid.notDot, if_neg valid.notDotDot, wp_bind]
  refine Wp.of_eq (there.lookup_eq holds.objects.blocks) ?_
  cases search : findFrom name 1 ((entriesAt fs home).drop 1) with
  | none =>
    rw [search] at found
    exact (wp_pure _).mpr ⟨fun _ => ⟨rfl, rfl⟩, fun sector present => by cases found.trans present⟩
  | some pair =>
    rw [search] at found
    have present : map name = some pair.1.inodeSector := found.symm
    dsimp only
    rw [wp_bind]
    refine (inodeOpen_wp holds.objects (alive _ present)).mono fun addr fs' opened => (wp_pure _).mpr ⟨fun absent => ?_, fun sector same => ?_⟩
    · cases present.symm.trans absent
    · cases present.symm.trans same
      exact ⟨addr, rfl, opened.here⟩

/-- A directory is a finite map, after any calls of `dir_add` and `dir_remove`. -/
theorem directory_is_map (run : Run home dir live fs map) :
    (∀ name sector, EntryName name → FileInode live fs home sector → (map name = none → EntryFits fs home) →
      Wp (dirAdd dir name sector) (fun added _ => added = true ↔ map name = none) fs) ∧
    (∀ name, EntryName name → (∀ sector, map name = some sector → FileInode live fs home sector) →
      Wp (dirRemove dir name) (fun removed _ => removed = true ↔ map name ≠ none) fs) ∧
    (∀ name, EntryName name → Wp (lookup dir name) (fun found fs' => fs' = fs ∧ found.map (·.1.inodeSector) = map name) fs) ∧
    (∀ name, EntryName name → (∀ sector, map name = some sector → live sector) →
      Wp (dirLookup dir name) (fun found fs' => (map name = none → found = none ∧ fs' = fs) ∧
        ∀ sector, map name = some sector → ∃ addr, found = some addr ∧ OpenAt fs' addr sector) fs) ∧
    (∀ (i j : Nat) (e f : DirEntry), (entriesAt fs home)[i]? = some e → (entriesAt fs home)[j]? = some f →
      e.inUse = true → f.inUse = true → e.fname = f.fname → i = j) ∧
    (entriesAt fs home)[0]? = some ⟨home, Vector.replicate 31 0, true⟩ ∧
    ∃ inode, OpenAt fs inode home ∧ Wp (readPass inode) (fun result _ =>
      result.1.Nodup ∧ (∀ name, name ∈ result.1 ↔ map name ≠ none) ∧ result.2 = none) fs := by
  have holds := run_holds run
  obtain ⟨d, there⟩ := holds.there
  obtain ⟨distinct, exact⟩ := holds.represents.keys
  refine ⟨fun name sector valid _ fits => (add_wp holds valid fits).mono fun _ _ => And.left,
    fun name _ file => (remove_wp holds file).mono fun _ _ => And.left, fun name _ => lookup_wp holds,
    fun name valid alive => dirLookup_wp holds valid alive, fun i j e f first second => holds.unique first second, holds.parent,
    d.inode, there.opened, (readPass_wp holds there.opened).mono fun result _ ⟨all, last⟩ => ?_⟩
  rw [all]
  exact ⟨distinct, exact, last⟩

section Example

private theorem smallDevice_directory : ∃ home dir live fs, Run home dir live fs (fun _ => none) ∧ (curData fs home).length = 72 ∧
    freeEntry fs home = 1 ∧ 1 < freeCount fs := by
  obtain ⟨fs, _, formatted, count⟩ := smallDevice_format
  have objects := formatted.volume.objects
  obtain ⟨_, fs₁, _, home, rfl, allocated⟩ := freeMapAllocate_wp objects.blocks.service (by omega)
  obtain ⟨objects₁, _, unclaimed⟩ := objects.allocated allocated
  have count₁ := allocated.count
  have size : offsetT ((2 : Nat) * 36) = 72 := rfl
  have one : sectorsNeeded (bytesToSectors 72) = 1 := by
    rw [show bytesToSectors 72 = 1 by decide, sectorsNeeded_eq (by decide)]
    rfl
  obtain ⟨created, fs₂, ran₁, outcome, made⟩ := dirCreate_wp objects₁ allocated.used unclaimed 2
  rw [size] at outcome made
  obtain rfl : created = true := (outcome (by decide)).mpr ⟨by decide, by decide, by rw [one]; omega⟩
  have made := made rfl
  have count₂ := made.count (by decide)
  rw [one] at count₂
  obtain ⟨inode, fs₃, ran₂, opened⟩ := inodeOpen_wp made.objects (.inr rfl)
  obtain ⟨dir, fs₄, ran₃, same⟩ : Wp (dirOpen inode) (fun _ fs₄ => curData fs₄ home = curData fs₃ home ∧
      entriesAt fs₄ home = entriesAt fs₃ home ∧ fs₄.freeMap = fs₃.freeMap) fs₃ := by
    rw [dirOpen, newAddr, wp_bind, wp_bind, wp_get, wp_bind, wp_set, wp_pure, wp_bind, wp_modify, wp_pure]
    exact ⟨rfl, rfl, rfl⟩
  have run : Run home dir _ fs₄ fun _ => none := .made objects₁ allocated.used unclaimed ran₁ ran₂ ran₃
  have length : (curData fs₄ home).length = 72 := by rw [same.1, opened.data, made.length]; rfl
  refine ⟨home, dir, _, fs₄, run, length, Nat.le_antisymm ?_ (run_holds run).free_low, ?_⟩
  · have inside : 1 < (entriesAt fs₄ home).length := by rw [entriesAt_length, length]; decide
    have there := List.getElem?_eq_getElem inside
    have entries : entriesAt fs₄ home = entriesAt fs₂ home := by
      rw [same.2.1]
      exact (opened.store.alike (opened.data home)).slotsOf
    exact freeFrom_le there (made.free 1 _ (Nat.le_refl 1) (by rw [← entries]; exact there))
  · rw [freeCount, same.2.2, opened.store.freeMap, ← freeCount]
    omega

theorem directory_is_map_added : ∃ home dir live fs map sector, Run home dir live fs map ∧ map [97] = some sector ∧
    Wp (lookup dir [97]) (fun found _ => found.map (·.1.inodeSector) = some sector) fs := by
  obtain ⟨home, dir, live, fs, run, length, slot, room⟩ := smallDevice_directory
  have holds := run_holds run
  obtain ⟨_, fs₁, ran₁, sector, rfl, allocated⟩ := freeMapAllocate_wp holds.objects.blocks.service (Nat.lt_of_succ_lt room)
  obtain ⟨objects₁, same₁, unclaimed⟩ := holds.objects.allocated allocated
  obtain ⟨created, fs₂, ran₂, outcome, _, same₂, _, _, made⟩ : Wp (inodeCreate sector 0 false) _ fs₁ :=
    objects₁.inodeCreate_wp allocated.used unclaimed (by decide)
  obtain rfl : created = true := outcome.mpr ⟨by decide, by decide, Nat.zero_le _⟩
  obtain ⟨_, fresh, _⟩ := made rfl
  have run₂ := run.file ran₁ (by decide) ran₂
  have file : FileInode (fun other => live other ∨ other = sector) fs₂ home sector :=
    ⟨.inr rfl, fun zero => unclaimed.not_live (zero ▸ holds.objects.blocks.mapLive),
      fun same => unclaimed.not_live (same ▸ holds.alive), fresh.isDir⟩
  have same := (same₁ home holds.alive).trans (same₂ home holds.alive)
  have fits : EntryFits fs₂ home := by
    have slot₂ : freeEntry fs₂ home = 1 := by
      rw [freeEntry, show entriesAt fs₂ home = entriesAt fs home from (same.alike holds.nonzero).slotsOf]
      exact slot
    rw [EntryFits, slot₂]
    refine fits_inside ((run_holds run₂).objects.blocks.readable (.inl holds.alive)) ?_
    rw [same.data, length]
    decide
  have valid : EntryName [97] := ⟨by decide, by decide, by decide, by decide, by decide⟩
  obtain ⟨_, fs₃, ran₃, _⟩ := (directory_is_map run₂).1 [97] sector valid file fun _ => fits
  have run₃ := run₂.added valid file (fun _ => fits) ran₃
  refine ⟨home, dir, _, fs₃, _, sector, run₃, by simp, ?_⟩
  refine ((directory_is_map run₃).2.2.1 [97] valid).mono fun found _ ended => ?_
  obtain ⟨_, there⟩ := ended
  rw [there]
  simp

end Example

end Comp310.Proofs.DirectoryMap
