import Comp310.Fs.Session
import Comp310.Fs.Positions

/-! Directories at any sector, among any live objects. The root directory of a
volume is one of them. -/

namespace Comp310.Fs
open Comp310.Lib

/-- The entries of the directory that has its inode in this sector. -/
def entriesAt (fs : FileSystem) (home : Sector) : List DirEntry := slotsOf fs.disk.view (curData fs home)

/-- The entry that a new name goes to. -/
def freeEntry (fs : FileSystem) (home : Sector) : Nat := freeFrom 0 (entriesAt fs home)

/-- There is space for one more name. -/
def EntryFits (fs : FileSystem) (home : Sector) : Prop := Fits fs (curData fs home) (36 * freeEntry fs home + 36 : Nat)

/-- The directory of this sector is open at `dir`. -/
structure DirAt (fs : FileSystem) (dir : Addr) (d : Dir) (home : Sector) : Prop where
  found : fs.dirs.lookup dir = some d
  opened : OpenAt fs d.inode home

/-- What a removed name leaves: its entry is free, and so are the sectors of its file. -/
structure EntryRemoved (live : Sector → Prop) (fs fs' : FileSystem) (home : Sector) (e : DirEntry) (j : Nat) : Prop where
  objects : Objects (fun other => live other ∧ other ≠ e.inodeSector) fs'
  entries : entriesAt fs' home = putSlot (entriesAt fs home) j { e with inUse := false }
  length : (curData fs' home).length = (curData fs home).length
  isDir : (curData fs' home).isDir = (curData fs home).isDir
  same : ∀ other, live other → other ≠ home → other ≠ e.inodeSector → Same fs fs' other
  dirs : fs'.dirs = fs.dirs
  cwd : fs'.cwd = fs.cwd
  fileTable : fs'.fileTable = fs.fileTable
  freeMapFile : fs'.freeMapFile = fs.freeMapFile
  opens : ∀ addr other, other ≠ e.inodeSector → OpenAt fs addr other → OpenAt fs' addr other
  mapInode : fs'.disk.view 0 = fs.disk.view 0
  count : freeCount fs' = freeCount fs + 1 + sectorsNeeded (bytesToSectors (curData fs e.inodeSector).length)
  mono : ∀ other, Used fs other → (∀ place, Filled fs (e.inodeSector, place) → claim fs (e.inodeSector, place) ≠ other) → Used fs' other
  size : fs'.freeMap.length = fs.freeMap.length

/-- What `dir_create` leaves: one entry in use, the parent's, which names the directory itself. -/
structure DirMade (live : Sector → Prop) (fs fs' : FileSystem) (home : Sector) (size : Int) : Prop where
  objects : Objects (fun other => live other ∨ other = home) fs'
  parent : (entriesAt fs' home)[0]? = some ⟨home, Vector.replicate 31 0, true⟩
  free : ∀ (i : Nat) (e : DirEntry), 1 ≤ i → (entriesAt fs' home)[i]? = some e → e.inUse = false
  length : (curData fs' home).length = max size 36
  same : ∀ other, live other → Same fs fs' other
  closed : ∀ entry ∈ fs'.openInodes, entry.2.sector ≠ home
  dirs : ∃ key, fs'.dirs = fs.dirs.filter fun entry => entry.1 != key
  cwd : fs'.cwd = none
  freeMapFile : fs'.freeMapFile = fs.freeMapFile
  mapInode : fs'.disk.view 0 = fs.disk.view 0
  mapSize : fs'.freeMap.length = fs.freeMap.length
  count : 36 ≤ size → freeCount fs' = freeCount fs - sectorsNeeded (bytesToSectors size)

variable {live : Sector → Prop} {fs fs' : FileSystem} {dir addr : Addr} {d : Dir} {name : CString} {sector home : Sector}
  {inode : Inode} {e : DirEntry} {j : Nat}

theorem entriesAt_length : (entriesAt fs home).length = (curData fs home).length.toNat / 36 := slotsOf_length

section Opens

theorem openAt_setData {data : InodeDisk} {other : Addr} (opened : OpenAt fs other sector) :
    ∃ inode, (other, inode) ∈ setData fs addr data ∧ inode.sector = sector := by
  obtain ⟨inode, member, home⟩ := opened
  by_cases same : other = addr
  · subst same
    exact ⟨{ inode with data }, mem_setData.mpr (.inr ⟨inode, member, rfl⟩), home⟩
  · exact ⟨inode, mem_setData.mpr (.inl ⟨member, same⟩), home⟩

theorem openAt_of_setData {data : InodeDisk} {other : Addr}
    (opened : ∃ inode, (other, inode) ∈ setData fs addr data ∧ inode.sector = sector) : OpenAt fs other sector := by
  obtain ⟨inode, member, home⟩ := opened
  rcases mem_setData.mp member with ⟨there, _⟩ | ⟨inode', there, same⟩
  · exact ⟨inode, there, home⟩
  · obtain ⟨rfl, rfl⟩ := Prod.mk.inj same
    exact ⟨inode', there, home⟩

section Writes
variable {start : Nat} {buffer : List UInt8} {ok : Bool}

theorem WriteAt.openAt (wrote : WriteAt live fs fs' addr inode start buffer ok) {other : Addr}
    (opened : OpenAt fs other sector) : OpenAt fs' other sector := by
  obtain ⟨inode', member, home⟩ := openAt_setData opened
  exact ⟨inode', wrote.heap.openInodes.symm ▸ member, home⟩

theorem WriteAt.openAt_iff (wrote : WriteAt live fs fs' addr inode start buffer ok) {other : Addr} :
    OpenAt fs' other sector ↔ OpenAt fs other sector := by
  refine ⟨fun opened => ?_, wrote.openAt⟩
  rw [OpenAt, wrote.heap.openInodes] at opened
  exact openAt_of_setData opened

end Writes

theorem Opened.openAt {tidy : Prop} (opened : Opened live fs fs' sector addr tidy) {other : Addr} {there : Sector} (before : OpenAt fs other there) :
    OpenAt fs' other there := by
  obtain ⟨inode, member, home⟩ := before
  exact ⟨inode, opened.keep _ member, home⟩

end Opens

section Entries
variable (blocks : Blocks live fs) (there : DirAt fs dir d home)
include there

theorem DirAt.getDir : getDir dir fs = some (d, fs) := by
  change (fs.dirs.lookup dir).map _ = _
  rw [there.found]
  rfl

include blocks

theorem DirAt.inMemory : ∃ inode, (d.inode, inode) ∈ fs.openInodes ∧ inode.sector = home ∧ inode.data = curData fs home ∧
    Readable fs inode.data := by
  obtain ⟨inode, opened, rfl⟩ := there.opened
  have was := blocks.handles.curData opened
  have readable := blocks.readable (blocks.opens _ opened)
  rw [was] at readable
  exact ⟨inode, opened, rfl, was.symm, readable⟩

theorem DirAt.entriesOf_eq : entriesOf d.inode fs = some ((entriesAt fs home).length + 1, fs) := by
  obtain ⟨inode, opened, _, data, _⟩ := there.inMemory blocks
  rw [entriesOf, run_bind (getInode_eq (blocks.handles.inode? opened)), entriesAt_length, ← data]
  rfl

theorem DirAt.lookup_eq : lookup dir name fs = some (findFrom name 1 ((entriesAt fs home).drop 1), fs) := by
  obtain ⟨inode, opened, _, data, readable⟩ := there.inMemory blocks
  rw [lookup, run_bind there.getDir, run_bind (there.entriesOf_eq blocks)]
  rw [show (36 : Int) = ((36 * 1 : Nat) : Int) from rfl, lookupLoop_eq (blocks.handles.inode? opened) readable _ _ (by
    rw [entriesAt, data]; omega), data]
  rfl

/-- A name is added when it fits an entry, is new and the directory can hold it. -/
theorem DirAt.dirAdd_wp (nonzero : home ≠ 0) :
    Wp (dirAdd dir name sector) (fun added fs' =>
      (name = [] ∨ 30 < name.length ∨ findFrom name 1 ((entriesAt fs home).drop 1) ≠ none → added = false ∧ fs' = fs) ∧
      (¬ (name = [] ∨ 30 < name.length ∨ findFrom name 1 ((entriesAt fs home).drop 1) ≠ none) →
        ∃ inode, (d.inode, inode) ∈ fs.openInodes ∧ inode.sector = home ∧ inode.data = curData fs home ∧
          (added = true ↔ EntryFits fs home) ∧ WriteAt live fs fs' d.inode inode (36 * freeEntry fs home)
            (DirEntry.bytes ⟨sector, strncpy name, true⟩) added)) fs := by
  rw [dirAdd, wp_bind]
  refine Wp.of_eq there.getDir ?_
  by_cases malformed : name = [] ∨ 30 < name.length
  · rw [if_pos malformed, wp_pure]
    exact ⟨fun _ => ⟨rfl, rfl⟩, fun well => absurd (malformed.elim .inl fun long => .inr (.inl long)) well⟩
  rw [if_neg malformed, wp_bind]
  refine Wp.of_eq (there.lookup_eq blocks) ?_
  cases found : findFrom name 1 ((entriesAt fs home).drop 1) with
  | some pair => exact (wp_pure _).mpr ⟨fun _ => ⟨rfl, rfl⟩, fun absent => absurd (.inr (.inr nofun)) absent⟩
  | none =>
    obtain ⟨inode, opened, at_home, data, readable⟩ := there.inMemory blocks
    have size : (slotsOf fs.disk.view inode.data).length = inode.data.length.toNat / 36 := slotsOf_length
    have limit := readable.limit
    have place : freeEntry fs home ≤ 0 + (entriesAt fs home).length := freeFrom_spec.2.1
    dsimp only
    rw [wp_bind]
    refine Wp.of_eq (there.entriesOf_eq blocks) ?_
    rw [wp_bind, show (0 : Int) = ((36 * 0 : Nat) : Int) from rfl]
    refine Wp.of_eq (freeSlotLoop_eq (blocks.handles.inode? opened) readable _ 0 (by rw [entriesAt, data]; omega)) ?_
    rw [List.drop_zero, data]
    rw [show freeFrom 0 (slotsOf fs.disk.view (curData fs home)) = freeEntry fs home from rfl, wp_bind]
    have short : freeEntry fs home ≤ inode.data.length.toNat / 36 := by
      rw [← size, data]
      rw [Nat.zero_add] at place
      exact place
    refine (inodeWriteAt_wp blocks opened (by rw [at_home]; exact nonzero) (by rw [DirEntry.bytes_length]; decide) (by
      rw [DirEntry.bytes_length]; omega)).mono fun written fs' ⟨ok, fits, all, wrote⟩ => (wp_pure _).mpr ⟨fun bad => ?_, fun _ => ?_⟩
    · exact absurd (bad.elim .inl fun bad => .inr (bad.resolve_right (absurd rfl))) malformed
    · rw [DirEntry.bytes_length] at fits all
      have outcome : (written == 36) = ok := by
        rw [all]
        cases ok <;> rfl
      rw [outcome]
      refine ⟨inode, opened, at_home, data, ?_, wrote⟩
      rw [fits, data, EntryFits]

end Entries

section Creating

private theorem entries_fresh (bytes : ∀ i, fileByte fs.disk.view (curData fs home) i = 0) (i : Nat) (e : DirEntry)
    (there : (entriesAt fs home)[i]? = some e) : e.inUse = false := by
  have inside := (List.getElem?_eq_some_iff.mp there).1
  rw [entriesAt] at there inside
  rw [slotsOf_getElem? inside] at there
  have zeros : fileRange fs.disk.view (curData fs home) (36 * i) 36 = List.replicate 36 0 := by
    rw [List.eq_replicate_iff]
    refine ⟨fileRange_length _ _, fun byte member => ?_⟩
    obtain ⟨k, _, rfl⟩ := List.mem_map.mp member
    exact bytes _
  cases there
  rw [slotAt, zeros]
  rfl

/-- A directory is made at a sector that is used and that no object has. Its first entry takes no other sector. -/
theorem dirCreate_steps (objects : Objects live fs) (used : Used fs home) (unclaimed : Unclaimed live fs home) (entryCnt : Nat) :
    Wp (dirCreate home entryCnt) (fun created fs' =>
      (36 ≤ offsetT (entryCnt * 36) → (created = true ↔ Affordable fs (offsetT (entryCnt * 36)))) ∧
      (created = true → DirMade live fs fs' home (offsetT (entryCnt * 36)) ∧ (36 ≤ offsetT (entryCnt * 36) →
        ∃ made, inodeCreate home (offsetT (entryCnt * 36)) true fs = some (true, made) ∧ fs'.freeMap = made.freeMap))) fs := by
  have nonzero : home ≠ 0 := fun zero => unclaimed.not_live (zero ▸ objects.blocks.mapLive)
  have small := (offsetT_range (entryCnt * 36)).2
  rw [dirCreate, wp_bind]
  generalize offsetT (entryCnt * 36) = size at small ⊢
  refine (objects.inodeCreate_wp used unclaimed small).remember.mono fun created fs₁ ended => ?_
  obtain ⟨create, outcome, run, same₁, _, _, success⟩ := ended
  cases created with
  | false => exact (wp_pure _).mpr ⟨fun _ => outcome, fun made => absurd made Bool.false_ne_true⟩
  | true =>
    obtain ⟨objects₁, fresh, mapInode, _⟩ := success rfl
    simp only [if_true]
    rw [wp_bind]
    refine (inodeOpen_wp objects₁ (.inr rfl)).mono fun addr fs₂ opened => ?_
    simp only [dirOpen, newAddr, wp_bind, wp_get, wp_set, wp_modify, wp_pure]
    generalize fs₃_eq : ({ fs₂ with
      dirs := (fs₂.nextAddr, ⟨addr, 36, 1⟩) :: fs₂.dirs, nextAddr := fs₂.nextAddr + 1 } : FileSystem) = fs₃
    have store₃ : SameStore fs₂ fs₃ := by rw [← fs₃_eq]; exact ⟨rfl, rfl, rfl, rfl⟩
    have entries₃ : fs₃.openInodes = fs₂.openInodes := by rw [← fs₃_eq]
    have objects₃ := opened.objects.congr store₃ entries₃ (by rw [← fs₃_eq]; exact Nat.le_succ _)
    have data₃ (other : Sector) : curData fs₃ other = curData fs₁ other :=
      (store₃.curData entries₃ other).trans (opened.data other)
    have disk₃ : fs₃.disk = fs₁.disk := store₃.disk.trans opened.store.disk
    have dirs₃ : fs₃.dirs = (fs₂.nextAddr, ⟨addr, 36, 1⟩) :: fs.dirs := by
      rw [← fs₃_eq, opened.dirs, run.heap.dirs]
    obtain ⟨inode, member₂, rfl⟩ := opened.here
    have member : (addr, inode) ∈ fs₃.openInodes := entries₃ ▸ member₂
    have data : inode.data = curData fs₃ inode.sector := (objects₃.blocks.handles.curData member).symm
    have length₃ : inode.data.length = size := by rw [data, data₃, fresh.length]
    have noneUsed (i : Nat) (f : DirEntry) (there : (entriesAt fs₃ inode.sector)[i]? = some f) : f.inUse = false :=
      entries_fresh (fun i => by rw [data₃, disk₃]; exact fresh.bytes i) i f there
    have readable : Readable fs₃ inode.data := data ▸ objects₃.blocks.readable (.inr rfl)
    have limit := readable.limit
    rw [show (0 : Int) = ((36 * 0 : Nat) : Int) from rfl]
    refine (inodeWriteAt_wp objects₃.blocks member nonzero (by rw [DirEntry.bytes_length]; decide)
      (by rw [DirEntry.bytes_length]; decide)).mono fun written fs₄ ended => ?_
    obtain ⟨ok, fits, all, wrote⟩ := ended
    rw [DirEntry.bytes_length] at fits all
    have objects₄ := wrote.objects objects₃ member
    have entries₄ := wrote.slotsOf objects₃.blocks member (Nat.zero_le _)
    have dirs₄ : fs₄.dirs = (fs₂.nextAddr, ⟨addr, 36, 1⟩) :: fs.dirs := wrote.heap.dirs.trans dirs₃
    have found : getDir fs₂.nextAddr fs₄ = some (⟨addr, 36, 1⟩, fs₄) := by simp [getDir, FileSystem.dir?, dirs₄]
    obtain ⟨inode₄, member₄, home₄⟩ := wrote.openAt ⟨inode, member, rfl⟩
    rw [dirClose, wp_bind]
    refine Wp.of_eq found ?_
    rw [if_pos (Int.sub_self 1), wp_bind]
    refine Wp.of_eq (inodeClose_eq objects₄.blocks.handles member₄) ?_
    rw [wp_modify]
    have result : (written == 36) = ok := by
      rw [all]
      cases ok <;> rfl
    rw [result]
    refine ⟨fun room => ?_, fun done => ?_⟩
    · have inside : (36 * 0 + 36 : Nat) ≤ inode.data.length := by rw [length₃]; exact room
      rw [fits.mpr (fits_inside readable inside)]
      exact ⟨fun _ => outcome.mp rfl, fun _ => rfl⟩
    subst done
    obtain ⟨objects₅, alike₅⟩ := objects₄.dropInode member₄ (by rw [home₄]; exact nonzero)
    obtain ⟨_, others₅⟩ := objects₄.blocks.handles.curData_dropInode member₄
    generalize fs₅_eq : ({ dropInode fs₄ addr with
      dirs := (dropInode fs₄ addr).dirs.filter fun entry => entry.1 != fs₂.nextAddr, cwd := none } : FileSystem) = fs₅
    have store₅ : SameStore (dropInode fs₄ addr) fs₅ := by rw [← fs₅_eq]; exact ⟨rfl, rfl, rfl, rfl⟩
    have openInodes₅ : fs₅.openInodes = (dropInode fs₄ addr).openInodes := by rw [← fs₅_eq]
    have home₅ : Alike fs₄ fs₅ inode.sector :=
      (alike₅ inode.sector (.inr rfl)).trans (store₅.alike (store₅.curData openInodes₅ inode.sector))
    have entries₅ : entriesAt fs₅ inode.sector = putSlot (entriesAt fs₃ inode.sector) 0 ⟨inode.sector, Vector.replicate 31 0, true⟩ := by
      rw [if_pos rfl, data] at entries₄
      exact home₅.slotsOf.trans entries₄
    have freeMap₃ : fs₃.freeMap = fs₁.freeMap := store₃.freeMap.trans opened.store.freeMap
    have kept (room : 36 ≤ size) : fs₅.freeMap = fs₁.freeMap := by
      have inside : (36 * 0 + 36 : Nat) ≤ inode.data.length := by rw [length₃]; exact room
      have count := wrote.count
      rw [DirEntry.bytes_length, shortOf_inside readable inside] at count
      rw [store₅.freeMap, ← freeMap₃]
      exact objects₃.blocks.freeMap_ext wrote.size wrote.grows.mono count
    refine ⟨⟨objects₅.congr store₅ openInodes₅ (Nat.le_of_eq (by rw [← fs₅_eq])), ?_, fun i f low there => ?_, ?_, fun other there => ?_,
      fun entry there equal => ?_, ⟨fs₂.nextAddr, ?_⟩, by rw [← fs₅_eq], ?_, ?_, ?_, fun room => ?_⟩, fun room => ⟨fs₁, create, kept room⟩⟩
    · rw [entries₅, putSlot_getElem? (Nat.zero_le _), if_pos rfl]
    · rw [entries₅, putSlot_getElem? (Nat.zero_le _), if_neg (by omega)] at there
      exact noneUsed i f there
    · have length := wrote.length
      rw [DirEntry.bytes_length, if_pos rfl, length₃] at length
      exact home₅.length.trans length
    · have differs : other ≠ inode.sector := fun equal => unclaimed.not_live (equal ▸ there)
      have first := (same₁ other there).trans (opened.store.same (opened.data other))
      have second := first.trans (store₃.same (store₃.curData entries₃ other))
      have third := second.trans (wrote.others other (.inl there) differs)
      have fourth := third.trans (dropInode_store.same (others₅ other (by rw [home₄]; exact differs)))
      exact fourth.trans (store₅.same (store₅.curData openInodes₅ other))
    · rw [openInodes₅] at there
      obtain ⟨there, differs⟩ := mem_dropInode.mp there
      have equal : entry = (addr, inode₄) := objects₄.blocks.handles.same_sector there member₄ (equal.trans home₄.symm)
      exact differs (by rw [equal])
    · rw [← fs₅_eq]
      dsimp only
      rw [show (dropInode fs₄ addr).dirs = fs₄.dirs from rfl, dirs₄]
      simp
    · exact store₅.freeMapFile.trans (wrote.heap.freeMapFile.trans (store₃.freeMapFile.trans
        (opened.store.freeMapFile.trans run.heap.freeMapFile)))
    · rw [store₅.disk]
      change fs₄.disk.view 0 = _
      rw [wrote.mapInode rfl, disk₃, mapInode]
    · rw [store₅.freeMap]
      change fs₄.freeMap.length = _
      rw [wrote.size, freeMap₃, run.freeMap]
    · rw [freeCount, kept room, ← freeCount, run.count, if_neg (by omega)]

theorem dirCreate_wp (objects : Objects live fs) (used : Used fs home) (unclaimed : Unclaimed live fs home) (entryCnt : Nat) :
    Wp (dirCreate home entryCnt) (fun created fs' =>
      (36 ≤ offsetT (entryCnt * 36) → (created = true ↔ Affordable fs (offsetT (entryCnt * 36)))) ∧
      (created = true → DirMade live fs fs' home (offsetT (entryCnt * 36)))) fs :=
  (dirCreate_steps objects used unclaimed entryCnt).mono fun _ _ ⟨outcome, success⟩ => ⟨outcome, fun done => (success done).1⟩

end Creating

section Removing

theorem findFrom_drop {ofs : Int} {entries : List DirEntry} (found : findFrom name 1 (entries.drop 1) = some (e, ofs)) :
    ∃ j : Nat, 1 ≤ j ∧ entries[j]? = some e ∧ ofs = (36 * j : Nat) ∧ e.inUse = true ∧ e.fname = name := by
  obtain ⟨j, there, rfl, used, same⟩ := findFrom_some found
  rw [List.getElem?_drop] at there
  exact ⟨1 + j, Nat.le_add_right 1 j, there, rfl, used, same⟩

theorem DirAt.dirRemove_missing (blocks : Blocks live fs) (there : DirAt fs dir d home)
    (missing : findFrom name 1 ((entriesAt fs home).drop 1) = none) : dirRemove dir name fs = some (false, fs) := by
  rw [dirRemove, run_bind (there.lookup_eq blocks), missing]
  rfl

/-- A file is removed with its entry, which is written in its place inside the directory. -/
theorem DirAt.dirRemove_wp (objects : Objects live fs) (there : DirAt fs dir d home) (nonzero : home ≠ 0) (alive : live home)
    (found : findFrom name 1 ((entriesAt fs home).drop 1) = some (e, ((36 * j : Nat) : Int))) (member : live e.inodeSector)
    (fileNonzero : e.inodeSector ≠ 0) (notHome : e.inodeSector ≠ home) (isFile : (curData fs e.inodeSector).isDir = 0) :
    Wp (dirRemove dir name) (fun removed fs' => removed = true ∧ EntryRemoved live fs fs' home e j) fs := by
  have inside : j < (entriesAt fs home).length := by
    obtain ⟨j', _, place, same, _⟩ := findFrom_drop found
    obtain rfl : j = j' := by omega
    exact (List.getElem?_eq_some_iff.mp place).1
  rw [dirRemove, wp_bind]
  refine Wp.of_eq (there.lookup_eq objects.blocks) ?_
  rw [found]
  dsimp only
  rw [wp_bind]
  refine Wp.of_eq there.getDir ?_
  rw [wp_bind]
  refine (inodeOpen_wp objects member).mono fun addr fs₁ opened => ?_
  have blocks₁ := opened.objects.blocks
  have there₁ : DirAt fs₁ dir d home := ⟨by rw [opened.dirs]; exact there.found, opened.openAt there.opened⟩
  obtain ⟨target, targetMember, targetHome⟩ := opened.here
  have regular : target.data.isDir = 0 := by
    rw [← blocks₁.handles.curData targetMember, targetHome, opened.data]
    exact isFile
  rw [wp_bind]
  refine Wp.of_eq (getInode_eq (blocks₁.handles.inode? targetMember)) ?_
  rw [InodeDisk.inodeIsDirectory, regular, if_neg (by decide), wp_bind, wp_pure, if_pos rfl, wp_bind]
  obtain ⟨inode, inodeMember, rfl, data, readable⟩ := there₁.inMemory blocks₁
  have entries₁ : slotsOf fs₁.disk.view inode.data = entriesAt fs inode.sector := by
    rw [data, opened.data, opened.store.disk, entriesAt]
  have room : (36 * j + 36 : Nat) ≤ inode.data.length := by
    rw [← entries₁, slotsOf_length] at inside
    omega
  have limit := readable.limit
  refine (inodeWriteAt_wp blocks₁ inodeMember nonzero (by rw [DirEntry.bytes_length]; decide)
    (by rw [DirEntry.bytes_length]; omega)).mono fun written fs₂ ⟨ok, fits, all, wrote⟩ => ?_
  rw [DirEntry.bytes_length] at fits all
  obtain rfl : ok = true := fits.mpr (fits_inside readable room)
  rw [if_pos (show written = 36 from all)]
  have objects₂ := wrote.objects opened.objects inodeMember
  have cleared := wrote.slotsOf blocks₁ inodeMember (by rw [entries₁]; exact Nat.le_of_lt inside)
  rw [if_pos rfl, entries₁] at cleared
  have length₂ : (curData fs₂ inode.sector).length = (curData fs inode.sector).length := by
    have length := wrote.length
    rw [DirEntry.bytes_length, if_pos rfl, Int.max_eq_left room, data, opened.data] at length
    exact length
  have isDir₂ : (curData fs₂ inode.sector).isDir = (curData fs inode.sector).isDir := by
    rw [wrote.isDir, data, opened.data]
  have count₂ : freeCount fs₂ = freeCount fs := by
    have count := wrote.count
    rw [DirEntry.bytes_length, shortOf_inside readable room] at count
    rw [count, freeCount, opened.store.freeMap]
    rfl
  have same₂ (other : Sector) (there : live other) (differs : other ≠ inode.sector) : Same fs fs₂ other :=
    (opened.store.same (opened.data other)).trans (wrote.others other there differs)
  obtain ⟨target', targetMember', targetHome'⟩ := wrote.openAt ⟨target, targetMember, targetHome⟩
  have data' : target'.data = curData fs e.inodeSector := by
    rw [← objects₂.blocks.handles.curData targetMember', targetHome', (same₂ _ member notHome).data]
  suffices removal : Wp (do
      inodeRemove addr
      inodeClose addr) (fun _ fs' => EntryRemoved live fs fs' inode.sector e j) fs₂ by
    rw [wp_bind] at removal ⊢
    refine removal.mono fun _ _ closed => ?_
    rw [wp_bind]
    exact closed.mono fun _ fs' done => (wp_pure _).mpr ⟨rfl, done⟩
  refine (inodeRemove_wp objects₂ targetMember' (by rw [targetHome']; exact fileNonzero)).mono fun _ fs₃ removed => ?_
  have home₃ : Alike fs₂ fs₃ inode.sector :=
    (removed.same inode.sector alive (by rw [targetHome']; exact Ne.symm notHome)).alike nonzero
  refine ⟨by rw [← targetHome']; exact removed.objects, home₃.slotsOf.trans cleared, home₃.length.trans length₂, home₃.isDir.trans isDir₂,
    fun other there notHome differs => (same₂ other there notHome).trans (removed.same other there (by rw [targetHome']; exact differs)),
    ?_, ?_, ?_, ?_, fun key other differs before => ?_, ?_, ?_, fun other used foreign => ?_, ?_⟩
  · exact removed.heap.dirs.trans (wrote.heap.dirs.trans opened.dirs)
  · exact removed.heap.cwd.trans (wrote.heap.cwd.trans opened.cwd)
  · exact removed.heap.fileTable.trans (wrote.heap.fileTable.trans opened.fileTable)
  · exact removed.heap.freeMapFile.trans (wrote.heap.freeMapFile.trans opened.store.freeMapFile)
  · obtain ⟨other', still, home⟩ := wrote.openAt (opened.openAt before)
    refine ⟨other', ?_, home⟩
    rw [removed.heap.openInodes]
    refine mem_dropInode.mpr ⟨still, fun equal => differs ?_⟩
    have equal : (key, other') = (addr, target') := objects₂.blocks.handles.same_addr still targetMember' equal
    rw [← home, (Prod.mk.inj equal).2, targetHome']
  · rw [removed.mapInode, wrote.mapInode rfl, opened.store.disk]
  · rw [removed.count, count₂, data']
  · have same := same₂ e.inodeSector member notHome
    refine removed.mono other (wrote.grows.mono other (opened.store.used ▸ used)) fun place filled => ?_
    rw [targetHome'] at filled ⊢
    rw [same.claim]
    exact foreign place (same.filled.mp filled)
  · rw [removed.length, wrote.size, opened.store.freeMap]

end Removing

end Comp310.Fs
