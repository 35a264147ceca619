import Comp310.Fs.Extend

/-! The invariant of all live objects, and what creating an inode does to it. -/

namespace Comp310.Fs
open Comp310.Lib

/-- An object that reads as it did before. -/
structure Alike (fs fs' : FileSystem) (sector : Sector) : Prop where
  length : (curData fs' sector).length = (curData fs sector).length
  isDir : (curData fs' sector).isDir = (curData fs sector).isDir
  bytes : ∀ i : Nat, i < (curData fs sector).length →
    fileByte fs'.disk.view (curData fs' sector) i = fileByte fs.disk.view (curData fs sector) i

/-- The live objects share no sectors and can be read from the disk again; where all is tidy they end in zeros. -/
structure Objects (live : Sector → Prop) (fs : FileSystem) (tidy : Prop := True) : Prop where
  blocks : Blocks live fs
  synced : Synced fs
  saved : ∀ sector, live sector → sector ≠ 0 → Saved fs sector
  slack : tidy → ∀ sector, live sector → sector ≠ 0 → Blank fs sector

/-- An inode with this sector is open at the address. -/
def OpenAt (fs : FileSystem) (addr : Addr) (sector : Sector) : Prop :=
  ∃ inode, (addr, inode) ∈ fs.openInodes ∧ inode.sector = sector

def Unclaimed (live : Sector → Prop) (fs : FileSystem) (sector : Sector) : Prop :=
  ∀ role, live role.1 → Filled fs role → claim fs role ≠ sector

variable {live live' : Sector → Prop} {fs middle fs' : FileSystem} {sector : Sector} {addr : Addr} {inode : Inode}
  {permitted : Sector → Prop} {tidy : Prop}

theorem Alike.refl : Alike fs fs sector := ⟨rfl, rfl, fun _ _ => rfl⟩

theorem Alike.trans (first : Alike fs middle sector) (second : Alike middle fs' sector) : Alike fs fs' sector :=
  ⟨second.length.trans first.length, second.isDir.trans first.isDir,
    fun i inside => (second.bytes i (first.length ▸ inside)).trans (first.bytes i inside)⟩

theorem Same.alike (same : Same fs fs' sector) (nonzero : sector ≠ 0) : Alike fs fs' sector :=
  ⟨by rw [same.data], by rw [same.data], fun i _ => same.fileByte nonzero i⟩

theorem Same.mapData (same : Same fs fs' 0) : MapData fs' = MapData fs := by
  funext other
  rw [MapData, MapData, DataSector, DataSector, same.blockAt, same.data]

theorem Unclaimed.not_live (unclaimed : Unclaimed live fs sector) : ¬ live sector :=
  fun member => unclaimed (sector, none) member filled_inode rfl

theorem Unclaimed.congr (unclaimed : Unclaimed live fs sector) (same : ∀ other, live other → Same fs fs' other) :
    Unclaimed live fs' sector := by
  intro role member filled
  rw [(same role.1 member).claim]
  exact unclaimed role member ((same role.1 member).filled.mp filled)

theorem Objects.blank (objects : Objects live fs) : ∀ sector, live sector → sector ≠ 0 → Blank fs sector := objects.slack trivial

theorem Objects.objects_of (objects : Objects live fs tidy) (blocks : Blocks live fs') (follows : Follows fs fs')
    (same : ∀ other, live other → Same fs fs' other) : Objects live fs' tidy :=
  ⟨blocks, follows.synced objects.synced,
    fun other member nonzero => (same other member).saved (objects.blocks.sound other member) nonzero
      (objects.saved other member nonzero),
    fun kept other member nonzero => (same other member).blank nonzero (objects.slack kept other member nonzero)⟩

section Quiet

/-- Changes of the disk and the free map that no live object notices. -/
theorem Blocks.quiet (blocks : Blocks live fs) (foreign : Sector → Prop) (heap : SameHeap fs fs') (length : fs'.freeMap.length = fs.freeMap.length)
    (follows : Follows fs fs') (touches : Touches permitted fs fs')
    (wider : ∀ other, permitted other → MapData fs other ∨ other = 0 ∨ foreign other)
    (away : ∀ role, live role.1 → Filled fs role → ¬ foreign (claim fs role))
    (used : ∀ role, live role.1 → Filled fs role → Used fs' (claim fs role)) :
    Blocks live fs' ∧ ∀ other, live other → Same fs fs' other := by
  have same (other : Sector) (member : live other) : Same fs fs' other :=
    blocks.same touches member wider (fun place => away (other, place) member) heap.curData
  refine ⟨blocks.frame (fun _ => id) blocks.mapLive touches.size length heap.panics (heap.handles blocks.handles) ?_ ?_
    (follows.padded blocks.padded) (fun other member => (same other member).sound (blocks.sound other member))
    (fun role member filled => ⟨(same role.1 member).filled.mp filled, (same role.1 member).claim⟩) used, same⟩
  · rw [heap.openInodes]
    exact blocks.opens
  · obtain ⟨file, inode, opened, member, home, size⟩ := blocks.mapOpen
    exact ⟨file, inode, heap.freeMapFile.trans opened, heap.openInodes ▸ member, home, by rw [length, size]⟩

theorem Objects.quiet (objects : Objects live fs) (foreign : Sector → Prop) (heap : SameHeap fs fs') (length : fs'.freeMap.length = fs.freeMap.length)
    (follows : Follows fs fs') (touches : Touches permitted fs fs')
    (wider : ∀ other, permitted other → MapData fs other ∨ other = 0 ∨ foreign other)
    (away : ∀ role, live role.1 → Filled fs role → ¬ foreign (claim fs role))
    (used : ∀ role, live role.1 → Filled fs role → Used fs' (claim fs role)) :
    Objects live fs' ∧ ∀ other, live other → Same fs fs' other := by
  obtain ⟨blocks, same⟩ := objects.blocks.quiet foreign heap length follows touches wider away used
  exact ⟨objects.objects_of blocks follows same, same⟩

theorem Objects.allocated (objects : Objects live fs) (allocated : Allocated (MapData fs) (MapIndex fs) fs fs' sector) :
    Objects live fs' ∧ (∀ other, live other → Same fs fs' other) ∧ Unclaimed live fs' sector := by
  have blocks := objects.blocks
  obtain ⟨objects', same⟩ := objects.quiet (fun _ => False) allocated.heap
    (by rw [allocated.map, List.length_set]) (.of_written allocated.synced) allocated.touches (fun _ mine => .inl mine)
    (fun _ _ _ => id) fun role member filled => allocated.mono (blocks.used role member filled)
  refine ⟨objects', same, fun role member filled equal => allocated.unused ?_⟩
  rw [(same role.1 member).filled] at filled
  rw [(same role.1 member).claim] at equal
  exact equal ▸ blocks.used role member filled

/-- A sector that is nobody's is not one of the free map's file. -/
theorem Unclaimed.not_map (unclaimed : Unclaimed live fs sector) (blocks : Blocks live fs) : ¬ MapData fs sector ∧ ¬ MapIndex fs sector := by
  constructor
  · intro mine
    obtain ⟨p, _, filled, same⟩ := blocks.mapData_role mine
    exact unclaimed (0, some p) blocks.mapLive filled same.symm
  · rintro ⟨p, _, present, same⟩
    exact unclaimed (0, some p) blocks.mapLive (filled_place.mpr present) same.symm

theorem Objects.release_wp (objects : Objects live fs) (used : Used fs sector) (unclaimed : Unclaimed live fs sector) :
    Wp (freeMapRelease sector 1) (fun _ fs' => Released (MapData fs) (MapIndex fs) fs fs' sector ∧ Objects live fs' ∧
      ∀ other, live other → Same fs fs' other) fs := by
  have blocks := objects.blocks
  have nonzero : sector ≠ 0 := fun zero => unclaimed (0, none) blocks.mapLive filled_inode zero.symm
  obtain ⟨notData, notIndex⟩ := unclaimed.not_map blocks
  have opened : fs.freeMapFile ≠ none := by
    obtain ⟨file, _, opened, _⟩ := blocks.mapOpen
    rw [opened]
    nofun
  refine (freeMapRelease_wp blocks.service opened used ⟨notData, notIndex, nonzero⟩).mono fun _ fs' released => ?_
  obtain ⟨objects', same⟩ := objects.quiet (fun _ => False) released.heap
    (by rw [released.map, List.length_set]) (.of_written released.synced) released.touches (fun _ mine => .inl mine)
    (fun _ _ _ => id) fun role member filled => by
      have before := blocks.used role member filled
      have differs : sector.toNat ≠ (claim fs role).toNat := by
        rw [ne_eq, UInt32.toNat_inj]
        exact fun equal => unclaimed role member filled equal.symm
      rw [Used, released.map, List.getElem?_set_ne differs]
      exact before
  exact ⟨released, objects', same⟩

end Quiet

theorem WriteAt.objects {start : Nat} {buffer : List UInt8} {ok : Bool} (wrote : WriteAt live fs fs' addr inode start buffer ok)
    (objects : Objects live fs) (opened : (addr, inode) ∈ fs.openInodes) : Objects live fs' := by
  have was := objects.blocks.handles.curData opened
  refine ⟨wrote.blocks, wrote.follows.synced objects.synced, fun other member nonzero => ?_, fun _ other member nonzero => ?_⟩
  · by_cases mine : other = inode.sector
    · subst mine
      exact wrote.saved (objects.saved _ member nonzero)
    · exact (wrote.others other member mine).saved (objects.blocks.sound other member) nonzero
        (objects.saved other member nonzero)
  · by_cases mine : other = inode.sector
    · subst mine
      intro i small past
      have before := objects.blank _ member nonzero i small
      rw [wrote.length] at past
      rw [was] at before
      rw [wrote.bytes i small]
      cases ok with
      | true =>
        simp only [if_true] at past
        rw [if_neg (by omega)]
        exact before (by omega)
      | false => exact before past
    · exact (wrote.others other member mine).blank nonzero (objects.blank other member nonzero)

section Creating
variable {own keep : Sector → Prop} {size : Int} {isDir : Bool}

/-- The inode that `inode_create` starts from. -/
def blankInode (isDir : Bool) (length : Int) : InodeDisk := ⟨Vector.replicate 123 0, 0, 0, isDir.toUInt32, length, inodeMagic⟩

theorem blockAt_blank (v : View) : blockAt v (blankInode isDir size) = fun _ => 0 := by
  funext p
  cases p with
  | direct i => exact Vector.getElem_replicate i.isLt
  | single p => exact treeAt_zero p
  | double p => exact treeAt_zero p

theorem fileByte_blank (v : View) (i : Nat) : fileByte v (blankInode isDir size) i = 0 := by
  rw [fileByte, blockAt_blank, if_pos rfl]

/-- A new inode has room for all of its bytes, which are zeros. -/
structure Created (fs fs' : FileSystem) (sector : Sector) (size : Int) (isDir : Bool) (data : InodeDisk) : Prop where
  stored : fs'.disk.view sector = data.toBlock
  length : data.length = size
  isDir : data.isDir = isDir.toUInt32
  grows : Grows 0 (Used fs) (Used fs') (fun _ => 0) (blockAt fs'.disk.view data)
  mapped : ∀ p : InodePos, (p.first * 512 : Nat) < size → blockAt fs'.disk.view data p ≠ 0
  bytes : ∀ i, fileByte fs'.disk.view data i = 0
  mapInode : sector ≠ 0 → fs'.disk.view 0 = fs.disk.view 0
  exact : ∀ p : InodePos, blockAt fs'.disk.view data p = 0 ↔ bytesToSectors size ≤ p.first

/-- There are sectors for a new file of this size. -/
def Affordable (fs : FileSystem) (size : Int) : Prop :=
  0 ≤ size ∧ size ≤ 8517120 ∧ sectorsNeeded (bytesToSectors size) ≤ freeCount fs

/-- What `inode_create` does to the disk and the free map, also while the free
map has no file. -/
structure CreateRun (own keep : Sector → Prop) (fs fs' : FileSystem) (sector : Sector) (size : Int) : Prop where
  heap : SameHeap fs fs'
  service : Service own keep fs'
  follows : Follows fs fs'
  freeMap : fs'.freeMap.length = fs.freeMap.length
  touches : Touches (fun other => own other ∨ other = 0 ∨ ¬ Used fs other ∨ other = sector) fs fs'
  mono : ∀ other, Used fs other → Used fs' other
  count : freeCount fs' = freeCount fs - (if size < 0 then 0 else sectorsNeeded (bytesToSectors size))
  unspoiled : sector ≠ 0 → (0 ≤ size → (missingBlocks (fun _ => 0) (bytesToSectors size))[freeCount fs]? ≠ some true) →
    fs'.disk.view 0 = fs.disk.view 0

theorem inodeCreate_service (service : Service own keep fs) (used : Used fs sector) (notData : ¬ own sector)
    (notIndex : ¬ keep sector) (high : size < 2147483648) :
    Wp (inodeCreate sector size isDir) (fun created fs' => (created = true ↔ Affordable fs size) ∧
      CreateRun own keep fs fs' sector size ∧ (created = true → ∃ data, Created fs fs' sector size isDir data)) fs := by
  have held : Held own keep fs (blockAt fs.disk.view (blankInode isDir size)) := .of_nothing (blockAt_blank fs.disk.view)
  rw [inodeCreate]
  dsimp only
  rw [show (⟨Vector.replicate 123 0, 0, 0, isDir.toUInt32, size, inodeMagic⟩ : InodeDisk) = blankInode isDir size from rfl, wp_bind]
  by_cases negative : size < 0
  · have refused : inodeReserve (freeMapAllocate 1) (blankInode isDir size) size fs = some ((false, blankInode isDir size), fs) := by
      rw [inodeReserve, if_pos negative]
      rfl
    refine Wp.of_eq refused ((wp_pure _).mpr
      ⟨iff_of_false Bool.false_ne_true fun afford => Int.not_lt.mpr afford.1 negative, ?_, fun made => absurd made Bool.false_ne_true⟩)
    exact ⟨.refl, service, .refl, rfl, .refl, fun _ => id, by rw [if_pos negative]; rfl, fun _ _ => rfl⟩
  have nonneg : 0 ≤ size := Int.not_lt.mp negative
  refine (inodeReserve_wp service held nonneg rfl).mono ?_
  rintro ⟨success, data⟩ after ⟨enough, outcome, reserved, length, isDir', _⟩
  have map : blockAt fs.disk.view (blankInode isDir size) = fun _ => 0 := blockAt_blank fs.disk.view
  have sectors := bytesToSectors_le nonneg high
  have afford : success = true ↔ Affordable fs size := by
    rw [show success = _ from outcome, Bool.and_eq_true, decide_eq_true_iff, sectors, reserved.outcome, map]
    exact ⟨fun both => ⟨nonneg, both.2, both.1⟩, fun afford => ⟨afford.2.2, afford.2.1⟩⟩
  have touches : Touches (fun other => own other ∨ other = 0 ∨ ¬ Used fs other ∨ other = sector) fs after := by
    refine reserved.touches.mono fun other allowed => ?_
    rcases allowed with mine | ⟨free, _⟩ | ⟨p, _, present, _⟩ | ⟨zero, _⟩
    · exact .inl mine
    · exact .inr (.inr (.inl free))
    · rw [map] at present
      exact absurd rfl present
    · exact .inr (.inl zero)
  have count : freeCount after = freeCount fs - (if size < 0 then 0 else sectorsNeeded (bytesToSectors size)) := by
    rw [reserved.count, if_neg negative, map]
    rfl
  have unspoiled (enough : (missingBlocks (fun _ => 0) (bytesToSectors size))[freeCount fs]? ≠ some true) :
      after.disk.view 0 = fs.disk.view 0 := by
    refine reserved.touches.view ?_
    rintro (mine | ⟨free, _⟩ | ⟨p, _, present, same⟩ | ⟨_, due⟩)
    · exact (service.used 0 (.inl mine)).2 rfl
    · exact free service.zero
    · exact present same.symm
    · rw [map] at due
      exact enough due
  cases success with
  | false =>
    exact (wp_pure _).mpr ⟨afford, ⟨reserved.heap, reserved.service, reserved.follows, reserved.length, touches,
      reserved.grows.mono, count, fun _ enough => unspoiled (enough nonneg)⟩, fun made => absurd made Bool.false_ne_true⟩
  | true =>
    obtain ⟨_, small, _⟩ := afford.mp rfl
    obtain rfl : enough = true := by
      cases enough
      · cases outcome
      · rfl
    have used' := reserved.grows.mono _ used
    simp only [if_true]
    rw [wp_bind]
    refine wp_bufferCacheWrite (reserved.service.bounded used') fun disk view diskSize written => (wp_pure _).mpr ?_
    have notBlock (p : InodePos) (present : blockAt after.disk.view data p ≠ 0) : blockAt after.disk.view data p ≠ sector := by
      intro same
      exact (reserved.grows.fresh p (by rw [map]) present).1 (same ▸ used)
    have map' : blockAt disk.view data = blockAt after.disk.view data := by
      funext p
      refine blockAt_congr p fun q _ present => ?_
      rw [view, if_neg (notBlock q present)]
    have kept : ∀ other, own other ∨ keep other → disk.view other = after.disk.view other := by
      rintro other mine
      rw [view, if_neg]
      rintro rfl
      exact mine.elim notData notIndex
    have mapInode (nonzero : sector ≠ 0) : disk.view 0 = fs.disk.view 0 := by
      rw [view, if_neg (Ne.symm nonzero)]
      refine unspoiled ?_
      rw [List.getElem?_eq_none (map ▸ reserved.outcome.mp rfl)]
      exact (Option.some_ne_none true).symm
    refine ⟨afford, ⟨reserved.heap.trans ⟨rfl, rfl, rfl, rfl, rfl, rfl, rfl⟩, ?_, ?_, reserved.length, touches.trans ?_, reserved.grows.mono,
      count, fun nonzero _ => mapInode nonzero⟩, fun _ => ⟨data, ?_, length, isDir', ?_, fun p need => ?_, fun i => ?_, fun nonzero => ?_, fun p => ?_⟩⟩
    · exact reserved.service.congr ⟨rfl, rfl, rfl, rfl, rfl, rfl, rfl⟩ diskSize rfl
        (fun other mine => reserved.service.all_used other mine) fun other mine => kept other (.inr mine)
    · exact reserved.follows.trans (.congr reserved.service rfl (fun _ _ => rfl) rfl kept)
    · exact .write (.inr (.inr (.inr rfl))) diskSize written view
    · exact (view sector).trans (if_pos rfl)
    · have grows := reserved.grows
      rw [map] at grows
      rwa [map']
    · dsimp only
      rw [map']
      refine reserved.complete rfl p ?_
      rw [bytesToSectors_eq nonneg (by omega)]
      omega
    · have before := reserved.fileByte held i
      rw [fileByte_blank] at before
      rw [← before]
      unfold fileByte
      dsimp only
      rw [map']
      split
      next => rfl
      next present => rw [view, if_neg (notBlock _ present)]
    · exact mapInode nonzero
    · dsimp only
      rw [map']
      constructor
      · exact fun absent => Nat.not_lt.mp fun need => reserved.complete rfl p need absent
      · exact fun idle => reserved.minimal rfl p (Nat.not_lt.mpr idle) (by rw [map])

/-- A file has the blocks that its length needs, and no others. -/
def Exact (fs : FileSystem) (sector : Sector) : Prop :=
  ∀ p : InodePos, blockAt fs.disk.view (curData fs sector) p = 0 ↔ bytesToSectors (curData fs sector).length ≤ p.first

structure Fresh (fs : FileSystem) (sector : Sector) (size : Int) (isDir : Bool) : Prop where
  length : (curData fs sector).length = size
  isDir : (curData fs sector).isDir = isDir.toUInt32
  bytes : ∀ i, fileByte fs.disk.view (curData fs sector) i = 0
  upToDate : UpToDate fs sector
  exact : Exact fs sector

theorem Same.exact (same : Same fs fs' sector) (exact : Exact fs sector) : Exact fs' sector := by
  rw [Exact, same.blockAt, same.data]
  exact exact

theorem Fresh.of_same (fresh : Fresh fs sector size isDir) (same : Same fs fs' sector) (nonzero : sector ≠ 0) :
    Fresh fs' sector size isDir := by
  refine ⟨?_, ?_, fun i => ?_, same.upToDate nonzero fresh.upToDate, same.exact fresh.exact⟩
  · rw [same.data]
    exact fresh.length
  · rw [same.data]
    exact fresh.isDir
  · rw [same.fileByte nonzero]
    exact fresh.bytes i

/-- `inode_create` on a sector that is nobody's, in the middle of live objects. -/
theorem Objects.inodeCreate_wp (objects : Objects live fs) (used : Used fs sector) (unclaimed : Unclaimed live fs sector)
    (high : size < 2147483648) :
    Wp (inodeCreate sector size isDir) (fun created fs' => (created = true ↔ Affordable fs size) ∧
      CreateRun (MapData fs) (MapIndex fs) fs fs' sector size ∧ (∀ other, live other → Same fs fs' other) ∧
      Objects live fs' ∧ Unclaimed live fs' sector ∧
      (created = true → Objects (fun other => live other ∨ other = sector) fs' ∧ Fresh fs' sector size isDir ∧
        fs'.disk.view 0 = fs.disk.view 0 ∧
        ∀ p, Filled fs' (sector, some p) → ¬ Used fs (claim fs' (sector, some p)))) fs := by
  have blocks := objects.blocks
  obtain ⟨notData, notIndex⟩ := unclaimed.not_map blocks
  refine (inodeCreate_service blocks.service used notData notIndex high).mono fun created fs' ⟨outcome, run, made⟩ => ?_
  obtain ⟨objects', same⟩ := objects.quiet (fun other => ¬ Used fs other ∨ other = sector) run.heap run.freeMap
    run.follows run.touches (fun _ => id)
    (fun role member filled => by
      rintro (free | mine)
      · exact free (blocks.used role member filled)
      · exact unclaimed role member filled mine)
    fun role member filled => run.mono _ (blocks.used role member filled)
  have unclaimed' : Unclaimed live fs' sector := unclaimed.congr same
  refine ⟨outcome, run, same, objects', unclaimed', fun success => ?_⟩
  obtain ⟨data, created⟩ := made success
  obtain ⟨nonneg, small, _⟩ := outcome.mp success
  have nonzero : sector ≠ 0 := fun zero => unclaimed (0, none) blocks.mapLive filled_inode zero.symm
  have closed : ∀ entry ∈ fs'.openInodes, entry.2.sector ≠ sector := fun entry member equal =>
    unclaimed'.not_live (equal ▸ objects'.blocks.opens entry member)
  have stored : InodeDisk.ofBlock (fs'.disk.view sector) = data := by
    rw [created.stored]
    exact InodeDisk.ofBlock_toBlock (by rw [created.length]; omega) (by rw [created.length]; omega)
  have current : curData fs' sector = data := (curData_closed closed).trans stored
  have fresh : Fresh fs' sector size isDir :=
    ⟨by rw [current, created.length], by rw [current, created.isDir], by rw [current]; exact created.bytes,
      stored.trans current.symm, by rw [Exact, current, created.length]; exact created.exact⟩
  have sound : Sound fs' sector := by
    refine ⟨?_, ?_, ?_⟩ <;> rw [current] <;> rw [created.length]
    · exact nonneg
    · exact small
    · exact created.mapped
  have place (p : InodePos) (filled : Filled fs' (sector, some p)) :
      ¬ Used fs (claim fs' (sector, some p)) ∧ Used fs' (claim fs' (sector, some p)) := by
    rw [filled_place, current] at filled
    rw [claim, current]
    exact created.grows.fresh p rfl filled
  have inodeFirst (p : InodePos) (filled : Filled fs' (sector, some p)) : claim fs' (sector, some p) ≠ sector :=
    fun equal => (place p filled).1 (equal.symm ▸ used)
  have distinct (p q : InodePos) (filled : Filled fs' (sector, some p)) (equal : claim fs' (sector, some p) = claim fs' (sector, some q)) : p = q := by
    rw [filled_place, current] at filled
    simp only [claim, current] at equal
    exact created.grows.apart p q rfl rfl filled equal
  have whole := objects'.blocks.insert sound
    (fun where_ filled => by
      cases where_ with
      | none => exact run.mono _ used
      | some p => exact (place p filled).2)
    (fun p q filled filled' => claim_injective inodeFirst distinct filled filled')
    (fun role where_ member _ filled filled' equal => by
      cases where_ with
      | none => exact unclaimed' role member filled equal
      | some p =>
        refine (place p filled').1 (equal ▸ ?_)
        rw [(same role.1 member).claim]
        exact blocks.used role member ((same role.1 member).filled.mp filled))
  refine ⟨⟨whole, run.follows.synced objects.synced, ?_, ?_⟩, fresh, created.mapInode nonzero, fun p filled => (place p filled).1⟩
  · rintro other (member | rfl) nonzero'
    · exact objects'.saved other member nonzero'
    · rw [Saved, stored, current]
      exact .refl (by rw [created.length]; exact created.mapped)
  · rintro _ other (member | rfl) nonzero'
    · exact objects'.blank other member nonzero'
    · exact fun i _ _ => fresh.bytes i

end Creating

end Comp310.Fs
