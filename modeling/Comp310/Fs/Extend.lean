import Comp310.Fs.Blocks
import Comp310.Fs.Pointers

/-! What `inode_write_at` does to the objects of the file system, inside a file
and past its end, with and without the space that it takes. -/

namespace Comp310.Fs
open Comp310.Lib

/-- How the inode on the disk may lag behind the one in memory: blocks that a
failed extension allocated are not in it. -/
structure Stored (v : View) (disk memory : InodeDisk) : Prop where
  length : disk.length = memory.length
  isDir : disk.isDir = memory.isDir
  direct : ∀ i, disk.directBlocks.get i = memory.directBlocks.get i ∨ disk.directBlocks.get i = 0
  single : disk.indirectBlock = memory.indirectBlock ∨ disk.indirectBlock = 0
  double : disk.doublyIndirectBlock = memory.doublyIndirectBlock ∨ disk.doublyIndirectBlock = 0
  mapped : ∀ p : InodePos, (p.first * 512 : Nat) < disk.length → blockAt v disk p ≠ 0

/-- The inode of an object can be read from the disk again. -/
def Saved (fs : FileSystem) (sector : Sector) : Prop :=
  Stored fs.disk.view (.ofBlock (fs.disk.view sector)) (curData fs sector)

/-- Past its end an object holds zeros, as far as it has blocks there. -/
def Blank (fs : FileSystem) (sector : Sector) : Prop :=
  ∀ i : Nat, i < 8517120 → (curData fs sector).length ≤ i → fileByte fs.disk.view (curData fs sector) i = 0

variable {live : Sector → Prop} {fs middle fs' : FileSystem} {sector : Sector} {v v' : View}
  {disk memory memory' data : InodeDisk} {addr : Addr} {inode : Inode} {used used' : Sector → Prop}

theorem Stored.refl (mapped : ∀ p : InodePos, (p.first * 512 : Nat) < data.length → blockAt v data p ≠ 0) :
    Stored v data data :=
  ⟨rfl, rfl, fun _ => .inl rfl, .inl rfl, .inl rfl, mapped⟩

/-- The map on the disk is the map in memory, less some of it. -/
theorem Stored.blockAt (stored : Stored v disk memory) (p : InodePos) :
    Fs.blockAt v disk p = Fs.blockAt v memory p ∨ Fs.blockAt v disk p = 0 := by
  cases p with
  | direct i => exact stored.direct i
  | single p =>
    rcases stored.single with same | absent
    · exact .inl (by rw [Fs.blockAt, same]; rfl)
    · exact .inr (by rw [Fs.blockAt, absent, treeAt_zero])
  | double p =>
    rcases stored.double with same | absent
    · exact .inl (by rw [Fs.blockAt, same]; rfl)
    · exact .inr (by rw [Fs.blockAt, absent, treeAt_zero])

theorem Stored.fileByte (stored : Stored v disk memory) {i : Nat} (small : i < 8517120) (inside : i < memory.length) :
    Fs.fileByte v disk i = Fs.fileByte v memory i := by
  have there := stored.mapped (.data (i / 512)) (by rw [data_first (by omega), stored.length]; omega)
  have same := (stored.blockAt (.data (i / 512))).resolve_right there
  unfold Fs.fileByte
  rw [same]

private theorem entry_grows {before after : InodePos → Sector} (grows : Grows 0 used used' before after) {p : InodePos}
    {entry : Sector} (was : entry = before p ∨ entry = 0) : entry = after p ∨ entry = 0 := by
  rcases was with rfl | absent
  · by_cases present : before p = 0
    · exact .inr present
    · exact .inl (grows.keep p present).symm
  · exact .inr absent

/-- The inode on the disk stays good while the map in memory grows. -/
theorem Stored.grow (stored : Stored v disk memory) (grows : Grows 0 used used' (Fs.blockAt v memory) (Fs.blockAt v' memory'))
    (length : memory'.length = memory.length) (isDir : memory'.isDir = memory.isDir)
    (mapped : ∀ p : InodePos, (p.first * 512 : Nat) < memory'.length → Fs.blockAt v' memory' p ≠ 0) :
    Stored v' disk memory' := by
  have single := entry_grows grows (p := .single .here) stored.single
  have double := entry_grows grows (p := .double .here) stored.double
  refine ⟨stored.length.trans length.symm, stored.isDir.trans isDir.symm, fun i => entry_grows grows (p := .direct i) (stored.direct i),
    single, double, fun p need => ?_⟩
  have there := stored.mapped p need
  rw [stored.length, ← length] at need
  cases p with
  | direct i =>
    have same : Fs.blockAt v' disk (.direct i) = Fs.blockAt v disk (.direct i) := rfl
    rwa [same]
  | single p =>
    have same : disk.indirectBlock = memory'.indirectBlock :=
      single.resolve_right fun absent => there (by rw [Fs.blockAt, absent, treeAt_zero])
    rw [Fs.blockAt, same]
    exact mapped (.single p) need
  | double p =>
    have same : disk.doublyIndirectBlock = memory'.doublyIndirectBlock :=
      double.resolve_right fun absent => there (by rw [Fs.blockAt, absent, treeAt_zero])
    rw [Fs.blockAt, same]
    exact mapped (.double p) need

theorem Same.saved (same : Same fs fs' sector) (sound : Sound fs sector) (nonzero : sector ≠ 0) (saved : Saved fs sector) :
    Saved fs' sector := by
  have grows : Grows 0 (fun _ => True) (fun _ => True) (Fs.blockAt fs.disk.view (curData fs sector))
      (Fs.blockAt fs'.disk.view (curData fs' sector)) := by
    rw [same.blockAt]
    exact .refl
  rw [Saved, same.inode nonzero]
  exact saved.grow grows (by rw [same.data]) (by rw [same.data]) (same.sound sound).mapped

theorem Same.blank (same : Same fs fs' sector) (nonzero : sector ≠ 0) (blank : Blank fs sector) : Blank fs' sector := by
  intro i small past
  rw [same.data] at past
  rw [same.fileByte nonzero]
  exact blank i small past

/-- The map of one object is another one that has grown out of it. -/
theorem Blocks.replace (blocks : Blocks live fs) (opened : (addr, inode) ∈ fs.openInodes) (nonzero : inode.sector ≠ 0)
    (heap : SameHeap { fs with openInodes := setData fs addr data } fs') (length : fs'.freeMap.length = fs.freeMap.length)
    (follows : Follows fs fs')
    (touches : Touches (fun other => MapData fs other ∨ other = 0 ∨ ¬ Used fs other ∨
      ∃ place, Filled fs (inode.sector, place) ∧ other = claim fs (inode.sector, place)) fs fs')
    (grows : Grows 0 (Used fs) (Used fs') (blockAt fs.disk.view inode.data) (blockAt fs'.disk.view data))
    (nonneg : 0 ≤ data.length) (limit : data.length ≤ 8517120)
    (mapped : ∀ p : InodePos, (p.first * 512 : Nat) < data.length → blockAt fs'.disk.view data p ≠ 0) :
    Blocks live fs' ∧ curData fs' inode.sector = data ∧ ∀ other, live other → other ≠ inode.sector → Same fs fs' other := by
  have member := blocks.opens _ opened
  have entries : fs'.openInodes = setData fs addr data := heap.openInodes
  have was := blocks.handles.curData opened
  obtain ⟨current, rest⟩ := blocks.handles.curData_setData opened entries heap.nextAddr
  have same (other : Sector) (there : live other) (differs : other ≠ inode.sector) : Same fs fs' other := by
    refine blocks.same touches there (fun _ => id) (fun place filled => ?_) (rest other differs)
    rintro (free | ⟨place', filled', equal⟩)
    · exact free (blocks.used _ there filled)
    · have roles := blocks.apart (other, place) (inode.sector, place') there member filled filled' equal
      injection roles with roles
      exact differs roles
  have origin (place : Option InodePos) (filled : Filled fs' (inode.sector, place)) :
      (Filled fs (inode.sector, place) ∧ claim fs' (inode.sector, place) = claim fs (inode.sector, place)) ∨
        (¬ Used fs (claim fs' (inode.sector, place)) ∧ Used fs' (claim fs' (inode.sector, place))) := by
    cases place with
    | none => exact .inl ⟨filled_inode, rfl⟩
    | some p =>
      rw [filled_place, current] at filled
      rw [filled_place]
      simp only [claim, current, was]
      by_cases absent : blockAt fs.disk.view inode.data p = 0
      · exact .inr (grows.fresh p absent filled)
      · exact .inl ⟨absent, grows.keep p absent⟩
  have sound : Sound fs' inode.sector := by
    refine ⟨?_, ?_, ?_⟩ <;> rw [current]
    · exact nonneg
    · exact limit
    · exact mapped
  have handles' := blocks.handles.setData data entries heap.nextAddr
  have mapOpen : MapOpen fs' := by
    obtain ⟨file, root, home, there, zero, size⟩ := blocks.mapOpen
    refine ⟨file, root, heap.freeMapFile.trans home, ?_, zero, by rw [length, size]⟩
    rw [entries, mem_setData]
    refine .inl ⟨there, fun equal => nonzero ?_⟩
    have equal : (file.inode, root) = (addr, inode) := blocks.handles.same_addr there opened equal
    rw [← zero, (Prod.mk.inj equal).2]
  have opens (entry : Addr × Inode) (there : entry ∈ fs'.openInodes) : live entry.2.sector := by
    rw [entries, mem_setData] at there
    rcases there with ⟨there, _⟩ | ⟨other, there, rfl⟩
    · exact blocks.opens entry there
    · exact blocks.opens (addr, other) there
  have used (role : Role) (there : live role.1) (filled : Filled fs' role) : Used fs' (claim fs' role) := by
    by_cases mine : role.1 = inode.sector
    · obtain ⟨_, place⟩ := role
      subst mine
      rcases origin place filled with ⟨before, kept⟩ | ⟨_, taken⟩
      · rw [kept]
        exact grows.mono _ (blocks.used _ member before)
      · exact taken
    · have kept := same role.1 there mine
      rw [kept.claim]
      exact grows.mono _ (blocks.used role there (kept.filled.mp filled))
  have foreign (role : Role) (there : live role.1) (differs : role.1 ≠ inode.sector) (filled : Filled fs' role)
      (place : Option InodePos) (filled' : Filled fs' (inode.sector, place)) :
      claim fs' role ≠ claim fs' (inode.sector, place) := by
    intro equal
    have kept := same role.1 there differs
    rw [kept.claim] at equal
    rw [kept.filled] at filled
    rcases origin place filled' with ⟨before, kept⟩ | ⟨free, _⟩
    · rw [kept] at equal
      have roles := blocks.apart _ _ there member filled before equal
      exact differs (congrArg Prod.fst roles)
    · exact free (equal ▸ blocks.used role there filled)
  have within (p q : Option InodePos) (filled : Filled fs' (inode.sector, p)) (filled' : Filled fs' (inode.sector, q))
      (equal : claim fs' (inode.sector, p) = claim fs' (inode.sector, q)) : p = q := by
    have inodeFirst (p : InodePos) (filled : Filled fs' (inode.sector, some p)) : claim fs' (inode.sector, some p) ≠ inode.sector := by
      intro equal
      rcases origin (some p) filled with ⟨before, kept⟩ | ⟨free, _⟩
      · rw [kept] at equal
        have roles := blocks.apart (inode.sector, some p) (inode.sector, none) member member before filled_inode equal
        injection roles with _ roles
        cases roles
      · rw [equal] at free
        exact free (blocks.used (inode.sector, none) member filled_inode)
    have placed : Placed 0 (Used fs) (blockAt fs.disk.view inode.data) := by
      refine ⟨fun p present => ?_, was ▸ blocks.distinct member⟩
      rw [← was] at present ⊢
      exact blocks.used (inode.sector, some p) member (filled_place.mpr present)
    apply claim_injective inodeFirst _ filled filled' equal
    intro p q filled equal
    rw [filled_place, current] at filled
    simp only [claim, current] at equal
    exact (grows.placed placed).distinct p q filled equal
  refine ⟨⟨?_, heap.panics.trans blocks.panics, handles', opens, blocks.mapLive, mapOpen, follows.padded blocks.padded, ?_, used, ?_⟩, current, same⟩
  · rw [length, touches.size]
    exact blocks.size
  · intro other there
    by_cases mine : other = inode.sector
    · exact mine ▸ sound
    · exact (same other there mine).sound (blocks.sound other there)
  · intro a b there there' filled filled' equal
    by_cases mine : a.1 = inode.sector <;> by_cases mine' : b.1 = inode.sector
    · obtain ⟨_, p⟩ := a
      obtain ⟨_, q⟩ := b
      subst mine
      simp only at mine'
      subst mine'
      rw [within p q filled filled' equal]
    · obtain ⟨_, p⟩ := a
      subst mine
      exact absurd equal.symm (foreign b there' mine' filled' p filled)
    · obtain ⟨_, q⟩ := b
      subst mine'
      exact absurd equal (foreign a there mine filled q filled')
    · rw [(same a.1 there mine).claim, (same b.1 there' mine').claim] at equal
      exact blocks.apart a b there there' ((same a.1 there mine).filled.mp filled) ((same b.1 there' mine').filled.mp filled')
        equal

/-- The blocks that a file is short of for so many bytes, true for an index block. -/
def shortOf (fs : FileSystem) (data : InodeDisk) (size : Int) : List Bool :=
  missingBlocks (blockAt fs.disk.view data) (bytesToSectors size)

/-- There are sectors left for the file to have so many bytes, and the format allows it. -/
def Fits (fs : FileSystem) (data : InodeDisk) (size : Int) : Prop :=
  size ≤ 8517120 ∧ (shortOf fs data size).length ≤ freeCount fs

theorem shortOf_inside {size : Nat} (readable : Readable fs data) (inside : size ≤ data.length) :
    shortOf fs data size = [] := by
  have limit := readable.limit
  refine missingBlocks_nil fun p short => readable.mapped p ?_
  rw [bytesToSectors_eq (by omega) (by omega)] at short
  omega

theorem fits_inside {size : Nat} (readable : Readable fs data) (inside : size ≤ data.length) : Fits fs data size := by
  have limit := readable.limit
  refine ⟨by omega, ?_⟩
  rw [shortOf_inside readable inside]
  exact Nat.zero_le _

/-- What a write of `buffer` at `start` does to the object of an open inode and to all others. -/
structure WriteAt (live : Sector → Prop) (fs fs' : FileSystem) (addr : Addr) (inode : Inode) (start : Nat)
    (buffer : List UInt8) (ok : Bool) : Prop where
  heap : SameHeap { fs with openInodes := setData fs addr (curData fs' inode.sector) } fs'
  blocks : Blocks live fs'
  follows : Follows fs fs'
  others : ∀ other, live other → other ≠ inode.sector → Same fs fs' other
  isDir : (curData fs' inode.sector).isDir = inode.data.isDir
  length : (curData fs' inode.sector).length =
    if ok then max inode.data.length ((start + buffer.length : Nat) : Int) else inode.data.length
  bytes : ∀ i < 8517120, fileByte fs'.disk.view (curData fs' inode.sector) i =
    if ok = true ∧ start ≤ i ∧ i < start + buffer.length then buffer.getD (i - start) 0
    else fileByte fs.disk.view inode.data i
  grows : Grows 0 (Used fs) (Used fs') (blockAt fs.disk.view inode.data) (blockAt fs'.disk.view (curData fs' inode.sector))
  count : freeCount fs' = freeCount fs - (shortOf fs inode.data (start + buffer.length : Nat)).length
  saved : Saved fs inode.sector → Saved fs' inode.sector
  mapInode : ok = true → fs'.disk.view 0 = fs.disk.view 0
  tight : ok = true → ∀ p, ¬ p.first < bytesToSectors (start + buffer.length : Nat) →
    blockAt fs.disk.view inode.data p = 0 → blockAt fs'.disk.view (curData fs' inode.sector) p = 0
  size : fs'.freeMap.length = fs.freeMap.length
  unspoiled : (shortOf fs inode.data (start + buffer.length : Nat))[freeCount fs]? ≠ some true → fs'.disk.view 0 = fs.disk.view 0
  upToDate : UpToDate fs inode.sector → (UpToDate fs' inode.sector ↔ ok = true ∨
    ¬ PointsAnew (freeCount fs) (blockAt fs.disk.view inode.data) (bytesToSectors (start + buffer.length : Nat)))

section Writing
variable {own keep : Sector → Prop} {needed : InodePos → Prop} {missing : List Bool} {success : Bool} {data' : InodeDisk}
  {start : Nat} {buffer : List UInt8}

theorem byteAt_zeros (index : Nat) : byteAt zeros index = 0 := by
  unfold byteAt zeros
  rw [Vector.toList_replicate, List.getD_eq_getElem?_getD, List.getElem?_replicate]
  split <;> rfl

/-- Reserving changes no byte: what it adds reads as zero before and after. -/
theorem Reserved.fileByte (reserved : Reserved own keep InodePos.isData needed missing fs fs'
      (blockAt fs.disk.view data) (blockAt fs'.disk.view data') success)
    (held : Held own keep fs (blockAt fs.disk.view data)) (i : Nat) :
    Fs.fileByte fs'.disk.view data' i = Fs.fileByte fs.disk.view data i := by
  have atBottom := data_isData (i / 512)
  unfold Fs.fileByte
  by_cases absent : blockAt fs.disk.view data (.data (i / 512)) = 0
  · rw [if_pos absent]
    split
    next => rfl
    next present => rw [reserved.blank _ atBottom absent present, byteAt_zeros]
  · rw [reserved.grows.keep _ absent, if_neg absent, if_neg absent]
    rw [reserved.view_eq (held.placed.used _ absent) (held.foreign _ absent).1 absent]
    intro p inner _ same
    rw [← held.placed.distinct _ _ absent same, atBottom] at inner
    cases inner

theorem blockAt_length (v : View) (data : InodeDisk) (length : Int) : blockAt v { data with length } = blockAt v data := by
  funext p
  cases p <;> rfl

private theorem writeInside_wp (blocks : Blocks live fs) (opened : (addr, inode) ∈ fs.openInodes) (nonzero : inode.sector ≠ 0)
    (positive : 0 < buffer.length) (inside : (start + buffer.length : Nat) ≤ inode.data.length) :
    Wp (inodeWriteAt addr buffer start)
      (fun written fs' => written = buffer.length ∧ WriteAt live fs fs' addr inode start buffer true) fs := by
  have member := blocks.opens _ opened
  have data := blocks.handles.curData opened
  have readable := data ▸ blocks.readable member
  have distinct := data ▸ blocks.distinct member
  have held := data ▸ blocks.held member nonzero
  have sound := blocks.sound _ member
  have limit := readable.limit
  have enough := shortOf_inside readable inside
  refine (inodeWriteAtWith_inside (freeMapAllocate 1) (blocks.handles.inode? opened) (blocks.handles.plain _ opened).2.2
    readable distinct positive inside).mono fun written fs' ⟨all, wrote⟩ => ⟨all, ?_⟩
  have freeMap : fs'.freeMap = fs.freeMap := by rw [wrote.only]
  have same_used : Used fs' = Used fs := by
    funext sector
    rw [Used, freeMap, Used]
  have heap : SameHeap { fs with openInodes := setData fs addr inode.data } fs' := by
    rw [blocks.handles.setData_self opened, wrote.only]
    exact ⟨rfl, rfl, rfl, rfl, rfl, rfl, rfl⟩
  have mine {sector : Sector} (inFile : DataSector fs.disk.view inode.data sector) :
      ∃ p, blockAt fs.disk.view inode.data p ≠ 0 ∧ sector = blockAt fs.disk.view inode.data p := by
    obtain ⟨index, short, rfl⟩ := inFile
    exact ⟨_, readable.mapped _ (by rwa [data_first (by omega)]), rfl⟩
  have follows : Follows fs fs' := by
    refine .congr blocks.service (by rw [wrote.only]) (fun file _ => by rw [wrote.only]; rfl) freeMap fun sector map => ?_
    refine wrote.touches.view fun inFile => ?_
    obtain ⟨p, present, rfl⟩ := mine inFile
    exact map.elim (held.foreign p present).1 (held.foreign p present).2
  have grows : Grows 0 (Used fs) (Used fs') (blockAt fs.disk.view inode.data) (blockAt fs'.disk.view inode.data) := by
    rw [wrote.map, same_used]
    exact .refl
  have mapped' : ∀ p : InodePos, (p.first * 512 : Nat) < inode.data.length → blockAt fs'.disk.view inode.data p ≠ 0 := by
    rw [wrote.map]
    exact readable.mapped
  obtain ⟨blocks', current, others⟩ := blocks.replace opened nonzero heap (by rw [freeMap]) follows
    (wrote.touches.mono fun sector inFile => by
      obtain ⟨p, present, rfl⟩ := mine inFile
      exact .inr (.inr (.inr ⟨some p, filled_place.mpr (data.symm ▸ present), by rw [claim, data]⟩)))
    grows readable.nonneg limit mapped'
  have kept : fs'.disk.view inode.sector = fs.disk.view inode.sector := by
    refine wrote.touches.view fun inFile => ?_
    obtain ⟨p, present, same⟩ := mine inFile
    have roles := blocks.apart (inode.sector, none) (inode.sector, some p) member member filled_inode
      (filled_place.mpr (data.symm ▸ present)) (by rw [claim, claim, data]; exact same)
    injection roles with _ roles
    cases roles
  have mapInode : fs'.disk.view 0 = fs.disk.view 0 := by
    refine wrote.touches.view fun inFile => ?_
    obtain ⟨p, present, same⟩ := mine inFile
    exact present same.symm
  refine ⟨by rwa [current], blocks', follows, others, by rw [current], ?_, ?_, by rwa [current], ?_, fun saved => ?_,
    fun _ => mapInode, fun _ p _ absent => ?_, by rw [freeMap], fun _ => mapInode, fun upToDate => iff_of_true ?_ (.inl rfl)⟩
  · rw [current, if_pos rfl, Int.max_eq_left inside]
  · intro i small
    rw [current, wrote.bytes i small]
    simp only [true_and]
  · rw [enough, freeCount, freeMap]
    rfl
  · rw [Saved, kept, current]
    rw [Saved, data] at saved
    exact saved.grow grows rfl rfl mapped'
  · rw [current, wrote.map]
    exact absent
  · rw [UpToDate, kept, current, ← data]
    exact upToDate

private theorem permitted_role {other : Sector} (data : curData fs sector = memory)
    (allowed : Permitted (MapData fs) InodePos.isData (blockAt fs.disk.view memory) missing fs fs' other) :
    MapData fs other ∨ other = 0 ∨ ¬ Used fs other ∨
      ∃ place, Filled fs (sector, place) ∧ other = claim fs (sector, place) := by
  rcases allowed with map | ⟨free, _⟩ | ⟨q, _, present, rfl⟩ | ⟨zero, _⟩
  · exact .inl map
  · exact .inr (.inr (.inl free))
  · exact .inr (.inr (.inr ⟨some q, filled_place.mpr (data.symm ▸ present), by rw [claim, data]⟩))
  · exact .inr (.inl zero)

/-- The free map file is another one than any open inode with another sector. -/
theorem Blocks.mapFile_ne (blocks : Blocks live fs) (opened : (addr, inode) ∈ fs.openInodes) (nonzero : inode.sector ≠ 0)
    {file : File} (home : fs.freeMapFile = some file) : file.inode ≠ addr := by
  obtain ⟨file', root, home', there, zero, _⟩ := blocks.mapOpen
  cases home.symm.trans home'
  intro same
  have same : (file.inode, root) = (addr, inode) := blocks.handles.same_addr there opened same
  rw [← (Prod.mk.inj same).2] at nonzero
  exact nonzero zero

private theorem writeShort_wp (blocks : Blocks live fs) (opened : (addr, inode) ∈ fs.openInodes) (nonzero : inode.sector ≠ 0)
    {after : FileSystem} {enough : Bool}
    (reserved : Reserved (MapData fs) (MapIndex fs) InodePos.isData needed (shortOf fs inode.data (start + buffer.length : Nat))
      fs after (blockAt fs.disk.view inode.data) (blockAt after.disk.view data) enough)
    (length : data.length = inode.data.length) (isDir : data.isDir = inode.data.isDir)
    (points : data = inode.data ↔ ¬ PointsAnew (freeCount fs) (blockAt fs.disk.view inode.data) (bytesToSectors (start + buffer.length : Nat)))
    (only : fs' = { after with openInodes := setData after addr data }) :
    WriteAt live fs fs' addr inode start buffer false := by
  subst only
  have member := blocks.opens _ opened
  have was := blocks.handles.curData opened
  have held := was ▸ blocks.held member nonzero
  have readable := was ▸ blocks.readable member
  have mapped' (p : InodePos) (need : (p.first * 512 : Nat) < data.length) : blockAt after.disk.view data p ≠ 0 := by
    rw [length] at need
    have present := readable.mapped p need
    rw [reserved.grows.keep p present]
    exact present
  have heap : SameHeap { fs with openInodes := setData fs addr data }
      { after with openInodes := setData after addr data } := by
    obtain ⟨freeMapFile, openInodes, dirs, cwd, fileTable, nextAddr, panics⟩ := reserved.heap
    exact ⟨freeMapFile, by rw [setData, openInodes, setData], dirs, cwd, fileTable, nextAddr, panics⟩
  have follows : Follows fs { after with openInodes := setData after addr data } := by
    refine reserved.follows.trans (.congr reserved.service rfl (fun file home => ?_) rfl fun _ _ => rfl)
    rw [reserved.heap.freeMapFile] at home
    exact inode?_setData (blocks.mapFile_ne opened nonzero home)
  obtain ⟨blocks', current, others⟩ := blocks.replace opened nonzero heap reserved.length follows
    (Touches.mono ⟨reserved.touches.size, reserved.touches.writes⟩ fun _ => permitted_role was)
    reserved.grows (by rw [length]; exact readable.nonneg) (by rw [length]; exact readable.limit) mapped'
  have kept : after.disk.view inode.sector = fs.disk.view inode.sector := by
    refine reserved.view_eq (blocks.used (inode.sector, none) member filled_inode)
      (blocks.not_mapData (inode.sector, none) member filled_inode (by simp)) nonzero fun p _ present same => ?_
    have roles := blocks.apart (inode.sector, none) (inode.sector, some p) member member filled_inode
      (filled_place.mpr (was.symm ▸ present)) (by rw [claim, claim, was]; exact same)
    injection roles with _ roles
    cases roles
  refine ⟨by rwa [current], blocks', follows, others, by rw [current, isDir], by rw [current, length]; rfl, fun i small => ?_,
    by rw [current]; exact reserved.grows, reserved.count, fun saved => ?_, fun none => absurd none Bool.false_ne_true,
    fun none => absurd none Bool.false_ne_true, reserved.length,
    fun enough => reserved.touches.view ?_, fun upToDate => ?_⟩
  · rw [current, if_neg (by simp)]
    exact reserved.fileByte held i
  · rw [Saved, was] at saved
    rw [Saved, current]
    dsimp only
    rw [kept]
    exact saved.grow reserved.grows length isDir mapped'
  · rintro (mine | ⟨free, _⟩ | ⟨p, _, present, same⟩ | ⟨_, due⟩)
    · exact (blocks.service.used 0 (.inl mine)).2 rfl
    · exact free blocks.service.zero
    · exact present same.symm
    · exact enough due
  · have stored : InodeDisk.ofBlock (fs.disk.view inode.sector) = inode.data := upToDate.trans was
    rw [UpToDate, current, or_iff_right (by decide), ← points]
    dsimp only
    rw [kept, stored]
    exact eq_comm

private theorem writeExtended_wp (blocks : Blocks live fs) (opened : (addr, inode) ∈ fs.openInodes)
    (nonzero : inode.sector ≠ 0) {after : FileSystem} {size : Nat} (sum : start + buffer.length = size)
    (limit : size ≤ 8517120) (past : inode.data.length ≤ size)
    (reserved : Reserved (MapData fs) (MapIndex fs) InodePos.isData (fun p => p.first < bytesToSectors size)
      (shortOf fs inode.data size) fs after (blockAt fs.disk.view inode.data) (blockAt after.disk.view data) true)
    (length : data.length = size) (isDir : data.isDir = inode.data.isDir) :
    Wp (do
        bufferCacheWrite inode.sector data.toBlock
        writeLoop data buffer.length buffer start)
      (fun written fs' => written = buffer.length ∧ WriteAt live fs fs' addr inode start buffer true)
      { after with openInodes := setData after addr data } := by
  have member := blocks.opens _ opened
  have was := blocks.handles.curData opened
  have held := was ▸ blocks.held member nonzero
  have held' := reserved.held blocks.service held
  have readable := was ▸ blocks.readable member
  have onDisk : Used fs inode.sector := blocks.used (inode.sector, none) member filled_inode
  have notBlock (p : InodePos) (present : blockAt after.disk.view data p ≠ 0) : blockAt after.disk.view data p ≠ inode.sector := by
    intro same
    by_cases absent : blockAt fs.disk.view inode.data p = 0
    · exact (reserved.grows.fresh p absent present).1 (same ▸ onDisk)
    · rw [reserved.grows.keep p absent, ← was] at same
      rw [← was] at absent
      have roles := blocks.apart (inode.sector, some p) (inode.sector, none) member member (filled_place.mpr absent)
        filled_inode same
      injection roles with _ roles
      cases roles
  have range := reserved.service.bounded (reserved.grows.mono _ onDisk)
  rw [wp_bind]
  refine wp_bufferCacheWrite range fun disk view size' written => ?_
  dsimp only at view size' written
  have map : blockAt disk.view data = blockAt after.disk.view data := by
    funext p
    refine blockAt_congr p fun q _ present => ?_
    rw [view, if_neg (notBlock q present)]
  have mapped (p : InodePos) (need : (p.first * 512 : Nat) < data.length) : blockAt after.disk.view data p ≠ 0 := by
    refine reserved.complete rfl p ?_
    rw [bytesToSectors_eq (by omega) (by omega)]
    omega
  have readable' : Readable { after with openInodes := setData after addr data, disk } data := by
    refine ⟨by omega, by omega, fun p present => ?_, fun p need => ?_⟩
    · dsimp only at present ⊢
      rw [map] at present ⊢
      rw [size']
      exact reserved.service.bounded (held'.placed.used p present)
    · dsimp only
      rw [map]
      exact mapped p need
  refine (writeLoop_wp buffer.length buffer start _ readable' (by dsimp only; rw [map]; exact held'.placed.distinct)
    (Nat.le_refl _) (by omega)).mono fun written' fs' ⟨all, wrote⟩ => ⟨all, ?_⟩
  have map' : blockAt fs'.disk.view data = blockAt after.disk.view data := wrote.map.trans map
  -- from the end of the reservation on, only the object itself is written
  have late : Touches (fun other => other = inode.sector ∨ ∃ p, blockAt after.disk.view data p ≠ 0 ∧
      other = blockAt after.disk.view data p) after fs' := by
    have stored : Touches (· = inode.sector) after { after with openInodes := setData after addr data, disk } := by
      refine ⟨size', [inode.sector], written, by simp, fun other untouched => ?_⟩
      rw [view, if_neg (by simpa using untouched)]
    refine (stored.mono fun _ => .inl).trans (wrote.touches.mono ?_)
    rintro other ⟨index, short, rfl⟩
    dsimp only
    rw [map]
    exact .inr ⟨_, mapped _ (by rwa [data_first (by omega)]), rfl⟩
  have freeMap : fs'.freeMap = after.freeMap := by rw [wrote.only]
  have same_used : Used fs' = Used after := by
    funext sector
    rw [Used, freeMap, Used]
  have heap : SameHeap { fs with openInodes := setData fs addr data } fs' := by
    obtain ⟨freeMapFile, openInodes, dirs, cwd, fileTable, nextAddr, panics⟩ := reserved.heap
    rw [wrote.only]
    exact ⟨freeMapFile, by dsimp only; rw [setData, openInodes, setData], dirs, cwd, fileTable, nextAddr, panics⟩
  have follows : Follows fs fs' := by
    refine reserved.follows.trans (.congr reserved.service (by rw [wrote.only]) (fun file home => ?_) freeMap fun other mine => ?_)
    · rw [reserved.heap.freeMapFile] at home
      rw [wrote.only]
      exact inode?_setData (blocks.mapFile_ne opened nonzero home)
    · refine late.view ?_
      rintro (rfl | ⟨p, present, rfl⟩)
      · have service := blocks.service
        have foreign : ¬ MapData fs inode.sector := blocks.not_mapData (inode.sector, none) member filled_inode
          (by simp)
        rcases mine with mine | ⟨p, _, present, same⟩
        · exact foreign mine
        · have roles := blocks.apart (inode.sector, none) (0, some p) member blocks.mapLive filled_inode
            (filled_place.mpr present) same
          injection roles with _ roles
          cases roles
      · exact mine.elim (held'.foreign p present).1 (held'.foreign p present).2
  have early : Touches (fun other => MapData fs other ∨ other = 0 ∨ ¬ Used fs other ∨
      ∃ place, Filled fs (inode.sector, place) ∧ other = claim fs (inode.sector, place)) fs after :=
    reserved.touches.mono fun _ => permitted_role was
  have touches := early.trans (late.mono fun other mine => by
    rcases mine with rfl | ⟨p, present, rfl⟩
    · exact .inr (.inr (.inr ⟨none, filled_inode, rfl⟩))
    · by_cases absent : blockAt fs.disk.view inode.data p = 0
      · exact .inr (.inr (.inl (reserved.grows.fresh p absent present).1))
      · refine .inr (.inr (.inr ⟨some p, filled_place.mpr (was.symm ▸ absent), ?_⟩))
        rw [claim, was, reserved.grows.keep p absent])
  have grows : Grows 0 (Used fs) (Used fs') (blockAt fs.disk.view inode.data) (blockAt fs'.disk.view data) := by
    rw [map', same_used]
    exact reserved.grows
  obtain ⟨blocks', current, others⟩ := blocks.replace opened nonzero heap (by rw [freeMap, reserved.length]) follows
    touches grows (by omega) (by omega) (by rw [map']; exact mapped)
  have stored : InodeDisk.ofBlock (fs'.disk.view inode.sector) = data := by
    have written : fs'.disk.view inode.sector = data.toBlock := by
      rw [wrote.touches.view, view, if_pos rfl]
      rintro ⟨index, short, same⟩
      dsimp only at same
      rw [map] at same
      exact notBlock _ (mapped _ (by rwa [data_first (by omega)])) same.symm
    rw [written, InodeDisk.ofBlock_toBlock (by omega) (by omega)]
  have mapInode : fs'.disk.view 0 = fs.disk.view 0 := by
    rw [late.view, reserved.touches.view]
    · rintro (mine | ⟨free, _⟩ | ⟨p, _, present, same⟩ | ⟨_, due⟩)
      · exact (blocks.service.used 0 (.inl mine)).2 rfl
      · exact free blocks.service.zero
      · exact present same.symm
      · rw [List.getElem?_eq_none (reserved.outcome.mp rfl)] at due
        cases due
    · rintro (same | ⟨p, present, same⟩)
      · exact nonzero same.symm
      · exact present same.symm
  refine ⟨by rwa [current], blocks', follows, others, by rw [current, isDir], ?_, fun i small => ?_, by rwa [current],
    ?_, fun _ => ?_, fun _ => mapInode, fun _ p idle absent => ?_, by rw [freeMap, reserved.length], fun _ => mapInode, fun _ => iff_of_true ?_ (.inl rfl)⟩
  · rw [current, length, if_pos rfl, Int.max_eq_right (by omega), sum]
  · have before : fileByte disk.view data i = fileByte fs.disk.view inode.data i := by
      rw [← reserved.fileByte held]
      unfold fileByte
      rw [map]
      split
      next => rfl
      next present => rw [view, if_neg (notBlock _ present)]
    rw [current, wrote.bytes i small, before]
    simp only [true_and]
  · rw [freeCount, freeMap, sum]
    exact reserved.count
  · rw [Saved, stored, current]
    exact .refl (by rw [map']; exact mapped)
  · rw [current, map']
    rw [sum] at idle
    exact reserved.minimal rfl p idle absent
  · rw [UpToDate, stored, current]

/-- A write that ends past the end of the file extends it, or for lack of space does nothing. There need not be
anything to write. -/
theorem inodeWriteAt_past (blocks : Blocks live fs) (opened : (addr, inode) ∈ fs.openInodes) (nonzero : inode.sector ≠ 0)
    (past : inode.data.length < (start + buffer.length : Nat)) (bound : start + buffer.length < 2147483648) :
    Wp (inodeWriteAt addr buffer start) (fun written fs' => ∃ ok : Bool,
      (ok = true ↔ Fits fs inode.data (start + buffer.length : Nat)) ∧ written = (if ok then (buffer.length : Int) else 0) ∧
      WriteAt live fs fs' addr inode start buffer ok) fs := by
  have member := blocks.opens _ opened
  have was := blocks.handles.curData opened
  have readable := was ▸ blocks.readable member
  have held := was ▸ blocks.held member nonzero
  have nonneg := readable.nonneg
  have last : offsetT ((start : Int) + buffer.length - 1) = ((start + buffer.length - 1 : Nat) : Int) := by
    rw [offsetT_eq (by omega) (by omega)]
    omega
  have total : offsetT ((start : Int) + buffer.length) = ((start + buffer.length : Nat) : Int) := by
    rw [offsetT_eq (by omega) (by omega)]
    omega
  rw [inodeWriteAt, inodeWriteAtWith, wp_bind]
  refine Wp.of_eq (getInode_eq (blocks.handles.inode? opened)) ?_
  have writable : inode.denyWriteCnt = 0 := (blocks.handles.plain _ opened).2.2
  dsimp only
  rw [if_neg (by simp [writable]), last, total, wp_bind]
  refine Wp.of_eq (byteToSector_outside (.inr (by omega))) ?_
  rw [if_pos rfl, wp_bind]
  refine (inodeReserve_wp blocks.service held (Int.natCast_nonneg _) rfl).remember.mono ?_
  rintro ⟨success, data⟩ after ⟨ran, enough, outcome, reserved, length, isDir, _⟩
  have points := inodeReserve_points blocks.service held (Int.natCast_nonneg _) rfl ran
  have sectors := bytesToSectors_le (Int.natCast_nonneg (start + buffer.length)) (by omega)
  have fits : success = true ↔ Fits fs inode.data (start + buffer.length : Nat) := by
    rw [show success = _ from outcome, Bool.and_eq_true, decide_eq_true_iff, sectors, reserved.outcome]
    exact and_comm
  cases success with
  | false =>
    simp only [Bool.false_eq_true, if_false, modifyInode, wp_bind, wp_modify, wp_pure]
    exact ⟨false, fits, rfl, writeShort_wp blocks opened nonzero reserved length isDir points rfl⟩
  | true =>
    obtain ⟨small, _⟩ := fits.mp rfl
    obtain rfl : enough = true := by
      cases enough
      · cases outcome
      · rfl
    simp only [if_true]
    rw [wp_bind, modifyInode, wp_modify]
    rw [← blockAt_length after.disk.view data (start + buffer.length : Nat)] at reserved
    exact (writeExtended_wp blocks opened nonzero rfl (by omega) (Int.le_of_lt past) reserved rfl isDir).mono
      fun written fs' both => ⟨true, fits, both⟩

/-- `inode_write_at` writes all of the buffer, extending the file as needed, or
for lack of space nothing. -/
theorem inodeWriteAt_wp (blocks : Blocks live fs) (opened : (addr, inode) ∈ fs.openInodes) (nonzero : inode.sector ≠ 0)
    (positive : 0 < buffer.length) (bound : start + buffer.length < 2147483648) :
    Wp (inodeWriteAt addr buffer start) (fun written fs' => ∃ ok : Bool,
      (ok = true ↔ Fits fs inode.data (start + buffer.length : Nat)) ∧ written = (if ok then (buffer.length : Int) else 0) ∧
      WriteAt live fs fs' addr inode start buffer ok) fs := by
  have readable := blocks.handles.curData opened ▸ blocks.readable (blocks.opens _ opened)
  by_cases inside : (start + buffer.length : Nat) ≤ inode.data.length
  · exact (writeInside_wp blocks opened nonzero positive inside).mono fun written fs' ⟨all, wrote⟩ =>
      ⟨true, ⟨fun _ => fits_inside readable inside, fun _ => rfl⟩, all, wrote⟩
  · exact inodeWriteAt_past blocks opened nonzero (Int.not_le.mp inside) bound

/-- A write of nothing to a file of nothing takes the end of the file for one to be extended, and writes the inode. -/
theorem inodeWriteAt_nothing (blocks : Blocks live fs) (opened : (addr, inode) ∈ fs.openInodes) (nonzero : inode.sector ≠ 0)
    (empty : inode.data.length = 0) :
    Wp (inodeWriteAt addr [] 0) (fun written fs' => written = 0 ∧ WriteAt live fs fs' addr inode 0 [] true) fs := by
  have member := blocks.opens _ opened
  have was := blocks.handles.curData opened
  have held := was ▸ blocks.held member nonzero
  rw [inodeWriteAt, inodeWriteAtWith, wp_bind]
  refine Wp.of_eq (getInode_eq (blocks.handles.inode? opened)) ?_
  have writable : inode.denyWriteCnt = 0 := (blocks.handles.plain _ opened).2.2
  have last : offsetT (0 + (([] : List UInt8).length : Int) - 1) = -1 := by decide
  have total : offsetT (0 + (([] : List UInt8).length : Int)) = (0 : Nat) := by decide
  dsimp only
  rw [if_neg (by simp [writable]), last, total, wp_bind]
  refine Wp.of_eq (byteToSector_outside (.inl (by decide))) ?_
  rw [if_pos rfl, wp_bind]
  refine (inodeReserve_wp blocks.service held (Int.natCast_nonneg _) rfl).mono ?_
  rintro ⟨success, data⟩ after ⟨enough, outcome, reserved, length, isDir, _⟩
  have none_missing : (shortOf fs inode.data (0 : Nat)).length ≤ freeCount fs := Nat.zero_le _
  obtain rfl : enough = true := reserved.outcome.mpr none_missing
  obtain rfl : success = true := outcome
  simp only [if_true]
  rw [wp_bind, modifyInode, wp_modify]
  rw [← blockAt_length after.disk.view data (0 : Nat)] at reserved
  exact writeExtended_wp blocks opened nonzero rfl (by decide) (Int.le_of_eq empty) reserved rfl isDir

end Writing

end Comp310.Fs
