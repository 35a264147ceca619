import Comp310.Fs.Access

/-! Reading the free map from its file, in a process that has no inode open: at
the end of formatting, and when the device is mounted again. -/

namespace Comp310.Fs
open Comp310.Lib

/-- What a process without open inodes finds on the disk, and nothing else has happened. -/
structure Remounted (live : Sector → Prop) (fs closed fs' : FileSystem) : Prop where
  objects : Objects live fs'
  alike : ∀ other, live other → Alike fs fs' other
  freeMap : fs'.freeMap = fs.freeMap
  disk : fs'.disk = closed.disk
  stored : InodeDisk.ofBlock (fs'.disk.view 0) = curData fs' 0
  mapFile : ∃ addr, fs'.freeMapFile = some (fileOpen addr)
  dirs : fs'.dirs = closed.dirs
  cwd : fs'.cwd = closed.cwd
  fileTable : fs'.fileTable = closed.fileTable
  only : ∀ entry ∈ fs'.openInodes, entry.2.sector = 0

variable {live : Sector → Prop} {fs closed fs' : FileSystem} {addr : Addr} {inode : Inode}

theorem fileClose_eq (handles : Handles fs) (opened : (addr, inode) ∈ fs.openInodes) (pos : Int) :
    fileClose ⟨addr, pos, false⟩ fs = some (⟨⟩, dropInode fs addr) :=
  inodeClose_eq handles opened

theorem freeMapClose_eq (handles : Handles fs) (home : fs.freeMapFile = some (fileOpen addr)) (opened : (addr, inode) ∈ fs.openInodes) :
    freeMapClose fs = some (⟨⟩, dropInode fs addr) := by
  have start : (get : M FileSystem) fs = some (fs, fs) := rfl
  rw [freeMapClose, run_bind start, home]
  exact fileClose_eq handles opened 0

private theorem mapFile_congr (blocks : Blocks live fs) (view : ∀ other, other.toNat < fs.disk.size → fs'.disk.view other = fs.disk.view other) :
    blockAt fs'.disk.view (curData fs 0) = blockAt fs.disk.view (curData fs 0) ∧
      ∀ i, fileByte fs'.disk.view (curData fs 0) i = fileByte fs.disk.view (curData fs 0) i := by
  have readable := blocks.readable blocks.mapLive
  exact ⟨funext fun p => blockAt_congr p fun q _ present => view _ (readable.inRange q present),
    fun i => fileByte_congr i fun q present => view _ (readable.inRange q present)⟩

private theorem Objects.reopened (objects : Objects live fs) (size : fs'.disk.size = fs.disk.size)
    (view : ∀ other, other.toNat < fs.disk.size → fs'.disk.view other = fs.disk.view other) (freeMap : fs'.freeMap = fs.freeMap)
    (panics : fs'.panics = fs.panics) (entries : fs'.openInodes = [(addr, ⟨0, 1, false, 0, curData fs 0⟩)]) (below : addr < fs'.nextAddr)
    (file : fs'.freeMapFile = some ⟨addr, 0, false⟩) :
    Objects live fs' ∧ ∀ other, live other → Alike fs fs' other := by
  have blocks := objects.blocks
  obtain ⟨file', inode, home, member, zero, length⟩ := blocks.mapOpen
  have data : inode.data = curData fs 0 := zero ▸ (blocks.handles.curData member).symm
  have found : fs.inode? file'.inode = some inode := blocks.handles.inode? member
  have handles : Handles fs' := by
    refine ⟨?_, ?_, ?_, ?_⟩ <;> rw [entries]
    · simp
    · simp
    · exact List.forall_mem_singleton.mpr below
    · exact List.forall_mem_singleton.mpr ⟨rfl, rfl, rfl⟩
  have mine : (addr, ⟨0, 1, false, 0, curData fs 0⟩) ∈ fs'.openInodes := entries ▸ List.mem_cons_self
  have mapOpen : MapOpen fs' := ⟨_, _, file, mine, rfl, by rw [freeMap, ← length, data]⟩
  have bytes := (mapFile_congr blocks view).2
  have the {other : File} {inode' : Inode} (home' : fs'.freeMapFile = some other) (found' : fs'.inode? other.inode = some inode') :
      inode'.data = curData fs 0 := by
    cases file.symm.trans home'
    cases (handles.inode? mine).symm.trans found'
    rfl
  have padded (padded : Padded fs) : Padded fs' := by
    intro other inode' home' found' i past inside
    rw [freeMap] at past inside
    rw [the home' found', bytes, ← data]
    exact padded file' inode home found i past inside
  have follows : Follows fs fs' := ⟨padded, fun synced => ⟨padded synced.padded, fun other inode' home' found' => by
    rw [the home' found', freeMap, ← synced.bits file' inode home found, data]
    exact fileRange_congr fun i _ _ => bytes i⟩⟩
  refine objects.reload size view freeMap panics handles ?_ mapOpen follows fun other there => ?_
  · rw [entries]
    exact List.forall_mem_singleton.mpr blocks.mapLive
  · by_cases mapFile : other = 0
    · subst mapFile
      exact .inl (handles.curData mine)
    · refine .inr ⟨mapFile, ?_⟩
      rw [curData_closed, view other (blocks.inRange (other, none) there filled_inode)]
      rw [entries]
      exact List.forall_mem_singleton.mpr (Ne.symm mapFile)

/-- The free map comes back from its file, and every object from the disk. -/
theorem Objects.freeMapOpen_wp (objects : Objects live fs) (none : closed.openInodes = [])
    (size : closed.disk.size = fs.disk.size) (view : ∀ other, other.toNat < fs.disk.size → closed.disk.view other = fs.disk.view other)
    (length : closed.freeMap.length = fs.freeMap.length) (panics : closed.panics = 0) (stored : InodeDisk.ofBlock (fs.disk.view 0) = curData fs 0) :
    Wp freeMapOpen (fun _ fs' => Remounted live fs closed fs') closed := by
  have blocks := objects.blocks
  have readable := blocks.readable blocks.mapLive
  have range : (0 : Sector).toNat < fs.disk.size := blocks.inRange (0, .none) blocks.mapLive filled_inode
  obtain ⟨file', inode, home, member, zero, whole⟩ := blocks.mapOpen
  have data : inode.data = curData fs 0 := zero ▸ (blocks.handles.curData member).symm
  have bits := objects.synced.bits file' inode home (blocks.handles.inode? member)
  rw [data] at whole bits
  have start : freeMapSector = 0 := rfl
  rw [freeMapOpen, start, wp_bind]
  refine Wp.of_eq (inodeOpen_closed (by simp [none]) (size ▸ range)) ?_
  simp only [wp_bind, wp_modify, readIn, none, view 0 range, stored]
  generalize middle_eq : ({ closed with
    openInodes := [(closed.nextAddr, ⟨0, 1, false, 0, curData fs 0⟩)],
    freeMapFile := some (fileOpen closed.nextAddr), nextAddr := closed.nextAddr + 1 } : FileSystem) = middle
  have opened : middle.inode? closed.nextAddr = some ⟨0, 1, false, 0, curData fs 0⟩ := by
    rw [← middle_eq, FileSystem.inode?, List.lookup_cons, beq_self_eq_true]
  have disk : middle.disk = closed.disk := by rw [← middle_eq]
  have freeMap : middle.freeMap = closed.freeMap := by rw [← middle_eq]
  have view' (other : Sector) (inside : other.toNat < fs.disk.size) : middle.disk.view other = fs.disk.view other := by
    rw [disk, view other inside]
  obtain ⟨map, bytes⟩ := mapFile_congr blocks view'
  have readable' : Readable middle (curData fs 0) := by
    refine ⟨readable.nonneg, readable.limit, ?_, ?_⟩ <;> rw [map]
    · rw [disk, size]
      exact readable.inRange
    · exact readable.mapped
  have count : min (bitmapFileSize middle.freeMap) ((curData fs 0).length.toNat - 0) = byteCnt fs.freeMap.length := by
    rw [bitmapFileSize, freeMap, length]
    omega
  have read := inodeReadAt_eq opened readable' (bitmapFileSize middle.freeMap) 0
  rw [count, fileRange_congr fun i _ _ => bytes i, bits] at read
  rw [bitmapRead, wp_bind, wp_get, wp_bind]
  refine Wp.of_eq read ?_
  rw [wp_bind, wp_modify, wp_pure, bitmapBytes_length, bitmapFileSize, freeMap, length, bitmapOfBytes_bitmapBytes,
    beq_self_eq_true, if_pos rfl, wp_pure]
  have final : Objects live { middle with freeMap := fs.freeMap } ∧ ∀ other, live other → Alike fs { middle with freeMap := fs.freeMap } other :=
    objects.reopened (disk ▸ size) view' rfl (by rw [← middle_eq, blocks.panics]; exact panics)
      (show middle.openInodes = [(closed.nextAddr, ⟨0, 1, false, 0, curData fs 0⟩)] by rw [← middle_eq])
      (by rw [← middle_eq]; exact Nat.lt_succ_self _)
      (by rw [← middle_eq]; rfl)
  have mine : (closed.nextAddr, ⟨0, 1, false, 0, curData fs 0⟩) ∈ middle.openInodes := by
    rw [← middle_eq]
    exact List.mem_cons_self
  have current : curData { middle with freeMap := fs.freeMap } 0 = curData fs 0 := final.1.blocks.handles.curData mine
  refine ⟨final.1, final.2, rfl, disk, ?_, ⟨closed.nextAddr, by rw [← middle_eq]⟩, by rw [← middle_eq], by rw [← middle_eq], by rw [← middle_eq], ?_⟩
  · rw [current, ← stored]
    exact congrArg _ (view' 0 range)
  · rw [← middle_eq]
    exact List.forall_mem_singleton.mpr rfl

end Comp310.Fs
