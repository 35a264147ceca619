import Comp310.Fs.Inode

/-! The free map (free-map.c) and the operations on inodes that allocate and
release through it (inode.c). The free map file has its full length before the
map is first written to it, so writing it never extends it; were it to, the
allocation would call itself without end, and the model faults there. -/

namespace Comp310.Fs
open Comp310.Lib

/-- FREE_MAP_SECTOR and ROOT_DIR_SECTOR. -/
def freeMapSector : Sector := 0
def rootDirSector : Sector := 1

def bitmapWrite (file : File) : M Bool := do
  let fs ← get
  let written ← inodeWriteAtWith fault file.inode (bitmapBytes fs.freeMap) 0
  pure (written == (bitmapFileSize fs.freeMap : Int))

def bitmapRead (file : File) : M Bool := do
  let fs ← get
  let size := bitmapFileSize fs.freeMap
  let bytes ← inodeReadAt file.inode size 0
  modify fun fs => { fs with freeMap := bitmapOfBytes fs.freeMap.length bytes }
  pure (bytes.length == size)

def numFreeSectors (fs : FileSystem) : Nat := bitmapCount fs.freeMap 0 fs.freeMap.length false

/-- The first of `cnt` consecutive sectors; `none` where the code returns false. -/
def freeMapAllocate (cnt : Nat) : M (Option Sector) := do
  let fs ← get
  match bitmapScanAndFlip fs.freeMap 0 cnt false with
  | none => pure none
  | some (sector, freeMap) => do
    set { fs with freeMap }
    match fs.freeMapFile with
    | none => pure (some (UInt32.ofNat sector))
    | some file => do
      let success ← bitmapWrite file
      if success then pure (some (UInt32.ofNat sector))
      else do
        modify fun fs => { fs with freeMap := bitmapSetMultiple fs.freeMap sector cnt false }
        pure none

def freeMapRelease (sector : Sector) (cnt : Nat) : M PUnit := do
  let fs ← get
  if sector.toNat + cnt ≤ fs.freeMap.length then do
    set { fs with
      freeMap := bitmapSetMultiple fs.freeMap sector.toNat cnt false
      panics := if bitmapAll fs.freeMap sector.toNat cnt then fs.panics else fs.panics + 1 }
    match fs.freeMapFile with
    | none => fault
    | some file => do
      let _ ← bitmapWrite file
      pure ⟨⟩
  else fault

def inodeWriteAt (inode : Addr) (buffer : List UInt8) (offset : Int) : M Int :=
  inodeWriteAtWith (freeMapAllocate 1) inode buffer offset

def inodeCreate (sector : Sector) (length : Int) (isDir : Bool) : M Bool := do
  let blank : InodeDisk := ⟨Vector.replicate 123 0, 0, 0, isDir.toUInt32, length, inodeMagic⟩
  let (success, diskInode) ← inodeReserve (freeMapAllocate 1) blank length
  if success then do
    bufferCacheWrite sector diskInode.toBlock
    pure true
  else pure false

/-- An inode that is open already is returned as it is, with no count of its openers. -/
def inodeOpen (sector : Sector) : M Addr := do
  let fs ← get
  match fs.openInodes.find? fun entry => entry.2.sector == sector with
  | some (addr, _) => pure addr
  | none => do
    let addr ← newAddr
    let block ← bufferCacheRead sector
    modify fun fs => { fs with
      openInodes := (addr, ⟨sector, 1, false, 0, InodeDisk.ofBlock block⟩) :: fs.openInodes }
    pure addr

def inodeReopen (inode : Addr) : M Addr := pure inode

def inodeClose (addr : Addr) : M PUnit := do
  let inode ← getInode addr
  if inode.openCnt - 1 = 0 then do
    modify fun fs => { fs with openInodes := fs.openInodes.filter fun entry => entry.1 != addr }
    if inode.removed then do
      freeMapRelease inode.sector 1
      let _ ← inodeDeallocate (fun sector => freeMapRelease sector 1) inode.data
      pure ⟨⟩
    else pure ⟨⟩
  else modifyInode addr fun inode => { inode with openCnt := inode.openCnt - 1 }

def inodeRemove (addr : Addr) : M PUnit := do
  let _ ← getInode addr
  modifyInode addr fun inode => { inode with removed := true }

def fileOpen (inode : Addr) : File := ⟨inode, 0, false⟩

def fileAllowWrite (file : File) : M PUnit :=
  if file.denyWrite then modifyInode file.inode fun inode => { inode with denyWriteCnt := inode.denyWriteCnt - 1 }
  else pure ⟨⟩

def fileClose (file : File) : M PUnit := do
  fileAllowWrite file
  inodeClose file.inode

def freeMapInit (size : Nat) : Bitmap :=
  bitmapMark (bitmapMark (bitmapCreate (size - 1)) freeMapSector.toNat) rootDirSector.toNat

/-- A call of PANIC is a fault: the file system is not there to be used. -/
def freeMapOpen : M PUnit := do
  let inode ← inodeOpen freeMapSector
  modify fun fs => { fs with freeMapFile := some (fileOpen inode) }
  let success ← bitmapRead (fileOpen inode)
  if success then pure ⟨⟩ else fault

def freeMapClose : M PUnit := do
  let fs ← get
  match fs.freeMapFile with
  | none => pure ⟨⟩
  | some file => fileClose file

def freeMapCreate : M PUnit := do
  let fs ← get
  let created ← inodeCreate freeMapSector (bitmapFileSize fs.freeMap) false
  if created then do
    let inode ← inodeOpen freeMapSector
    modify fun fs => { fs with freeMapFile := some (fileOpen inode) }
    let success ← bitmapWrite (fileOpen inode)
    if success then pure ⟨⟩ else fault
  else fault

end Comp310.Fs
