import Comp310.Lib.Wp
import Comp310.Lib.Words
import Comp310.Fs.Disk
import Comp310.Fs.Bitmap

/-! The globals of the file system: the disk, the free map, the open inodes and
directories and the table of open files (inode.h, directory.h, file.h). An
object that was freed is no longer in its list, and using its address is a
fault. `debug_panic` prints its message and returns, so an ASSERT is no step;
the messages of the one in `free_map_release` are counted. -/

namespace Comp310.Fs
open Comp310.Lib

/-- The value of an `offset_t`, which wraps at 32 bits. -/
def offsetT (value : Int) : Int := Int.bmod value 4294967296

/-- The address of an object on the heap. -/
abbrev Addr := Nat

/-- The `-1` of a `block_sector_t`. -/
def noSector : Sector := 4294967295

/-- `struct inode_disk`. The flag is kept with the three bytes of padding behind it. -/
structure InodeDisk where
  directBlocks : Vector Sector 123
  indirectBlock : Sector
  doublyIndirectBlock : Sector
  isDir : UInt32
  length : Int
  magic : UInt32

/-- INODE_MAGIC. -/
def inodeMagic : UInt32 := 0x494e4f44

namespace InodeDisk

/-- The 128 words of the structure in memory. -/
def words (data : InodeDisk) : Vector UInt32 128 :=
  Vector.ofFn fun index =>
    if direct : index.val < 123 then data.directBlocks[index.val]
    else if index.val = 123 then data.indirectBlock
    else if index.val = 124 then data.doublyIndirectBlock
    else if index.val = 125 then data.isDir
    else if index.val = 126 then ofSigned data.length
    else data.magic

def ofWords (words : Vector UInt32 128) : InodeDisk where
  directBlocks := Vector.ofFn fun index => words[index.val]
  indirectBlock := words[123]
  doublyIndirectBlock := words[124]
  isDir := words[125]
  length := toSigned words[126]
  magic := words[127]

def toBlock (data : InodeDisk) : Block := Lib.ofWords data.words

def ofBlock (block : Block) : InodeDisk := ofWords (toWords block)

theorem ofBlock_toBlock {data : InodeDisk} (low : -2147483648 ≤ data.length) (high : data.length < 2147483648) :
    ofBlock data.toBlock = data := by
  have direct : (Vector.ofFn fun index : Fin 123 => data.words[index.val]) = data.directBlocks := by
    apply Vector.ext
    intro index inside
    simp [words]
  unfold ofBlock toBlock
  rw [toWords_ofWords data.words]
  obtain ⟨directBlocks, indirectBlock, doublyIndirectBlock, isDir, length, magic⟩ := data
  unfold ofWords
  rw [direct]
  simp [words, toSigned_ofSigned low high]

/-- `inode_is_directory`. -/
def inodeIsDirectory (data : InodeDisk) : Bool := wordByte data.isDir 0 != 0

end InodeDisk

/-- The `blocks` of a `struct inode_indirect_block_sector`. -/
def blocksOf (block : Block) : Vector Sector 128 := toWords (n := 128) block

def ofBlocks (blocks : Vector Sector 128) : Block := ofWords blocks

@[simp] theorem blocksOf_ofBlocks (blocks : Vector Sector 128) : blocksOf (ofBlocks blocks) = blocks :=
  toWords_ofWords blocks

theorem blocksOf_zeros (index : Fin 128) : (blocksOf zeros).get index = 0 := by
  unfold blocksOf zeros
  rw [toWords_zero (n := 128)]
  exact Vector.getElem_replicate index.isLt

/-- `struct inode`, less its place in the list of open inodes. -/
structure Inode where
  sector : Sector
  openCnt : Int
  removed : Bool
  denyWriteCnt : Int
  data : InodeDisk

/-- `struct file`. -/
structure File where
  inode : Addr
  pos : Int
  denyWrite : Bool

/-- `struct dir`. -/
structure Dir where
  inode : Addr
  pos : Int
  openCnt : Int

/-- A string of C, without its terminating NUL. -/
abbrev CString := List UInt8

structure FileSystem where
  disk : Disk
  freeMap : Bitmap
  freeMapFile : Option File
  openInodes : List (Addr × Inode)
  dirs : List (Addr × Dir)
  cwd : Option Addr
  fileTable : List (CString × File)
  /-- No object lives at this address or above it. -/
  nextAddr : Addr
  /-- The times that `free_map_release` was given a sector that was free. -/
  panics : Nat

abbrev M := Prog FileSystem

namespace FileSystem

def inode? (fs : FileSystem) (addr : Addr) : Option Inode := fs.openInodes.lookup addr

def dir? (fs : FileSystem) (addr : Addr) : Option Dir := fs.dirs.lookup addr

end FileSystem

/-- An access outside the device is a fault. -/
def bufferCacheRead (sector : Sector) : M Block := fun fs => do
  let (block, disk) ← fs.disk.read sector
  some (block, { fs with disk })

def bufferCacheWrite (sector : Sector) (source : Block) : M PUnit := fun fs => do
  let disk ← fs.disk.write sector source
  some (⟨⟩, { fs with disk })

def getInode (addr : Addr) : M Inode := fun fs => (fs.inode? addr).map fun inode => (inode, fs)

def modifyInode (addr : Addr) (change : Inode → Inode) : M PUnit :=
  modify fun fs => { fs with
    openInodes := fs.openInodes.map fun entry => if entry.1 = addr then (addr, change entry.2) else entry }

def getDir (addr : Addr) : M Dir := fun fs => (fs.dir? addr).map fun dir => (dir, fs)

def modifyDir (addr : Addr) (change : Dir → Dir) : M PUnit :=
  modify fun fs => { fs with
    dirs := fs.dirs.map fun entry => if entry.1 = addr then (addr, change entry.2) else entry }

/-- `malloc`, which never fails here. -/
def newAddr : M Addr := do
  let fs ← get
  set { fs with nextAddr := fs.nextAddr + 1 }
  pure fs.nextAddr

end Comp310.Fs
