import Comp310.Fs.State

/-! Inodes (inode.c). Blocks are allocated and released through the free map,
which keeps its own bits in the file of an inode, so both come as parameters
here; FreeMap.lean closes the circle. -/

namespace Comp310.Fs
open Comp310.Lib

/-- The sum wraps as an `int` and the quotient becomes a `size_t`. -/
def bytesToSectors (size : Int) : Nat :=
  ((offsetT (size + 511)).tdiv 512 % 18446744073709551616).toNat

def indexToSector (data : InodeDisk) (index : Nat) : M Sector :=
  if direct : index < 123 then pure (data.directBlocks.get ⟨index, direct⟩)
  else if single : index < 251 then do
    let block ← bufferCacheRead data.indirectBlock
    pure ((blocksOf block).get ⟨index - 123, by omega⟩)
  else if double : index < 16635 then do
    let first ← bufferCacheRead data.doublyIndirectBlock
    let second ← bufferCacheRead ((blocksOf first).get ⟨(index - 251) / 128, by omega⟩)
    pure ((blocksOf second).get ⟨(index - 251) % 128, by omega⟩)
  else pure noSector

def byteToSector (data : InodeDisk) (pos : Int) : M Sector :=
  if 0 ≤ pos ∧ pos < data.length then indexToSector data (pos / 512).toNat else pure noSector

/-- `memcpy` out of a sector. -/
def memcpyOut (block : Block) (ofs count : Nat) : List UInt8 := (block.toList.drop ofs).take count

/-- `memcpy` into a sector. -/
def copyInto (block : Block) (ofs : Nat) (bytes : List UInt8) : Block :=
  Vector.ofFn fun index => if ofs ≤ index.val then bytes.getD (index.val - ofs) block[index] else block[index]

/-- The loop of `inode_read_at`, with the bytes copied out. Each round copies at
least one byte, so `size` rounds are enough. -/
def readLoop (data : InodeDisk) : Nat → Int → Int → M (List UInt8)
  | 0, size, _ => if 0 < size then fault else pure []
  | fuel + 1, size, offset =>
    if 0 < size then do
      let sectorIdx ← byteToSector data offset
      let sectorOfs := offset.tmod 512
      let inodeLeft := data.length - offset
      let sectorLeft := 512 - sectorOfs
      let minLeft := if inodeLeft < sectorLeft then inodeLeft else sectorLeft
      let chunkSize := if size < minLeft then size else minLeft
      if chunkSize ≤ 0 then pure []
      else do
        let bounce ← bufferCacheRead sectorIdx
        let chunk :=
          if sectorOfs = 0 ∧ chunkSize = 512 then bounce.toList
          else memcpyOut bounce sectorOfs.toNat chunkSize.toNat
        let rest ← readLoop data fuel (size - chunkSize) (offset + chunkSize)
        pure (chunk ++ rest)
    else pure []

/-- The bytes read; the code returns their number. -/
def inodeReadAt (inode : Addr) (size offset : Int) : M (List UInt8) := do
  let inode ← getInode inode
  readLoop inode.data size.toNat size offset

/-- The loop of `inode_write_at`, on the bytes of the buffer that are still to be written. -/
def writeLoop (data : InodeDisk) : Nat → List UInt8 → Int → M Int
  | 0, buffer, _ => if 0 < buffer.length then fault else pure 0
  | fuel + 1, buffer, offset =>
    if 0 < buffer.length then do
      let size : Int := buffer.length
      let sectorIdx ← byteToSector data offset
      let sectorOfs := offset.tmod 512
      let inodeLeft := data.length - offset
      let sectorLeft := 512 - sectorOfs
      let minLeft := if inodeLeft < sectorLeft then inodeLeft else sectorLeft
      let chunkSize := if size < minLeft then size else minLeft
      if chunkSize ≤ 0 then pure 0
      else do
        let chunk := buffer.take chunkSize.toNat
        if sectorOfs = 0 ∧ chunkSize = 512 then
          bufferCacheWrite sectorIdx (copyInto zeros 0 chunk)
        else do
          let bounce ← if 0 < sectorOfs ∨ chunkSize < sectorLeft then bufferCacheRead sectorIdx else pure zeros
          bufferCacheWrite sectorIdx (copyInto bounce sectorOfs.toNat chunk)
        let rest ← writeLoop data fuel (buffer.drop chunkSize.toNat) (offset + chunkSize)
        pure (chunkSize + rest)
    else pure 0

/-- An entry for a data sector: level 0 of `inode_reserve_indirect`, and the
body of the loop over the direct blocks. -/
def reserveSector (allocate : M (Option Sector)) (entry : Sector) : M (Bool × Sector) :=
  if entry = 0 then do
    match ← allocate with
    | none => pure (false, entry)
    | some sector => do
      bufferCacheWrite sector zeros
      pure (true, sector)
  else pure (true, entry)

/-- `for (i = 0; i < l; ++i)` over the entries of a block, from entry `i` on. -/
def reserveEntries (reserve : Sector → Nat → M (Bool × Sector)) (unit : Nat) (blocks : Vector Sector n) (i : Nat) :
    Nat → Nat → M (Bool × Vector Sector n)
  | 0, _ => pure (true, blocks)
  | left + 1, numSectors =>
    if inside : i < n then do
      let subsize := min numSectors unit
      let (success, entry) ← reserve (blocks.get ⟨i, inside⟩) subsize
      if success then reserveEntries reserve unit (blocks.set i entry) (i + 1) left (numSectors - subsize)
      else pure (false, blocks.set i entry)
    else fault

/-- The number of data sectors under one entry of an indirect block. -/
def unitOf (level : Nat) : Nat := if level = 1 then 1 else 128

/-- The success flag and what is left in `*p_entry`. -/
def inodeReserveIndirect (allocate : M (Option Sector)) : Nat → Sector → Nat → M (Bool × Sector)
  | 0, entry, _ => reserveSector allocate entry
  | level + 1, entry, numSectors => do
    let entry ← if entry = 0 then do
        -- the result of the allocation is not looked at: without a free sector the entry stays 0
        let entry := (← allocate).getD entry
        bufferCacheWrite entry zeros
        pure entry
      else pure entry
    let indirectBlock ← bufferCacheRead entry
    let unit := unitOf (level + 1)
    let (success, blocks) ← reserveEntries (inodeReserveIndirect allocate level) unit (blocksOf indirectBlock) 0
      (divRoundUp numSectors unit) numSectors
    if success then do
      bufferCacheWrite entry (ofBlocks blocks)
      pure (true, entry)
    else pure (false, entry)

/-- The structure in memory keeps what was allocated before a failure. -/
def inodeReserve (allocate : M (Option Sector)) (data : InodeDisk) (length : Int) : M (Bool × InodeDisk) :=
  if length < 0 then pure (false, data)
  else do
    let numSectors := bytesToSectors length
    -- (1) direct blocks
    let l := min numSectors 123
    let (success, directBlocks) ←
      reserveEntries (fun entry _ => reserveSector allocate entry) 1 data.directBlocks 0 l l
    let data := { data with directBlocks }
    if !success then pure (false, data)
    else if numSectors - l = 0 then pure (true, data)
    else do
      -- (2) a single indirect block
      let numSectors := numSectors - l
      let l := min numSectors 128
      let (success, indirectBlock) ← inodeReserveIndirect allocate 1 data.indirectBlock l
      let data := { data with indirectBlock }
      if !success then pure (false, data)
      else if numSectors - l = 0 then pure (true, data)
      else do
        -- (3) a single doubly indirect block
        let numSectors := numSectors - l
        let l := min numSectors (128 * 128)
        let (success, doublyIndirectBlock) ← inodeReserveIndirect allocate 2 data.doublyIndirectBlock l
        let data := { data with doublyIndirectBlock }
        if !success then pure (false, data)
        else if numSectors - l = 0 then pure (true, data)
        else pure (false, data)

/-- The number of bytes written; `size` is the length of the buffer. -/
def inodeWriteAtWith (allocate : M (Option Sector)) (addr : Addr) (buffer : List UInt8) (offset : Int) : M Int := do
  let inode ← getInode addr
  if inode.denyWriteCnt ≠ 0 then pure 0
  else do
    let size : Int := buffer.length
    let last ← byteToSector inode.data (offsetT (offset + size - 1))
    if last = noSector then do
      -- beyond the EOF: extend the file
      let (success, data) ← inodeReserve allocate inode.data (offsetT (offset + size))
      if success then do
        let data := { data with length := offsetT (offset + size) }
        modifyInode addr fun inode => { inode with data }
        bufferCacheWrite inode.sector data.toBlock
        writeLoop data buffer.length buffer offset
      else do
        modifyInode addr fun inode => { inode with data }
        pure 0
    else writeLoop inode.data buffer.length buffer offset

/-- `for (i = 0; i < l; ++i)` over the entries of a block that is given back. -/
def deallocateEntries (deallocate : Sector → Nat → M PUnit) (unit : Nat) (blocks : Vector Sector n) (i : Nat) :
    Nat → Nat → M PUnit
  | 0, _ => pure ⟨⟩
  | left + 1, numSectors =>
    if inside : i < n then do
      let subsize := min numSectors unit
      deallocate (blocks.get ⟨i, inside⟩) subsize
      deallocateEntries deallocate unit blocks (i + 1) left (numSectors - subsize)
    else fault

def inodeDeallocateIndirect (release : Sector → M PUnit) : Nat → Sector → Nat → M PUnit
  | 0, entry, _ => release entry
  | level + 1, entry, numSectors => do
    let indirectBlock ← bufferCacheRead entry
    let unit := unitOf (level + 1)
    deallocateEntries (inodeDeallocateIndirect release level) unit (blocksOf indirectBlock) 0
      (divRoundUp numSectors unit) numSectors
    release entry

def inodeDeallocate (release : Sector → M PUnit) (data : InodeDisk) : M Bool :=
  if data.length < 0 then pure false
  else do
    let numSectors := bytesToSectors data.length
    -- (1) direct blocks
    let l := min numSectors 123
    deallocateEntries (fun entry _ => release entry) 1 data.directBlocks 0 l l
    -- (2) a single indirect block
    let numSectors := numSectors - l
    let l := min numSectors 128
    if 0 < l then inodeDeallocateIndirect release 1 data.indirectBlock l
    -- (3) a single doubly indirect block
    let numSectors := numSectors - l
    let l := min numSectors (128 * 128)
    if 0 < l then inodeDeallocateIndirect release 2 data.doublyIndirectBlock l
    pure true

/-- The sectors under the entries of a doubly indirect block. -/
def dataSectorsUnder (blocks : Vector Sector 128) (i : Nat) : Nat → Nat → M (List Sector)
  | 0, _ => pure []
  | left + 1, numSectors =>
    if inside : i < 128 then do
      let subsize := min numSectors 128
      let indirectBlock ← bufferCacheRead (blocks.get ⟨i, inside⟩)
      let rest ← dataSectorsUnder blocks (i + 1) left (numSectors - subsize)
      pure ((blocksOf indirectBlock).toList.take subsize ++ rest)
    else fault

/-- The data sectors of an inode, in the order of the file; `none` where the code returns a null pointer. -/
def getInodeDataSectors (data : InodeDisk) : M (Option (List Sector)) :=
  if data.length < 0 then pure none
  else do
    let numSectors := bytesToSectors data.length
    -- (1) direct blocks
    let l := min numSectors 123
    let direct := data.directBlocks.toList.take l
    -- (2) a single indirect block
    let numSectors := numSectors - l
    let l := min numSectors 128
    let single ← if 0 < l then do
        let indirectBlock ← bufferCacheRead data.indirectBlock
        pure ((blocksOf indirectBlock).toList.take l)
      else pure []
    -- (3) a single doubly indirect block
    let numSectors := numSectors - l
    let l := min numSectors (128 * 128)
    let double ← if 0 < l then do
        let indirectBlock ← bufferCacheRead data.doublyIndirectBlock
        dataSectorsUnder (blocksOf indirectBlock) 0 (divRoundUp l 128) l
      else pure []
    pure (some (direct ++ single ++ double))

end Comp310.Fs
