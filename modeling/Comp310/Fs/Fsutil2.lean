import Comp310.Fs.Fsutil

/-! The commands of fsutil2.c that read files or the disk as a whole: `copy_out`,
`find_file`, `fragmentation_degree` and `recover`. A host file is the list of its
bytes. Reading or writing past a buffer on the stack or the heap is a fault. -/

namespace Comp310.Fs
open Comp310.Lib

/-- The bytes of a buffer that `fputs` writes and `strstr` looks at. -/
def text (buffer : List UInt8) : CString := buffer.takeWhile (· != 0)

/-- The value returned and the host file that was written; `writable` tells
whether the host lets it be opened. -/
def copyOut (fname : CString) (writable : Bool) : M (Int × Option (List UInt8)) := do
  let f ← filesysOpen fname
  let size ← fsutilSize fname
  let offset := f.elim 0 (·.pos)
  let _ ← fsutilSeek fname 0
  let (_, buffer) ← fsutilRead fname (size % 4294967296).toNat
  if writable then
    -- a buffer of no bytes holds no NUL for `fputs` to stop at
    if size < 0 then fault
    else do
      let _ ← fsutilSeek fname offset
      pure (0, some (text buffer))
  else do
    let _ ← fsutilSeek fname offset
    pure (1, none)

def strstr (pattern : CString) : CString → Bool
  | [] => pattern.isEmpty
  | first :: rest => pattern.isPrefixOf (first :: rest) || strstr pattern rest

/-- What `find_file` finds out about one file. -/
def matchesPattern (pattern name : CString) : M Bool := do
  let size ← fsutilSize name
  if size < 0 then fault
  else do
    let (_, before) ← fsutilRead name (size % 4294967296).toNat
    let _ ← fsutilSeek name 0
    let (_, buffer) ← fsutilRead name (size % 4294967296).toNat
    pure (strstr pattern (text (buffer ++ before.drop buffer.length)))

/-- The names that are printed. -/
def findFile (pattern : CString) : M (List CString) := do
  let found ← scanRoot fun name => do
    let hit ← matchesPattern pattern name
    pure (name, hit)
  pure ((found.filter (·.2)).map (·.1))

/-- The difference is that of two unsigned numbers. -/
def scattered : List Sector → Bool
  | place :: next :: rest => (3 < next - place && next != 0) || scattered (next :: rest)
  | _ => false

/-- Whether a file of more than one sector is fragmented; `none` for a smaller one. -/
def fragmentation (name : CString) : M (Option Bool) := do
  match ← filesysOpen name with
  | none => fault
  | some f => do
    let size ← fsutilSize name
    let size' ← fsutilSize name
    let sectorsToRead := if size.tmod 512 ≠ 0 then size'.tdiv 512 + 1 else size'.tdiv 512
    if 1 < sectorsToRead then do
      let node ← getInode f.inode
      match ← getInodeDataSectors node.data with
      | none => fault
      | some blocks =>
        if blocks.length < sectorsToRead then fault
        else pure (some (scattered (blocks.take sectorsToRead.toNat)))
    else pure none

/-- The numbers of fragmented and of fragmentable files. -/
def fragmentationDegree : M (Nat × Nat) := do
  let files ← scanRoot fragmentation
  let fragmentable := files.filterMap id
  pure (fragmentable.count true, fragmentable.length)

def cstring (characters : String) : CString := characters.toList.map fun c => UInt8.ofNat c.toNat

/-- `%u` in a format. -/
def decimal (value : Nat) : CString := (Nat.toDigits 10 value).map fun c => UInt8.ofNat c.toNat

/-- `sprintf` into an array of `size` characters. -/
def sprintf (size : Nat) (printed : CString) : M CString :=
  if printed.length < size then pure printed else fault

/-- `bitmap_set` for each of the bits; the ones past the last are in the padding
of its element, or in nobody's memory. -/
def markSectors (start stop : Nat) : M PUnit := do
  let fs ← get
  if 8 * bitmapFileSize fs.freeMap < stop then fault
  else set { fs with freeMap := bitmapSetMultiple fs.freeMap start (stop - start) true }

/-- The inode that the sector may once have held gets a name again. -/
def recoverInode (i : Nat) : M PUnit := do
  let addr ← inodeOpen (UInt32.ofNat i)
  let node ← getInode addr
  let id := node.data
  -- `!` of a bool inverts its lowest bit, so only 1 counts as true here
  if 0 < id.length ∧ wordByte id.isDir 0 ≠ 1 ∧ 0 < node.sector then do
    modifyInode addr fun node => { node with removed := false }
    markSectors i (i + 1)
    let sectorsToRead := if id.length.tmod 512 ≠ 0 then i + (id.length.tdiv 512 + 1) else i + id.length.tdiv 512
    markSectors i sectorsToRead.toNat
    let newname ← sprintf 15 (cstring "recovered0-" ++ decimal node.sector.toNat)
    addToFileTable (fileOpen addr) newname
    let root ← dirOpenRoot
    let _ ← dirAdd root newname (UInt32.ofNat i)
  else pure ⟨⟩

/-- `for (i = 0; i < bitmap_size(free_map); i++)`, from `i` on. -/
def recoverInodes (i : Nat) : Nat → M PUnit
  | 0 => pure ⟨⟩
  | left + 1 => do
    let fs ← get
    if bitmapTest fs.freeMap i then pure ⟨⟩ else recoverInode i
    recoverInodes (i + 1) left

/-- The host files written for the sectors in use from `i` on that are not empty. -/
def recoverSectors (i : Nat) : Nat → M (List (CString × List UInt8))
  | 0 => pure []
  | left + 1 => do
    let fs ← get
    let file ← if bitmapTest fs.freeMap i then do
        let newname ← sprintf 18 (cstring "recovered1-" ++ decimal i ++ cstring ".txt")
        let block ← bufferCacheRead (UInt32.ofNat i)
        pure (if block.toList.any (· != 0) then [(newname, text block.toList)] else [])
      else pure []
    let rest ← recoverSectors (i + 1) left
    pure (file ++ rest)

/-- The host file written for what lies past the end of a file in its last sector. -/
def recoverSlack (name : CString) : M (Option (CString × List UInt8)) := do
  match ← filesysOpen name with
  | none => fault
  | some f => do
    let size ← fsutilSize name
    let node ← getInode f.inode
    let sectorsToRead := if size.tmod 512 ≠ 0 then size.tdiv 512 + 1 else size.tdiv 512
    match ← getInodeDataSectors node.data with
    | none => fault
    | some blocks =>
      if blocks.length < sectorsToRead then fault
      else do
        let lastBlock := ((blocks.take sectorsToRead.toNat).filter (· != 0)).getLast?.getD 0
        let fs ← get
        if bitmapTest fs.freeMap lastBlock.toNat then do
          let block ← bufferCacheRead lastBlock
          let used := (size.tmod 512).toNat
          -- `memmove` leaves the end of the sector where it was
          let buffer := block.toList.drop used ++ block.toList.drop (512 - used)
          let newname ← sprintf 18 (cstring "recovered2-" ++ name ++ cstring ".txt")
          if buffer.all (· == 0) then pure none
          else if (buffer.drop 1).all (· != 0) then fault
          else pure (some (newname, text (buffer.drop 1)))
        else pure none

/-- The host files that are written. -/
def recover (flag : Int) : M (List (CString × List UInt8)) := do
  let fs ← get
  if flag = 0 then do
    recoverInodes 0 fs.freeMap.length
    pure []
  else if flag = 1 then recoverSectors 4 (fs.freeMap.length - 4)
  else if flag = 2 then do
    let files ← scanRoot recoverSlack
    pure (files.filterMap id)
  else pure []

end Comp310.Fs
