import Comp310.Fs.Filesys

/-! The commands on the file system: fsutil.c, and `copy_in` and `defragment` of
fsutil2.c. A buffer is the list of its bytes, and its length is the `size` that
is passed with it. -/

namespace Comp310.Fs
open Comp310.Lib

/-- The file object of a name, from the table or opened and added to it. -/
def openByFname (fname : CString) : M (Option File) := do
  match ← getFileByFname fname with
  | some file => pure (some file)
  | none => do
    match ← filesysOpen fname with
    | none => pure none
    | some file => do
      addToFileTable file fname
      pure (some file)

/-- `while (dir_readdir(dir, name))` with what its body gives for each name. One
unit of fuel for each entry of the directory. -/
def forEachFile (dir : Addr) (body : CString → M α) : Nat → M (List α)
  | 0 => fault
  | fuel + 1 => do
    match ← dirReaddir dir with
    | none => pure []
    | some name => do
      let result ← body name
      let rest ← forEachFile dir body fuel
      pure (result :: rest)

/-- A pass over the root directory, with what its body gives for each name. -/
def scanRoot (body : CString → M α) : M (List α) := do
  let dir ← dirOpenRoot
  let d ← getDir dir
  let fuel ← entriesOf d.inode
  let results ← forEachFile dir body fuel
  dirClose dir
  pure results

/-- The names that are printed. -/
def fsutilLs : M (List CString) := scanRoot pure

def fsutilRm (fname : CString) : M Int := do
  let _ ← removeFromFileTable fname
  let removed ← filesysRemove fname
  pure (if removed then 1 else 0)

/-- The `unsigned` size becomes an `offset_t`. -/
def fsutilCreate (fname : CString) (isize : Nat) : M Int :=
  if fname.length = 0 ∨ 255 ≤ fname.length then pure 0
  else do
    let created ← filesysCreate fname (offsetT isize)
    pure (if created then 1 else 0)

def fsutilWrite (fname : CString) (buffer : List UInt8) : M Int := do
  match ← openByFname fname with
  | none => pure (-1)
  | some file => do
    let (written, file) ← fileWrite file buffer
    storeFile fname file
    pure written

/-- The value returned and the bytes put into the buffer. -/
def fsutilRead (fname : CString) (size : Nat) : M (Int × List UInt8) := do
  match ← openByFname fname with
  | none => pure (-1, [])
  | some file => do
    let (bytes, file) ← fileRead file (offsetT size)
    storeFile fname file
    pure (bytes.length, bytes)

def fsutilSize (fname : CString) : M Int := do
  match ← openByFname fname with
  | none => pure (-1)
  | some file => fileLength file

def fsutilSeek (fname : CString) (offset : Int) : M Int := do
  match ← openByFname fname with
  | none => pure (-1)
  | some file => do
    storeFile fname { file with pos := offset }
    pure 0

def fsutilFreespace : M Nat := do
  let fs ← get
  pure (numFreeSectors fs)

/-- The size of the file that `copy_in` makes of a host file of `fileSize` bytes. All numbers are of type `int`. -/
def copyInSize (freespace : Nat) (fileSize : Int) : Int :=
  let sectorsavailable := offsetT ((freespace : Int) - 1)
  let sectorsTowrite := if fileSize.tmod 512 ≠ 0 then fileSize.tdiv 512 + 1 else fileSize.tdiv 512
  let allocatedIndirect :=
    if 123 < sectorsavailable ∧ 123 < sectorsTowrite then
      if 123 + 129 < sectorsavailable ∧ 123 + 129 < sectorsTowrite then 17 else 2
    else 0
  if sectorsavailable - allocatedIndirect < sectorsTowrite then
    offsetT ((sectorsavailable - allocatedIndirect) * 512 - 1)
  else fileSize

/-- The bytes that `fgetc` gives one after another: behind the end of the host file, those of EOF. -/
def hostBuffer (source : List UInt8) (count : Nat) : List UInt8 := source.take count ++ List.replicate (count - source.length) 255

/-- `source` is the host file, if it can be opened. The byte that is written past
the buffer is the NUL that `file_write` puts there. -/
def copyIn (fname : CString) (source : Option (List UInt8)) : M Int :=
  match source with
  | none => pure 1
  | some source => do
    let freespace ← fsutilFreespace
    let newSize := copyInSize freespace (offsetT source.length)
    let res ← fsutilCreate fname (newSize % 4294967296).toNat
    if res ≠ 1 then pure 2
    else do
      let _ ← fsutilWrite fname (hostBuffer source newSize.toNat ++ [0])
      pure 0

/-- One unit of fuel for each entry of the root directory. -/
def countFiles (dir : Addr) : Nat → M Nat
  | 0 => fault
  | fuel + 1 => do
    match ← dirReaddir dir with
    | none => pure 0
    | some _ => do
      let rest ← countFiles dir fuel
      pure (rest + 1)

/-- `struct newfiles`. -/
structure NewFile where
  content : List UInt8
  name : CString
  size : Int

/-- The files still to be collected and those in the array. -/
def collectFiles (dir : Addr) : Nat → M (List NewFile)
  | 0 => do
    -- the condition of the loop reads one more entry before it looks at the count
    let _ ← dirReaddir dir
    pure []
  | left + 1 => do
    match ← dirReaddir dir with
    | none => pure []
    | some fname => do
      let size ← fsutilSize fname
      match ← filesysOpen fname with
      | none => fault
      | some file => do
        let (content, _) ← fileRead { file with pos := 0 } size
        -- what a short read leaves of the buffer was never written
        if content.length ≠ size then fault
        else do
          let rest ← collectFiles dir left
          pure (⟨content, fname, size⟩ :: rest)

def removeFiles : List NewFile → M PUnit
  | [] => pure ⟨⟩
  | file :: rest => do
    let _ ← fsutilRm file.name
    removeFiles rest

def rewriteFiles : List NewFile → M PUnit
  | [] => pure ⟨⟩
  | file :: rest => do
    let _ ← fsutilCreate file.name (file.size % 4294967296).toNat
    let _ ← fsutilWrite file.name file.content
    rewriteFiles rest

def defragment : M Int := do
  let dir ← dirOpenRoot
  let d ← getDir dir
  let fuel ← entriesOf d.inode
  let nFiles ← countFiles dir fuel
  dirClose dir
  if nFiles = 0 then pure 0
  else do
    let dir ← dirOpenRoot
    let files ← collectFiles dir nFiles
    dirClose dir
    removeFiles files
    rewriteFiles files
    pure 0

end Comp310.Fs
