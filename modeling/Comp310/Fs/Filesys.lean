import Comp310.Fs.Directory

/-! Opening, creating and removing files by path, formatting, mounting and
shutting down (filesys.c), and the table of open files (file.c). Every file made
here is a regular one: `fsutil_create` passes false for `is_dir`. -/

namespace Comp310.Fs
open Comp310.Lib

/-- The walk of `dir_open_path` along the tokens of the path. -/
def walkPath (curr : Addr) : List CString → M (Option Addr)
  | [] => pure (some curr)
  | token :: rest => do
    match ← dirLookup curr token with
    | none => do
      dirClose curr
      pure none
    | some inode => do
      let next ← dirOpen inode
      dirClose curr
      walkPath next rest

def dirOpenPath (path : CString) : M (Option Addr) := do
  let fs ← get
  let start ←
    if path.head? = some 47 then dirOpenRoot
    else match fs.cwd with
      | none => dirOpenRoot
      | some cwd => dirReopen cwd
  match ← walkPath start (tokens path) with
  | none => pure none
  | some curr => do
    let d ← getDir curr
    let inode ← getInode d.inode
    if inode.removed then do
      dirClose curr
      pure none
    else pure (some curr)

def filesysCreate (path : CString) (initialSize : Int) : M Bool := do
  let fileName := (splitPathFilename path).2
  let dir ← dirOpenRoot
  match ← freeMapAllocate 1 with
  | none => do
    dirClose dir
    pure false
  | some inodeSector => do
    let created ← inodeCreate inodeSector initialSize false
    let success ← if created then dirAdd dir fileName inodeSector else pure false
    if !success && inodeSector != 0 then freeMapRelease inodeSector 1 else pure ⟨⟩
    dirClose dir
    pure success

def filesysOpen (name : CString) : M (Option File) :=
  if name = [] then pure none
  else do
    let fileName := (splitPathFilename name).2
    let dir ← dirOpenRoot
    let found ← if fileName ≠ [] then do
        let inode ← dirLookup dir fileName
        dirClose dir
        pure inode
      else do
        let d ← getDir dir
        pure (some d.inode)
    match found with
    | none => pure none
    | some addr => do
      let inode ← getInode addr
      if inode.removed then pure none else pure (some (fileOpen addr))

def filesysRemove (name : CString) : M Bool := do
  let (directory, fileName) := splitPathFilename name
  match ← dirOpenPath directory with
  | none => pure false
  | some dir => do
    let success ← dirRemove dir fileName
    dirClose dir
    pure success

/-- MAX_FILES_IN_DIRECTORY. -/
def maxFilesInDirectory : Nat := 1000

def doFormat : M PUnit := do
  freeMapCreate
  let created ← dirCreate rootDirSector maxFilesInDirectory
  if created then freeMapClose else fault

/-- The state in which a process starts, up to and including `buffer_cache_init`. -/
def blankFileSystem (device : Array Block) (bounded : device.size < 2 ^ 32) : FileSystem where
  disk := Disk.mount device bounded
  freeMap := freeMapInit device.size
  freeMapFile := none
  openInodes := []
  dirs := []
  cwd := none
  fileTable := []
  nextAddr := 0
  panics := 0

/-- The state after `filesys_init`; `none` where it panics, or marks sectors
that the bitmap has no memory for. -/
def filesysInit (device : Array Block) (bounded : device.size < 2 ^ 32) (format : Bool) : Option FileSystem := do
  if device.size < 2 then none
  let mounted : M PUnit := do
    if format then doFormat else pure ⟨⟩
    freeMapOpen
    modify fun fs => { fs with fileTable := [] }
  let (_, fs) ← mounted (blankFileSystem device bounded)
  some fs

def getFileByFname (fname : CString) : M (Option File) := do
  let fs ← get
  pure (fs.fileTable.lookup fname)

def addToFileTable (file : File) (fname : CString) : M PUnit := do
  match ← getFileByFname fname with
  | some _ => pure ⟨⟩
  | none => modify fun fs => { fs with fileTable := fs.fileTable ++ [(fname, file)] }

def removeFromFileTable (fname : CString) : M Bool := do
  match ← getFileByFname fname with
  | none => pure false
  | some file => do
    fileClose file
    modify fun fs => { fs with fileTable := fs.fileTable.eraseP fun entry => entry.1 == fname }
    pure true

/-- A change of the file object that the table holds under a name. -/
def storeFile (fname : CString) (file : File) : M PUnit :=
  modify fun fs => { fs with
    fileTable := fs.fileTable.map fun entry => if entry.1 = fname then (fname, file) else entry }

def freeFileTable : List (CString × File) → M PUnit
  | [] => modify fun fs => { fs with fileTable := [] }
  | (_, file) :: rest => do
    fileClose file
    freeFileTable rest

/-- What `filesys_done` leaves on the device. -/
def filesysDone : M (Array Block) := do
  freeMapClose
  let fs ← get
  match fs.disk.close with
  | none => fault
  | some device => do
    freeFileTable fs.fileTable
    pure device

/-- The bytes read and the file, whose position has advanced past them. -/
def fileRead (file : File) (size : Int) : M (List UInt8 × File) := do
  let bytes ← inodeReadAt file.inode size file.pos
  pure (bytes, { file with pos := offsetT (file.pos + bytes.length) })

/-- The last byte of the buffer becomes a NUL, and the position stops two short
of the end of what was written. -/
def fileWrite (file : File) (buffer : List UInt8) : M (Int × File) := do
  let buffer := buffer.set (buffer.length - 1) 0
  let bytesWritten ← inodeWriteAt file.inode buffer file.pos
  pure (bytesWritten, { file with pos := offsetT (file.pos + (bytesWritten - 2)) })

def fileLength (file : File) : M Int := do
  let inode ← getInode file.inode
  pure inode.data.length

end Comp310.Fs
