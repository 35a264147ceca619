import Comp310.Fs.FreeMap

/-! Directories (directory.c). Entry 0 of a directory names its parent and is
passed over by every search. The model has no subdirectories: `dir_add` is the
one that `fsutil_create` reaches, with `is_dir` false. -/

namespace Comp310.Fs
open Comp310.Lib

/-- `struct dir_entry`. -/
structure DirEntry where
  inodeSector : Sector
  name : Vector UInt8 31
  inUse : Bool

namespace DirEntry

/-- The name up to its NUL. -/
def fname (e : DirEntry) : CString := e.name.toList.takeWhile (· != 0)

def bytes (e : DirEntry) : List UInt8 :=
  [wordByte e.inodeSector 0, wordByte e.inodeSector 1, wordByte e.inodeSector 2, wordByte e.inodeSector 3] ++
    e.name.toList ++ [if e.inUse then 1 else 0]

def ofBytes (bytes : List UInt8) : DirEntry where
  inodeSector := joinBytes (bytes.getD 0 0) (bytes.getD 1 0) (bytes.getD 2 0) (bytes.getD 3 0)
  name := Vector.ofFn fun index => bytes.getD (4 + index) 0
  inUse := bytes.getD 35 0 != 0

end DirEntry

/-- `strncpy` into the name of an entry. -/
def strncpy (name : CString) : Vector UInt8 31 := Vector.ofFn fun index => name.getD index 0

/-- The tokens that `strtok_r` finds between slashes. -/
def tokens (path : CString) : List CString := (path.splitOn 47).filter (· ≠ [])

/-- The directory part and the file name, the last token. -/
def splitPathFilename (path : CString) : CString × CString :=
  let absolute : CString := if path.head? = some 47 then [47] else []
  (absolute ++ (tokens path).dropLast.flatMap (· ++ [47]), (tokens path).getLast?.getD [])

def dirOpen (inode : Addr) : M Addr := do
  let addr ← newAddr
  modify fun fs => { fs with dirs := (addr, ⟨inode, 36, 1⟩) :: fs.dirs }
  pure addr

def dirOpenRoot : M Addr := do
  let fs ← get
  match fs.cwd with
  | none => do
    let inode ← inodeOpen rootDirSector
    let dir ← dirOpen inode
    modify fun fs => { fs with cwd := some dir }
    pure dir
  | some dir => do
    let _ ← getDir dir
    modifyDir dir fun d => { d with openCnt := d.openCnt + 1 }
    pure dir

def dirReopen (dir : Addr) : M Addr := do
  let d ← getDir dir
  dirOpen d.inode

def dirClose (dir : Addr) : M PUnit := do
  let d ← getDir dir
  if d.openCnt - 1 = 0 then do
    inodeClose d.inode
    modify fun fs => { fs with dirs := fs.dirs.filter fun entry => entry.1 != dir, cwd := none }
  else modifyDir dir fun d => { d with openCnt := d.openCnt - 1 }

/-- One unit of fuel for each entry that can be read in full. -/
def entriesOf (inode : Addr) : M Nat := do
  let inode ← getInode inode
  pure (inode.data.length.toNat / 36 + 1)

def lookupLoop (inode : Addr) (name : CString) : Nat → Int → M (Option (DirEntry × Int))
  | 0, _ => fault
  | fuel + 1, ofs => do
    let bytes ← inodeReadAt inode 36 ofs
    if bytes.length = 36 then
      let e := DirEntry.ofBytes bytes
      if e.inUse && name == e.fname then pure (some (e, ofs))
      else lookupLoop inode name fuel (ofs + 36)
    else pure none

def lookup (dir : Addr) (name : CString) : M (Option (DirEntry × Int)) := do
  let d ← getDir dir
  let fuel ← entriesOf d.inode
  lookupLoop d.inode name fuel 36

def emptyLoop (inode : Addr) : Nat → Int → M Bool
  | 0, _ => fault
  | fuel + 1, ofs => do
    let bytes ← inodeReadAt inode 36 ofs
    if bytes.length = 36 then
      if (DirEntry.ofBytes bytes).inUse then pure false else emptyLoop inode fuel (ofs + 36)
    else pure true

def dirIsEmpty (dir : Addr) : M Bool := do
  let d ← getDir dir
  let fuel ← entriesOf d.inode
  emptyLoop d.inode fuel 36

def dirLookup (dir : Addr) (name : CString) : M (Option Addr) := do
  let d ← getDir dir
  if name = [46] then pure (some d.inode)
  else if name = [46, 46] then do
    let bytes ← inodeReadAt d.inode 36 0
    let inode ← inodeOpen (DirEntry.ofBytes bytes).inodeSector
    pure (some inode)
  else do
    match ← lookup dir name with
    | some (e, _) => do
      let inode ← inodeOpen e.inodeSector
      pure (some inode)
    | none => pure none

/-- The offset of the first free slot, or the end of the directory. -/
def freeSlotLoop (inode : Addr) : Nat → Int → M Int
  | 0, _ => fault
  | fuel + 1, ofs => do
    let bytes ← inodeReadAt inode 36 ofs
    if bytes.length = 36 then
      if (DirEntry.ofBytes bytes).inUse then freeSlotLoop inode fuel (ofs + 36) else pure ofs
    else pure ofs

def dirAdd (dir : Addr) (name : CString) (inodeSector : Sector) : M Bool := do
  let d ← getDir dir
  if name = [] ∨ 30 < name.length then pure false
  else do
    match ← lookup dir name with
    | some _ => pure false
    | none => do
      let fuel ← entriesOf d.inode
      let ofs ← freeSlotLoop d.inode fuel 0
      let e : DirEntry := ⟨inodeSector, strncpy name, true⟩
      let written ← inodeWriteAt d.inode e.bytes ofs
      pure (written == 36)

/-- A directory is only removed when it is empty, and its inode is closed on the way. -/
def dirRemove (dir : Addr) (name : CString) : M Bool := do
  match ← lookup dir name with
  | none => pure false
  | some (e, ofs) => do
    let d ← getDir dir
    let inode ← inodeOpen e.inodeSector
    let opened ← getInode inode
    let removable ← if opened.data.inodeIsDirectory then do
        let target ← dirOpen inode
        let isEmpty ← dirIsEmpty target
        dirClose target
        pure isEmpty
      else pure true
    if removable then do
      let written ← inodeWriteAt d.inode { e with inUse := false }.bytes ofs
      if written = 36 then do
        inodeRemove inode
        inodeClose inode
        pure true
      else do
        inodeClose inode
        pure false
    else do
      inodeClose inode
      pure false

/-- The name of the next entry in use, from the position of the directory on. -/
def readdirLoop (dir : Addr) : Nat → M (Option CString)
  | 0 => fault
  | fuel + 1 => do
    let d ← getDir dir
    let bytes ← inodeReadAt d.inode 36 d.pos
    if bytes.length = 36 then do
      modifyDir dir fun d => { d with pos := d.pos + 36 }
      let e := DirEntry.ofBytes bytes
      if e.inUse then pure (some e.fname) else readdirLoop dir fuel
    else pure none

def dirReaddir (dir : Addr) : M (Option CString) := do
  let d ← getDir dir
  let fuel ← entriesOf d.inode
  readdirLoop dir fuel

def dirCreate (sector : Sector) (entryCnt : Nat) : M Bool := do
  let created ← inodeCreate sector (offsetT (entryCnt * 36)) true
  if created then do
    let inode ← inodeOpen sector
    let dir ← dirOpen inode
    let e : DirEntry := ⟨sector, Vector.replicate 31 0, true⟩
    let written ← inodeWriteAt inode e.bytes 0
    dirClose dir
    pure (written == 36)
  else pure false

end Comp310.Fs
