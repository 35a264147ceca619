import Comp310.Lib.Assoc
import Comp310.Fs.Files
import Comp310.Fs.Fsutil

/-! The table of open files, and the commands of fsutil.c on one file. -/

namespace Comp310.Fs
open Comp310.Lib

/-- Every file in the table has its name, and its inode is open. -/
structure Table (fs : FileSystem) : Prop where
  keys : (fs.fileTable.map (·.1)).Nodup
  entry : ∀ name file, fs.fileTable.lookup name = some file → file.denyWrite = false ∧
    -2147483648 ≤ file.pos ∧ file.pos < 2147483648 ∧ ∃ sector, Named fs name sector ∧ OpenAt fs file.inode sector

/-- The file system between two commands, or within one that has the root directory open. -/
structure Running (fs : FileSystem) (state : Option (Addr × Dir)) (tidy : Prop := True) : Prop where
  volume : Volume fs tidy
  session : Session fs state
  table : Table fs

/-- The position of a name, 0 before its file is opened. -/
def posOf (fs : FileSystem) (name : CString) : Int := (fs.fileTable.lookup name).elim 0 (·.pos)

/-- The bytes of the file in a sector. -/
def contentOf (fs : FileSystem) (sector : Sector) : List UInt8 :=
  fileRange fs.disk.view (curData fs sector) 0 (curData fs sector).length.toNat

/-- Nothing has happened to the files but that one may have been opened, and a position may have moved. -/
structure Looked (fs fs' : FileSystem) (state : Option (Addr × Dir)) (name : CString) (tidy : Prop := True) : Prop where
  running : Running fs' state tidy
  store : SameStore fs fs'
  slots : slots fs' = slots fs
  data : ∀ sector, sector ≠ 1 → curData fs' sector = curData fs sector
  others : ∀ other, other ≠ name → fs'.fileTable.lookup other = fs.fileTable.lookup other
  opens : ∀ addr sector, sector ≠ 1 → OpenAt fs addr sector → OpenAt fs' addr sector

variable {fs middle fs' : FileSystem} {state : Option (Addr × Dir)} {name : CString} {sector : Sector} {file : File} {buffer : List UInt8}
  {written : Int} {tidy : Prop}

theorem Looked.named (looked : Looked fs fs' state name tidy) : Named fs' = Named fs := named_congr looked.slots

theorem Looked.posOf (looked : Looked fs fs' state name tidy) {other : CString} (differs : other ≠ name) : posOf fs' other = posOf fs other := by
  rw [Fs.posOf, looked.others other differs, Fs.posOf]

theorem Running.pos_range (running : Running fs state tidy) (name : CString) : -2147483648 ≤ posOf fs name ∧ posOf fs name < 2147483648 := by
  rw [posOf]
  cases found : fs.fileTable.lookup name with
  | none => exact ⟨by decide, by decide⟩
  | some file =>
    obtain ⟨_, low, high, _⟩ := running.table.entry name file found
    exact ⟨low, high⟩

theorem Running.not_opened (running : Running fs state tidy) (missing : ∀ sector, ¬ Named fs name sector) : fs.fileTable.lookup name = none := by
  cases found : fs.fileTable.lookup name with
  | none => rfl
  | some file =>
    obtain ⟨_, _, _, sector, named, _⟩ := running.table.entry name file found
    exact absurd named (missing sector)

theorem Running.posOf_missing (running : Running fs state tidy) (missing : ∀ sector, ¬ Named fs name sector) : posOf fs name = 0 := by
  rw [posOf, running.not_opened missing]
  rfl

theorem Alike.contentOf (alike : Alike fs fs' sector) : contentOf fs' sector = contentOf fs sector := by
  rw [Fs.contentOf, Fs.contentOf, alike.length]
  exact fileRange_congr fun i _ inside => alike.bytes i (by omega)

theorem Looked.alike (looked : Looked fs fs' state name tidy) (notRoot : sector ≠ 1) : Alike fs fs' sector :=
  looked.store.alike (looked.data sector notRoot)

theorem Looked.upToDate (looked : Looked fs fs' state name tidy) (notRoot : sector ≠ 1) (nonzero : sector ≠ 0) (before : UpToDate fs sector) :
    UpToDate fs' sector :=
  (looked.store.same (looked.data sector notRoot)).upToDate nonzero before

section Tables

theorem Table.congr (table : Table fs) (same : fs'.fileTable = fs.fileTable)
    (keep : ∀ name sector addr, (∃ file, fs.fileTable.lookup name = some file) → Named fs name sector → OpenAt fs addr sector →
      Named fs' name sector ∧ OpenAt fs' addr sector) : Table fs' := by
  refine ⟨by rw [same]; exact table.keys, fun name file found => ?_⟩
  rw [same] at found
  obtain ⟨writable, low, high, sector, named, opened⟩ := table.entry name file found
  exact ⟨writable, low, high, sector, keep name sector _ ⟨file, found⟩ named opened⟩

theorem Volume.withTable (volume : Volume fs tidy) (entries : List (CString × File)) :
    Volume { fs with fileTable := entries } tidy := by
  have objects : Objects (Live fs) { fs with fileTable := entries } tidy := volume.objects.congr ⟨rfl, rfl, rfl, rfl⟩ rfl (Nat.le_refl _)
  have same : Fs.slots { fs with fileTable := entries } = Fs.slots fs := rfl
  exact ⟨by rw [live_congr same]; exact objects, volume.root.congr same rfl fun _ _ _ => rfl⟩

theorem Session.withTable (session : Session fs state) (entries : List (CString × File)) : Session { fs with fileTable := entries } state := by
  cases state with
  | none => exact session
  | some pair => exact session

theorem Running.withTable (running : Running fs state tidy) (name : CString) (entries : List (CString × File)) (keys : (entries.map (·.1)).Nodup)
    (others : ∀ other, other ≠ name → ∀ file, entries.lookup other = some file → fs.fileTable.lookup other = some file)
    (mine : ∀ file, entries.lookup name = some file → file.denyWrite = false ∧ -2147483648 ≤ file.pos ∧ file.pos < 2147483648 ∧
      ∃ sector, Named fs name sector ∧ OpenAt fs file.inode sector) : Running { fs with fileTable := entries } state tidy := by
  refine ⟨running.volume.withTable entries, running.session.withTable entries, keys, fun other file found => ?_⟩
  by_cases same : other = name
  · subst same
    exact mine file found
  · exact running.table.entry other file (others other same file found)

end Tables

section Opening

theorem Calm.looked {before : Option (Addr × Dir)} (calm : Calm fs fs' tidy) (running : Running fs before tidy) (session : Session fs' state) :
    Looked fs fs' state name tidy := by
  have names := named_congr calm.steady.slots
  refine ⟨⟨calm.steady.volume, session, running.table.congr calm.steady.keeps.fileTable fun name sector addr _ named opened =>
    ⟨names ▸ named, calm.steady.keeps.opens addr sector (running.volume.root.plain name sector named).2.2.2 id opened⟩⟩,
    calm.store, calm.steady.slots, calm.data, fun _ _ => by rw [calm.steady.keeps.fileTable],
    fun addr sector notRoot opened => calm.steady.keeps.opens addr sector notRoot id opened⟩

/-- The file of a name: from the table, or opened and added to it. -/
theorem openByFname_wp (running : Running fs state tidy) (plain : PlainName name) :
    Wp (openByFname name) (fun found fs' => Looked fs fs' state name tidy ∧
      (found = none → (∀ sector, ¬ Named fs name sector) ∧ fs'.fileTable = fs.fileTable) ∧
      ∀ file, found = some file → fs'.fileTable.lookup name = some file ∧ file.pos = posOf fs name) fs := by
  have here : Looked fs fs state name tidy := ⟨running, .refl, rfl, fun _ _ => rfl, fun _ _ => rfl, fun _ _ _ => id⟩
  rw [openByFname, getFileByFname]
  simp only [wp_bind, wp_get, wp_pure]
  cases found : fs.fileTable.lookup name with
  | some file =>
    refine (wp_pure _).mpr ⟨here, fun none => absurd none (Option.some_ne_none _), fun file' same => ?_⟩
    cases same
    exact ⟨found, by rw [posOf, found]; rfl⟩
  | none =>
    dsimp only
    rw [wp_bind]
    refine (filesysOpen_wp running.volume running.session plain).mono fun result fs₁ outcome => ?_
    obtain ⟨calm, session, absent, present⟩ := outcome
    have looked : Looked fs fs₁ state name tidy := calm.looked running session
    have table := calm.steady.keeps.fileTable
    cases result with
    | none => exact (wp_pure _).mpr ⟨looked, fun _ => ⟨absent rfl, table⟩, fun file some => absurd some.symm (Option.some_ne_none _)⟩
    | some file =>
      obtain ⟨start, sector, named, opened⟩ := present file rfl
      have missing : fs₁.fileTable.lookup name = none := by rw [table, found]
      dsimp only
      simp only [addToFileTable, getFileByFname, wp_bind, wp_get, wp_pure, missing, wp_modify]
      have lookups (other : CString) : (fs₁.fileTable ++ [(name, file)]).lookup other =
          if other = name then some file else fs₁.fileTable.lookup other := lookup_add missing
      have names := looked.named
      refine ⟨⟨looked.running.withTable name _ (keys_add looked.running.table.keys missing) (fun other differs file' found' => ?_)
        fun file' found' => ?_, ⟨looked.store.disk, looked.store.freeMap, looked.store.freeMapFile, looked.store.panics⟩,
        looked.slots, looked.data, fun other differs => ?_, looked.opens⟩, fun none => absurd none (Option.some_ne_none _), fun file' same => ?_⟩
      · rwa [lookups, if_neg differs] at found'
      · rw [lookups, if_pos rfl] at found'
        cases found'
        rw [start]
        exact ⟨rfl, (by decide : (-2147483648 : Int) ≤ 0), (by decide : (0 : Int) < 2147483648), sector, names ▸ named, opened⟩
      · dsimp only
        rw [lookups, if_neg differs, table]
      · cases same
        refine ⟨by rw [lookups, if_pos rfl], ?_⟩
        rw [start, posOf, found]
        rfl

/-- The file object of a name in the table replaced by one with another position. -/
theorem storeFile_wp (running : Running fs state tidy) (found : fs.fileTable.lookup name = some file) {pos : Int}
    (low : -2147483648 ≤ pos) (high : pos < 2147483648) :
    Wp (storeFile name { file with pos }) (fun _ fs' => Looked fs fs' state name tidy ∧ posOf fs' name = pos ∧
      fs'.disk = fs.disk ∧ fs'.openInodes = fs.openInodes) fs := by
  obtain ⟨writable, _, _, sector, named, opened⟩ := running.table.entry name file found
  rw [storeFile, wp_modify]
  have lookups (other : CString) : (fs.fileTable.map fun entry => if entry.1 = name then (name, { file with pos }) else entry).lookup other =
      if other = name then (fs.fileTable.lookup name).map fun _ => { file with pos } else fs.fileTable.lookup other := lookup_store
  refine ⟨⟨running.withTable name _ (by rw [keys_store]; exact running.table.keys) (fun other differs file' found' => ?_) fun file' found' => ?_,
    ⟨rfl, rfl, rfl, rfl⟩, rfl, fun _ _ => rfl, fun other differs => ?_, fun _ _ _ => id⟩, ?_, rfl, rfl⟩
  · rwa [lookups, if_neg differs] at found'
  · rw [lookups, if_pos rfl, found] at found'
    cases found'
    exact ⟨writable, low, high, sector, named, opened⟩
  · dsimp only
    rw [lookups, if_neg differs]
  · rw [posOf, lookups, if_pos rfl, found]
    rfl

theorem Looked.trans (first : Looked fs middle state name tidy) (second : Looked middle fs' state name tidy) : Looked fs fs' state name tidy :=
  ⟨second.running, first.store.trans second.store, second.slots.trans first.slots,
    fun sector other => (second.data sector other).trans (first.data sector other),
    fun other differs => (second.others other differs).trans (first.others other differs),
    fun addr sector notRoot opened => second.opens addr sector notRoot (first.opens addr sector notRoot opened)⟩

end Opening

section Commands

/-- The sector of a name and its file, once the command has found it. -/
theorem Looked.home (looked : Looked fs middle state name tidy) (found : middle.fileTable.lookup name = some file) :
    ∃ sector, Named fs name sector ∧ OpenAt middle file.inode sector ∧ sector ≠ 0 ∧ sector ≠ 1 := by
  obtain ⟨_, _, _, sector, named, opened⟩ := looked.running.table.entry name file found
  obtain ⟨_, _, nonzero, notRoot⟩ := looked.running.volume.root.plain name sector named
  exact ⟨sector, looked.named ▸ named, opened, nonzero, notRoot⟩

theorem OpenAt.found (opened : OpenAt middle file.inode sector) (running : Running middle state tidy) :
    ∃ inode, middle.inode? file.inode = some inode ∧ inode.data = curData middle sector ∧ Readable middle inode.data := by
  obtain ⟨inode, member, rfl⟩ := opened
  have blocks := running.volume.objects.blocks
  have was := blocks.handles.curData member
  exact ⟨inode, blocks.handles.inode? member, was.symm, was ▸ blocks.readable (blocks.opens _ member)⟩

theorem fsutilSize_wp (running : Running fs state tidy) (plain : PlainName name) :
    Wp (fsutilSize name) (fun size fs' => Looked fs fs' state name tidy ∧ posOf fs' name = posOf fs name ∧
      ((size = -1 ∧ (∀ sector, ¬ Named fs name sector) ∧ fs'.fileTable = fs.fileTable) ∨
        ∃ sector, Named fs name sector ∧ size = (curData fs sector).length ∧ ∃ file, fs'.fileTable.lookup name = some file)) fs := by
  rw [fsutilSize, wp_bind]
  refine (openByFname_wp running plain).mono fun result fs₁ ⟨looked, absent, present⟩ => ?_
  cases result with
  | none =>
    obtain ⟨missing, same⟩ := absent rfl
    exact (wp_pure _).mpr ⟨looked, by rw [posOf, same, posOf], .inl ⟨rfl, missing, same⟩⟩
  | some file =>
    obtain ⟨found, pos⟩ := present file rfl
    obtain ⟨sector, named, opened, _, notRoot⟩ := looked.home found
    obtain ⟨inode, here, data, _⟩ := opened.found looked.running
    dsimp only
    rw [fileLength, wp_bind]
    refine Wp.of_eq (getInode_eq here) ((wp_pure _).mpr ⟨looked, by rw [posOf, found, ← pos]; rfl, .inr ⟨sector, named, ?_, file, found⟩⟩)
    rw [data, looked.data sector notRoot]

theorem fsutilSize_there (running : Running fs state tidy) (plain : PlainName name) (named : Named fs name sector) :
    Wp (fsutilSize name) (fun size fs' => Looked fs fs' state name tidy ∧ posOf fs' name = posOf fs name ∧ size = (curData fs sector).length) fs := by
  refine (fsutilSize_wp running plain).mono fun size fs' ended => ?_
  obtain ⟨looked, pos, ⟨_, absent, _⟩ | ⟨there, named', size, _⟩⟩ := ended
  · exact absurd named (absent sector)
  · obtain rfl := running.volume.root.functional named named'
    exact ⟨looked, pos, size⟩

theorem fsutilSeek_wp (running : Running fs state) (plain : PlainName name) {offset : Int} (low : -2147483648 ≤ offset)
    (high : offset < 2147483648) :
    Wp (fsutilSeek name offset) (fun result fs' => Looked fs fs' state name ∧
      ((result = -1 ∧ (∀ sector, ¬ Named fs name sector) ∧ fs'.fileTable = fs.fileTable) ∨
        result = 0 ∧ (∃ sector, Named fs name sector) ∧ posOf fs' name = offset)) fs := by
  rw [fsutilSeek, wp_bind]
  refine (openByFname_wp running plain).mono fun result fs₁ ⟨looked, absent, present⟩ => ?_
  cases result with
  | none => exact (wp_pure _).mpr ⟨looked, .inl ⟨rfl, (absent rfl).1, (absent rfl).2⟩⟩
  | some file =>
    obtain ⟨found, _⟩ := present file rfl
    obtain ⟨sector, named, _⟩ := looked.home found
    dsimp only
    rw [wp_bind]
    exact (storeFile_wp looked.running found low high).mono fun _ fs₂ ⟨moved, pos, _⟩ =>
      (wp_pure _).mpr ⟨looked.trans moved, .inr ⟨rfl, ⟨sector, named⟩, pos⟩⟩

/-- What is read at a position of a file: the bytes that are there, and no more than asked for. -/
def available (content : List UInt8) (pos : Nat) (size : Int) : List UInt8 := (content.drop pos).take size.toNat

theorem available_contentOf (sector : Sector) (pos size : Nat) :
    fileRange fs.disk.view (curData fs sector) pos (min size ((curData fs sector).length.toNat - pos)) =
      available (contentOf fs sector) pos size := by
  apply List.ext_getElem
  · simp [available, contentOf]
  · intro i inside inside'
    simp [available, contentOf, fileRange]

theorem OpenAt.read (opened : OpenAt middle file.inode sector) (running : Running middle state) (nonneg : 0 ≤ file.pos) (size : Int) :
    inodeReadAt file.inode size file.pos middle = some (available (contentOf middle sector) file.pos.toNat size, middle) := by
  obtain ⟨inode, here, data, readable⟩ := opened.found running
  have pos : file.pos = (file.pos.toNat : Int) := by omega
  by_cases negative : size < 0
  · have none : size.toNat = 0 := by omega
    rw [inodeReadAt, run_bind (getInode_eq here), available, none, List.take_zero, readLoop, if_neg (by omega)]
    rfl
  · have read := inodeReadAt_eq here readable size.toNat file.pos.toNat
    rw [← pos, show (size.toNat : Int) = size by omega, data, available_contentOf, show (size.toNat : Int) = size by omega] at read
    exact read

/-- A name that is looked up and found in the middle of a command. -/
theorem Looked.content (looked : Looked fs middle state name tidy) (notRoot : sector ≠ 1) :
    contentOf middle sector = contentOf fs sector :=
  (looked.alike notRoot).contentOf

theorem contentOf_length (running : Running fs state tidy) (live : Live fs sector) :
    ((contentOf fs sector).length : Int) = (curData fs sector).length ∧ (curData fs sector).length ≤ 8517120 := by
  have sound := running.volume.objects.blocks.sound sector live
  have nonneg := sound.nonneg
  rw [contentOf, fileRange_length]
  exact ⟨by omega, sound.limit⟩

theorem contentOf_getD (running : Running fs state) (live : Live fs sector) (nonzero : sector ≠ 0) (i : Nat) (small : i < 8517120) :
    (contentOf fs sector).getD i 0 = fileByte fs.disk.view (curData fs sector) i := by
  have length := (contentOf_length running live).1
  rw [List.getD_eq_getElem?_getD]
  by_cases inside : i < (contentOf fs sector).length
  · rw [List.getElem?_eq_getElem inside]
    simp [contentOf, fileRange]
  · rw [List.getElem?_eq_none (by omega)]
    exact (running.volume.objects.blank sector live nonzero i small (by omega)).symm

theorem fsutilRead_wp (running : Running fs state) (plain : PlainName name) (nonneg : 0 ≤ posOf fs name) (size : Nat) :
    Wp (fsutilRead name size) (fun result fs' => Looked fs fs' state name ∧
      ((result = (-1, []) ∧ (∀ sector, ¬ Named fs name sector) ∧ fs'.fileTable = fs.fileTable) ∨
        ∃ sector bytes, Named fs name sector ∧ bytes = available (contentOf fs sector) (posOf fs name).toNat (offsetT size) ∧
          result = ((bytes.length : Int), bytes) ∧ posOf fs' name = posOf fs name + bytes.length)) fs := by
  rw [fsutilRead, wp_bind]
  refine (openByFname_wp running plain).mono fun result fs₁ ⟨looked, absent, present⟩ => ?_
  cases result with
  | none => exact (wp_pure _).mpr ⟨looked, .inl ⟨rfl, (absent rfl).1, (absent rfl).2⟩⟩
  | some file =>
    obtain ⟨found, pos⟩ := present file rfl
    obtain ⟨sector, named, opened, _, notRoot⟩ := looked.home found
    have read := opened.read looked.running (by rw [pos]; exact nonneg) (offsetT size)
    rw [looked.content notRoot, pos] at read
    generalize bytes_eq : available (contentOf fs sector) (posOf fs name).toNat (offsetT size) = bytes at read
    obtain ⟨length, limit⟩ := contentOf_length running named.live
    have count : bytes.length ≤ (contentOf fs sector).length - (posOf fs name).toNat := by
      rw [← bytes_eq, available, List.length_take, List.length_drop]
      exact Nat.min_le_right _ _
    have high := (running.pos_range name).2
    have advanced : offsetT (posOf fs name + bytes.length) = posOf fs name + bytes.length := offsetT_eq (by omega) (by omega)
    dsimp only
    rw [fileRead, wp_bind, wp_bind, pos]
    refine Wp.of_eq read ?_
    rw [wp_pure]
    dsimp only
    rw [wp_bind, advanced]
    exact (storeFile_wp looked.running found (by omega) (by omega)).mono fun _ fs₂ ⟨moved, pos', _⟩ =>
      (wp_pure _).mpr ⟨looked.trans moved, .inr ⟨sector, bytes, named, bytes_eq.symm, rfl, pos'⟩⟩

/-- A read before the start of a file has no result, unless nothing is read. -/
theorem fsutilRead_negative (running : Running fs state) (plain : PlainName name) (negative : posOf fs name < 0) {size : Nat}
    {bytes : List UInt8} (ran : fsutilRead name size fs = some ((written, bytes), fs')) :
    Looked fs fs' state name ∧ posOf fs' name = posOf fs name := by
  obtain ⟨result, fs₁, ran₁, looked, absent, present⟩ := openByFname_wp running plain
  rw [fsutilRead, run_bind ran₁] at ran
  cases result with
  | none =>
    cases ran
    exact ⟨looked, by rw [posOf, (absent rfl).2, posOf]⟩
  | some file =>
    obtain ⟨found, pos⟩ := present file rfl
    obtain ⟨sector, named, ⟨inode, member, home⟩, _, notRoot⟩ := looked.home found
    dsimp only at ran
    cases read : inodeReadAt file.inode (offsetT size) file.pos fs₁ with
    | none =>
      have stuck : fileRead file (offsetT size) fs₁ = none := run_bind_fault read _
      rw [run_bind_fault stuck] at ran
      cases ran
    | some result =>
      obtain ⟨read_bytes, fs₂⟩ := result
      obtain ⟨nothing, same⟩ := inodeReadAt_negative looked.running.volume.objects.blocks member (by rw [pos]; exact negative) read
      rw [nothing, same] at read
      have range := running.pos_range name
      have still : fileRead file (offsetT size) fs₁ = some (([], { file with pos := posOf fs name }), fs₁) := by
        rw [fileRead, run_bind read, List.length_nil, show file.pos + ((0 : Nat) : Int) = posOf fs name by rw [pos]; omega,
          offsetT_eq range.1 range.2]
        rfl
      rw [run_bind still] at ran
      obtain ⟨_, fs₃, ran₃, moved, pos', _⟩ := storeFile_wp looked.running found range.1 range.2
      rw [run_bind ran₃] at ran
      cases ran
      exact ⟨looked.trans moved, pos'⟩

end Commands

end Comp310.Fs
