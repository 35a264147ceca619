import Comp310.Lib.Bytes
import Comp310.Fs.Table

/-! Creating, writing and removing a file by the commands of fsutil.c. -/

namespace Comp310.Fs
open Comp310.Lib

/-- What a write by name leaves, in full or after it has failed. -/
structure Written (fs fs' : FileSystem) (state : Option (Addr × Dir)) (name : CString) (sector : Sector) (start : Nat)
    (buffer : List UInt8) (ok : Bool) : Prop where
  running : Running fs' state
  named : Named fs name sector
  freeMapFile : fs'.freeMapFile = fs.freeMapFile
  slots : slots fs' = slots fs
  others : ∀ other, other ≠ name → fs'.fileTable.lookup other = fs.fileTable.lookup other
  files : ∀ other, Live fs other → other ≠ 0 → other ≠ 1 → other ≠ sector → Alike fs fs' other
  length : (curData fs' sector).length =
    if ok then max (curData fs sector).length ((start + buffer.length : Nat) : Int) else (curData fs sector).length
  bytes : ∀ i < 8517120, fileByte fs'.disk.view (curData fs' sector) i =
    if ok = true ∧ start ≤ i ∧ i < start + buffer.length then buffer.getD (i - start) 0
    else fileByte fs.disk.view (curData fs sector) i
  mono : ∀ other, Used fs other → Used fs' other
  size : fs'.freeMap.length = fs.freeMap.length
  count : freeCount fs' = freeCount fs - (shortOf fs (curData fs sector) (start + buffer.length : Nat)).length
  mapInode : ok = true → fs'.disk.view 0 = fs.disk.view 0
  unspoiled : (shortOf fs (curData fs sector) (start + buffer.length : Nat))[freeCount fs]? ≠ some true →
    fs'.disk.view 0 = fs.disk.view 0
  grows : Grows 0 (Used fs) (Used fs') (blockAt fs.disk.view (curData fs sector)) (blockAt fs'.disk.view (curData fs' sector))
  tight : ok = true → ∀ p, ¬ p.first < bytesToSectors (start + buffer.length : Nat) →
    blockAt fs.disk.view (curData fs sector) p = 0 → blockAt fs'.disk.view (curData fs' sector) p = 0
  map : curData fs' 0 = curData fs 0
  mine : UpToDate fs sector → (UpToDate fs' sector ↔ ok = true ∨
    ¬ PointsAnew (freeCount fs) (blockAt fs.disk.view (curData fs sector)) (bytesToSectors (start + buffer.length : Nat)))
  upToDate : ∀ other, Live fs other → other ≠ 0 → other ≠ 1 → other ≠ sector → UpToDate fs other → UpToDate fs' other

/-- What removing a file by name leaves. -/
structure Unlinked (fs fs' : FileSystem) (name : CString) (sector : Sector) : Prop where
  running : Running fs' none
  named : Named fs name sector
  freeMapFile : fs'.freeMapFile = fs.freeMapFile
  names : ∀ other there, Named fs' other there ↔ Named fs other there ∧ other ≠ name
  files : ∀ other, Live fs other → other ≠ 0 → other ≠ 1 → other ≠ sector → Alike fs fs' other
  others : ∀ other, other ≠ name → fs'.fileTable.lookup other = fs.fileTable.lookup other
  gone : fs'.fileTable.lookup name = none
  mapInode : fs'.disk.view 0 = fs.disk.view 0
  length : (curData fs' 1).length = (curData fs 1).length
  count : freeCount fs' = freeCount fs + 1 + sectorsNeeded (bytesToSectors (curData fs sector).length)
  mono : ∀ other, Used fs other → (∀ place, Filled fs (sector, place) → claim fs (sector, place) ≠ other) → Used fs' other
  size : fs'.freeMap.length = fs.freeMap.length
  map : curData fs' 0 = curData fs 0
  upToDate : ∀ other, Live fs other → other ≠ 0 → other ≠ 1 → other ≠ sector → UpToDate fs other → UpToDate fs' other

variable {fs middle after fs' : FileSystem} {state : Option (Addr × Dir)} {name : CString} {sector : Sector} {file : File}
  {buffer : List UInt8} {written : Int} {start : Nat} {ok : Bool}

theorem SameStore.shortOf (store : SameStore fs fs') (data : InodeDisk) (size : Int) : shortOf fs' data size = shortOf fs data size := by
  rw [Fs.shortOf, store.disk, Fs.shortOf]

theorem SameStore.freeCount (store : SameStore fs fs') : freeCount fs' = freeCount fs := by
  rw [Fs.freeCount, store.freeMap, Fs.freeCount]

section Write

private theorem stored_wp (looked : Looked fs middle state name) (found : middle.fileTable.lookup name = some file)
    (named : Named fs name sector) (wrote : FileWritten middle after sector start buffer ok) {pos : Int}
    (low : -2147483648 ≤ pos) (high : pos < 2147483648) :
    Wp (storeFile name { file with pos }) (fun _ fs' => Written fs fs' state name sector start buffer ok ∧ posOf fs' name = pos) after := by
  have running := looked.running
  have named' : Named middle name sector := looked.named ▸ named
  have notRoot := (running.volume.root.plain name sector named').2.2.2
  have running' : Running after state := ⟨wrote.volume, wrote.session running.session,
    running.table.congr wrote.keeps.fileTable fun other there addr _ named opened => ⟨wrote.named ▸ named, (wrote.opens addr there).mpr opened⟩⟩
  refine (storeFile_wp running' (wrote.keeps.fileTable ▸ found) low high).mono fun _ fs' ⟨moved, pos', disk, _⟩ => ⟨?_, pos'⟩
  have before := looked.data sector notRoot
  have later := moved.data sector notRoot
  have live := live_congr looked.slots
  refine ⟨moved.running, named, ?_, moved.slots.trans (wrote.slots.trans looked.slots), fun other differs => ?_,
    fun other there nonzero other' differs => ?_, ?_, fun i small => ?_, fun other used => ?_, ?_, ?_, fun done => ?_,
    fun enough => ?_, ?_, fun done p idle absent => ?_, ?_, fun current => ?_, fun other there nonzero other' differs current => ?_⟩
  · rw [moved.store.freeMapFile, wrote.keeps.freeMapFile, looked.store.freeMapFile]
  · rw [moved.others other differs, wrote.keeps.fileTable, looked.others other differs]
  · exact (looked.alike other').trans ((wrote.keeps.files other (live ▸ there) nonzero other' differs).trans (moved.alike other'))
  · rw [later, wrote.length, before]
  · rw [disk, later, wrote.bytes i small, before, looked.store.disk]
  · rw [moved.store.used]
    exact wrote.mono other (looked.store.used ▸ used)
  · rw [moved.store.freeMap, wrote.size, looked.store.freeMap]
  · rw [moved.store.freeCount, wrote.count, looked.store.freeCount, before, looked.store.shortOf]
  · rw [disk, wrote.mapInode done, looked.store.disk]
  · rw [disk, wrote.unspoiled (by rwa [before, looked.store.shortOf, looked.store.freeCount]), looked.store.disk]
  · rw [← looked.store.used, moved.store.used, disk, later, ← looked.store.disk, ← before]
    exact wrote.grows
  · rw [disk, later]
    rw [← looked.store.disk, ← before] at absent
    exact wrote.tight done p idle absent
  · rw [moved.data 0 (by decide), wrote.keeps.map, looked.data 0 (by decide)]
  · have nonzero := (running.volume.root.plain name sector named').2.2.1
    have after := wrote.upToDate (looked.upToDate notRoot nonzero current)
    rw [looked.store.freeCount, looked.store.disk, before] at after
    rwa [UpToDate, disk, later]
  · exact moved.upToDate other' nonzero (wrote.keeps.upToDate other (live ▸ there) nonzero other' differs
      (looked.upToDate other' nonzero current))

theorem Written.contentOf (written : Written fs fs' state name sector start buffer true) (running : Running fs state)
    (positive : 0 < buffer.length) : contentOf fs' sector = overwrite (contentOf fs sector) start buffer := by
  have named' : Named fs' name sector := named_congr written.slots ▸ written.named
  obtain ⟨_, _, nonzero, _⟩ := running.volume.root.plain name sector written.named
  obtain ⟨length, _⟩ := contentOf_length running written.named.live
  obtain ⟨length', limit'⟩ := contentOf_length written.running named'.live
  have grown := written.length
  rw [if_pos rfl] at grown
  apply bytes_ext
  · rw [overwrite_length positive]
    omega
  · intro i inside
    have small : i < 8517120 := by omega
    rw [contentOf_getD written.running named'.live nonzero i small, written.bytes i small, overwrite_getD,
      contentOf_getD running written.named.live nonzero i small]
    simp only [true_and]

theorem Written.unchanged (written : Written fs fs' state name sector start buffer false) (running : Running fs state) :
    Alike fs fs' sector := by
  have length := written.length
  rw [if_neg (by decide)] at length
  have named' : Named fs' name sector := named_congr written.slots ▸ written.named
  have limit := (contentOf_length running written.named.live).2
  refine ⟨length, ?_, fun i inside => ?_⟩
  · rw [written.running.volume.root.regular name sector named', running.volume.root.regular name sector written.named]
  · rw [written.bytes i (by omega), if_neg (by simp)]

/-- The buffer that `file_write` makes of another. -/
def terminated (buffer : List UInt8) : List UInt8 := buffer.set (buffer.length - 1) 0

@[simp] theorem terminated_length : (terminated buffer).length = buffer.length := by simp [terminated]

theorem fsutilWrite_wp (running : Running fs state) (plain : PlainName name) (positive : 0 < buffer.length)
    (nonneg : 0 ≤ posOf fs name) (bound : posOf fs name + buffer.length < 2147483648) :
    Wp (fsutilWrite name buffer) (fun written fs' =>
      (written = -1 ∧ (∀ sector, ¬ Named fs name sector) ∧ fs'.fileTable = fs.fileTable ∧ Looked fs fs' state name) ∨
      ∃ sector ok, (ok = true ↔ Fits fs (curData fs sector) (posOf fs name + buffer.length)) ∧
        written = (if ok then (buffer.length : Int) else 0) ∧
        Written fs fs' state name sector (posOf fs name).toNat (terminated buffer) ok ∧
        posOf fs' name = offsetT (posOf fs name + (written - 2))) fs := by
  rw [fsutilWrite, wp_bind]
  refine (openByFname_wp running plain).mono fun result fs₁ ⟨looked, absent, present⟩ => ?_
  cases result with
  | none => exact (wp_pure _).mpr (.inl ⟨rfl, (absent rfl).1, (absent rfl).2, looked⟩)
  | some file =>
    obtain ⟨found, pos⟩ := present file rfl
    obtain ⟨sector, named, opened, _, notRoot⟩ := looked.home found
    have place : posOf fs name = ((posOf fs name).toNat : Int) := by omega
    have total : (((posOf fs name).toNat + buffer.length : Nat) : Int) = posOf fs name + buffer.length := by omega
    have bound' : (posOf fs name).toNat + (terminated buffer).length < 2147483648 := by
      rw [terminated_length]
      omega
    have write := writeFile_wp looked.running.volume (looked.named ▸ named) opened
      (show 0 < (terminated buffer).length by rw [terminated_length]; exact positive) bound'
    rw [← place] at write
    dsimp only
    rw [fileWrite, wp_bind, wp_bind, pos]
    refine write.mono fun written fs₂ ⟨ok, fits, all, wrote⟩ => (wp_pure _).mpr ?_
    rw [terminated_length] at fits all
    have range := offsetT_range (posOf fs name + (written - 2))
    dsimp only
    rw [wp_bind]
    refine (stored_wp looked found named wrote range.1 range.2).mono fun _ fs₃ ⟨done, pos'⟩ =>
      (wp_pure _).mpr (.inr ⟨sector, ok, ?_, all, done, pos'⟩)
    rw [fits, total, Fits, Fits, looked.store.shortOf, looked.store.freeCount, looked.data sector notRoot]

theorem fsutilWrite_nothing (running : Running fs state) (plain : PlainName name) (named : Named fs name sector)
    (empty : (curData fs sector).length = 0) (start : posOf fs name = 0) :
    Wp (fsutilWrite name []) (fun written fs' => written = 0 ∧ Written fs fs' state name sector 0 [] true) fs := by
  rw [fsutilWrite, wp_bind]
  refine (openByFname_wp running plain).mono fun found fs₁ ⟨looked, absent, present⟩ => ?_
  cases found with
  | none => exact absurd named ((absent rfl).1 sector)
  | some file =>
    obtain ⟨found, pos⟩ := present file rfl
    obtain ⟨there, named', opened, _, notRoot⟩ := looked.home found
    obtain rfl := running.volume.root.functional named named'
    have write := writeFile_nothing looked.running.volume (looked.named ▸ named) opened (by rw [looked.data _ notRoot]; exact empty)
    dsimp only
    rw [fileWrite, wp_bind, wp_bind, pos, start]
    refine write.mono fun written fs₂ ⟨nothing, wrote⟩ => (wp_pure _).mpr ?_
    have range := offsetT_range (0 + (written - 2))
    dsimp only
    rw [wp_bind]
    exact (stored_wp looked found named wrote range.1 range.2).mono fun _ fs₃ ⟨done, _⟩ => (wp_pure _).mpr ⟨nothing, done⟩

/-- A write that returns, wherever the position is: in full, or not at all. -/
theorem fsutilWrite_result (running : Running fs state) (plain : PlainName name) (positive : 0 < buffer.length)
    (short : buffer.length < 2147483648) (ran : fsutilWrite name buffer fs = some (written, fs')) :
    (written = -1 ∧ (∀ sector, ¬ Named fs name sector) ∧ fs'.fileTable = fs.fileTable ∧ Looked fs fs' state name) ∨
    (written = buffer.length ∧ 0 ≤ posOf fs name ∧ ∃ sector, Fits fs (curData fs sector) (posOf fs name + buffer.length) ∧
      Written fs fs' state name sector (posOf fs name).toNat (terminated buffer) true) ∨
    (written = 0 ∧ ∃ sector, Named fs name sector ∧
      (0 < posOf fs name + buffer.length ∧ posOf fs name + buffer.length < 2147483648 ∧
        ¬ Fits fs (curData fs sector) (posOf fs name + buffer.length) ∧
        (∃ start buffer', (start + buffer'.length : Nat) = posOf fs name + buffer.length ∧
          Written fs fs' state name sector start buffer' false) ∨
      (posOf fs name + buffer.length < 0 ∨ 2147483648 ≤ posOf fs name + buffer.length) ∧ Looked fs fs' state name)) := by
  obtain ⟨result, fs₁, ran₁, looked, absent, present⟩ := openByFname_wp running plain
  rw [fsutilWrite, run_bind ran₁] at ran
  cases result with
  | none =>
    cases ran
    exact .inl ⟨rfl, (absent rfl).1, (absent rfl).2, looked⟩
  | some file =>
    obtain ⟨found, pos⟩ := present file rfl
    obtain ⟨sector, named, opened, _, notRoot⟩ := looked.home found
    have range := running.pos_range name
    dsimp only at ran
    cases write : inodeWriteAt file.inode (terminated buffer) file.pos fs₁ with
    | none =>
      have stuck : fileWrite file buffer fs₁ = none := run_bind_fault write _
      rw [run_bind_fault stuck] at ran
      cases ran
    | some result =>
      obtain ⟨count, fs₂⟩ := result
      have through : fileWrite file buffer fs₁ = some ((count, { file with pos := offsetT (file.pos + (count - 2)) }), fs₂) :=
        run_bind write _
      rw [run_bind through] at ran
      have later := offsetT_range (file.pos + (count - 2))
      have outcome := writeFile_result looked.running.volume (looked.named ▸ named) opened (by rw [terminated_length]; exact positive)
        (by rw [terminated_length]; exact short) (by rw [pos]; exact range.1) (by rw [pos]; exact range.2) write
      rw [terminated_length, pos] at outcome
      rw [Fits, looked.store.shortOf, looked.store.freeCount, looked.data sector notRoot] at outcome
      rcases outcome with ⟨all, nonneg, fits, wrote⟩ | ⟨none_written, ⟨low, high, short, start, buffer', total, wrote⟩ | ⟨outside, same⟩⟩
      · obtain ⟨_, fs₃, ran₃, done, _⟩ := stored_wp looked found named wrote later.1 later.2
        rw [run_bind ran₃] at ran
        cases ran
        exact .inr (.inl ⟨all, nonneg, sector, fits, done⟩)
      · obtain ⟨_, fs₃, ran₃, done, _⟩ := stored_wp looked found named wrote later.1 later.2
        rw [run_bind ran₃] at ran
        cases ran
        exact .inr (.inr ⟨none_written, sector, named, .inl ⟨low, high, short, start, buffer', total, done⟩⟩)
      · subst same
        obtain ⟨_, fs₃, ran₃, moved, _⟩ := storeFile_wp looked.running found later.1 later.2
        rw [run_bind ran₃] at ran
        cases ran
        exact .inr (.inr ⟨none_written, sector, named, .inr ⟨outside, looked.trans moved⟩⟩)

end Write

section Create

theorem CreateRan.running {size : Int} (ran : CreateRan fs fs' state name size ok) (running : Running fs state) : Running fs' state := by
  refine ⟨ran.volume, ran.session, running.table.congr ran.keeps.fileTable fun other there addr _ named opened => ⟨?_, ?_⟩⟩
  · cases ok with
    | false => rwa [named_congr (ran.failed rfl).slots]
    | true =>
      obtain ⟨sector, done⟩ := ran.done rfl
      exact (done.named other there).mpr (.inl named)
  · exact ran.keeps.opens addr there (running.volume.root.plain other there named).2.2.2 id opened

theorem Fresh.contentOf {size : Nat} {isDir : Bool} (fresh : Fresh fs sector size isDir) :
    contentOf fs sector = List.replicate size 0 := by
  rw [Fs.contentOf, fresh.length]
  apply List.ext_getElem
  · simp
  · intro i inside inside'
    simp [fileRange, fresh.bytes]

/-- A name that is too long for the check is refused before anything happens. -/
theorem fsutilCreate_refused {isize : Nat} (long : 255 ≤ name.length) : fsutilCreate name isize fs = some (0, fs) := by
  rw [fsutilCreate, if_pos (.inr long)]
  rfl

theorem fsutilCreate_wp (running : Running fs state) (plain : PlainName name) (isize : Nat) (short : name.length < 255) :
    Wp (fsutilCreate name isize) (fun result fs' => Running fs' state ∧ ∃ success : Bool, result = (if success then 1 else 0) ∧
      CreateRan fs fs' state name (offsetT isize) success) fs := by
  have nonempty : ¬ (name.length = 0 ∨ 255 ≤ name.length) := by
    rintro (empty | long)
    · exact plain.nonempty (List.eq_nil_of_length_eq_zero empty)
    · omega
  rw [fsutilCreate, if_neg nonempty, wp_bind]
  exact (filesysCreate_wp running.volume running.session plain (offsetT_range isize).2).mono fun success fs' ran =>
    (wp_pure _).mpr ⟨ran.running running, success, rfl, ran⟩

theorem fsutilCreate_steps {isize : Nat} (running : Running fs state) (plain : PlainName name)
    (ran : fsutilCreate name isize fs = some (1, fs')) : ∃ sector start allocated made,
      CreateDone fs fs' name (offsetT isize) sector ∧ CreateSteps fs start allocated made fs' (offsetT isize) sector := by
  rw [fsutilCreate] at ran
  split at ran
  next => cases ran
  next =>
    obtain ⟨success, fs₁, create, ran⟩ := bind_some ran
    cases success with
    | false => cases ran
    | true =>
      cases ran
      exact ((filesysCreate_steps running.volume running.session plain (offsetT_range isize).2).result create).2 rfl

end Create

section Remove

/-- The table gives up the name and closes its inode. -/
private structure Dropped (fs fs' : FileSystem) (name : CString) : Prop where
  running : Running fs' none
  store : SameStore fs fs'
  slots : slots fs' = slots fs
  root : curData fs' 1 = curData fs 1
  files : ∀ other, Live fs other → Alike fs fs' other
  others : ∀ other, other ≠ name → fs'.fileTable.lookup other = fs.fileTable.lookup other
  gone : fs'.fileTable.lookup name = none
  absent : (∀ sector, ¬ Named fs name sector) → fs' = fs
  map : curData fs' 0 = curData fs 0
  upToDate : ∀ other, Live fs other → other ≠ 0 → UpToDate fs other → UpToDate fs' other
  claims : ∀ other place, Filled fs' (other, place) → Filled fs (other, place) ∧ claim fs' (other, place) = claim fs (other, place)

private theorem removeFromFileTable_wp (running : Running fs none) :
    Wp (removeFromFileTable name) (fun _ fs' => Dropped fs fs' name) fs := by
  rw [removeFromFileTable, getFileByFname]
  simp only [wp_bind, wp_get, wp_pure]
  cases found : fs.fileTable.lookup name with
  | none => exact (wp_pure _).mpr ⟨running, .refl, rfl, rfl, fun _ _ => .refl, fun _ _ => rfl, found, fun _ => rfl, rfl,
      fun _ _ _ => id, fun _ _ filled => ⟨filled, rfl⟩⟩
  | some file =>
    obtain ⟨writable, _, _, sector, named, opened⟩ := running.table.entry name file found
    obtain ⟨_, _, nonzero, notRoot⟩ := running.volume.root.plain name sector named
    simp only [wp_bind, fileClose, fileAllowWrite, writable, Bool.false_eq_true, if_false, wp_pure]
    refine (closeFile_wp running.volume named opened).mono fun _ fs₁ closed => ?_
    rw [wp_modify]
    have names := named_congr closed.slots
    have lookups (other : CString) : (fs₁.fileTable.eraseP fun entry => entry.1 == name).lookup other =
        if other = name then none else fs.fileTable.lookup other := by
      rw [closed.fileTable]
      exact lookup_erase running.table.keys
    have keys : ((fs₁.fileTable.eraseP fun entry => entry.1 == name).map (·.1)).Nodup := by
      rw [closed.fileTable]
      exact keys_erase running.table.keys
    refine ⟨⟨closed.volume.withTable _, (closed.session notRoot running.session).withTable _, keys, fun other file' found' => ?_⟩,
      ⟨closed.store.disk, closed.store.freeMap, closed.store.freeMapFile, closed.store.panics⟩, closed.slots, closed.root,
      fun other there => ⟨(closed.files other there).length, (closed.files other there).isDir, (closed.files other there).bytes⟩,
      fun other differs => ?_, ?_, fun absent => absurd named (absent sector), closed.data 0 (Ne.symm nonzero),
      fun other there zero current => ?_, closed.claims⟩
    · dsimp only at found'
      rw [lookups] at found'
      split at found'
      next => cases found'
      next differs =>
        obtain ⟨writable', low, high, there, named', opened'⟩ := running.table.entry other file' found'
        refine ⟨writable', low, high, there, names ▸ named', (closed.opens _ there).mpr ⟨opened', fun same => differs ?_⟩⟩
        exact running.volume.root.injective (same ▸ named') named
    · dsimp only
      rw [lookups, if_neg differs]
    · dsimp only
      rw [lookups, if_pos rfl]
    · by_cases same : other = sector
      · rw [same]
        exact closed.upToDate
      · exact (closed.store.same (closed.data other same)).upToDate zero current

theorem fsutilRm_wp (running : Running fs none) (plain : PlainName name) :
    Wp (fsutilRm name) (fun result fs' =>
      (result = 0 ∧ (∀ sector, ¬ Named fs name sector) ∧ Looked fs fs' none name) ∨
      (result = 1 ∧ ∃ sector, Unlinked fs fs' name sector)) fs := by
  rw [fsutilRm, wp_bind]
  refine (removeFromFileTable_wp running).mono fun _ fs₁ dropped => ?_
  have names := named_congr dropped.slots
  have live := live_congr dropped.slots
  have running₁ := dropped.running
  rw [wp_bind]
  refine (filesysRemove_wp running₁.volume running₁.session plain).mono fun removed fs₂ ⟨volume, session, failed, done⟩ =>
    (wp_pure _).mpr ?_
  cases removed with
  | false =>
    obtain ⟨calm, missing⟩ := failed rfl
    obtain rfl := dropped.absent (names ▸ missing)
    exact .inl ⟨rfl, missing, calm.looked running session⟩
  | true =>
    obtain ⟨sector, done⟩ := done rfl
    have named : Named fs name sector := names ▸ done.named
    have table := done.keeps.fileTable
    have absent : fs₂.fileTable.lookup name = none := by rw [table, dropped.gone]
    refine .inr ⟨rfl, sector, ⟨volume, session, ?_⟩, named, ?_, fun other there => ?_, fun other there nonzero notRoot differs => ?_,
      fun other differs => ?_, absent, ?_, ?_, ?_, fun other used foreign => ?_, ?_, ?_, fun other there nonzero notRoot differs current => ?_⟩
    · refine running₁.table.congr table fun other there addr ⟨file, found⟩ named' opened => ?_
      have differs : other ≠ name := by
        rintro rfl
        rw [dropped.gone] at found
        cases found
      refine ⟨(done.names other there).mpr ⟨named', differs⟩, done.keeps.opens addr there
        (running₁.volume.root.plain other there named').2.2.2 (fun same => differs ?_) opened⟩
      exact running₁.volume.root.injective (same ▸ named') done.named
    · rw [done.keeps.freeMapFile, dropped.store.freeMapFile]
    · rw [done.names, names]
    · exact (dropped.files other there).trans (done.keeps.files other (live ▸ there) nonzero notRoot differs)
    · rw [table, dropped.others other differs]
    · rw [done.mapInode, dropped.store.disk]
    · rw [done.length, dropped.root]
    · rw [done.count, dropped.store.freeCount, (dropped.files sector named.live).length]
    · refine done.mono other (dropped.store.used ▸ used) fun place filled => ?_
      obtain ⟨before, same⟩ := dropped.claims sector place filled
      rw [same]
      exact foreign place before
    · rw [done.size, dropped.store.freeMap]
    · rw [done.keeps.map, dropped.map]
    · exact done.keeps.upToDate other (live ▸ there) nonzero notRoot differs (dropped.upToDate other there nonzero current)

end Remove

end Comp310.Fs
