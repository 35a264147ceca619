import Comp310.Fs.Mount
import Comp310.Fs.Layout

/-! Formatting a device: the free map describes the sectors of its own file
before that file exists, and the root directory starts with one entry. -/

namespace Comp310.Fs
open Comp310.Lib

/-- The blocks of the free map file and those of the root directory. -/
def mapBlocks (size : Nat) : Nat := sectorsNeeded (bytesToSectors (byteCnt (size - 1)))
def rootBlocks : Nat := sectorsNeeded (bytesToSectors 36000)

/-- The sizes of the devices that can be formatted. -/
def Formattable (size : Nat) : Prop := byteCnt (size - 1) ≤ 8517120 ∧ 3 + mapBlocks size + rootBlocks ≤ size

theorem rootBlocks_eq : rootBlocks = 71 := by
  rw [rootBlocks, show bytesToSectors 36000 = 71 by decide, sectorsNeeded_eq (by decide)]
  rfl

theorem mapBlocks_one {size : Nat} (low : 2 ≤ size) (high : size ≤ 4097) : byteCnt (size - 1) ≤ 512 ∧ mapBlocks size = 1 := by
  have bytes : 8 ≤ byteCnt (size - 1) ∧ byteCnt (size - 1) ≤ 512 := by
    unfold byteCnt divRoundUp
    omega
  have one : bytesToSectors (byteCnt (size - 1)) = 1 := by
    rw [bytesToSectors_eq (by omega) (by omega)]
    omega
  rw [mapBlocks, one, sectorsNeeded_eq (by decide)]
  exact ⟨bytes.2, rfl⟩

theorem formattable_small {size : Nat} (low : 75 ≤ size) (high : size ≤ 4097) : Formattable size := by
  obtain ⟨bytes, one⟩ := mapBlocks_one (by omega) high
  rw [Formattable, one, rootBlocks_eq]
  omega

/-- A file system without files, as it is right after formatting. -/
structure Formatted (fs : FileSystem) (size : Nat) : Prop where
  volume : Volume fs
  session : Session fs none
  fileTable : fs.fileTable = []
  unnamed : ∀ name sector, ¬ Named fs name sector
  entries : freeFrom 0 (slots fs) = 1
  length : (curData fs 1).length = 36000
  stored : InodeDisk.ofBlock (fs.disk.view 0) = curData fs 0
  mapFile : ∃ addr, fs.freeMapFile = some (fileOpen addr)
  whole : fs.freeMap.length = size - 1
  count : freeCount fs + 3 + mapBlocks size + rootBlocks = size

theorem Formatted.slots_length {fs : FileSystem} {size : Nat} (formatted : Formatted fs size) : (slots fs).length = 1000 := by
  rw [slots, slotsOf_length, formatted.length]
  rfl

variable {device : Array Block} (bounded : device.size < 2 ^ 32) {fs fs' : FileSystem} {size : Nat}

section FreeMap

theorem freeMapInit_length : (freeMapInit size).length = size - 1 := by
  simp [freeMapInit, bitmapMark, bitmapCreate]

theorem freeMapInit_count : (freeMapInit size).count false = size - 3 := by
  match size with
  | 0 | 1 | 2 => rfl
  | size + 3 =>
    simp only [freeMapInit, bitmapCreate, bitmapMark, Nat.add_succ_sub_one, Nat.add_sub_cancel, List.replicate_succ]
    simp [freeMapSector, rootDirSector]

theorem freeMapInit_packed (size : Nat) : Packed (freeMapInit size) := by
  intro i j before set
  rw [show freeMapInit size = ((List.replicate (size - 1) false).set 0 true).set 1 true from rfl] at set ⊢
  have inside := (List.getElem?_eq_some_iff.mp set).1
  simp only [List.length_set, List.length_replicate] at inside
  have last : j = 1 := by
    by_contra other
    rw [List.getElem?_set_ne (fun same => other same.symm), List.getElem?_set_ne (by omega), List.getElem?_replicate_of_lt inside] at set
    cases set
  obtain rfl : i = 0 := by omega
  rw [List.getElem?_set_ne (by decide), List.getElem?_set_self (by rw [List.length_replicate]; omega)]

private theorem blank_used (low : 3 ≤ device.size) :
    Used (blankFileSystem device bounded) 0 ∧ Used (blankFileSystem device bounded) 1 := by
  unfold Used blankFileSystem
  dsimp only
  simp only [freeMapInit, bitmapMark, bitmapCreate, freeMapSector, rootDirSector]
  constructor
  · rw [List.getElem?_set_ne (by decide), List.getElem?_set_self (by simp; omega)]
  · rw [List.getElem?_set_self (by simp; omega)]

private theorem blank_service (low : 2 ≤ device.size) :
    Service (fun _ => False) (fun _ => False) (blankFileSystem device bounded) := by
  refine ⟨?_, ?_, fun _ absent => absurd absent (by simp), fun _ => False.elim, nofun⟩
  · change (freeMapInit device.size).length < device.size
    rw [freeMapInit_length]
    omega
  · unfold Used blankFileSystem
    dsimp only
    simp only [freeMapInit, bitmapMark, bitmapCreate, freeMapSector, rootDirSector]
    rw [List.getElem?_set_ne (by decide), List.getElem?_set_self (by simp; omega)]

private theorem blank_count : freeCount (blankFileSystem device bounded) = device.size - 3 := freeMapInit_count

/-- What `free_map_create` leaves. -/
private structure MapMade (fs : FileSystem) (size : Nat) : Prop where
  objects : Objects (· = 0) fs
  stored : InodeDisk.ofBlock (fs.disk.view 0) = curData fs 0
  mapFile : ∃ addr, fs.freeMapFile = some (fileOpen addr)
  used : Used fs 1
  unclaimed : Unclaimed (· = 0) fs 1
  dirs : fs.dirs = []
  whole : fs.freeMap.length = size - 1
  count : freeCount fs + mapBlocks size = size - 3
  packed : Packed fs.freeMap

private theorem mapFile_blocks {middle : FileSystem} {data : InodeDisk} (low : 3 ≤ device.size)
    (run : CreateRun (fun _ => False) (fun _ => False) (blankFileSystem device bounded) fs 0 (byteCnt (device.size - 1)))
    (created : Created (blankFileSystem device bounded) fs 0 (byteCnt (device.size - 1)) false data)
    (limit : byteCnt (device.size - 1) ≤ 8517120) (disk : middle.disk = fs.disk) (freeMap : middle.freeMap = fs.freeMap)
    (entries : middle.openInodes = [(fs.nextAddr, ⟨0, 1, false, 0, data⟩)]) (next : middle.nextAddr = fs.nextAddr + 1)
    (file : middle.freeMapFile = some ⟨fs.nextAddr, 0, false⟩) (panics : middle.panics = 0) :
    Blocks (· = 0) middle ∧ curData middle 0 = data ∧ Unclaimed (· = 0) middle 1 ∧ Used middle 1 := by
  obtain ⟨zero, one⟩ := blank_used bounded low
  have length : middle.freeMap.length = device.size - 1 := by rw [freeMap, run.freeMap]; exact freeMapInit_length
  have handles : Handles middle := by
    refine ⟨?_, ?_, ?_, ?_⟩ <;> rw [entries]
    · simp
    · simp
    · exact List.forall_mem_singleton.mpr (next ▸ Nat.lt_succ_self _)
    · exact List.forall_mem_singleton.mpr ⟨rfl, rfl, rfl⟩
  have mine : (fs.nextAddr, ⟨0, 1, false, 0, data⟩) ∈ middle.openInodes := entries ▸ List.mem_cons_self
  have current : curData middle 0 = data := handles.curData mine
  have place (p : InodePos) (filled : Filled middle (0, some p)) :
      ¬ Used (blankFileSystem device bounded) (claim middle (0, some p)) ∧ Used middle (claim middle (0, some p)) := by
    rw [filled_place, current, disk] at filled
    have fresh := created.grows.fresh p rfl filled
    simp only [claim, current, disk, Used, freeMap]
    exact fresh
  have used (sector : Sector) (before : Used (blankFileSystem device bounded) sector) : Used middle sector := by
    rw [Used, freeMap]
    exact run.mono sector before
  refine ⟨⟨?_, panics, handles, ?_, rfl, ⟨_, _, file, mine, rfl, ?_⟩, ?_, ?_, ?_, ?_⟩, current, ?_, used 1 one⟩
  · have same := run.touches.size
    rw [length, disk, same]
    change device.size - 1 + 1 = device.size
    omega
  · rw [entries]
    exact List.forall_mem_singleton.mpr rfl
  · rw [length]
    exact created.length
  · intro other inode home found i _ _
    cases file.symm.trans home
    cases (handles.inode? mine).symm.trans found
    rw [disk]
    exact created.bytes i
  · rintro _ rfl
    refine ⟨?_, ?_, ?_⟩ <;> rw [current, created.length]
    · omega
    · omega
    · rw [disk]
      exact created.mapped
  · rintro ⟨_, _ | p⟩ rfl filled
    · exact used 0 zero
    · exact (place p filled).2
  · rintro ⟨_, p⟩ ⟨_, q⟩ rfl rfl filled filled' equal
    have inodeFirst (p : InodePos) (filled : Filled middle (0, some p)) : claim middle (0, some p) ≠ 0 :=
      fun same => (place p filled).1 (same.symm ▸ zero)
    have distinct (p q : InodePos) (filled : Filled middle (0, some p)) (equal : claim middle (0, some p) = claim middle (0, some q)) : p = q := by
      rw [filled_place, current, disk] at filled
      simp only [claim, current, disk] at equal
      exact created.grows.apart p q rfl rfl filled equal
    exact congrArg (Prod.mk 0) (claim_injective inodeFirst distinct filled filled' equal)
  · rintro ⟨_, _ | p⟩ rfl filled
    · exact (by decide : (0 : Sector) ≠ 1)
    · exact fun same => (place p filled).1 (same ▸ one)

private theorem inodeCreate_blank (low : 2 ≤ device.size) :
    Wp (inodeCreate freeMapSector (bitmapFileSize (blankFileSystem device bounded).freeMap) false)
      (fun created fs => (created = true ↔ byteCnt (device.size - 1) ≤ 8517120 ∧ 3 + mapBlocks device.size ≤ device.size) ∧
        CreateRun (fun _ => False) (fun _ => False) (blankFileSystem device bounded) fs 0 (byteCnt (device.size - 1)) ∧
        (created = true → ∃ data, Created (blankFileSystem device bounded) fs 0 (byteCnt (device.size - 1)) false data))
      (blankFileSystem device bounded) := by
  have size : bitmapFileSize (blankFileSystem device bounded).freeMap = byteCnt (device.size - 1) := by
    rw [bitmapFileSize, show (blankFileSystem device bounded).freeMap = freeMapInit device.size from rfl, freeMapInit_length]
  have service := blank_service bounded low
  have bound := (byteCnt_bounds (device.size - 1)).2
  rw [size, show freeMapSector = 0 from rfl]
  refine (inodeCreate_service service service.zero id id (by omega)).mono fun created fs ended => ⟨?_, ended.2⟩
  have outcome := ended.1
  rw [outcome, Affordable, blank_count]
  have blocks : sectorsNeeded (bytesToSectors (byteCnt (device.size - 1))) = mapBlocks device.size := rfl
  have smallest : mapBlocks 2 = 1 := by decide
  rw [blocks]
  by_cases least : device.size = 2
  · rw [least, smallest]
    omega
  · omega

private theorem freeMapCreate_wp (low : 2 ≤ device.size)
    (fits : byteCnt (device.size - 1) ≤ 8517120 ∧ 3 + mapBlocks device.size ≤ device.size) :
    Wp freeMapCreate (fun _ fs => MapMade fs device.size) (blankFileSystem device bounded) := by
  rw [freeMapCreate, wp_bind, wp_get, wp_bind]
  refine (inodeCreate_blank bounded low).remember.mono fun created fs₁ ended => ?_
  obtain ⟨create, outcome, run, made⟩ := ended
  obtain rfl := outcome.mpr fits
  obtain ⟨data, created⟩ := made rfl
  have service := blank_service bounded low
  obtain ⟨packed, _⟩ := inodeCreate_stored service service.zero (freeMapInit_packed device.size) create
  have none : fs₁.openInodes = [] := run.heap.openInodes
  have range : freeMapSector.toNat < fs₁.disk.size := by
    rw [run.touches.size]
    exact Nat.lt_of_lt_of_le Nat.zero_lt_two low
  have stored : InodeDisk.ofBlock (fs₁.disk.view freeMapSector) = data := by
    rw [show freeMapSector = 0 from rfl, created.stored]
    exact InodeDisk.ofBlock_toBlock (by rw [created.length]; omega) (by rw [created.length]; omega)
  rw [if_pos rfl, wp_bind]
  refine Wp.of_eq (inodeOpen_closed (by simp [none]) range) ?_
  simp only [wp_bind, wp_modify, readIn, none, stored]
  generalize middle_eq : ({ fs₁ with
    openInodes := [(fs₁.nextAddr, ⟨freeMapSector, 1, false, 0, data⟩)],
    freeMapFile := some (fileOpen fs₁.nextAddr), nextAddr := fs₁.nextAddr + 1 } : FileSystem) = middle
  have freeMap : middle.freeMap = fs₁.freeMap := by rw [← middle_eq]
  have home : middle.freeMapFile = some ⟨fs₁.nextAddr, 0, false⟩ := by rw [← middle_eq]; rfl
  obtain ⟨blocks, current, unclaimed, used⟩ := mapFile_blocks bounded (by omega) run created fits.1 (by rw [← middle_eq])
    freeMap (by rw [← middle_eq]; rfl) (by rw [← middle_eq]) home (by rw [← middle_eq]; exact run.heap.panics)
  refine (bitmapWrite_wp blocks.service home).mono fun success fs₂ ended => ?_
  obtain ⟨done, only, touches, _, synced⟩ := ended
  subst done
  have heap : SameHeap middle fs₂ := by rw [only]; exact ⟨rfl, rfl, rfl, rfl, rfl, rfl, rfl⟩
  have same_map : fs₂.freeMap = middle.freeMap := by rw [only]
  have same_used : Used fs₂ = Used middle := by
    funext sector
    rw [Used, same_map, Used]
  obtain ⟨blocks', same⟩ := blocks.quiet (fun _ => False) heap (by rw [same_map]) (.of_written synced) touches (fun _ => .inl)
    (fun _ _ _ => id) fun role member filled => same_used ▸ blocks.used role member filled
  have absent {other : Sector} (zero : other = 0) (nonzero : other ≠ 0) : False := nonzero zero
  rw [if_pos rfl, wp_pure]
  refine ⟨⟨blocks', synced blocks.padded, fun _ zero nonzero => (absent zero nonzero).elim, fun _ _ zero nonzero => (absent zero nonzero).elim⟩,
    ?_, ⟨fs₁.nextAddr, heap.freeMapFile.trans home⟩, by rw [same_used]; exact used, unclaimed.congr same, ?_, ?_, ?_, ?_⟩
  · have kept : fs₂.disk.view 0 = middle.disk.view 0 :=
      touches.view (blocks.not_mapData (0, Option.none) rfl filled_inode (by simp))
    rw [kept, (same 0 rfl).data, current, ← middle_eq]
    exact stored
  · rw [heap.dirs, ← middle_eq]
    exact run.heap.dirs
  · rw [same_map, freeMap, run.freeMap]
    exact freeMapInit_length
  · have count := run.count
    rw [if_neg (by omega), blank_count] at count
    rw [freeCount, same_map, freeMap, ← freeCount, count]
    have blocks : sectorsNeeded (bytesToSectors (byteCnt (device.size - 1))) = mapBlocks device.size := rfl
    omega
  · rw [same_map, freeMap]
    exact packed

private theorem freeMapCreate_none (low : 2 ≤ device.size)
    (unfit : ¬ (byteCnt (device.size - 1) ≤ 8517120 ∧ 3 + mapBlocks device.size ≤ device.size)) :
    freeMapCreate (blankFileSystem device bounded) = none := by
  obtain ⟨created, after, ran, outcome, _⟩ := inodeCreate_blank bounded low
  have start : (get : M FileSystem) (blankFileSystem device bounded) = some (blankFileSystem device bounded, blankFileSystem device bounded) := rfl
  rw [freeMapCreate, run_bind start, run_bind ran]
  cases created with
  | false => rfl
  | true => exact absurd (outcome.mp rfl) unfit

end FreeMap

section RootDirectory

/-- What `dir_create` leaves of the root directory. -/
private structure RootMade (fs : FileSystem) (size : Nat) : Prop where
  objects : Objects (fun other => other = 0 ∨ other = 1) fs
  stored : InodeDisk.ofBlock (fs.disk.view 0) = curData fs 0
  mapFile : ∃ addr, fs.freeMapFile = some (fileOpen addr)
  session : Session fs none
  closed : ∀ entry ∈ fs.openInodes, entry.2.sector ≠ 1
  length : (curData fs 1).length = 36000
  parent : ∃ e, (slots fs)[0]? = some e ∧ e.inUse = true ∧ e.inodeSector = 1
  free : ∀ i e, 1 ≤ i → (slots fs)[i]? = some e → e.inUse = false
  whole : fs.freeMap.length = size - 1
  count : freeCount fs + 3 + mapBlocks size + rootBlocks = size
  packed : Packed fs.freeMap

private theorem rootCreate_wp (made : MapMade fs size) :
    Wp (dirCreate rootDirSector maxFilesInDirectory) (fun created fs' => (created = true ↔ rootBlocks ≤ freeCount fs) ∧
      (created = true → 3 + mapBlocks size ≤ size → RootMade fs' size)) fs := by
  refine (dirCreate_steps made.objects made.used made.unclaimed _).mono fun created fs' ⟨outcome, success⟩ => ?_
  rw [show offsetT ((maxFilesInDirectory : Nat) * 36) = 36000 from rfl] at outcome success
  have afford : created = true ↔ rootBlocks ≤ freeCount fs := (outcome (by decide)).trans
    ⟨fun ⟨_, _, enough⟩ => enough, fun enough => ⟨by decide, by decide, enough⟩⟩
  refine ⟨afford, fun done _ => ?_⟩
  obtain ⟨root, kept⟩ := success done
  obtain ⟨_, create, freeMap⟩ := kept (by decide)
  have enough := afford.mp done
  obtain ⟨key, dirs⟩ := root.dirs
  refine ⟨root.objects, ?_, ?_, ⟨root.cwd, ?_, fun key ⟨_, there, equal⟩ => root.closed _ there equal⟩, root.closed, root.length,
    ⟨_, root.parent, rfl, rfl⟩, root.free, root.mapSize.trans made.whole, ?_, ?_⟩
  · rw [root.mapInode, made.stored, (root.same 0 rfl).data]
  · obtain ⟨file, home⟩ := made.mapFile
    exact ⟨file, root.freeMapFile.trans home⟩
  · rw [dirs, made.dirs]
    rfl
  · have count : freeCount fs' = freeCount fs - rootBlocks := root.count (by decide)
    have before := made.count
    omega
  · rw [freeMap]
    exact (inodeCreate_stored made.objects.blocks.service made.used made.packed create).1

private theorem RootMade.formatted (made : RootMade fs size) (remounted : Remounted (fun other => other = 0 ∨ other = 1) fs middle fs')
    (session : Session fs' none) (fileTable : fs'.fileTable = []) : Formatted fs' size := by
  have root := remounted.alike 1 (.inr rfl)
  have same : slots fs' = slots fs := root.slots
  have unnamed (name : CString) (sector : Sector) : ¬ Named fs' name sector := by
    rintro ⟨i, e, low, there, used, _⟩
    rw [same] at there
    rw [made.free i e low there] at used
    cases used
  have live : Live fs' = fun other => other = 0 ∨ other = 1 := by
    funext other
    simp only [Live, unnamed, exists_const, or_false]
  have entries : freeFrom 0 (slots fs') = 1 := by
    obtain ⟨e, there, used, _⟩ := made.parent
    have free := made.free
    rw [same]
    cases all : slots fs with
    | nil =>
      rw [all] at there
      cases there
    | cons first rest =>
      rw [all] at there free
      cases there
      rw [freeFrom, if_pos used]
      cases rest with
      | nil => rfl
      | cons second _ =>
        rw [freeFrom, free 1 second (Nat.le_refl 1) rfl]
        rfl
  refine ⟨⟨by rw [live]; exact remounted.objects, ?_⟩, session, fileTable, unnamed, entries, root.length.trans made.length,
    remounted.stored, remounted.mapFile, by rw [remounted.freeMap, made.whole], by rw [freeCount, remounted.freeMap]; exact made.count⟩
  refine ⟨by rw [root.length, made.length]; rfl, by rw [same]; exact made.parent, ?_, fun name sector there => absurd there (unnamed name sector),
    fun name sector there => absurd there (unnamed name sector)⟩
  rw [same]
  intro i j e f low _ there _ used
  rw [made.free i e low there] at used
  cases used

theorem Remounted.congr {closed : FileSystem} {live : Sector → Prop} (remounted : Remounted live fs closed middle)
    (store : SameStore middle fs') (openInodes : fs'.openInodes = middle.openInodes) (next : fs'.nextAddr = middle.nextAddr)
    (dirs : fs'.dirs = middle.dirs) (cwd : fs'.cwd = middle.cwd) : Remounted live fs { closed with fileTable := fs'.fileTable } fs' := by
  have data := store.curData openInodes
  obtain ⟨addr, home⟩ := remounted.mapFile
  refine ⟨remounted.objects.congr store openInodes (Nat.le_of_eq next.symm), fun other there => (remounted.alike other there).trans (store.alike (data other)),
    store.freeMap.trans remounted.freeMap, store.disk.trans remounted.disk, ?_, ⟨addr, store.freeMapFile.trans home⟩,
    dirs.trans remounted.dirs, cwd.trans remounted.cwd, rfl, by rw [openInodes]; exact remounted.only⟩
  rw [store.disk, data]
  exact remounted.stored

private theorem filesysInit_made (fits : Formattable device.size) :
    ∃ fs, filesysInit device bounded true = some fs ∧ Formatted fs device.size ∧ Packed fs.freeMap := by
  have low : ¬ device.size < 2 := by
    have least := fits.2
    omega
  have runs : Wp (do
      doFormat
      freeMapOpen
      modify fun fs => { fs with fileTable := [] } : M PUnit) (fun _ fs => Formatted fs device.size ∧ Packed fs.freeMap)
      (blankFileSystem device bounded) := by
    have enough := fits.2
    rw [wp_bind, doFormat, wp_bind]
    refine (freeMapCreate_wp bounded (by omega) ⟨fits.1, by omega⟩).mono fun _ fs₁ made => ?_
    rw [wp_bind]
    refine (rootCreate_wp made).mono fun created fs₂ ⟨outcome, success⟩ => ?_
    obtain rfl : created = true := outcome.mpr (by have count := made.count; omega)
    have made₂ := success rfl (by omega)
    have blocks := made₂.objects.blocks
    obtain ⟨addr, home⟩ := made₂.mapFile
    obtain ⟨file, inode, home', member, zero, _⟩ := blocks.mapOpen
    cases home.symm.trans home'
    rw [if_pos rfl]
    refine Wp.of_eq (freeMapClose_eq blocks.handles home member) ?_
    have closed : (dropInode fs₂ addr).openInodes = [] := by
      rw [List.eq_nil_iff_forall_not_mem]
      intro entry there
      obtain ⟨there, differs⟩ := mem_dropInode.mp there
      have mapFile := (blocks.opens entry there).resolve_right (made₂.closed entry there)
      have equal : entry = (addr, inode) := blocks.handles.same_sector there member (mapFile.trans zero.symm)
      exact differs (by rw [equal])
    rw [wp_bind]
    refine (made₂.objects.freeMapOpen_wp closed rfl (fun _ _ => rfl) rfl blocks.panics made₂.stored).mono fun _ fs₃ remounted => ?_
    rw [wp_modify]
    refine ⟨made₂.formatted (remounted.congr ⟨rfl, rfl, rfl, rfl⟩ rfl rfl rfl rfl) ⟨remounted.cwd.trans made₂.session.1,
      remounted.dirs.trans made₂.session.2.1, fun key ⟨_, there, home⟩ => by cases (remounted.only _ there).symm.trans home⟩ rfl, ?_⟩
    dsimp only
    rw [remounted.freeMap]
    exact made₂.packed
  obtain ⟨_, fs, ran, formatted⟩ := runs
  refine ⟨fs, ?_, formatted⟩
  rw [filesysInit, if_neg low]
  simp only [if_true]
  rw [ran]
  rfl

theorem filesysInit_format (fits : Formattable device.size) : ∃ fs, filesysInit device bounded true = some fs ∧ Formatted fs device.size := by
  obtain ⟨fs, ran, formatted, _⟩ := filesysInit_made bounded fits
  exact ⟨fs, ran, formatted⟩

theorem filesysInit_refused (unfit : ¬ Formattable device.size) : filesysInit device bounded true = none := by
  rw [filesysInit]
  by_cases low : device.size < 2
  · rw [if_pos low]
    rfl
  have refused : doFormat (blankFileSystem device bounded) = none := by
    by_cases map : byteCnt (device.size - 1) ≤ 8517120 ∧ 3 + mapBlocks device.size ≤ device.size
    · obtain ⟨_, fs₁, ran, made⟩ := freeMapCreate_wp bounded (by omega) map
      obtain ⟨created, fs₂, ran', outcome, _⟩ := rootCreate_wp made
      rw [doFormat, run_bind ran, run_bind ran']
      cases created with
      | false => rfl
      | true =>
        have enough := outcome.mp rfl
        have count := made.count
        exact absurd ⟨map.1, by omega⟩ unfit
    · rw [doFormat]
      exact run_bind_fault (freeMapCreate_none bounded (by omega) map) _
  rw [if_neg low]
  simp only [if_true]
  have stopped : (do
      doFormat
      freeMapOpen
      modify fun fs => { fs with fileTable := [] } : M PUnit) (blankFileSystem device bounded) = none :=
    run_bind_fault refused _
  rw [stopped]
  rfl

theorem filesysInit_packed (ran : filesysInit device bounded true = some fs) : Formatted fs device.size ∧ Packed fs.freeMap := by
  by_cases fits : Formattable device.size
  · obtain ⟨fs', ran', made⟩ := filesysInit_made bounded fits
    cases ran.symm.trans ran'
    exact made
  · cases ran.symm.trans (filesysInit_refused bounded fits)

theorem filesysInit_formatted (ran : filesysInit device bounded true = some fs) : Formatted fs device.size :=
  (filesysInit_packed bounded ran).1

end RootDirectory

/-- The first file of a file system needs no space in the root directory. -/
theorem Formatted.rootShort (formatted : Formatted fs size) : rootShort fs = [] ∧ (36 * slotFor fs + 36 : Nat) ≤ 8517120 := by
  have slot : slotFor fs = 1 := formatted.entries
  have readable := formatted.volume.objects.blocks.readable Volume.root_live
  rw [Fs.rootShort, slot]
  exact ⟨shortOf_inside readable (by rw [formatted.length]; decide), by decide⟩

theorem Formatted.filesysCreate_wp {name : CString} {bytes : Int} (formatted : Formatted fs size) (plain : PlainName name)
    (short : name.length ≤ 30) (fits : FileFits fs bytes) :
    Wp (filesysCreate name bytes) (fun success fs' => success = true ∧ CreateRan fs fs' none name bytes success) fs := by
  have small := fits.2.1
  refine (Fs.filesysCreate_wp formatted.volume formatted.session plain (by omega)).mono fun success fs' ran => ⟨?_, ran⟩
  obtain ⟨nothing, inside⟩ := formatted.rootShort
  refine ran.outcome.mpr ⟨fits, ?_, inside, by rw [nothing]; exact fits.2.2⟩
  rintro (empty | long | ⟨other, named⟩)
  · exact plain.nonempty empty
  · omega
  · exact formatted.unnamed name other named

end Comp310.Fs
